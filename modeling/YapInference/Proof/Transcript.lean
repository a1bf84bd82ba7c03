import YapInference.Lib.Runs
import YapInference.Proof.ChatStore

/-!
# The store and the transcript

Messages are merged twice: the store merges a user message into a user message before it, and the
template builder merges whatever has the role of the message before it. The model sees the second
list, built anew from the store for every turn, so the store has to lead back to what the model
was sent.

The builder is first shown to compute the runs of equal roles of the texts that are not blank. That
the store agrees with it needs one more fact, that a text merged by the store is merged into the
same place as its two halves would be.
-/

namespace YapInference

open Py Runs

/-! ## What the builder computes -/

/-- Merge a template message into the one before it. -/
def mergeTemplateMessage (last message : TemplateMessage) : TemplateMessage :=
  { last with content := last.content ++ "\n\n".toList ++ message.content }

theorem role_mergeTemplateMessage (a b : TemplateMessage) (_ : a.role = b.role) :
    (mergeTemplateMessage a b).role = a.role := rfl

/-- A stripped copy, unless blank. -/
def spokenMessage (message : TemplateMessage) : Option TemplateMessage :=
  if (strip message.content).isEmpty then none
  else some { message with content := strip message.content }

/-- A stored message under the name its role has in a template. -/
def ChatMessage.templated (message : ChatMessage) : TemplateMessage where
  role := message.role.name
  content := message.content

/-- The texts of a prompt, under their roles. -/
def promptMessages (systemPrompt : Text) (historyMessages : List ChatMessage)
    (chatUserUtt : Option Text) : List TemplateMessage :=
  { role := "system".toList, content := systemPrompt }
    :: historyMessages.map ChatMessage.templated
    ++ chatUserUtt.toList.map fun utt => { role := Role.user.name, content := utt }

/-- One message of a run: its role, and its texts with a blank line between them. -/
def joinRun : List TemplateMessage → Option TemplateMessage
  | [] => none
  | message :: rest =>
      some {
        role := message.role
        content := join "\n\n".toList ((message :: rest).map (·.content)) }

theorem collapse_eq_joinRun (run : List TemplateMessage) :
    collapse mergeTemplateMessage run = joinRun run := by
  cases run with
  | nil => rfl
  | cons message rest =>
      rw [collapse, joinRun]
      induction rest generalizing message with
      | nil => simp [join]
      | cons next rest ih =>
          rw [List.foldl_cons, ih]
          simp only [join, mergeTemplateMessage, List.map_cons, List.intercalate_cons_cons]
          cases rest <;> simp

/-- Appending a text is pushing it, if there is one. -/
theorem appendTemplateMessage_eq (messages : List TemplateMessage) (role content : Text) :
    appendTemplateMessage messages role content
      = (spokenMessage ⟨role, content⟩).elim messages
          (push (·.role) mergeTemplateMessage messages) := by
  unfold appendTemplateMessage spokenMessage push
  dsimp only
  split
  · rfl
  · cases messages.getLast? with
    | none => rfl
    | some last => rfl

theorem foldl_appendTemplateMessage (messages given : List TemplateMessage) :
    given.foldl (fun acc message => appendTemplateMessage acc message.role message.content) messages
      = (given.filterMap spokenMessage).foldl (push (·.role) mergeTemplateMessage) messages := by
  induction given generalizing messages with
  | nil => rfl
  | cons message rest ih =>
      rw [List.foldl_cons, ih, appendTemplateMessage_eq]
      cases hspoken : spokenMessage message with
      | none => rw [List.filterMap_cons_none hspoken, Option.elim_none]
      | some spoken => rw [List.filterMap_cons_some hspoken, Option.elim_some, List.foldl_cons]

/-- The builder takes the texts one by one; the system prompt is no exception. -/
theorem buildMessages_eq (systemPrompt : Text) (historyMessages : List ChatMessage)
    (chatUserUtt : Option Text) :
    buildMessages systemPrompt historyMessages chatUserUtt
      = ((promptMessages systemPrompt historyMessages chatUserUtt).filterMap spokenMessage).foldl
          (push (·.role) mergeTemplateMessage) [] := by
  rw [← foldl_appendTemplateMessage]
  simp only [promptMessages, List.foldl_append, List.foldl_cons, List.foldl_map]
  cases chatUserUtt <;> rfl

theorem clean_pushed {messages : List TemplateMessage} (h : ∀ m ∈ messages, Clean m.content)
    {message : TemplateMessage} (hmessage : Clean message.content) :
    ∀ m ∈ push (·.role) mergeTemplateMessage messages message, Clean m.content := by
  rcases List.eq_nil_or_concat' messages with rfl | ⟨init, last, rfl⟩
  · simpa using hmessage
  · have hinit : ∀ m ∈ init, Clean m.content := fun m hm => h m (List.mem_append_left _ hm)
    have hlast := h last (by simp)
    rw [push_snoc]
    intro m hm
    split at hm
    · rcases List.mem_append.mp hm with hm | hm
      · exact hinit m hm
      · obtain rfl := List.mem_singleton.mp hm
        exact hlast.append hmessage _
    · simp only [List.mem_append, List.mem_cons, List.not_mem_nil, or_false] at hm
      rcases hm with hm | rfl | rfl
      · exact hinit m hm
      · exact hlast
      · exact hmessage

theorem clean_spokenMessage {given spoken : TemplateMessage} (h : spokenMessage given = some spoken) :
    Clean spoken.content := by
  unfold spokenMessage at h
  split at h
  · cases h
  · rename_i hne
    cases h
    exact clean_strip (by simpa using hne)

/-- **The transcript is the runs of equal roles**, of what is not blank. -/
theorem buildMessages_runs (systemPrompt : Text) (historyMessages : List ChatMessage)
    (chatUserUtt : Option Text) :
    let messages := buildMessages systemPrompt historyMessages chatUserUtt
    messages = (runs (·.role) ((promptMessages systemPrompt historyMessages chatUserUtt).filterMap
        spokenMessage)).filterMap joinRun
      ∧ messages.IsChain (fun a b => a.role ≠ b.role)
      ∧ ∀ message ∈ messages, Clean message.content := by
  have hkey := role_mergeTemplateMessage
  dsimp only
  rw [buildMessages_eq]
  refine ⟨?_, isChain_foldl_push hkey List.isChain_nil _, ?_⟩
  · rw [foldl_push hkey, funext collapse_eq_joinRun]
  · have hspoken : ∀ spoken ∈ (promptMessages systemPrompt historyMessages chatUserUtt).filterMap
        spokenMessage, Clean spoken.content := fun spoken h => by
      obtain ⟨given, -, hgiven⟩ := List.mem_filterMap.mp h
      exact clean_spokenMessage hgiven
    refine List.foldlRecOn (motive := fun ms : List TemplateMessage => ∀ m ∈ ms, Clean m.content)
      _ _ (by simp) ?_
    exact fun messages h spoken hmem => clean_pushed h (hspoken spoken hmem)

/-! ## The store leads back to what the model was sent -/

theorem appendTemplateMessage_of_clean (messages : List TemplateMessage) (role : Text)
    {content : Text} (h : Clean content) :
    appendTemplateMessage messages role content
      = push (·.role) mergeTemplateMessage messages { role := role, content := content } := by
  have hspoken : spokenMessage { role := role, content := content }
      = some { role := role, content := content } := by
    simp [spokenMessage, h.strip_eq, h.ne]
  rw [appendTemplateMessage_eq, hspoken]
  rfl

/-- A merged text goes where its two halves would have gone. -/
theorem appendTemplateMessage_merged (messages : List TemplateMessage) (role : Text) {a b : Text}
    (ha : Clean a) (hb : Clean b) :
    appendTemplateMessage messages role (a ++ "\n\n".toList ++ b)
      = appendTemplateMessage (appendTemplateMessage messages role a) role b := by
  rw [appendTemplateMessage_of_clean _ _ (ha.append hb _), appendTemplateMessage_of_clean _ _ ha,
    appendTemplateMessage_of_clean _ _ hb]
  rcases List.eq_nil_or_concat' messages with rfl | ⟨init, last, rfl⟩
  · exact (if_pos rfl).symm
  · rw [push_snoc, push_snoc]
    split
    · -- into the last message, at once or in two steps
      rename_i hrole
      have hmerged : (mergeTemplateMessage last ⟨role, a⟩).role = role := hrole
      rw [push_snoc, if_pos hmerged]
      simp [mergeTemplateMessage]
    · have hnew : push (·.role) mergeTemplateMessage (init ++ [last] ++ [⟨role, a⟩]) ⟨role, b⟩
          = init ++ [last] ++ [⟨role, a ++ "\n\n".toList ++ b⟩] :=
        (push_snoc _ _ _).trans (if_pos rfl)
      simpa using hnew.symm

theorem buildMessages_snoc (systemPrompt : Text) (historyMessages : List ChatMessage)
    (message : ChatMessage) :
    buildMessages systemPrompt (historyMessages ++ [message]) none
      = appendTemplateMessage (buildMessages systemPrompt historyMessages none) message.role.name
          message.content := by
  simp only [buildMessages, List.foldl_append, List.foldl_cons, List.foldl_nil]

/-- A user message that is stored leads to the text the model is sent for it. -/
theorem buildMessages_push (systemPrompt : Text) {historyMessages : List ChatMessage}
    (h : Canonical historyMessages) {user : Text} (huser : Clean user) :
    buildMessages systemPrompt (pushChatMessage historyMessages { role := .user, content := user })
        none
      = buildMessages systemPrompt historyMessages (some user) := by
  change _ = appendTemplateMessage (buildMessages systemPrompt historyMessages none) Role.user.name
    user
  rcases List.eq_nil_or_concat' historyMessages with rfl | ⟨init, last, rfl⟩
  · exact buildMessages_snoc systemPrompt [] _
  · have hlast : Clean last.content := h.clean last (by simp)
    cases hrole : last.role with
    | user =>
        -- merged in the store, or merged by the builder
        have hpush : pushChatMessage (init ++ [last]) { role := .user, content := user }
            = init ++ [{ last with content := last.content ++ "\n\n".toList ++ user }] := by
          simp [pushChatMessage, hrole]
        rw [hpush, buildMessages_snoc, buildMessages_snoc, hrole,
          appendTemplateMessage_merged _ _ hlast huser]
    | assistant =>
        have hpush : pushChatMessage (init ++ [last]) { role := .user, content := user }
            = init ++ [last] ++ [{ role := .user, content := user }] := by
          simp [pushChatMessage, hrole]
        rw [hpush, buildMessages_snoc]

/-- After a user text an assistant message is a message of its own. -/
theorem appendTemplateMessage_assistant (messages : List TemplateMessage) {user assistant : Text}
    (huser : Clean user) (hassistant : Clean assistant) :
    appendTemplateMessage (appendTemplateMessage messages Role.user.name user) Role.assistant.name
        assistant
      = appendTemplateMessage messages Role.user.name user
        ++ [{ role := Role.assistant.name, content := assistant }] := by
  rw [appendTemplateMessage_of_clean _ _ hassistant, appendTemplateMessage_of_clean _ _ huser]
  have hsnoc : ∃ init last, push (·.role) mergeTemplateMessage messages
        { role := Role.user.name, content := user } = init ++ [last]
      ∧ last.role = Role.user.name := push_eq_snoc role_mergeTemplateMessage messages _
  obtain ⟨init, last, hpush, hrole⟩ := hsnoc
  have hdiff : last.role ≠ Role.assistant.name := by
    rw [hrole]
    decide
  rw [hpush, push_snoc, if_neg hdiff]
  simp

/-- The messages `append_chat_response` has when it comes to trim. -/
def assembleResponse (history : HistoryController) (messages : List ChatMessage)
    (chatUserUtt assistantText : Text) : List ChatMessage :=
  history.appendChatMessageToList
    (history.appendChatMessageToList messages Role.user.name chatUserUtt)
    Role.assistant.name assistantText

theorem assembleResponse_eq {history : HistoryController} (hchat : history.config.deployChat = true)
    (messages : List ChatMessage) {chatUserUtt assistantText : Text} (huser : strip chatUserUtt ≠ [])
    (hassistant : strip assistantText ≠ []) :
    assembleResponse history messages chatUserUtt assistantText
      = pushChatMessage messages { role := .user, content := strip chatUserUtt }
        ++ [{ role := .assistant, content := strip assistantText }] := by
  simp [assembleResponse, HistoryController.appendChatMessageToList, hchat, huser, hassistant,
    pushChatMessage]

/-- The store of a turn that was not trimmed gives what the model was sent, and its answer. -/
theorem buildMessages_assembled {history : HistoryController}
    (hchat : history.config.deployChat = true) {messages : List ChatMessage}
    (h : Canonical messages) {chatUserUtt assistantText : Text} (huser : strip chatUserUtt ≠ [])
    (hassistant : strip assistantText ≠ []) (systemPrompt : Text) :
    buildMessages systemPrompt (assembleResponse history messages chatUserUtt assistantText) none
      = buildMessages systemPrompt messages (some chatUserUtt)
        ++ [{ role := Role.assistant.name, content := strip assistantText }] := by
  have hsent : buildMessages systemPrompt messages (some chatUserUtt)
      = buildMessages systemPrompt messages (some (strip chatUserUtt)) := by
    simp only [buildMessages, appendTemplateMessage, strip_strip]
  rw [assembleResponse_eq hchat messages huser hassistant, buildMessages_snoc,
    buildMessages_push systemPrompt h (clean_strip huser), hsent]
  exact appendTemplateMessage_assistant _ (clean_strip huser) (clean_strip hassistant)

/--
**The store and the transcript agree.** From a chat store of the shape every write leaves, a turn
whose texts are not blank and after which nothing is trimmed leaves a store whose transcript is
what the model was sent, followed by its answer.

And for every system prompt, history and user text the transcript is the texts that are not blank,
stripped, each run of texts of one role joined with blank lines; no two neighbours have one role,
and none is blank.
-/
theorem transcript_agrees (sh : SessionHandler) (hchat : sh.historyConfig.deployChat = true)
    (systemPrompt : Text) :
    (∀ (state : SessionState) (chatUserUtt assistantText : Text),
      let messages := HistoryController.chatMessages state
      let stored := HistoryController.chatMessages
        (sh.history.appendChatResponse state chatUserUtt assistantText)
      Canonical messages → strip chatUserUtt ≠ [] → strip assistantText ≠ [] →
      stored = assembleResponse sh.history messages chatUserUtt assistantText →
        buildMessages systemPrompt stored none
          = buildMessages systemPrompt messages (some chatUserUtt)
            ++ [{ role := Role.assistant.name, content := strip assistantText }])
      ∧ ∀ (historyMessages : List ChatMessage) (chatUserUtt : Option Text),
          let messages := buildMessages systemPrompt historyMessages chatUserUtt
          messages = (runs (·.role) ((promptMessages systemPrompt historyMessages
              chatUserUtt).filterMap spokenMessage)).filterMap joinRun
            ∧ messages.IsChain (fun a b => a.role ≠ b.role)
            ∧ ∀ message ∈ messages, Clean message.content := by
  refine ⟨?_, buildMessages_runs systemPrompt⟩
  intro state chatUserUtt assistantText messages stored hcanonical huser hassistant huntrimmed
  rw [huntrimmed]
  exact buildMessages_assembled hchat hcanonical huser hassistant systemPrompt

/-- A second question in a row is merged, by the store or by the builder. -/
theorem transcript_agrees_merged :
    let sh := SessionHandler.sample true false
    let state := sh.history.appendChatMessage (sh.initializeSession (.fresh [])) Role.user.name
      "hi".toList
    buildMessages [] (HistoryController.chatMessages
        (sh.history.appendChatResponse state "go on".toList "ok".toList)) none
      = buildMessages [] (HistoryController.chatMessages state) (some "go on".toList)
        ++ [{ role := Role.assistant.name, content := "ok".toList }] := by
  have h := (transcript_agrees (.sample true false) rfl []).1
    ((SessionHandler.sample true false).history.appendChatMessage
      ((SessionHandler.sample true false).initializeSession (.fresh [])) Role.user.name "hi".toList)
    "go on".toList "ok".toList
  refine h ?_ (by decide) (by decide) (by decide)
  exact pushChatMessage_canonical canonical_nil (m := ⟨.user, "hi".toList⟩)
    (clean_strip (t := "hi".toList) (by decide))

end YapInference
