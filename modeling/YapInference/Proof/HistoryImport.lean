import YapInference.Proof.ChatStore
import YapInference.Session.Parsing

/-!
# Two parsers of one client history

`parse_history_for_chat` merges runs of user items into one message,
`parse_history_for_tool` keeps every user item apart. Both read the same validated
items, so what they agree on is the user text they hold in all, the items of a run
joined as the merge joins them. The chat result is `Canonical`, the shape that is left
alone by an import.
-/

namespace YapInference

open Py

/-- The contents of the user messages, in order. -/
def userContents (messages : List ChatMessage) : List Text :=
  (messages.filter (·.role = .user)).map ChatMessage.content

/-- Texts joined by blank lines. -/
def blankLineJoin (texts : List Text) : Text := join "\n\n".toList texts

theorem userContents_append (ms ns : List ChatMessage) :
    userContents (ms ++ ns) = userContents ms ++ userContents ns := by
  simp [userContents]

theorem userContents_user {m : ChatMessage} (h : m.role = .user) :
    userContents [m] = [m.content] := by
  simp [userContents, h]

theorem userContents_assistant {m : ChatMessage} (h : m.role = .assistant) :
    userContents [m] = [] := by
  simp [userContents, h]

/-- Merging a user message into the one before it joins their texts as a blank line would. -/
theorem userContents_push (ms : List ChatMessage) (m : ChatMessage) :
    blankLineJoin (userContents (pushChatMessage ms m))
        = blankLineJoin (userContents ms ++ userContents [m])
      ∧ (userContents (pushChatMessage ms m) = [] ↔ userContents ms ++ userContents [m] = []) := by
  unfold pushChatMessage
  split
  · rename_i last hrole hlast
    obtain ⟨init, rfl⟩ := List.getLast?_eq_some_iff.mp hlast
    split
    · rename_i huser
      have hmerged : userContents
          [{ last with content := last.content ++ "\n\n".toList ++ m.content }]
            = [last.content ++ "\n\n".toList ++ m.content] := userContents_user huser
      rw [List.dropLast_concat, userContents_append, userContents_append, hmerged,
        userContents_user huser, userContents_user hrole, List.append_assoc (userContents init)]
      exact ⟨join_merge _ _ _ _, by simp⟩
    · rw [userContents_append]
      exact ⟨rfl, Iff.rfl⟩
  · rw [userContents_append]
    exact ⟨rfl, Iff.rfl⟩

/-! ## One item -/

/-- The user text of a validated item. -/
def itemTexts (items : List (Text × Text)) : List Text :=
  (items.filter (fun item => item.1 = "user".toList)).map Prod.snd

/-- What the chat parser has built agrees with the user texts read so far. -/
structure ImportInv (parsed : List ChatMessage) (texts : List Text) : Prop where
  /-- It has the shape of a store. -/
  canonical : Canonical parsed
  /-- Its user messages hold those texts. -/
  sameText : blankLineJoin (userContents parsed) = blankLineJoin texts
  /-- There is a user message if there is a text. -/
  sameNil : userContents parsed = [] ↔ texts = []

/-- A validated item has a stripped content. -/
theorem clean_of_validateMessageItem {lower : Lower} {item : Json} {role content : Text}
    (h : validateMessageItem lower item = some (role, content)) : Clean content := by
  unfold validateMessageItem at h
  split at h
  · split at h
    · dsimp only at h
      split at h
      · exact absurd h (by simp)
      · rename_i hne
        injection h with h
        injection h with _ hcontent
        subst hcontent
        refine clean_strip fun hnil => ?_
        simp [hnil] at hne
    · exact absurd h (by simp)
  · exact absurd h (by simp)

/-- A usable role and a stripped content are pushed, any other role is ignored. -/
theorem parseAppendChatMessage_of_clean {content : Text} (hc : Clean content)
    (parsed : List ChatMessage) (role : Text) :
    parseAppendChatMessage parsed role content
      = match normalizeChatRole role with
        | none => parsed
        | some r => pushChatMessage parsed { role := r, content := content } := by
  have hne : content.isEmpty = false := by simpa using hc.ne
  unfold parseAppendChatMessage
  dsimp only
  rw [hc.strip_eq, hne]
  rfl

theorem itemTexts_append (items more : List (Text × Text)) :
    itemTexts (items ++ more) = itemTexts items ++ itemTexts more := by
  simp [itemTexts]

/-- **Kept by every item.** -/
theorem importInv_step {parsed : List ChatMessage} {items : List (Text × Text)}
    (h : ImportInv parsed (itemTexts items)) {item : Text × Text} (hc : Clean item.2) :
    ImportInv (parseAppendChatMessage parsed item.1 item.2) (itemTexts (items ++ [item])) := by
  rw [parseAppendChatMessage_of_clean hc, itemTexts_append]
  have hpush : ∀ r : Role, userContents [{ role := r, content := item.2 }] = itemTexts [item] →
      ImportInv (pushChatMessage parsed { role := r, content := item.2 })
        (itemTexts items ++ itemTexts [item]) := by
    intro r hitem
    obtain ⟨htext, hnil⟩ := userContents_push parsed { role := r, content := item.2 }
    rw [hitem] at htext hnil
    refine ⟨pushChatMessage_canonical h.canonical hc, ?_, ?_⟩
    · exact htext.trans (join_append_congr h.sameText h.sameNil _)
    · rw [hnil, List.append_eq_nil_iff, List.append_eq_nil_iff, h.sameNil]
  by_cases huser : item.1 = "user".toList
  · have hrole : normalizeChatRole item.1 = some .user := if_pos huser
    rw [hrole]
    exact hpush .user (by simp [userContents, itemTexts, huser])
  · -- every other item adds nothing to the user text
    have hnone : itemTexts [item] = [] := by
      rw [itemTexts, List.filter_cons_of_neg (by simpa using huser)]
      rfl
    by_cases hassistant : item.1 = "assistant".toList
    · have hrole : normalizeChatRole item.1 = some .assistant := by
        rw [normalizeChatRole, if_neg huser, if_pos hassistant]
      rw [hrole]
      exact hpush .assistant (by rw [hnone]; exact userContents_assistant rfl)
    · have hrole : normalizeChatRole item.1 = none := by
        rw [normalizeChatRole, if_neg huser, if_neg hassistant]
      rw [hrole, hnone, List.append_nil]
      exact h

theorem importInv_run {parsed : List ChatMessage} {items more : List (Text × Text)}
    (h : ImportInv parsed (itemTexts items)) (hmore : ∀ item ∈ more, Clean item.2) :
    ImportInv (more.foldl (fun acc item => parseAppendChatMessage acc item.1 item.2) parsed)
      (itemTexts (items ++ more)) := by
  induction more generalizing parsed items with
  | nil => simpa using h
  | cons item more ih =>
      have hstep := importInv_step h (hmore item (by simp))
      have hrest := ih hstep fun x hx => hmore x (List.mem_cons_of_mem _ hx)
      rwa [List.append_assoc, List.singleton_append] at hrest

/-- The two parsers of one payload. -/
theorem importInv_parse (lower : Lower) (messages : List Json) :
    ImportInv (parseHistoryForChat lower messages)
      (itemTexts (messages.filterMap (validateMessageItem lower))) := by
  have hinit : ImportInv [] (itemTexts []) := ⟨canonical_nil, rfl, by simp [userContents, itemTexts]⟩
  have hclean : ∀ item ∈ messages.filterMap (validateMessageItem lower), Clean item.2 := by
    intro item hitem
    obtain ⟨m, -, hm⟩ := List.mem_filterMap.mp hitem
    exact clean_of_validateMessageItem hm
  exact importInv_run hinit hclean

theorem parseHistoryForTool_texts (lower : Lower) (freshId : Nat → TurnId) (messages : List Json) :
    (parseHistoryForTool lower freshId messages).map HistoryTurn.user
      = itemTexts (messages.filterMap (validateMessageItem lower)) := by
  simp only [parseHistoryForTool, itemTexts]
  apply List.ext_getElem <;> simp

/-! ## Importing again -/

/-- A message that is no second user in a row is pushed as it is. -/
theorem pushChatMessage_snoc {ms : List ChatMessage} {m : ChatMessage}
    (h : (ms ++ [m]).IsChain (fun a b => ¬(a.role = .user ∧ b.role = .user))) :
    pushChatMessage ms m = ms ++ [m] := by
  unfold pushChatMessage
  split
  · rename_i last hrole hlast
    have hnot := (List.isChain_append.mp h).2.2 last hlast m (by simp)
    rw [if_neg fun huser => hnot ⟨huser, hrole⟩]
  · rfl

/-- A chat-deployed controller appends to a canonical list what it already is. -/
theorem appendChatMessageToList_snoc {h : HistoryController} (hchat : h.config.deployChat = true)
    {ms : List ChatMessage} {m : ChatMessage} (hms : Canonical (ms ++ [m])) :
    h.appendChatMessageToList ms m.role.name m.content = ms ++ [m] := by
  have hclean : Clean m.content := hms.clean m (by simp)
  have hne : m.content.isEmpty = false := by simpa using hclean.ne
  unfold HistoryController.appendChatMessageToList
  dsimp only
  rw [normalizeChatRole_name, hclean.strip_eq, hne, hchat]
  exact pushChatMessage_snoc hms.noTwoUsers

theorem buildImportedChatMessages_of_canonical {h : HistoryController}
    (hchat : h.config.deployChat = true) {ms : List ChatMessage} (hms : Canonical ms) :
    h.buildImportedChatMessages (ms.map ChatMessage.toImported) = ms := by
  induction ms using List.reverseRecOn with
  | nil => rfl
  | append_singleton ms m ih =>
      have hcanonical : Canonical ms := hms.prefix (List.prefix_append _ _)
      have hinit := ih hcanonical
      unfold HistoryController.buildImportedChatMessages at hinit ⊢
      rw [List.map_append, List.foldl_append, hinit]
      exact appendChatMessageToList_snoc hchat hms

/-- Every tool entry of a parsed history survives the import. -/
theorem buildImportedToolTurns_parse (lower : Lower) (freshId freshId' : Nat → TurnId)
    (messages : List Json) (normalized : List ChatMessage) :
    (HistoryController.buildImportedToolTurns freshId' normalized
        (some (parseHistoryForTool lower freshId messages))).map HistoryTurn.user
      = itemTexts (messages.filterMap (validateMessageItem lower)) := by
  rw [← parseHistoryForTool_texts lower freshId, HistoryController.buildImportedToolTurns,
    Option.getD_some, List.map_map]
  have hall : ∀ turn ∈ parseHistoryForTool lower freshId messages,
      (!(strip turn.user).isEmpty) = true := by
    intro turn hturn
    have htext : turn.user ∈ itemTexts (messages.filterMap (validateMessageItem lower)) := by
      rw [← parseHistoryForTool_texts lower freshId]
      exact List.mem_map_of_mem hturn
    obtain ⟨item, hitem, heq⟩ := List.mem_map.mp htext
    obtain ⟨m, -, hm⟩ := List.mem_filterMap.mp (List.mem_filter.mp hitem).1
    have hclean : Clean turn.user := heq ▸ clean_of_validateMessageItem hm
    simp [hclean.strip_eq, hclean.ne]
  rw [List.filter_eq_self.mpr hall]
  rfl

/-- **The two parsers agree on every payload**: the chat result has the shape of a store and
an import leaves it alone, the user texts of both are the same text, and so are those of
the two stores an import builds, before it trims them. -/
theorem parseHistory_agree (lower : Lower) (freshId freshId' : Nat → TurnId)
    (messages : List Json) (h : HistoryController) (hchat : h.config.deployChat = true) :
    let chat := parseHistoryForChat lower messages
    let tool := parseHistoryForTool lower freshId messages
    let imported := h.buildImportedChatMessages (chat.map ChatMessage.toImported)
    let importedTool := HistoryController.buildImportedToolTurns freshId' imported (some tool)
    (∀ m ∈ chat, Clean m.content)
      ∧ chat.IsChain (fun a b => ¬(a.role = .user ∧ b.role = .user))
      ∧ imported = chat
      ∧ blankLineJoin (tool.map HistoryTurn.user) = blankLineJoin (userContents chat)
      ∧ blankLineJoin (importedTool.map HistoryTurn.user)
          = blankLineJoin (userContents imported) := by
  intro chat tool imported importedTool
  have hinv := importInv_parse lower messages
  have himported : imported = chat := buildImportedChatMessages_of_canonical hchat hinv.canonical
  refine ⟨hinv.canonical.clean, hinv.canonical.noTwoUsers, himported, ?_, ?_⟩
  · rw [parseHistoryForTool_texts]
    exact hinv.sameText.symm
  · rw [buildImportedToolTurns_parse, himported]
    exact hinv.sameText.symm

/-- Two user items, an item that is no message, and an answer. -/
theorem parseHistory_agree_example :
    let item := fun (role content : String) =>
      Json.obj [("role".toList, .str role.toList), ("content".toList, .str content.toList)]
    let messages := [item "user" "a", item "User " " b", .null, item "assistant" "c"]
    (SessionHandler.sample true true).history.buildImportedChatMessages
        ((parseHistoryForChat (List.map Char.toLower) messages).map ChatMessage.toImported)
      = parseHistoryForChat (List.map Char.toLower) messages := by
  intro item messages
  exact (parseHistory_agree (List.map Char.toLower) id id messages
    (SessionHandler.sample true true).history rfl).2.2.1

end YapInference
