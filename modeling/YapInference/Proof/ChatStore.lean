import YapInference.Session.Manager

/-!
# The chat store over whole runs

`trim_chat_history` is run after every write to the store, with one of two triggers:
an import trims as soon as the *target* is exceeded, a finished turn only when the
*trigger* is. What a run maintains is therefore a shape, `Canonical`, which does not
mention tokens at all, and a bound, which names the trigger of the write.

Trimming itself is analysed once, in `trimChatMessages_spec`: it keeps a run of whole
turns at the end, and either that fits or it is one turn. Everything else is about
what the writes assemble before they trim.
-/

namespace YapInference

open Py Split

/-- The shape every write leaves behind. -/
structure Canonical (ms : List ChatMessage) : Prop where
  /-- Every message is non-blank and stripped. -/
  clean : AllClean ms
  /-- No two consecutive messages are both from the user. -/
  noTwoUsers : ms.IsChain (fun a b => ¬(a.role = .user ∧ b.role = .user))

/-- The token count of a rendered store. -/
def transcriptTokens (sh : SessionHandler) (ms : List ChatMessage) : Nat :=
  countChatTokens (renderHistory ms) sh.chatTokenizer

/-- The writes to the chat store, and the two operations that leave it alone. -/
inductive StoreOp where
  | initializeSession
  | updateSessionConfig (update : SessionConfigUpdate)
  | setModeHistories (freshId : Nat → TurnId) (chatMessages : Option (List ImportedMessage))
      (toolTurns : Option (List HistoryTurn))
  | appendChatTurn (chatUserUtt assistantText : Text)

namespace StoreOp

/-- Run one operation. -/
def apply (sh : SessionHandler) (state : SessionState) : StoreOp → SessionState
  | initializeSession => sh.initializeSession state
  | updateSessionConfig update =>
      YapInference.updateSessionConfig sh.server sh.countPrefixTokens state update
  | setModeHistories freshId chatMessages toolTurns =>
      sh.setModeHistories freshId state chatMessages toolTurns
  | appendChatTurn chatUserUtt assistantText => sh.appendChatTurn state chatUserUtt assistantText

/-- Run a sequence of operations. -/
def run (sh : SessionHandler) (state : SessionState) (ops : List StoreOp) : SessionState :=
  ops.foldl (apply sh) state

/-- Does this operation write, and hence trim? A turn whose user text is blank once the
screen prefix is gone is not recorded. -/
def writes (sh : SessionHandler) (state : SessionState) : StoreOp → Bool
  | setModeHistories _ _ _ => true
  | appendChatTurn chatUserUtt _ =>
      !(strip (sh.normalizeUserUtterances state chatUserUtt none).1).isEmpty
  | _ => false

/-- The trigger this operation trims with, as it passes it to `trim_chat_history`. -/
def triggerTokens (sh : SessionHandler) : StoreOp → Option Int
  | setModeHistories _ _ _ => some sh.historyConfig.chatTargetTokens
  | _ => none

/-- The messages this operation has assembled when it comes to trim. -/
def untrimmed (sh : SessionHandler) (state : SessionState) : StoreOp → List ChatMessage
  | setModeHistories _ chatMessages _ =>
      sh.history.buildImportedChatMessages (chatMessages.getD [])
  | appendChatTurn chatUserUtt assistantText =>
      let user := strip (sh.normalizeUserUtterances state chatUserUtt none).1
      let assistant := strip assistantText
      let messages := HistoryController.chatMessages state
      if user.isEmpty then messages
      else
        let messages := sh.history.appendChatMessageToList messages Role.user.name user
        if assistant.isEmpty then messages
        else sh.history.appendChatMessageToList messages Role.assistant.name assistant
  | _ => HistoryController.chatMessages state

end StoreOp

/-! ## The shape -/

theorem canonical_nil : Canonical [] :=
  ⟨fun _ h => absurd h (by simp), List.isChain_nil⟩

theorem Canonical.suffix {ms ns : List ChatMessage} (h : Canonical ms) (hs : ns <:+ ms) :
    Canonical ns :=
  ⟨fun m hm => h.clean m (hs.subset hm), h.noTwoUsers.suffix hs⟩

theorem Canonical.prefix {ms ns : List ChatMessage} (h : Canonical ms) (hp : ns <+: ms) :
    Canonical ns :=
  ⟨fun m hm => h.clean m (hp.subset hm), h.noTwoUsers.prefix hp⟩

/-- A clean message may follow anything but its own double as a user. -/
theorem Canonical.snoc {ms : List ChatMessage} (h : Canonical ms) {m : ChatMessage}
    (hm : Clean m.content)
    (hlast : ∀ l, ms.getLast? = some l → ¬(l.role = .user ∧ m.role = .user)) :
    Canonical (ms ++ [m]) where
  clean := by
    intro x hx
    rcases List.mem_append.mp hx with hx | hx
    · exact h.clean x hx
    · rw [List.mem_singleton.mp hx]; exact hm
  noTwoUsers := by
    refine List.isChain_append.mpr ⟨h.noTwoUsers, List.isChain_singleton m, ?_⟩
    intro l hl x hx
    simp only [List.head?_cons, Option.mem_def, Option.some.injEq] at hx
    exact hx ▸ hlast l hl

/-- **Merging a second user message into the first keeps the shape.** -/
theorem pushChatMessage_canonical {ms : List ChatMessage} (h : Canonical ms) {m : ChatMessage}
    (hm : Clean m.content) : Canonical (pushChatMessage ms m) := by
  unfold pushChatMessage
  split
  · rename_i last hrole hlast
    obtain ⟨init, rfl⟩ := List.getLast?_eq_some_iff.mp hlast
    split
    · rename_i huser
      rw [List.dropLast_concat]
      have hinit : Canonical init := h.prefix (List.prefix_append _ _)
      -- the merged message takes the place of the last one
      refine hinit.snoc ?_ ?_
      · exact (h.clean last (by simp)).append hm _
      · intro l hl
        have hch := (List.isChain_append.mp h.noTwoUsers).2.2 l hl last (by simp)
        exact hch
    · rename_i hnot
      refine h.snoc hm ?_
      intro l hl hboth
      rw [hlast] at hl
      exact hnot ((Option.some.inj hl).symm ▸ hboth.1)
  · rename_i hno
    refine h.snoc hm ?_
    intro l hl hboth
    exact hno l hboth.2 hl

theorem appendChatMessageToList_canonical (h : HistoryController) {ms : List ChatMessage}
    (hms : Canonical ms) (role content : Text) :
    Canonical (h.appendChatMessageToList ms role content) := by
  unfold HistoryController.appendChatMessageToList
  dsimp only
  split
  · exact hms
  · split
    · exact hms
    · rename_i hc
      refine pushChatMessage_canonical hms (clean_strip ?_)
      intro he
      simp [he] at hc

theorem buildImportedChatMessages_canonical (h : HistoryController)
    (chatMessages : List ImportedMessage) :
    Canonical (h.buildImportedChatMessages chatMessages) := by
  unfold HistoryController.buildImportedChatMessages
  suffices ∀ acc, Canonical acc → Canonical
      (chatMessages.foldl (fun acc msg => h.appendChatMessageToList acc msg.role msg.content) acc)
    from this [] canonical_nil
  induction chatMessages with
  | nil => intro acc hacc; exact hacc
  | cons msg rest ih =>
      intro acc hacc
      exact ih _ (appendChatMessageToList_canonical h hacc msg.role msg.content)

/-- What an operation assembles has the shape, if the store had it. -/
theorem untrimmed_canonical (sh : SessionHandler) {state : SessionState}
    (h : Canonical (HistoryController.chatMessages state)) (op : StoreOp) :
    Canonical (op.untrimmed sh state) := by
  cases op with
  | initializeSession => exact h
  | updateSessionConfig _ => exact h
  | setModeHistories _ chatMessages _ => exact buildImportedChatMessages_canonical _ _
  | appendChatTurn chatUserUtt assistantText =>
      unfold StoreOp.untrimmed
      dsimp only
      have huser := appendChatMessageToList_canonical sh.history h Role.user.name
        (strip (sh.normalizeUserUtterances state chatUserUtt none).1)
      split
      · exact h
      · split
        · exact huser
        · exact appendChatMessageToList_canonical _ huser _ _

/-! ## Trimming -/

theorem flatten_groupChatTurns {ms : List ChatMessage} (h : AllClean ms) :
    (groupChatTurns ms).flatten = ms := by
  rw [(groupChatTurns_inv ms).2, copyChatMessages_of_allClean h]

theorem groupChatTurns_ne_nil {ms : List ChatMessage} (h : AllClean ms) (hne : ms ≠ []) :
    groupChatTurns ms ≠ [] := by
  intro he
  have := flatten_groupChatTurns h
  rw [he] at this
  exact hne this.symm

theorem countChatTurns_group (sh : SessionHandler) {ms : List ChatMessage} (h : AllClean ms) :
    countChatTurns sh.chatTokenizer (groupChatTurns ms) = transcriptTokens sh ms := by
  unfold countChatTurns transcriptTokens flattenChatTurns
  rw [flatten_groupChatTurns h, copyChatMessages_of_allClean h]

/-- Fits the trigger, or is a single turn: the state in which trimming has nothing to do. -/
def Fits (sh : SessionHandler) (triggerTokens : Option Int) (ms : List ChatMessage) : Prop :=
  transcriptTokens sh ms ≤ effectiveTrigger sh.historyConfig triggerTokens
    ∨ (groupChatTurns ms).length = 1

/-- Trimming a store that fits changes nothing. -/
theorem trimChatMessages_of_fits (sh : SessionHandler) {ms : List ChatMessage} (h : AllClean ms)
    {triggerTokens : Option Int} (hf : Fits sh triggerTokens ms) (targetTokens : Option Int) :
    trimChatMessages sh.historyConfig sh.chatTokenizer triggerTokens targetTokens ms = ms := by
  unfold trimChatMessages
  dsimp only
  split
  · rfl
  · rename_i hne
    have hgroups := groupChatTurns_ne_nil h (by simpa using hne)
    rw [if_neg (by simpa using hgroups), countChatTurns_group sh h]
    split
    · rfl
    · rename_i hover
      -- over the trigger, so this is the single turn, which is never dropped
      rcases hf with hf | hone
      · exact absurd hf hover
      · obtain ⟨turn, hturn⟩ := List.length_eq_one_iff.mp hone
        have hflat := flatten_groupChatTurns h
        rw [hturn] at hflat ⊢
        rw [trimOldestItems_single, flattenChatTurns, hflat, copyChatMessages_of_allClean h]

/-- What trimming keeps: the last turns, whole, and never none of them. -/
structure KeepsTurns (pre stored : List ChatMessage) : Prop where
  /-- The turns kept are the last ones. -/
  turns : ∃ k, groupChatTurns stored = (groupChatTurns pre).drop k
    ∧ stored = ((groupChatTurns pre).drop k).flatten
  /-- The newest turn is among them, intact. -/
  newest : (groupChatTurns stored).getLast? = (groupChatTurns pre).getLast?

theorem keepsTurns_drop {pre stored : List ChatMessage} {k : Nat}
    (hg : groupChatTurns stored = (groupChatTurns pre).drop k)
    (hs : stored = ((groupChatTurns pre).drop k).flatten)
    (hk : k < (groupChatTurns pre).length) : KeepsTurns pre stored where
  turns := ⟨k, hg, hs⟩
  newest := by rw [hg, List.getLast?_drop, if_neg (by omega)]

theorem keepsTurns_refl {ms : List ChatMessage} (h : AllClean ms) : KeepsTurns ms ms where
  turns := ⟨0, rfl, by simp [flatten_groupChatTurns h]⟩
  newest := rfl

/-- **Trimming keeps whole turns at the end, and what it keeps fits or is one turn.** -/
theorem trimChatMessages_spec (sh : SessionHandler) {pre : List ChatMessage} (h : Canonical pre)
    (triggerTokens targetTokens : Option Int) :
    let stored :=
      trimChatMessages sh.historyConfig sh.chatTokenizer triggerTokens targetTokens pre
    Canonical stored ∧ KeepsTurns pre stored ∧ Fits sh triggerTokens stored := by
  dsimp only
  by_cases hf : Fits sh triggerTokens pre
  · rw [trimChatMessages_of_fits sh h.clean hf]
    exact ⟨h, keepsTurns_refl h.clean, hf⟩
  · have hover : ¬ transcriptTokens sh pre ≤ effectiveTrigger sh.historyConfig triggerTokens :=
      fun hle => hf (Or.inl hle)
    have hne : pre ≠ [] := by
      intro heq
      obtain rfl := heq
      exact hover (Nat.zero_le _)
    have hgroups := groupChatTurns_ne_nil h.clean hne
    have hstored : trimChatMessages sh.historyConfig sh.chatTokenizer triggerTokens targetTokens pre
        = flattenChatTurns (trimOldestItems (groupChatTurns pre)
            (effectiveTarget sh.historyConfig triggerTokens targetTokens)
            (countChatTurns sh.chatTokenizer)) := by
      unfold trimChatMessages
      dsimp only
      rw [if_neg (by simpa using hne), if_neg (by simpa using hgroups), countChatTurns_group sh h.clean,
        if_neg hover]
    obtain ⟨k, hdrop, hk⟩ := trimOldestItems_drop (groupChatTurns pre)
      (effectiveTarget sh.historyConfig triggerTokens targetTokens)
      (countChatTurns sh.chatTokenizer) hgroups
    -- what is left fits the target, which does not exceed the trigger, or is one turn
    have hfits := trimOldestItems_fits (groupChatTurns pre)
      (effectiveTarget sh.historyConfig triggerTokens targetTokens)
      (countChatTurns sh.chatTokenizer) hgroups
    have hg := groupChatTurns_flatten_drop pre k
    rw [hstored, hdrop]
    rw [hdrop] at hfits
    have hcanon : Canonical (flattenChatTurns ((groupChatTurns pre).drop k)) := by
      refine h.suffix ⟨((groupChatTurns pre).take k).flatten, ?_⟩
      rw [flattenChatTurns_drop, ← List.flatten_append, List.take_append_drop,
        flatten_groupChatTurns h.clean]
    refine ⟨hcanon, keepsTurns_drop hg (flattenChatTurns_drop pre k) hk, ?_⟩
    rcases hfits with hle | hone
    · refine Or.inl (Nat.le_trans ?_ (effectiveTarget_le sh.historyConfig triggerTokens targetTokens))
      rw [← countChatTurns_group sh hcanon.clean, hg]
      exact hle
    · exact Or.inr (by rw [hg]; exact hone)

/-! ## One operation -/

section Step

variable {sh : SessionHandler} (hchat : sh.historyConfig.deployChat = true)
include hchat

omit hchat in
theorem setToolHistoryStore_chat (freshId : Nat → TurnId) (state : SessionState)
    (ms : List ChatMessage) (toolTurns : Option (List HistoryTurn)) :
    (sh.history.setToolHistoryStore freshId state ms toolTurns).chatHistoryMessages
      = state.chatHistoryMessages := by
  unfold HistoryController.setToolHistoryStore HistoryController.trimToolStoreEager trimToolHistory
  split
  · rfl
  · split
    · rfl
    · split <;> rfl

theorem syncModeStorage_chat (state : SessionState) :
    (sh.history.syncModeStorage state).chatHistoryMessages
      = some (HistoryController.chatMessages state) := by
  simp [HistoryController.syncModeStorage, HistoryController.chatMessages, hchat]

theorem trimChatStoreEager_chat (state : SessionState) (importMode : Bool) :
    (sh.history.trimChatStoreEager state importMode).chatHistoryMessages
      = state.chatHistoryMessages.map (trimChatMessages sh.historyConfig sh.chatTokenizer
          (if importMode then some sh.historyConfig.chatTargetTokens else none) none) := by
  cases importMode <;> simp [HistoryController.trimChatStoreEager, trimChatHistory, hchat]

/-- A write leaves exactly the trimming of what it assembled. -/
theorem apply_of_writes {state : SessionState} {op : StoreOp} (hw : op.writes sh state = true) :
    (op.apply sh state).chatHistoryMessages
      = some (trimChatMessages sh.historyConfig sh.chatTokenizer (op.triggerTokens sh) none
          (op.untrimmed sh state)) := by
  cases op with
  | initializeSession => simp [StoreOp.writes] at hw
  | updateSessionConfig _ => simp [StoreOp.writes] at hw
  | setModeHistories freshId chatMessages toolTurns =>
      simp only [StoreOp.apply, SessionHandler.setModeHistories, HistoryController.setModeHistories]
      rw [setToolHistoryStore_chat, HistoryController.setChatHistoryStore,
        trimChatStoreEager_chat hchat]
      simp [hchat, StoreOp.triggerTokens, StoreOp.untrimmed]
  | appendChatTurn chatUserUtt assistantText =>
      have huser : (strip (sh.normalizeUserUtterances state chatUserUtt none).1).isEmpty = false := by
        simpa [StoreOp.writes] using hw
      simp only [StoreOp.apply, SessionHandler.appendChatTurn, HistoryController.appendChatResponse,
        StoreOp.untrimmed, StoreOp.triggerTokens, huser, Bool.false_eq_true, if_false]
      rw [trimChatStoreEager_chat hchat]
      cases hassistant : (strip assistantText).isEmpty <;>
        simp [HistoryController.appendChatMessage, syncModeStorage_chat hchat]

/-- A finished turn whose user words are not blank is assembled, and the store trimmed. -/
theorem appendChatTurn_chatMessages {state : SessionState} {user : Text}
    (huser : strip (sh.stripScreenPrefixes state user) ≠ []) (reply : Text) :
    HistoryController.chatMessages (sh.appendChatTurn state user reply)
      = trimChatMessages sh.historyConfig sh.chatTokenizer none none
          ((StoreOp.appendChatTurn user reply).untrimmed sh state) := by
  have hwrites : (StoreOp.appendChatTurn user reply).writes sh state = true := by
    simpa [StoreOp.writes, SessionHandler.normalizeUserUtterances] using huser
  have happ := apply_of_writes hchat hwrites
  simp only [StoreOp.apply, StoreOp.triggerTokens] at happ
  rw [HistoryController.chatMessages, happ, Option.getD_some]

/-- Anything else leaves the messages alone. -/
theorem apply_of_not_writes {state : SessionState} {op : StoreOp}
    (hw : op.writes sh state = false) :
    HistoryController.chatMessages (op.apply sh state) = HistoryController.chatMessages state := by
  have hsync := syncModeStorage_chat hchat state
  cases op with
  | initializeSession =>
      simp only [StoreOp.apply, SessionHandler.initializeSession,
        HistoryController.initializeModeState, HistoryController.chatMessages] at hsync ⊢
      rw [hsync]
      rfl
  | updateSessionConfig _ => rfl
  | setModeHistories _ _ _ => simp [StoreOp.writes] at hw
  | appendChatTurn chatUserUtt assistantText =>
      have huser : (strip (sh.normalizeUserUtterances state chatUserUtt none).1).isEmpty = true := by
        simpa [StoreOp.writes] using hw
      simp only [StoreOp.apply, SessionHandler.appendChatTurn, HistoryController.appendChatResponse,
        huser, if_true, HistoryController.chatMessages] at hsync ⊢
      rw [hsync]
      rfl

/-- What every reachable store satisfies. -/
structure StoreInv (sh : SessionHandler) (ms : List ChatMessage) : Prop where
  /-- The shape. -/
  canonical : Canonical ms
  /-- One of the two triggers has been applied to it. -/
  fits : Fits sh none ms ∨ Fits sh (some sh.historyConfig.chatTargetTokens) ms

omit hchat in
theorem storeInv_init {state : SessionState} (h : state.chatHistoryMessages = none) :
    StoreInv sh (HistoryController.chatMessages state) := by
  rw [HistoryController.chatMessages, h]
  exact ⟨canonical_nil, Or.inl (Or.inl (Nat.zero_le _))⟩

/-- **Preserved by every operation.** -/
theorem storeInv_step {state : SessionState}
    (h : StoreInv sh (HistoryController.chatMessages state)) (op : StoreOp) :
    StoreInv sh (HistoryController.chatMessages (op.apply sh state)) := by
  cases hw : op.writes sh state with
  | false => rw [apply_of_not_writes hchat hw]; exact h
  | true =>
      have happ := apply_of_writes hchat hw
      obtain ⟨hcanon, -, hfits⟩ := trimChatMessages_spec sh (untrimmed_canonical sh h.canonical op)
        (op.triggerTokens sh) none
      rw [HistoryController.chatMessages, happ, Option.getD_some]
      refine ⟨hcanon, ?_⟩
      cases op with
      | setModeHistories _ _ _ => exact Or.inr hfits
      | _ => exact Or.inl hfits

theorem storeInv_run {state : SessionState}
    (h : StoreInv sh (HistoryController.chatMessages state)) (ops : List StoreOp) :
    StoreInv sh (HistoryController.chatMessages (StoreOp.run sh state ops)) := by
  induction ops generalizing state with
  | nil => exact h
  | cons op ops ih => exact ih (storeInv_step hchat h op)

omit hchat in
/-- With the target below the trigger, as start-up validation demands, a store that fits
an import fits a finished turn as well. -/
theorem fits_trigger_of_le
    (hle : sh.historyConfig.chatTargetTokens ≤ sh.historyConfig.chatTriggerTokens)
    {ms : List ChatMessage}
    (h : Fits sh none ms ∨ Fits sh (some sh.historyConfig.chatTargetTokens) ms) :
    Fits sh none ms := by
  rcases h with h | h | h
  · exact h
  · refine Or.inl (Nat.le_trans h ?_)
    simp only [effectiveTrigger, Option.getD_some, Option.getD_none]
    omega
  · exact Or.inr h

/-- What an operation assembled and what it left in the store, as `KeepsTurns`. -/
theorem apply_keepsTurns {state : SessionState}
    (h : StoreInv sh (HistoryController.chatMessages state)) (op : StoreOp) :
    KeepsTurns (op.untrimmed sh state) (HistoryController.chatMessages (op.apply sh state)) := by
  cases hw : op.writes sh state with
  | true =>
      have hspec := trimChatMessages_spec sh (untrimmed_canonical sh h.canonical op)
        (op.triggerTokens sh) none
      rw [HistoryController.chatMessages, apply_of_writes hchat hw, Option.getD_some]
      exact hspec.2.1
  | false =>
      have hsame : op.untrimmed sh state = HistoryController.chatMessages state := by
        cases op with
        | setModeHistories _ _ _ => simp [StoreOp.writes] at hw
        | appendChatTurn chatUserUtt assistantText =>
            have huser : (strip (sh.normalizeUserUtterances state chatUserUtt none).1).isEmpty
                = true := by simpa [StoreOp.writes] using hw
            simp [StoreOp.untrimmed, huser]
        | _ => rfl
      rw [apply_of_not_writes hchat hw, hsame]
      exact keepsTurns_refl h.canonical.clean

end Step

/-! ## Every run -/

/--
**The store invariant.** From a session without a store, after any sequence of
operations and one more, whatever the tokenizer and the limits:

* the messages are non-blank and stripped, and no two users are adjacent;
* they are the last turns of what the operation assembled, whole, the newest included;
* if the operation wrote, they fit the trigger it trims with or are one turn, and
  trimming again with that trigger changes nothing;
* if the target does not exceed the trigger, they fit the configured trigger or are
  one turn, whatever the operation, and trimming again changes nothing.
-/
theorem chatStore_run (sh : SessionHandler) (hchat : sh.historyConfig.deployChat = true)
    (state₀ : SessionState) (h₀ : state₀.chatHistoryMessages = none) (ops : List StoreOp)
    (op : StoreOp) :
    let state := StoreOp.run sh state₀ ops
    let stored := HistoryController.chatMessages (op.apply sh state)
    let retrim := fun trigger =>
      trimChatMessages sh.historyConfig sh.chatTokenizer trigger none stored
    Canonical stored
      ∧ KeepsTurns (op.untrimmed sh state) stored
      ∧ (op.writes sh state = true →
          Fits sh (op.triggerTokens sh) stored ∧ retrim (op.triggerTokens sh) = stored)
      ∧ (sh.historyConfig.chatTargetTokens ≤ sh.historyConfig.chatTriggerTokens →
          Fits sh none stored ∧ retrim none = stored) := by
  have hinv := storeInv_run hchat (storeInv_init h₀) ops
  have hinv' := storeInv_step hchat hinv op
  refine ⟨hinv'.canonical, apply_keepsTurns hchat hinv op, ?_, ?_⟩
  · intro hw
    have hspec := trimChatMessages_spec sh (untrimmed_canonical sh hinv.canonical op)
      (op.triggerTokens sh) none
    have hfits : Fits sh (op.triggerTokens sh)
        (HistoryController.chatMessages (op.apply sh (StoreOp.run sh state₀ ops))) := by
      rw [HistoryController.chatMessages, apply_of_writes hchat hw, Option.getD_some]
      exact hspec.2.2
    exact ⟨hfits, trimChatMessages_of_fits sh hinv'.canonical.clean hfits none⟩
  · intro hle
    have hfits := fits_trigger_of_le hle hinv'.fits
    exact ⟨hfits, trimChatMessages_of_fits sh hinv'.canonical.clean hfits none⟩

/-- Two turns of a fresh chat session. -/
theorem chatStore_run_two_turns :
    let sh := SessionHandler.sample true false
    let stored := HistoryController.chatMessages ((StoreOp.appendChatTurn "c".toList "d".toList).apply
      sh (StoreOp.run sh (.fresh []) [.initializeSession, .appendChatTurn "a".toList "b".toList]))
    Canonical stored ∧ Fits sh none stored := by
  have h := chatStore_run (.sample true false) rfl (.fresh []) rfl
    [.initializeSession, .appendChatTurn "a".toList "b".toList]
    (.appendChatTurn "c".toList "d".toList)
  exact ⟨h.1, (h.2.2.2 (by decide)).1⟩

end YapInference
