import YapInference.History.Turns
import YapInference.Tokens

/-!
# Rendering and trimming stored history

`src/handlers/session/history/ops.py`. Trimming estimates a first drop from the
average size of an item and then drops one item at a time. Nothing is assumed of the
counting function, so the only facts the loop owes are the ones that survive an
arbitrary one: what is kept is a non-empty suffix, and either it fits or it is a
single item.
-/

namespace YapInference

open Py Split

/-- `HistoryRuntimeConfig`. -/
structure HistoryRuntimeConfig where
  deployChat : Bool
  deployTool : Bool
  chatTriggerTokens : Int
  chatTargetTokens : Int
  defaultToolHistoryTokens : Option Int

/-! ## Dropping the oldest items -/

/-- `while len(trimmed) > 1 and tokens > target_tokens: trimmed.pop(0)`. -/
def popWhileOver {α : Type} (countTokens : List α → Nat) (targetTokens : Nat) : List α → List α
  | [] => []
  | [x] => [x]
  | x :: y :: rest =>
      if countTokens (x :: y :: rest) > targetTokens then
        popWhileOver countTokens targetTokens (y :: rest)
      else x :: y :: rest

/-- `_trim_oldest_items`: drop oldest items until the count fits or one is left. Its
callers pass a non-empty list, so the average is over a positive length. -/
def trimOldestItems {α : Type} (items : List α) (targetTokens : Nat)
    (countTokens : List α → Nat) : List α :=
  let tokens := countTokens items
  if tokens ≤ targetTokens then items
  else
    let tokensToRemove := tokens - targetTokens
    let avgTokensPerItem := tokens / items.length
    let estimatedDrops := max 1 (tokensToRemove / max 1 avgTokensPerItem)
    -- one item stays, whatever the estimate
    let drops := min estimatedDrops (items.length - 1)
    popWhileOver countTokens targetTokens (items.drop drops)

/-! ## Transcripts -/

/-- The transcript label of a role, `role.title()`. -/
def Role.title : Role → Text
  | .user => "User".toList
  | .assistant => "Assistant".toList

/-- `render_history`. -/
def renderHistory (messages : List ChatMessage) : Text :=
  join "\n\n".toList (messages.filterMap fun message =>
    if (strip message.content).isEmpty then none
    else some (message.role.title ++ ": ".toList ++ strip message.content))

/-- `get_user_texts`. -/
def getUserTexts (turns : List HistoryTurn) : List Text :=
  turns.filterMap fun turn =>
    let s := strip turn.user
    if s.isEmpty then none else some s

/-! ## Chat history -/

/-- `_count` inside `trim_chat_history`. -/
def countChatTurns (chatTokenizer : Option HfTokenizer) (candidateTurns : List (List ChatMessage)) :
    Nat :=
  countChatTokens (renderHistory (flattenChatTurns candidateTurns)) chatTokenizer

/-- The trigger `trim_chat_history` compares with. -/
def effectiveTrigger (config : HistoryRuntimeConfig) (triggerTokens : Option Int) : Nat :=
  (max 1 (triggerTokens.getD config.chatTriggerTokens)).toNat

/-- The target it trims to. -/
def effectiveTarget (config : HistoryRuntimeConfig) (triggerTokens targetTokens : Option Int) :
    Nat :=
  (max 1 (min (targetTokens.getD config.chatTargetTokens)
    (effectiveTrigger config triggerTokens : Int))).toNat

/-- `trim_chat_history` on the message list of a session. -/
def trimChatMessages (config : HistoryRuntimeConfig) (chatTokenizer : Option HfTokenizer)
    (triggerTokens targetTokens : Option Int) (messages : List ChatMessage) : List ChatMessage :=
  if messages.isEmpty then messages
  else
    let turns := groupChatTurns messages
    if turns.isEmpty then []
    else if countChatTurns chatTokenizer turns ≤ effectiveTrigger config triggerTokens then messages
    else
      flattenChatTurns (trimOldestItems turns (effectiveTarget config triggerTokens targetTokens)
        (countChatTurns chatTokenizer))

/-- `trim_chat_history`. -/
def trimChatHistory (state : SessionState) (config : HistoryRuntimeConfig)
    (chatTokenizer : Option HfTokenizer) (triggerTokens targetTokens : Option Int) : SessionState :=
  { state with
    chatHistoryMessages := state.chatHistoryMessages.map
      (trimChatMessages config chatTokenizer triggerTokens targetTokens) }

/-! ## Tool history -/

/-- `_count` inside `trim_tool_history`. -/
def countToolTurns (toolTokenizer : Option HfTokenizer) (candidateTurns : List HistoryTurn) : Nat :=
  countToolTokens (join ['\n'] (getUserTexts candidateTurns)) toolTokenizer true

/-- `trim_tool_history` on the entries of a session. A single entry that is still too
large is clipped, and dropped when nothing of it fits. -/
def trimToolTurns (budget : Int) (toolTokenizer : Option HfTokenizer) (turns : List HistoryTurn) :
    List HistoryTurn :=
  if turns.isEmpty then turns
  else
    let effectiveBudget := (max 1 budget).toNat
    if countToolTurns toolTokenizer turns ≤ effectiveBudget then turns
    else
      let trimmedTurns := trimOldestItems turns effectiveBudget (countToolTurns toolTokenizer)
      match trimmedTurns with
      | [lastTurn] =>
          -- the single entry that is left may still be too large
          if countToolTurns toolTokenizer trimmedTurns > effectiveBudget then
            let clippedUser :=
              trimToolTextToBudget lastTurn.user effectiveBudget toolTokenizer .tail true
            if clippedUser.isEmpty then []
            else [{ turnId := lastTurn.turnId, user := clippedUser, assistant := [] }]
          else trimmedTurns
      | _ => trimmedTurns

/-- `trim_tool_history`. -/
def trimToolHistory (state : SessionState) (budget : Int) (toolTokenizer : Option HfTokenizer) :
    SessionState :=
  { state with toolHistoryTurns := state.toolHistoryTurns.map (trimToolTurns budget toolTokenizer) }

/-- `render_tool_history_text`. A budget of zero counts as no budget. -/
def renderToolHistoryText (turns : List HistoryTurn) (config : HistoryRuntimeConfig)
    (maxTokens : Option Int) (toolTokenizer : Option HfTokenizer) : Text :=
  if !config.deployTool then []
  else
    let userTexts := getUserTexts turns
    if userTexts.isEmpty then []
    else
      let defaultBudget :=
        match config.defaultToolHistoryTokens with
        | none => 1536
        | some budget => if budget = 0 then 1536 else budget
      let budget := max 1 (maxTokens.getD defaultBudget)
      buildToolHistory userTexts budget toolTokenizer .trimLatestTail

/-! ## What trimming keeps -/

/-- The loop keeps a suffix, never the empty one. -/
theorem popWhileOver_drop {α : Type} (count : List α → Nat) (target : Nat) (items : List α) :
    ∃ k, popWhileOver count target items = items.drop k ∧ (items ≠ [] → k < items.length) := by
  fun_induction popWhileOver count target items with
  | case1 => exact ⟨0, rfl, fun h => absurd rfl h⟩
  | case2 x => exact ⟨0, rfl, fun _ => by simp⟩
  | case3 x y rest _ ih =>
      obtain ⟨k, hk, hlt⟩ := ih
      have := hlt (by simp)
      refine ⟨k + 1, by simpa using hk, fun _ => ?_⟩
      simp only [List.length_cons] at this ⊢
      omega
  | case4 x y rest _ => exact ⟨0, rfl, fun _ => by simp⟩

/-- When the loop stops, what is kept fits or is one item. -/
theorem popWhileOver_fits {α : Type} (count : List α → Nat) (target : Nat) (items : List α)
    (hne : items ≠ []) :
    count (popWhileOver count target items) ≤ target
      ∨ (popWhileOver count target items).length = 1 := by
  fun_induction popWhileOver count target items with
  | case1 => exact absurd rfl hne
  | case2 x => exact Or.inr rfl
  | case3 x y rest _ ih => exact ih (by simp)
  | case4 x y rest h => exact Or.inl (by omega)

/-- **What `_trim_oldest_items` keeps is a non-empty suffix of its input.** -/
theorem trimOldestItems_drop {α : Type} (items : List α) (target : Nat) (count : List α → Nat)
    (hne : items ≠ []) :
    ∃ k, trimOldestItems items target count = items.drop k ∧ k < items.length := by
  have hpos : 0 < items.length := List.length_pos_iff.mpr hne
  unfold trimOldestItems
  dsimp only
  split
  · exact ⟨0, rfl, hpos⟩
  · generalize hd : min (max 1 ((count items - target) / max 1 (count items / items.length)))
      (items.length - 1) = drops
    have hlt : drops < items.length := by omega
    obtain ⟨k, hk, hkl⟩ := popWhileOver_drop count target (items.drop drops)
    have := hkl (by simpa [List.drop_eq_nil_iff] using hlt)
    refine ⟨drops + k, by rw [hk, List.drop_drop], ?_⟩
    rw [List.length_drop] at this
    omega

/-- **What it keeps fits the target or is a single item.** -/
theorem trimOldestItems_fits {α : Type} (items : List α) (target : Nat) (count : List α → Nat)
    (hne : items ≠ []) :
    count (trimOldestItems items target count) ≤ target
      ∨ (trimOldestItems items target count).length = 1 := by
  have hpos : 0 < items.length := List.length_pos_iff.mpr hne
  unfold trimOldestItems
  dsimp only
  split
  · rename_i h; exact Or.inl h
  · refine popWhileOver_fits count target _ ?_
    simp only [ne_eq, List.drop_eq_nil_iff]
    omega

/-- A single item is never dropped. -/
theorem trimOldestItems_single {α : Type} (x : α) (target : Nat) (count : List α → Nat) :
    trimOldestItems [x] target count = [x] := by
  simp [trimOldestItems, popWhileOver]

theorem effectiveTarget_le (config : HistoryRuntimeConfig) (triggerTokens targetTokens : Option Int) :
    effectiveTarget config triggerTokens targetTokens ≤ effectiveTrigger config triggerTokens := by
  unfold effectiveTarget effectiveTrigger
  omega

end YapInference
