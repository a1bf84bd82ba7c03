import Mathlib.Data.List.Nodup
import YapInference.Proof.ChatStore
import YapInference.Lib.Lts

/-!
# The tool store over whole runs

`trim_tool_history` runs after every write to the tool store. Nothing is assumed of the
tokenizer, so a suffix of a list that fits need not fit, and clipping a text need not make it
smaller. What holds all the same is read off the code: trimming stops when the count it has just
taken fits, or at one entry, and that entry is replaced by a text the bisection has counted or
dropped.

The writes are analysed by what they assemble before they trim; the ids are theirs to keep apart,
and trimming only drops some of them from the front.
-/

namespace YapInference

open Py Lts

/-- The ids of some entries, in order. -/
def turnIds (turns : List HistoryTurn) : List TurnId := turns.map (·.turnId)

/-- Every text satisfies `P`. -/
def AllUsers (P : Text → Prop) (turns : List HistoryTurn) : Prop := ∀ turn ∈ turns, P turn.user

/-- The writes to the tool store. -/
inductive ToolOp where
  | setModeHistories (freshId : Nat → TurnId) (chatMessages : Option (List ImportedMessage))
      (toolTurns : Option (List HistoryTurn))
  | prepareToolTurn (freshId : TurnId) (toolUserUtt : Text) (turnId : Option TurnId)

namespace ToolOp

/-- The fit that `prepare_tool_turn` makes of its text. -/
def fit (sh : SessionHandler) (state : SessionState) (toolUserUtt : Text) :
    Except Exc ToolFitResult :=
  fitToolInputToBudget (sh.history.getToolUserTexts state).2
    (sh.stripScreenPrefixes state toolUserUtt) sh.toolTokenizer sh.resolveToolInputBudget

/-- Run one operation. When the fit raises, the store has been synchronised and no more. -/
def apply (sh : SessionHandler) (state : SessionState) : ToolOp → SessionState
  | setModeHistories freshId chatMessages toolTurns =>
      sh.setModeHistories freshId state chatMessages toolTurns
  | prepareToolTurn freshId toolUserUtt turnId =>
      match sh.prepareToolTurn freshId state toolUserUtt turnId with
      | .ok (state', _, _) => state'
      | .error _ => (sh.history.getToolUserTexts state).1

/-- Every operation is always possible. -/
def step (sh : SessionHandler) (state : SessionState) (op : ToolOp) : Option SessionState :=
  some (op.apply sh state)

/-- Run a sequence of operations. -/
def run (sh : SessionHandler) (state : SessionState) (ops : List ToolOp) : SessionState :=
  ops.foldl (fun state op => op.apply sh state) state

/-- The list `append_tool_turn` has when it comes to trim. -/
def place (freshId : TurnId) (turns : List HistoryTurn) (user : Text) (turnId : Option TurnId) :
    List HistoryTurn :=
  match turns.findIdx? (fun t => some t.turnId = turnId) with
  | some i => turns.modify i ({ · with user := user })
  | none => turns ++ [{ turnId := turnId.getD freshId, user := user, assistant := [] }]

/-- The entries this operation has assembled when it comes to trim. -/
def untrimmed (sh : SessionHandler) (state : SessionState) : ToolOp → List HistoryTurn
  | setModeHistories freshId chatMessages toolTurns =>
      HistoryController.buildImportedToolTurns freshId
        (sh.history.buildImportedChatMessages (chatMessages.getD [])) toolTurns
  | prepareToolTurn freshId toolUserUtt turnId =>
      let turns := HistoryController.toolTurns state
      match fit sh state toolUserUtt with
      | .error _ => turns
      | .ok promptFit =>
          let user := strip promptFit.toolUserUtt
          if user.isEmpty then turns else place freshId turns user turnId

/-- The ids that are drawn are new. An id that is passed to `prepare_tool_turn` may be stored. -/
def DrawsFresh (state : SessionState) : ToolOp → Prop
  | setModeHistories freshId _ toolTurns =>
      freshId.Injective ∧ ∀ turns, toolTurns = some turns → (turnIds turns).Nodup
  | prepareToolTurn freshId _ turnId =>
      turnId = none → freshId ∉ turnIds (HistoryController.toolTurns state)

/-- The tool turns this operation imports satisfy `P`, apart from blank ones. -/
def Imports (P : Text → Prop) : ToolOp → Prop
  | setModeHistories _ _ (some turns) => ∀ turn ∈ turns, strip turn.user ≠ [] → P turn.user
  | _ => True

end ToolOp

/-! ## Trimming -/

theorem getUserTexts_of_stripped {turns : List HistoryTurn}
    (h : AllUsers (fun t => strip t = t ∧ t ≠ []) turns) :
    getUserTexts turns = turns.map (·.user) := by
  induction turns with
  | nil => rfl
  | cons turn turns ih =>
      have hrest := ih (fun t ht => h t (List.mem_cons_of_mem _ ht))
      obtain ⟨hstrip, hne⟩ := h turn (by simp)
      rw [getUserTexts] at hrest ⊢
      rw [List.filterMap_cons_some (b := turn.user) (by simp [hstrip, hne]), hrest, List.map_cons]

theorem countToolTurns_single (tok : Option HfTokenizer) {turn : HistoryTurn}
    (h : Clean turn.user) : countToolTurns tok [turn] = countToolTokens turn.user tok true := by
  unfold countToolTurns
  rw [getUserTexts_of_stripped (by simpa [AllUsers] using ⟨h.strip_eq, h.ne⟩)]
  simp [join, List.intercalate]

/-- What is stored of what was assembled. -/
structure TrimmedTurns (P : Text → Prop) (tok : Option HfTokenizer) (budget : Nat)
    (pre stored : List HistoryTurn) : Prop where
  /-- It fits. -/
  fits : countToolTurns tok stored ≤ budget
  /-- Its ids are the last of the ids. -/
  ids : turnIds stored <:+ turnIds pre
  /-- Its texts are what they were, or a clipped one. -/
  users : AllUsers P stored

/-- A suffix of what was assembled, once it is known to fit. -/
theorem trimmedTurns_drop {P : Text → Prop} {tok : Option HfTokenizer} {budget : Nat}
    {pre : List HistoryTurn} (hpre : AllUsers P pre) (k : Nat)
    (hfits : countToolTurns tok (pre.drop k) ≤ budget) :
    TrimmedTurns P tok budget pre (pre.drop k) where
  fits := hfits
  ids := by
    rw [turnIds, List.map_drop]
    exact List.drop_suffix k _
  users turn hturn := hpre turn (List.mem_of_mem_drop hturn)

/-- **Trimming keeps the last entries and the budget.** -/
theorem trimToolTurns_spec {P : Text → Prop} (hP : ∀ t, Clean t → P t) {budget : Int}
    (hbudget : 0 < budget) (tok : Option HfTokenizer) {pre : List HistoryTurn}
    (hpre : AllUsers P pre) :
    TrimmedTurns P tok budget.toNat pre (trimToolTurns budget tok pre) := by
  have heffective : max 1 budget = budget := by omega
  unfold trimToolTurns
  dsimp only
  rw [heffective]
  by_cases hall : countToolTurns tok pre ≤ budget.toNat
  · -- nothing to do
    rw [if_pos hall, ite_self]
    exact trimmedTurns_drop hpre 0 hall
  · have hne : pre ≠ [] := by
      intro heq
      obtain rfl := heq
      exact hall (Nat.zero_le _)
    rw [if_neg hall, if_neg (by simpa using hne)]
    obtain ⟨k, hdrop, -⟩ := trimOldestItems_drop pre budget.toNat (countToolTurns tok) hne
    have hfits := trimOldestItems_fits pre budget.toNat (countToolTurns tok) hne
    rw [hdrop] at hfits ⊢
    split
    · rename_i last hlast
      split
      · -- one entry, and it is too large by itself
        split
        · exact ⟨Nat.zero_le _, List.nil_suffix, fun _ h => absurd h (by simp)⟩
        · rename_i hclipped
          obtain ⟨hclean, hcount⟩ := trimToolTextToBudget_spec
            (fun hnil => hclipped (List.isEmpty_iff.mpr hnil))
          have hids : turnIds (pre.drop k) <:+ turnIds pre := by
            rw [turnIds, List.map_drop]
            exact List.drop_suffix k _
          refine ⟨?_, ?_, ?_⟩
          · rw [countToolTurns_single tok hclean]
            rwa [Int.toNat_natCast] at hcount
          · simpa [turnIds, hlast] using hids
          · simpa [AllUsers] using hP _ hclean
      · rename_i hunder
        exact trimmedTurns_drop hpre k (by omega)
    · rename_i hmany
      refine trimmedTurns_drop hpre k (hfits.resolve_right fun hone => ?_)
      obtain ⟨last, hlast⟩ := List.length_eq_one_iff.mp hone
      exact hmany last hlast

/-! ## What an operation assembles -/

/-- Overwriting a text moves no id. -/
theorem turnIds_modify (turns : List HistoryTurn) (i : Nat) (user : Text) :
    turnIds (turns.modify i ({ · with user := user })) = turnIds turns := by
  refine List.ext_getElem? fun n => ?_
  simp only [turnIds, List.getElem?_map, List.getElem?_modify]
  cases turns[n]? with
  | none => rfl
  | some turn => by_cases h : i = n <;> simp [h]

theorem nodup_place {freshId : TurnId} {turns : List HistoryTurn} {turnId : Option TurnId}
    (h : (turnIds turns).Nodup) (hfresh : turnId = none → freshId ∉ turnIds turns) (user : Text) :
    (turnIds (ToolOp.place freshId turns user turnId)).Nodup := by
  unfold ToolOp.place
  split
  · rw [turnIds_modify]
    exact h
  · rename_i hnot
    -- the id is not stored: it was looked for, or it was drawn
    have hnew : turnId.getD freshId ∉ turnIds turns := by
      cases turnId with
      | none => exact hfresh rfl
      | some id =>
          rw [List.findIdx?_eq_none_iff] at hnot
          intro hid
          obtain ⟨turn, hturn, hsame⟩ := List.mem_map.mp hid
          have := hnot turn hturn
          simp_all
    rw [turnIds, List.map_append, List.nodup_append]
    refine ⟨h, by simp, fun a ha b hb hab => hnew ?_⟩
    simp only [List.map_cons, List.map_nil, List.mem_singleton] at hb
    rw [← hb, ← hab]
    exact ha

theorem allUsers_place {P : Text → Prop} {freshId : TurnId} {turns : List HistoryTurn}
    {turnId : Option TurnId} (h : AllUsers P turns) {user : Text} (huser : P user) :
    AllUsers P (ToolOp.place freshId turns user turnId) := by
  unfold ToolOp.place
  split
  · intro turn hturn
    obtain ⟨n, hn⟩ := List.getElem?_of_mem hturn
    rw [List.getElem?_modify] at hn
    obtain ⟨old, hold, hmodified⟩ := Option.map_eq_some_iff.mp hn
    have hmem := List.mem_of_getElem? hold
    split at hmodified
    · subst hmodified
      exact huser
    · exact hmodified ▸ h old hmem
  · intro turn hturn
    rcases List.mem_append.mp hturn with hturn | hturn
    · exact h turn hturn
    · rw [List.mem_singleton.mp hturn]
      exact huser

/-- An import keeps the entries that are not blank; those made from chat messages are clean. -/
theorem buildImportedToolTurns_users {P : Text → Prop} (hP : ∀ t, Clean t → P t)
    (freshId : Nat → TurnId) {chatMessages : List ChatMessage} (hclean : AllClean chatMessages)
    {toolTurns : Option (List HistoryTurn)}
    (himport : ∀ turns, toolTurns = some turns →
      ∀ turn ∈ turns, strip turn.user ≠ [] → P turn.user) :
    AllUsers P (HistoryController.buildImportedToolTurns freshId chatMessages toolTurns) := by
  intro turn hturn
  obtain ⟨source, hsource, rfl⟩ := List.mem_map.mp hturn
  obtain ⟨hmem, hblank⟩ := List.mem_filter.mp hsource
  cases toolTurns with
  | some turns => exact himport turns rfl source hmem (by simpa using hblank)
  | none =>
      obtain ⟨i, hi, rfl⟩ := List.mem_mapIdx.mp hmem
      exact hP _ (hclean _ (List.mem_filter.mp (List.getElem_mem hi)).1)

/-- Its ids are the caller's, or drawn one by one. -/
theorem buildImportedToolTurns_ids {freshId : Nat → TurnId} (chatMessages : List ChatMessage)
    {toolTurns : Option (List HistoryTurn)} (hinj : freshId.Injective)
    (hids : ∀ turns, toolTurns = some turns → (turnIds turns).Nodup) :
    (turnIds (HistoryController.buildImportedToolTurns freshId chatMessages toolTurns)).Nodup := by
  have hsource : ∀ turns : List HistoryTurn, (turnIds turns).Nodup →
      (turnIds ((turns.filter fun turn => !(strip turn.user).isEmpty).map fun turn =>
        { turnId := turn.turnId, user := turn.user, assistant := [] })).Nodup := by
    intro turns hturns
    rw [turnIds, List.map_map]
    exact hturns.sublist (List.filter_sublist.map _)
  refine hsource _ ?_
  cases toolTurns with
  | some turns => exact hids turns rfl
  | none =>
      -- the i-th entry has the i-th id
      have hdrawn : turnIds (Option.getD none (chatMessages.filter (·.role = .user) |>.mapIdx
          fun i msg => { turnId := freshId i, user := msg.content, assistant := [] }))
            = (List.range (chatMessages.filter (·.role = .user)).length).map freshId := by
        refine List.ext_getElem (by simp [turnIds]) fun n _ _ => ?_
        simp [turnIds]
      rw [hdrawn]
      exact List.Nodup.map hinj List.nodup_range

/-- What an operation assembles keeps the ids apart. -/
theorem untrimmed_ids (sh : SessionHandler) {state : SessionState} {op : ToolOp}
    (h : (turnIds (HistoryController.toolTurns state)).Nodup) (hfresh : ToolOp.DrawsFresh state op) :
    (turnIds (op.untrimmed sh state)).Nodup := by
  cases op with
  | setModeHistories freshId chatMessages toolTurns =>
      exact buildImportedToolTurns_ids _ hfresh.1 hfresh.2
  | prepareToolTurn freshId toolUserUtt turnId =>
      unfold ToolOp.untrimmed
      dsimp only
      split
      · exact h
      · split
        · exact h
        · exact nodup_place h hfresh _

/-- And its texts have the property the stored and the imported ones have. -/
theorem untrimmed_users (sh : SessionHandler) {P : Text → Prop} (hP : ∀ t, Clean t → P t)
    {state : SessionState} {op : ToolOp} (h : AllUsers P (HistoryController.toolTurns state))
    (himports : op.Imports P) :
    AllUsers P (op.untrimmed sh state) := by
  cases op with
  | setModeHistories freshId chatMessages toolTurns =>
      refine buildImportedToolTurns_users hP freshId
        (buildImportedChatMessages_canonical sh.history _).clean fun turns hturns => ?_
      subst hturns
      exact himports
  | prepareToolTurn freshId toolUserUtt turnId =>
      unfold ToolOp.untrimmed
      dsimp only
      split
      · exact h
      · split
        · exact h
        · rename_i hblank
          exact allUsers_place h (hP _ (clean_strip (by simpa using hblank)))

/-! ## One operation -/

/-- What every reachable store satisfies. -/
structure ToolStoreInv (P : Text → Prop) (tok : Option HfTokenizer) (budget : Nat)
    (turns : List HistoryTurn) : Prop where
  /-- It fits. -/
  fits : countToolTurns tok turns ≤ budget
  /-- No id is stored twice. -/
  nodup : (turnIds turns).Nodup
  users : AllUsers P turns

section Step

variable {sh : SessionHandler} {budget : Int} (htool : sh.historyConfig.deployTool = true)
  (hbudget : sh.toolHistoryBudget = some budget) (hpos : 0 < budget)
include htool hbudget hpos

omit hbudget hpos in
theorem syncModeStorage_tool (state : SessionState) :
    HistoryController.toolTurns (sh.history.syncModeStorage state)
      = HistoryController.toolTurns state := by
  simp [HistoryController.syncModeStorage, HistoryController.toolTurns, htool]

theorem trimToolStoreEager_tool (state : SessionState) :
    HistoryController.toolTurns (sh.history.trimToolStoreEager state)
      = trimToolTurns budget sh.toolTokenizer (HistoryController.toolTurns state) := by
  have hne : (budget == 0) = false := beq_eq_false_iff_ne.mpr (by omega)
  unfold HistoryController.trimToolStoreEager HistoryController.toolTurns
  simp only [SessionHandler.history, hbudget, htool, hne, Bool.not_true, Bool.or_self,
    Bool.false_eq_true, if_false, trimToolHistory]
  cases state.toolHistoryTurns with
  | none => simp [trimToolTurns]
  | some turns => rfl

/-- A text that is not blank is placed, and the store trimmed. -/
theorem appendToolTurn_tool (freshId : TurnId) (state : SessionState) (toolUserUtt : Text)
    (turnId : Option TurnId) :
    HistoryController.toolTurns (sh.history.appendToolTurn freshId state toolUserUtt turnId)
      = if strip toolUserUtt = [] then HistoryController.toolTurns state
        else trimToolTurns budget sh.toolTokenizer
          (ToolOp.place freshId (HistoryController.toolTurns state) (strip toolUserUtt) turnId) := by
  unfold HistoryController.appendToolTurn
  dsimp only
  by_cases hblank : strip toolUserUtt = []
  · rw [if_pos (by simp [hblank]), if_pos hblank, syncModeStorage_tool htool]
  · rw [if_neg (by simp [hblank, htool]), if_neg hblank]
    unfold ToolOp.place
    rw [syncModeStorage_tool htool]
    cases (HistoryController.toolTurns state).findIdx? (fun t => some t.turnId = turnId) <;>
      exact trimToolStoreEager_tool htool hbudget hpos _

/-- An operation leaves the trimming of what it assembled, or it assembled nothing. -/
theorem apply_tool (state : SessionState) (op : ToolOp) :
    HistoryController.toolTurns (op.apply sh state)
        = trimToolTurns budget sh.toolTokenizer (op.untrimmed sh state)
      ∨ (op.untrimmed sh state = HistoryController.toolTurns state
        ∧ HistoryController.toolTurns (op.apply sh state) = HistoryController.toolTurns state) := by
  have hsync := syncModeStorage_tool htool state
  cases op with
  | setModeHistories freshId chatMessages toolTurns =>
      refine Or.inl ?_
      simp only [ToolOp.apply, SessionHandler.setModeHistories, HistoryController.setModeHistories,
        HistoryController.setToolHistoryStore, SessionHandler.history_config, htool, Bool.not_true,
        Bool.false_eq_true, if_false]
      rw [trimToolStoreEager_tool htool hbudget hpos]
      rfl
  | prepareToolTurn freshId toolUserUtt turnId =>
      simp only [ToolOp.apply, ToolOp.untrimmed, SessionHandler.prepareToolTurn, ToolOp.fit,
        HistoryController.getToolUserTexts]
      cases fitToolInputToBudget (getUserTexts (HistoryController.toolTurns
          (sh.history.syncModeStorage state))) (sh.stripScreenPrefixes state toolUserUtt)
          sh.toolTokenizer sh.resolveToolInputBudget with
      | error e => exact Or.inr ⟨rfl, hsync⟩
      | ok promptFit =>
          have happend := appendToolTurn_tool htool hbudget hpos freshId
            (sh.history.syncModeStorage state) promptFit.toolUserUtt turnId
          rw [hsync] at happend
          by_cases hblank : strip promptFit.toolUserUtt = []
          · refine Or.inr ⟨by simp [hblank], ?_⟩
            rw [if_pos hblank] at happend
            dsimp only
            split
            · exact hsync
            · exact happend
          · refine Or.inl ?_
            have hne : promptFit.toolUserUtt ≠ [] := fun h => hblank (by rw [h]; rfl)
            rw [if_neg hblank] at happend
            simpa [hblank, hne] using happend

/-- **Preserved by every operation**, which leaves the last of the ids it had. -/
theorem toolStoreInv_step {P : Text → Prop} (hP : ∀ t, Clean t → P t) {state : SessionState}
    {op : ToolOp}
    (h : ToolStoreInv P sh.toolTokenizer budget.toNat (HistoryController.toolTurns state))
    (hfresh : ToolOp.DrawsFresh state op) (himports : op.Imports P) :
    let stored := HistoryController.toolTurns (op.apply sh state)
    ToolStoreInv P sh.toolTokenizer budget.toNat stored
      ∧ turnIds stored <:+ turnIds (op.untrimmed sh state) := by
  dsimp only
  rcases apply_tool htool hbudget hpos state op with happ | ⟨hsame, happ⟩
  · have hids := untrimmed_ids sh h.nodup hfresh
    have hspec := trimToolTurns_spec hP hpos sh.toolTokenizer
      (untrimmed_users sh hP h.users himports)
    rw [happ]
    exact ⟨⟨hspec.fits, hids.sublist hspec.ids.sublist, hspec.users⟩, hspec.ids⟩
  · rw [happ, hsame]
    exact ⟨h, List.suffix_rfl⟩

theorem toolStoreInv_run {P : Text → Prop} (hP : ∀ t, Clean t → P t) {state : SessionState}
    (h : ToolStoreInv P sh.toolTokenizer budget.toNat (HistoryController.toolTurns state))
    {ops : List ToolOp} (hfresh : Meets (ToolOp.step sh) ToolOp.DrawsFresh state ops)
    (himports : ∀ op ∈ ops, op.Imports P) :
    ToolStoreInv P sh.toolTokenizer budget.toNat
      (HistoryController.toolTurns (ToolOp.run sh state ops)) := by
  refine exec_inv_of_meets (I := fun s => ToolStoreInv P sh.toolTokenizer budget.toNat
      (HistoryController.toolTurns s)) (fun s op s' hs hmeets hstep => ?_) h
    (hfresh.and_forall himports) (exec_total _ state ops)
  exact Option.some.inj hstep ▸ (toolStoreInv_step htool hbudget hpos hP hs hmeets.1 hmeets.2).1

end Step

/-! ## Every run -/

/--
**The tool store invariant.** From an empty tool store, after any sequence of imports and
prepared turns and one more, whatever the tokenizer, as long as the ids that are drawn are new:

* the newline-joined texts, special tokens included, fit the budget;
* no id is stored twice, and no text is blank;
* the ids are the last of those the operation had assembled, in order;
* if the imported texts were stripped, the stored ones are, so it is they that are counted.
-/
theorem toolStore_run (sh : SessionHandler) {budget : Int}
    (htool : sh.historyConfig.deployTool = true) (hbudget : sh.toolHistoryBudget = some budget)
    (hpos : 0 < budget) (state₀ : SessionState) (h₀ : HistoryController.toolTurns state₀ = [])
    (ops : List ToolOp) (op : ToolOp)
    (hfresh : Meets (ToolOp.step sh) ToolOp.DrawsFresh state₀ (ops ++ [op])) :
    let state := ToolOp.run sh state₀ ops
    let stored := HistoryController.toolTurns (op.apply sh state)
    (countToolTokens (join ['\n'] (getUserTexts stored)) sh.toolTokenizer true : Int) ≤ budget
      ∧ (turnIds stored).Nodup
      ∧ (∀ turn ∈ stored, strip turn.user ≠ [])
      ∧ turnIds stored <:+ turnIds (op.untrimmed sh state)
      ∧ ((∀ o ∈ ops ++ [op], o.Imports (fun t => strip t = t)) →
          getUserTexts stored = stored.map (·.user)) := by
  dsimp only
  have hstart : ∀ P, ToolStoreInv P sh.toolTokenizer budget.toNat
      (HistoryController.toolTurns state₀) := fun P => by
    rw [h₀]
    exact ⟨Nat.zero_le _, List.nodup_nil, fun _ h => absurd h (by simp)⟩
  obtain ⟨hops, hop⟩ := hfresh.last (exec_total _ state₀ ops)
  have hnonblank : ∀ o : ToolOp, o.Imports (fun t => strip t ≠ []) := by
    rintro (⟨_, _, _ | turns⟩ | _)
    · trivial
    · exact fun _ _ h => h
    · trivial
  have hclean : ∀ t, Clean t → strip t ≠ [] := fun t h => by
    rw [h.strip_eq]
    exact h.ne
  have hinv := toolStoreInv_run htool hbudget hpos hclean (hstart _) hops fun o _ => hnonblank o
  obtain ⟨hinv', hids⟩ := toolStoreInv_step htool hbudget hpos hclean hinv hop (hnonblank op)
  refine ⟨?_, hinv'.nodup, hinv'.users, hids, fun himports => ?_⟩
  · have hfits := hinv'.fits
    unfold countToolTurns at hfits
    omega
  · have hstripped := toolStoreInv_run htool hbudget hpos (fun t h => h.strip_eq) (hstart _) hops
      fun o ho => himports o (List.mem_append_left _ ho)
    obtain ⟨hstripped', -⟩ := toolStoreInv_step htool hbudget hpos (fun t h => h.strip_eq)
      hstripped hop (himports op (by simp))
    refine getUserTexts_of_stripped fun turn hturn => ?_
    have hstrip := hstripped'.users turn hturn
    exact ⟨hstrip, hstrip ▸ hinv'.users turn hturn⟩

/-- A turn is imported, and prepared again under its id. -/
theorem toolStore_run_again :
    let sh := SessionHandler.sample true true
    let again := ToolOp.prepareToolTurn 9 "go on".toList (some 1)
    let state := ToolOp.run sh (.fresh [])
      [.setModeHistories id none (some [⟨1, "stop".toList, []⟩])]
    turnIds (HistoryController.toolTurns (again.apply sh state)) <:+ turnIds (again.untrimmed sh state)
      ∧ again.untrimmed sh state = [⟨1, "go on".toList, []⟩] := by
  have h := toolStore_run (.sample true true) rfl rfl (by decide) (.fresh []) rfl
    [.setModeHistories id none (some [⟨1, "stop".toList, []⟩])]
    (.prepareToolTurn 9 "go on".toList (some 1))
    ⟨⟨Function.injective_id, fun _ h => by obtain rfl := Option.some.inj h; decide⟩,
      fun _ _ => ⟨fun h => absurd h (by simp), fun _ _ => trivial⟩⟩
  exact ⟨h.2.2.2.1, by decide⟩

end YapInference
