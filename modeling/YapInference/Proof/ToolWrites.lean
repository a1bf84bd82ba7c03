import YapInference.Lib.Outputs
import YapInference.Proof.ConversationWindow
import YapInference.Proof.ScreenFollowup
import YapInference.Proof.ToolStore

/-!
# What a connection asks of the tool store

Two steps of a connection write to the tool store: a start that imports a history, and the first
step of a task, which stores the text of its turn. `Conn.ledger` keeps the ids of all turns that
were stored, as if nothing were ever trimmed. Everything else leaves the store alone.
-/

namespace YapInference

open Py Conn Lts

/-! ## The ledger -/

/-- What a dispatched turn asks of the tool store. -/
def TurnPlan.toolOp (plan : TurnPlan) (freshId : TurnId) : ToolOp :=
  let toolUser := plan.toolUserUtt.getD []
  let user := if toolUser.isEmpty then plan.chatUserUtt.getD [] else toolUser
  .prepareToolTurn freshId (if plan.deployChat then strip user else user) plan.historyTurnId

/-- `dispatch_execution` gets as far as the tool turn. -/
def Deps.preparesTool (deps : Deps) (plan : TurnPlan) : Bool :=
  plan.deployTool && deps.hasToolAdapter
    && (!plan.deployChat || (deps.hasChatEngine && deps.sh.chatTokenizer.isSome))

/-- What `resolve_history` asks of the tool store: an import, unless there is a history. -/
def historyImport (sh : SessionHandler) (freshId : Nat → TurnId) (session : SessionState)
    (msg : Dict Text Json) : Option ToolOp :=
  match Json.get? msg "history".toList with
  | some (.list items) =>
      if 0 < historyTurnCount session then none
      else
        some (.setModeHistories freshId
          (if sh.historyConfig.deployChat then
            some ((parseHistoryForChat sh.lower items).map ChatMessage.toImported)
          else none)
          (some (parseHistoryForTool sh.lower freshId items)))
  | _ => none

/-- What a start asks of it, if it is valid. -/
def startImport (deps : Deps) (freshId : Nat → TurnId) (session : SessionState)
    (msg : Dict Text Json) : Option ToolOp :=
  match resolveStartInputs deps.sh deps.parsing deps.promptText msg with
  | .error _ => none
  | .ok _ => historyImport deps.sh freshId (deps.sh.initializeSession session) msg

/-- Record an operation on the store. -/
def recordTool (sh : SessionHandler) (session : SessionState) (ids : List TurnId) :
    ToolOp → List TurnId
  | .setModeHistories freshId chat tool =>
      turnIds ((ToolOp.setModeHistories freshId chat tool).untrimmed sh session)
  | .prepareToolTurn freshId toolUserUtt turnId =>
      match ToolOp.fit sh session toolUserUtt with
      | .error _ => ids
      | .ok promptFit =>
          if (strip promptFit.toolUserUtt).isEmpty then ids else ids ++ [turnId.getD freshId]

/-- Record an operation that may not come. -/
def recordAsked (sh : SessionHandler) (session : SessionState) (ids : List TurnId) :
    Option ToolOp → List TurnId
  | some op => recordTool sh session ids op
  | none => ids

namespace Conn

/-- What a step asks of the tool store. -/
def toolOp (deps : Deps) (c : Conn deps.sanitizer) (label : Label) : Option ToolOp :=
  match label with
  | .task id (.run _) =>
      (c.tasks[id]?.filter fun t => deps.preparesTool t.plan).map fun t => t.plan.toolOp c.nextId
  | label =>
      (c.startOf label).bind fun msg => startImport deps (fun i => c.nextId + i) c.session msg

/-- What a step adds to the ledger. -/
def recordTools (deps : Deps) (c : Conn deps.sanitizer) (label : Label) (ids : List TurnId) :
    List TurnId :=
  recordAsked deps.sh c.session ids (c.toolOp deps label)

/-- **The turns of a run that were stored**, in order. -/
def ledger (deps : Deps) (c : Conn deps.sanitizer) (labels : List Label) : List TurnId :=
  Lts.history (Conn.step deps) (recordTools deps) c [] labels

end Conn

/-! ## One operation -/

/-- A stored text is stripped, and not blank. -/
def Stripped (text : Text) : Prop := strip text = text ∧ text ≠ []

/-- The store is the end of the ledger, and the ids of the ledger go up. -/
structure Ledgered (sh : SessionHandler) (budget : Int) (stored : List HistoryTurn)
    (ids : List TurnId) : Prop where
  store : ToolStoreInv Stripped sh.toolTokenizer budget.toNat stored
  recent : turnIds stored <:+ ids
  order : ids.Pairwise (· < ·)

/-- An operation brings ids that go up, and past those there are. -/
def ToolOp.Appends (ids : List TurnId) : ToolOp → Prop
  | .setModeHistories freshId _ tool =>
      freshId.Injective ∧ ∃ turns, tool = some turns ∧ (turnIds turns).Pairwise (· < ·)
        ∧ ∀ turn ∈ turns, Stripped turn.user
  | .prepareToolTurn freshId _ turnId => ∀ i ∈ ids, i < turnId.getD freshId

section Op

variable {sh : SessionHandler} {budget : Int} (htool : sh.historyConfig.deployTool = true)
  (hbudget : sh.toolHistoryBudget = some budget) (hpos : 0 < budget)

theorem turnIds_import {freshId : Nat → TurnId} {chatMessages : List ChatMessage}
    {turns : List HistoryTurn} :
    (turnIds (HistoryController.buildImportedToolTurns freshId chatMessages (some turns))).Sublist
      (turnIds turns) := by
  unfold HistoryController.buildImportedToolTurns turnIds
  rw [Option.getD_some, List.map_map]
  exact List.filter_sublist.map _

/-- A new id is placed at the end. -/
theorem turnIds_place {freshId : TurnId} {turns : List HistoryTurn} {turnId : Option TurnId}
    (hnew : turnId.getD freshId ∉ turnIds turns) (user : Text) :
    turnIds (ToolOp.place freshId turns user turnId) = turnIds turns ++ [turnId.getD freshId] := by
  unfold ToolOp.place
  split
  · rename_i i hi
    obtain ⟨hlt, hsame, -⟩ := List.findIdx?_eq_some_iff_getElem.mp hi
    refine absurd ?_ hnew
    rw [← of_decide_eq_true hsame]
    exact List.mem_map.mpr ⟨_, List.getElem_mem hlt, rfl⟩
  · simp [turnIds]

include htool hbudget hpos

/-- **Preserved by every operation** that brings new ids. -/
theorem ledgered_op {state : SessionState} {ids : List TurnId} {op : ToolOp}
    (h : Ledgered sh budget (HistoryController.toolTurns state) ids) (hop : op.Appends ids) :
    Ledgered sh budget (HistoryController.toolTurns (op.apply sh state))
      (recordTool sh state ids op) := by
  have hclean : ∀ t, Clean t → Stripped t := fun t ht => ⟨ht.strip_eq, ht.ne⟩
  have hfresh : ToolOp.DrawsFresh state op := by
    cases op with
    | setModeHistories freshId chat tool =>
        obtain ⟨hinj, turns, rfl, hturns, -⟩ := hop
        exact ⟨hinj, fun _ heq => Option.some.inj heq ▸ hturns.imp Nat.ne_of_lt⟩
    | prepareToolTurn freshId user turnId =>
        intro hnone hmem
        have hlt := hop freshId (h.recent.subset hmem)
        rw [hnone] at hlt
        exact Nat.lt_irrefl _ hlt
  have himports : op.Imports Stripped := by
    cases op with
    | setModeHistories freshId chat tool =>
        obtain ⟨-, turns, rfl, -, hstripped⟩ := hop
        exact fun turn hturn _ => hstripped turn hturn
    | prepareToolTurn _ _ _ => trivial
  obtain ⟨hstore, hids⟩ := toolStoreInv_step htool hbudget hpos hclean h.store hfresh himports
  cases op with
  | setModeHistories freshId chat tool =>
      obtain ⟨-, turns, rfl, hturns, -⟩ := hop
      exact ⟨hstore, hids, hturns.sublist turnIds_import⟩
  | prepareToolTurn freshId user turnId =>
      have hnew : turnId.getD freshId ∉ turnIds (HistoryController.toolTurns state) :=
        fun hmem => Nat.lt_irrefl _ (hop _ (h.recent.subset hmem))
      unfold ToolOp.untrimmed at hids
      unfold recordTool
      dsimp only at hids ⊢
      split
      · rename_i hfit
        rw [hfit] at hids
        exact ⟨hstore, hids.trans h.recent, h.order⟩
      · rename_i promptFit hfit
        rw [hfit] at hids
        dsimp only at hids
        split
        · rename_i hblank
          rw [if_pos hblank] at hids
          exact ⟨hstore, hids.trans h.recent, h.order⟩
        · rename_i hblank
          rw [if_neg hblank, turnIds_place hnew] at hids
          obtain ⟨before, hbefore⟩ := h.recent
          refine ⟨hstore, hids.trans ⟨before, by rw [← List.append_assoc, hbefore]⟩, ?_⟩
          refine List.pairwise_append.mpr ⟨h.order, List.pairwise_singleton _ _, ?_⟩
          intro i hi j hj
          rw [List.mem_singleton.mp hj]
          exact hop i hi

end Op

/-- The turns of a history item list have the ids they draw. -/
theorem turnIds_parseHistoryForTool (lower : Lower) (n : Nat) (items : List Json) :
    turnIds (parseHistoryForTool lower (fun i => n + i) items)
      = (List.range (parseHistoryForTool lower (fun i => n + i) items).length).map (n + ·)
      ∧ (parseHistoryForTool lower (fun i => n + i) items).length ≤ items.length := by
  refine ⟨?_, ?_⟩
  · refine List.ext_getElem (by simp [turnIds]) fun i _ _ => ?_
    simp [turnIds, parseHistoryForTool]
  · unfold parseHistoryForTool
    rw [List.length_mapIdx]
    exact (List.length_filter_le _ _).trans (List.length_filterMap_le _ _)

/-! ## What a turn asks of the store -/

theorem planMessageTurn_tool {sh : SessionHandler} (htool : sh.historyConfig.deployTool = true)
    {parsing : NumberParsing} {ids : PlanIds} {s s' : SessionState} {msg : Dict Text Json}
    {plan : TurnPlan} (h : planMessageTurn sh parsing ids s msg = .planned s' plan) :
    HistoryController.toolTurns s' = HistoryController.toolTurns s
      ∧ ∀ i, plan.historyTurnId = some i → i = ids.turnId := by
  obtain ⟨_, _, -, rfl, rfl⟩ := planMessageTurn_planned h
  refine ⟨syncModeStorage_tool htool _, fun i hi => ?_⟩
  change sh.history.reserveTurnId ids.turnId _ _ = some i at hi
  unfold HistoryController.reserveTurnId at hi
  obtain ⟨-, hi⟩ := Option.ite_none_right_eq_some.mp hi
  exact (Option.some.inj hi).symm

section Tasks

variable {deps : Deps} {freshId : TurnId} {s : SessionState} {plan : TurnPlan}

theorem startStream_tool (isTool : Bool) (now : ℚ) :
    HistoryController.toolTurns (startStream deps s plan isTool now).1
      = HistoryController.toolTurns s := by
  rw [startStream_session, chatUserUttForPlan_session]
  rfl

theorem routeTool_tool (htool : deps.sh.historyConfig.deployTool = true) (user : Text)
    (turnId : Option TurnId) :
    HistoryController.toolTurns (routeTool deps s (deps.sh.prepareToolTurn freshId s user turnId)).1
      = HistoryController.toolTurns
          ((ToolOp.prepareToolTurn freshId user turnId).apply deps.sh s) := by
  cases hprepared : deps.sh.prepareToolTurn freshId s user turnId with
  | ok prepared =>
      simp only [ToolOp.apply, hprepared]
      rfl
  | error e =>
      simp only [ToolOp.apply, hprepared]
      exact (syncModeStorage_tool htool s).symm

/-- A dispatched turn asks the store for one thing, or for nothing. -/
theorem dispatchExecution_tool (htool : deps.sh.historyConfig.deployTool = true) (now : ℚ) :
    HistoryController.toolTurns (dispatchExecution deps freshId s plan now).1
      = if deps.preparesTool plan then
          HistoryController.toolTurns ((plan.toolOp freshId).apply deps.sh s)
        else HistoryController.toolTurns s := by
  unfold dispatchExecution Deps.preparesTool TurnPlan.toolOp
  cases hchat : plan.deployChat <;> cases htool' : plan.deployTool
  · simp
  · cases hadapter : deps.hasToolAdapter
    · simp
    · simp only [Bool.false_and, Bool.and_self, Bool.not_true, Bool.not_false, Bool.true_or,
        Bool.false_eq_true, if_false, if_true]
      exact routeTool_tool htool _ _
  · simp only [Bool.and_false, Bool.false_and, Bool.false_eq_true, if_false, if_true]
    split
    · rfl
    · exact startStream_tool _ _
  · cases hadapter : deps.hasToolAdapter <;> cases hengine : deps.hasChatEngine
      <;> cases htok : deps.sh.chatTokenizer
    all_goals simp only [Bool.and_self, Bool.and_true, Bool.and_false, Bool.not_true,
        Bool.not_false, Bool.or_true, Bool.or_false, Bool.or_self, Option.isNone_some,
        Option.isNone_none, Option.isSome_some, Option.isSome_none, Bool.false_eq_true, if_false,
        if_true]
    exact routeTool_tool htool _ _

/-- **A task asks something of the tool store when it is dispatched**, and at no other time. -/
theorem runTask_tool (htool : deps.sh.historyConfig.deployTool = true) {s' : SessionState}
    {phase phase' : TaskPhase deps.sanitizer} {event : TaskEvent}
    (h : runTask deps freshId s plan phase event = some (s', phase')) :
    (phase = .created ∧ (∃ now, event = .run now)
        ∧ HistoryController.toolTurns s' = if deps.preparesTool plan then
            HistoryController.toolTurns ((plan.toolOp freshId).apply deps.sh s)
          else HistoryController.toolTurns s)
      ∨ (∀ now, event ≠ .run now)
        ∧ HistoryController.toolTurns s' = HistoryController.toolTurns s := by
  have hsend : ∀ {e : ChainEvent} {next : SessionState × TaskPhase deps.sanitizer},
      HistoryController.toolTurns next.1 = HistoryController.toolTurns s →
      afterTaskSend deps s e next = some (s', phase') →
      HistoryController.toolTurns s' = HistoryController.toolTurns s := by
    intro e next hnext hs
    rcases afterTaskSend_followup hs with ⟨_, _, _, _, _, heq⟩ | ⟨_, _, _, _, heq⟩
    · rw [← hnext, ← heq]
    · rw [heq]
  unfold runTask at h
  split at h
  · injection h with h
    have hdispatched := @dispatchExecution_tool deps freshId s plan htool ‹ℚ›
    rw [h] at hdispatched
    exact Or.inl ⟨rfl, ⟨_, rfl⟩, hdispatched⟩
  · cases h; exact Or.inr ⟨nofun, rfl⟩
  · cases h; exact Or.inr ⟨nofun, rfl⟩
  · cases h; exact Or.inr ⟨nofun, rfl⟩
  · cases h; exact Or.inr ⟨nofun, rfl⟩
  · refine Or.inr ⟨nofun, hsend ?_ h⟩
    split
    · exact startStream_tool _ _
    · rfl
  · exact Or.inr ⟨nofun, hsend rfl h⟩
  · exact Or.inr ⟨nofun, hsend rfl h⟩
  · exact Or.inr ⟨nofun, hsend rfl h⟩
  · obtain ⟨result, -, heq⟩ := Option.map_eq_some_iff.mp h
    cases heq
    exact Or.inr ⟨nofun, rfl⟩
  · cases h
    exact Or.inr ⟨nofun, (cleanupSessionRequests_writes _ _ _).toolTurns⟩
  · cases h; exact Or.inr ⟨nofun, rfl⟩
  · cases h

theorem TaskPhase.begun_of_undecided {S : Sanitizer} {phase : TaskPhase S}
    (h : phase.mayStream = false) : phase ≠ .created := by
  rintro rfl
  cases h

theorem routeTool_begun (prepared : Except Exc (SessionState × Text × Text)) :
    (routeTool deps s prepared).2 ≠ .created := by
  cases prepared with
  | ok _ => exact nofun
  | error e => exact TaskPhase.begun_of_undecided (phaseOfOutcome_quiet _ _).2

theorem dispatchExecution_begun (now : ℚ) :
    (dispatchExecution deps freshId s plan now).2 ≠ .created := by
  have houtcome : ∀ outcome,
      phaseOfOutcome (S := deps.sanitizer) deps.sh.lower outcome ≠ .created :=
    fun outcome => TaskPhase.begun_of_undecided (phaseOfOutcome_quiet _ _).2
  unfold dispatchExecution
  dsimp only
  split
  · split
    · exact houtcome _
    · exact routeTool_begun _
  · split
    · split
      · exact houtcome _
      · exact TaskPhase.begun_of_undecided (startStream_undecided _ _)
    · split
      · split
        · exact houtcome _
        · exact routeTool_begun _
      · exact nofun

/-- A task runs once. -/
theorem runTask_begun {s' : SessionState} {phase phase' : TaskPhase deps.sanitizer}
    {event : TaskEvent} (h : runTask deps freshId s plan phase event = some (s', phase')) :
    phase' ≠ .created := by
  cases taskRuns_of_runTask h with
  | dispatched => exact dispatchExecution_begun _
  | neverRan | decided | cancelledRouting | replied _ | completed | cancelledCompleting =>
      exact nofun
  | toolRaised | sendRaised _ _ _ =>
      exact TaskPhase.begun_of_undecided (phaseOfOutcome_quiet _ _).2
  | toolSent _ _ =>
      split
      · exact TaskPhase.begun_of_undecided (startStream_undecided _ _)
      · exact nofun
  | sent hnext _ _ =>
      rintro rfl
      cases phase <;> cases hnext

end Tasks

/-! ## A start -/

theorem historyLength_items {msg : Dict Text Json} {items : List Json}
    (h : Json.get? msg "history".toList = some (.list items)) :
    historyLength msg = items.length := by
  rw [historyLength, h]

theorem validateMessageItem_stripped {lower : Lower} {item : Json} {valid : Text × Text}
    (h : validateMessageItem lower item = some valid) : Stripped valid.2 := by
  unfold validateMessageItem at h
  split at h
  · split at h
    · dsimp only at h
      split at h
      · cases h
      · rename_i content _ _ hblank
        injection h with h
        have hclean : Clean (strip content) := clean_strip fun hnil => hblank (by simp [hnil])
        rw [← h]
        exact ⟨hclean.strip_eq, hclean.ne⟩
    · cases h
  · cases h

theorem parseHistoryForTool_stripped (lower : Lower) (freshId : Nat → TurnId) (items : List Json) :
    ∀ turn ∈ parseHistoryForTool lower freshId items, Stripped turn.user := by
  intro turn hturn
  obtain ⟨i, hi, rfl⟩ := List.mem_mapIdx.mp hturn
  obtain ⟨hitem, -⟩ := List.mem_filter.mp (List.getElem_mem hi)
  obtain ⟨item, -, hvalid⟩ := List.mem_filterMap.mp hitem
  exact validateMessageItem_stripped hvalid

/-- What an import records depends on the session only by whether there is a history. -/
theorem recordTool_historyImport {sh : SessionHandler} {freshId : Nat → TurnId}
    {s₁ s₂ : SessionState} (hcount : historyTurnCount s₁ = historyTurnCount s₂)
    (s₃ : SessionState) (ids : List TurnId) (msg : Dict Text Json) :
    recordAsked sh s₁ ids (historyImport sh freshId s₁ msg)
      = recordAsked sh s₃ ids (historyImport sh freshId s₂ msg) := by
  unfold historyImport
  rw [hcount]
  split
  · split <;> rfl
  · rfl

section Start

variable {deps : Deps} {budget : Int} (htool : deps.sh.historyConfig.deployTool = true)
  (hbudget : deps.sh.toolHistoryBudget = some budget) (hpos : 0 < budget)
include htool hbudget hpos

theorem ledgered_resolveHistory {n : Nat} {s : SessionState} {ids : List TurnId}
    (h : Ledgered deps.sh budget (HistoryController.toolTurns s) ids) (hids : ∀ i ∈ ids, i < n)
    (msg : Dict Text Json) :
    let after := recordAsked deps.sh s ids (historyImport deps.sh (fun i => n + i) s msg)
    Ledgered deps.sh budget
        (HistoryController.toolTurns (resolveHistory deps.sh (fun i => n + i) s msg)) after
      ∧ ∀ i ∈ after, i < n + historyLength msg := by
  dsimp only
  have hsync : ∀ s', HistoryController.toolTurns (deps.sh.getChatMessages s').1
      = HistoryController.toolTurns s' := syncModeStorage_tool htool
  have hsame : (∀ i ∈ ids, i < n + historyLength msg) := fun i hi => Nat.lt_add_right _ (hids i hi)
  by_cases hcount : 0 < historyTurnCount s
  · have hnone : historyImport deps.sh (fun i => n + i) s msg = none := by
      unfold historyImport
      split
      · rw [if_pos hcount]
      · rfl
    rw [resolveHistory, if_pos hcount, hnone, hsync]
    exact ⟨h, hsame⟩
  · rw [resolveHistory, if_neg hcount]
    split
    · rename_i items hitems
      rw [historyImport, hitems]
      dsimp only
      rw [if_neg hcount, hsync]
      have hparsed := turnIds_parseHistoryForTool deps.sh.lower n items
      have hop : ∀ chat, (ToolOp.setModeHistories (fun i => n + i) chat
          (some (parseHistoryForTool deps.sh.lower (fun i => n + i) items))).Appends ids := by
        refine fun chat => ⟨fun i j hij => Nat.add_left_cancel hij, _, rfl, ?_,
          parseHistoryForTool_stripped _ _ _⟩
        rw [hparsed.1]
        exact (List.pairwise_lt_range).map _ fun i j hij => Nat.add_lt_add_left hij n
      refine ⟨?_, fun i hi => ?_⟩
      · cases hchat : deps.sh.historyConfig.deployChat with
        | true =>
            simp only [htool, Bool.and_self, if_true]
            exact ledgered_op htool hbudget hpos h (hop _)
        | false =>
            simp only [htool, Bool.not_false, Bool.and_self, Bool.false_eq_true, if_false, if_true]
            exact ledgered_op htool hbudget hpos h (hop _)
      · have hmem := turnIds_import.subset hi
        rw [hparsed.1] at hmem
        obtain ⟨j, hj, rfl⟩ := List.mem_map.mp hmem
        have hlt := List.mem_range.mp hj
        have hle := hparsed.2
        rw [historyLength_items hitems]
        show n + j < n + items.length
        omega
    · rename_i hnot
      have hnone : historyImport deps.sh (fun i => n + i) s msg = none := by
        unfold historyImport
        split
        · rename_i items hitems
          exact absurd hitems (hnot items)
        · rfl
      rw [hsync, hnone]
      exact ⟨h, hsame⟩

theorem ledgered_bootstrap {n : Nat} {s : SessionState} {ids : List TurnId}
    (h : Ledgered deps.sh budget (HistoryController.toolTurns s) ids) (hids : ∀ i ∈ ids, i < n)
    (msg : Dict Text Json) :
    let after := recordAsked deps.sh s ids (startImport deps (fun i => n + i) s msg)
    Ledgered deps.sh budget (HistoryController.toolTurns (bootstrapStartTurn deps.sh deps.parsing
        deps.promptText (fun i => n + i) s msg).state) after
      ∧ ∀ i ∈ after, i < n + historyLength msg := by
  have hinit : HistoryController.toolTurns (deps.sh.initializeSession s)
      = HistoryController.toolTurns s := syncModeStorage_tool htool s
  have hsame : (∀ i ∈ ids, i < n + historyLength msg) := fun i hi => Nat.lt_add_right _ (hids i hi)
  intro after
  unfold after bootstrapStartTurn startImport
  dsimp only
  split
  · rename_i hraised
    rw [hraised]
    exact ⟨hinit ▸ h, hsame⟩
  · rename_i hraised
    rw [hraised]
    exact ⟨hinit ▸ h, hsame⟩
  · rename_i update hok
    rw [hok]
    have hupdated : Ledgered deps.sh budget (HistoryController.toolTurns
        (updateSessionConfig deps.sh.server deps.sh.countPrefixTokens
          (deps.sh.initializeSession s) update)) ids := hinit ▸ h
    have hresolved := ledgered_resolveHistory htool hbudget hpos hupdated hids msg
    dsimp only at hresolved
    have hcount : historyTurnCount (updateSessionConfig deps.sh.server deps.sh.countPrefixTokens
        (deps.sh.initializeSession s) update)
          = historyTurnCount (deps.sh.initializeSession s) := rfl
    rw [recordTool_historyImport hcount s] at hresolved
    refine ⟨?_, hresolved.2⟩
    have hresolved := hresolved.1
    split
    · exact hresolved
    · split
      · exact hresolved
      · exact hresolved
      · rename_i fitted hfit
        show Ledgered deps.sh budget (HistoryController.toolTurns fitted) _
        rw [(fitStartChatHistory_writes hfit).toolTurns htool]
        exact hresolved

end Start

/-! ## The handler -/

section Loop

variable {deps : Deps} {c c' : Conn deps.sanitizer} {label : Label}

/-- The handler touches the store at a start only. -/
theorem loopSteps_tool (htool : deps.sh.historyConfig.deployTool = true)
    (hl : LoopSteps deps c label c') (hlabel : ∀ msg now, label ≠ .recv (.start msg) now) :
    HistoryController.toolTurns c'.session = HistoryController.toolTurns c.session := by
  cases sessionMoves_of_loop hl with
  | requests hw => exact hw.toolTurns
  | planned hw hplan => exact (planMessageTurn_tool htool hplan).1.trans hw.toolTurns
  | started hstart _ _ => exact absurd hstart (hlabel _ _)

/-- Ids are drawn in order, and a plan reserves one that was not drawn before. -/
theorem loopSteps_draws (htool : deps.sh.historyConfig.deployTool = true)
    (hl : LoopSteps deps c label c') :
    c.nextId ≤ c'.nextId
      ∧ ∀ plan, c'.phase = .beginning plan → (∀ msg now, label ≠ .recv (.start msg) now)
        ∧ ∀ i, plan.historyTurnId = some i → c.nextId ≤ i ∧ i < c'.nextId := by
  have hplans : ∀ {c₀ : Conn deps.sanitizer} {msg}, Plans deps c₀ msg c' →
      c₀.nextId = c.nextId → c.nextId ≤ c'.nextId ∧ ∀ plan, c'.phase = .beginning plan →
        ∀ i, plan.historyTurnId = some i → c.nextId ≤ i ∧ i < c'.nextId := by
    intro c₀ msg hp heq
    cases hp with
    | rejected _ _ _ => exact ⟨by rw [← heq]; exact Nat.le_add_right _ _, fun _ hp => by cases hp⟩
    | planned hplan =>
        refine ⟨by rw [← heq]; exact Nat.le_add_right _ _, fun plan hp i hi => ?_⟩
        cases hp
        rw [(planMessageTurn_tool htool hplan).2 i hi, ← heq]
        show c₀.nextId ≤ c₀.nextId + 1 ∧ c₀.nextId + 1 < c₀.nextId + 2
        omega
  cases hl with
  | @raised _ c₁ e hr =>
      obtain ⟨phase, hphase, heq⟩ := raiseLoop_cases deps.sh.lower c₁ e
      rw [heq]
      refine ⟨?_, fun plan hp => by rcases hphase with rfl | rfl <;> cases hp⟩
      cases hr with
      | received _ _ | parsed _ | sent _ _ | closed _ => exact Nat.le_refl _
      | started _ _ _ _ => exact Nat.le_add_right _ _
      | message _ _ _ _ _ => exact Nat.le_add_right _ _
      | aborted _ _ => exact Nat.le_add_right _ _
  | messagePlans _ _ _ hplan =>
      obtain ⟨hle, hbegins⟩ := hplans hplan rfl
      exact ⟨hle, fun plan hp => ⟨nofun, hbegins plan hp⟩⟩
  | abortedPlans _ hplan =>
      obtain ⟨hle, hbegins⟩ := hplans hplan rfl
      exact ⟨hle, fun plan hp => ⟨nofun, hbegins plan hp⟩⟩
  | startRejected _ _ _ _ _ _ | startAnswered _ _ _ =>
      exact ⟨Nat.le_add_right _ _, fun plan hp => by cases hp⟩
  | pong hphase => exact ⟨Nat.le_refl _, fun plan hp => by rw [hphase] at hp; cases hp⟩
  | @replied _ next _ _ _ _ =>
      cases next <;> exact ⟨Nat.le_refl _, fun plan hp => by cases hp⟩
  | cancelled _ =>
      refine ⟨Nat.le_refl _, fun plan hp => ?_⟩
      dsimp only at hp
      split at hp <;> cases hp
  | began _ =>
      unfold beginSection
      dsimp only
      split <;> exact ⟨Nat.le_refl _, fun plan hp => by cases hp⟩
  | _ => exact ⟨Nat.le_refl _, fun plan hp => by cases hp⟩

end Loop

end YapInference
