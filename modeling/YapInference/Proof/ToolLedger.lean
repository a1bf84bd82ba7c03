import YapInference.Proof.ToolWrites

/-!
# The tool history of a connection

The tool store is the end of the ledger, clipped to the budget.

What it relies on are new ids. A plan reserves one when it is made, long before the task stores its
text, and in between turns are cancelled and others planned. But ids are drawn in order, and only
the newest turn can still be dispatched: the one that stores has the greatest id there is.
-/

namespace YapInference

open Py Conn Lts

/-! ## The ledger of a connection -/

/-- The id a turn reserved is past all in the ledger. -/
def Upcoming (nextId : Nat) (ids : List TurnId) (plan : TurnPlan) : Prop :=
  ∀ i, plan.historyTurnId = some i → i < nextId ∧ ∀ j ∈ ids, j < i

/-- The store of a connection is the end of its ledger, and whoever can still be dispatched comes
after it. -/
structure Keeps (deps : Deps) (budget : Int) (c : Conn deps.sanitizer) (ids : List TurnId) :
    Prop where
  marked : Marked deps c
  store : Ledgered deps.sh budget (HistoryController.toolTurns c.session) ids
  drawn : ∀ i ∈ ids, i < c.nextId
  beginning : ∀ plan, c.phase = .beginning plan → Upcoming c.nextId ids plan
  created : ∀ (id : TaskId) (t : Task deps.sanitizer), c.tasks[id]? = some t →
    t.isLive = true → t.phase = .created → Upcoming c.nextId ids t.plan

theorem Upcoming.mono {n m : Nat} {ids : List TurnId} {plan : TurnPlan} (h : Upcoming n ids plan)
    (hle : n ≤ m) : Upcoming m ids plan :=
  fun i hi => ⟨Nat.lt_of_lt_of_le (h i hi).1 hle, (h i hi).2⟩

theorem keeps_init (deps : Deps) (budget : Int) (clientId : Text) :
    Keeps deps budget (Conn.init deps.sanitizer deps.sh.server clientId) [] where
  marked := marked_init deps clientId
  store := ⟨⟨Nat.zero_le _, List.nodup_nil, fun _ h => absurd h List.not_mem_nil⟩,
    List.suffix_rfl, List.Pairwise.nil⟩
  drawn := fun _ h => absurd h List.not_mem_nil
  beginning := nofun
  created := fun _ _ h => absurd h (by simp [Conn.init])

/-- A turn adds its own id to the ledger, if anything. -/
theorem mem_recordTool {sh : SessionHandler} {s : SessionState} {ids : List TurnId}
    {plan : TurnPlan} {freshId : TurnId} {i : TurnId}
    (h : i ∈ recordTool sh s ids (plan.toolOp freshId)) :
    i ∈ ids ∨ i = plan.historyTurnId.getD freshId := by
  unfold TurnPlan.toolOp recordTool at h
  dsimp only at h
  split at h
  · exact Or.inl h
  · split at h
    · exact Or.inl h
    · exact (List.mem_append.mp h).imp_right List.mem_singleton.mp

section Step

variable {deps : Deps} {budget : Int} (htool : deps.sh.historyConfig.deployTool = true)
  (hbudget : deps.sh.toolHistoryBudget = some budget) (hpos : 0 < budget)
  {c c' : Conn deps.sanitizer} {label : Label} {ids : List TurnId}

/-- A step that leaves the store alone. -/
theorem Keeps.same (h : Keeps deps budget c ids) (hmarked : Marked deps c')
    (hsame : HistoryController.toolTurns c'.session = HistoryController.toolTurns c.session)
    (hdrawn : c.nextId ≤ c'.nextId)
    (hbegins : ∀ plan, c'.phase = .beginning plan → Upcoming c'.nextId ids plan)
    (hcreated : ∀ (id : TaskId) (t : Task deps.sanitizer), c'.tasks[id]? = some t →
      t.isLive = true → t.phase = .created → Upcoming c'.nextId ids t.plan) :
    Keeps deps budget c' ids where
  marked := hmarked
  store := hsame.symm ▸ h.store
  drawn := fun i hi => Nat.lt_of_lt_of_le (h.drawn i hi) hdrawn
  beginning := hbegins
  created := hcreated

include htool hbudget hpos

/-- A turn is dispatched: of all turns it is the only one that can be. -/
theorem Keeps.dispatched (h : Keeps deps budget c ids) {id : TaskId} {t : Task deps.sanitizer}
    {session : SessionState} {phase : TaskPhase deps.sanitizer}
    (hmarked : Marked deps (c.moved id { t with phase := phase, cancelPending := false } session 1))
    (ht : c.tasks[id]? = some t) (hp : t.phase = .created) (hlive : t.isLive = true)
    (hbegun : phase ≠ .created)
    (hsession : HistoryController.toolTurns session = if deps.preparesTool t.plan then
        HistoryController.toolTurns ((t.plan.toolOp c.nextId).apply deps.sh c.session)
      else HistoryController.toolTurns c.session) :
    Keeps deps budget (c.moved id { t with phase := phase, cancelPending := false } session 1)
      (recordAsked deps.sh c.session ids
        (if deps.preparesTool t.plan then some (t.plan.toolOp c.nextId) else none)) := by
  have hup := h.created id t ht hlive hp
  have hnew : ∀ i ∈ ids, i < t.plan.historyTurnId.getD c.nextId := by
    intro i hi
    cases hid : t.plan.historyTurnId with
    | none => exact h.drawn i hi
    | some j => exact (hup j hid).2 i hi
  have hown : t.plan.historyTurnId.getD c.nextId < c.nextId + 1 := by
    cases hid : t.plan.historyTurnId with
    | none => exact Nat.lt_succ_self _
    | some j => exact Nat.lt_succ_of_lt (hup j hid).1
  have hquiet : ∀ plan, c.phase ≠ .beginning plan := by
    intro plan hbegin
    have hnone := h.marked.settled.tracked.quiescent (by rw [hbegin]; rfl) id t ht
    rw [hnone] at hlive
    cases hlive
  refine ⟨hmarked, ?_, ?_, fun plan hbegin => absurd hbegin (hquiet plan), ?_⟩
  · show Ledgered deps.sh budget (HistoryController.toolTurns session) _
    rw [hsession]
    split
    · exact ledgered_op htool hbudget hpos h.store hnew
    · exact h.store
  · intro i hi
    show i < c.nextId + 1
    have hcases : i ∈ ids ∨ i = t.plan.historyTurnId.getD c.nextId := by
      split at hi
      · exact mem_recordTool hi
      · exact Or.inl hi
    rcases hcases with hi | rfl
    · exact Nat.lt_succ_of_lt (h.drawn i hi)
    · exact hown
  · intro id' u hu hl hcreated
    rcases getElem?_set_cases hu with ⟨rfl, rfl⟩ | ⟨hother, hu⟩
    · exact absurd hcreated hbegun
    · exact absurd (h.marked.settled.tracked.atMostOne hu ht hl hlive) hother

theorem Keeps.task (h : Keeps deps budget c ids) {id : TaskId} {event : TaskEvent}
    (hmarked : Marked deps c') (hs : TaskSteps deps c id event c') :
    Keeps deps budget c' (c.recordTools deps (.task id event) ids) := by
  -- a task that does not run anew is none of those that can be dispatched
  have hstays : ∀ {u : Task deps.sanitizer} {session : SessionState} {n : Nat},
      u.phase ≠ .created → Marked deps (c.moved id u session n) →
      HistoryController.toolTurns session = HistoryController.toolTurns c.session →
      Keeps deps budget (c.moved id u session n) ids := by
    intro u session n hbegun hmarked hsame
    have hle : c.nextId ≤ (c.moved id u session n).nextId := Nat.le_add_right _ _
    refine h.same hmarked hsame hle (fun plan hp => (h.beginning plan hp).mono hle) ?_
    intro id' t' ht' hl hp
    rcases getElem?_set_cases ht' with ⟨rfl, rfl⟩ | ⟨-, ht'⟩
    · exact absurd hp hbegun
    · exact (h.created id' t' ht' hl hp).mono hle
  cases hs with
  | @streamed t turn turn' event now ht hadmits hp hturn =>
      refine hstays ?_ hmarked ((commitAppends_writes _ _ _).toolTurns htool)
      show phaseOfTurn deps.sh.lower turn' ≠ .created
      unfold phaseOfTurn
      split
      · exact TaskPhase.begun_of_undecided (phaseOfOutcome_quiet _ _).2
      · exact nofun
  | @ran t _ session phase ht hadmits hrun =>
      rcases runTask_tool htool hrun with ⟨hp, ⟨now, rfl⟩, hsession⟩ | ⟨hevent, hsame⟩
      · have hop : c.toolOp deps (.task id (.run now))
            = if deps.preparesTool t.plan then some (t.plan.toolOp c.nextId) else none := by
          by_cases hprepares : deps.preparesTool t.plan = true <;>
            simp [Conn.toolOp, ht, hprepares]
        rw [recordTools, hop]
        have hlive := h.marked.settled.live_of_mayStream ht (by rw [hp]; rfl)
          (not_pending_of_admits hadmits nofun)
        exact h.dispatched htool hbudget hpos hmarked ht hp hlive (runTask_begun hrun) hsession
      · have hop : c.toolOp deps (.task id event) = none := by
          cases event with
          | run now => exact absurd rfl (hevent now)
          | _ => rfl
        rw [recordTools, hop]
        exact hstays (runTask_begun hrun) hmarked hsame

omit hbudget hpos in
theorem Keeps.handler (h : Keeps deps budget c ids) (hmarked : Marked deps c')
    (hl : LoopSteps deps c label c') (hlabel : ∀ msg now, label ≠ .recv (.start msg) now) :
    Keeps deps budget c' ids := by
  obtain ⟨hle, hbegins⟩ := loopSteps_draws htool hl
  refine h.same hmarked (loopSteps_tool htool hl hlabel) hle (fun plan hp i hi => ?_) ?_
  · obtain ⟨hpast, hlt⟩ := (hbegins plan hp).2 i hi
    exact ⟨hlt, fun j hj => Nat.lt_of_lt_of_le (h.drawn j hj) hpast⟩
  · intro id t ht hlive hp
    rcases (loopSteps_tasks hl).live ht hlive with ht | ⟨plan, hbegin, rfl⟩
    · exact (h.created id t ht hlive hp).mono hle
    · exact (h.beginning plan hbegin).mono hle

omit htool hbudget hpos in
theorem handleStart_nextId (c : Conn deps.sanitizer) (msg : Dict Text Json) :
    (c.handleStart deps msg).nextId
      = if c.started then c.nextId else c.nextId + historyLength msg := by
  unfold handleStart
  split
  · rfl
  · dsimp only
    split
    · unfold replyTurnError
      split <;> rfl
    · unfold raiseLoop
      dsimp only
      split <;> rfl
    · rfl

theorem Keeps.start (h : Keeps deps budget c ids) {msg : Dict Text Json} {now : ℚ}
    (hmarked : Marked deps c') (hs : c.step deps (.recv (.start msg) now) = some c') :
    Keeps deps budget c' (c.recordTools deps (.recv (.start msg) now) ids) := by
  have hl := loopSteps_of_loopStep hs
  obtain ⟨hle, hbegins⟩ := loopSteps_draws htool hl
  have hnoturn : ∀ plan, c'.phase ≠ .beginning plan := fun plan hp =>
    (hbegins plan hp).1 msg now rfl
  cases hp : c.phase with
  | receiving =>
      have hhandle : c' = c.handle deps (.start msg) now := by
        simpa [step, loopStep, hp] using hs.symm
      have hkept : ∀ (id : TaskId) (t : Task deps.sanitizer), c'.tasks[id]? = some t →
          t.isLive = true → c.tasks[id]? = some t := by
        intro id t ht hlive
        rcases (loopSteps_tasks hl).live ht hlive with ht | ⟨plan, hbegin, -⟩
        · exact ht
        · rw [hp] at hbegin
          cases hbegin
      by_cases hstart : c.startOf (.recv (.start msg) now) = none
      · -- it is answered, and not looked at
        rw [recordTools, show c.toolOp deps (.recv (.start msg) now) = none by
          simp only [Conn.toolOp, hstart, Option.bind_none]]
        refine h.same hmarked ?_ hle (fun plan hp => absurd hp (hnoturn plan)) ?_
        rotate_left
        · intro id t ht hlive hcreated
          exact (h.created id t (hkept id t ht hlive) hlive hcreated).mono hle
        rw [hhandle]
        unfold handle
        dsimp only
        split
        · rename_i hadmitted
          rw [handleStart_session]
          split
          · rfl
          · rename_i hst
            exact absurd hstart (by simp_all [startOf])
        · rfl
      · obtain ⟨hadmitted, hst⟩ : (c.messageLimiter.consume now).2 = true ∧ c.started = false := by
          simpa [startOf, hp] using hstart
        have hsession : c'.session = (bootstrapStartTurn deps.sh deps.parsing deps.promptText
            (fun i => c.nextId + i) c.session msg).state := by
          rw [hhandle]
          unfold handle
          dsimp only
          rw [if_pos hadmitted, handleStart_session]
          exact if_neg (by simp [hst])
        have hnext : c'.nextId = c.nextId + historyLength msg := by
          rw [hhandle]
          unfold handle
          dsimp only
          rw [if_pos hadmitted, handleStart_nextId]
          exact if_neg (by simp [hst])
        obtain ⟨hstore, hdrawn⟩ := ledgered_bootstrap htool hbudget hpos h.store h.drawn msg
        rw [recordTools, show c.toolOp deps (.recv (.start msg) now)
            = startImport deps (fun i => c.nextId + i) c.session msg by
          simp [Conn.toolOp, startOf, hp, hadmitted, hst]]
        refine ⟨hmarked, hsession ▸ hstore, hnext ▸ hdrawn, fun plan hp => absurd hp (hnoturn plan),
          fun id t ht hlive _ => ?_⟩
        have hbefore := hkept id t ht hlive
        rw [(h.marked.unstarted hst).1] at hbefore
        cases hbefore
  | _ => simp [step, loopStep, hp] at hs

/-- **Preserved by every step.** -/
theorem keeps_step (h : Keeps deps budget c ids) (hs : c.step deps label = some c') :
    Keeps deps budget c' (c.recordTools deps label ids) := by
  have hmarked := (marked_step h.marked hs).1
  have hloop : (∀ msg now, label ≠ .recv (.start msg) now) → c.toolOp deps label = none →
      LoopSteps deps c label c' → Keeps deps budget c' (c.recordTools deps label ids) := by
    intro hlabel hop hl
    rw [recordTools, hop]
    exact h.handler htool hmarked hl hlabel
  cases label with
  | watchdog =>
      cases hs
      exact h.same hmarked rfl (Nat.le_refl _) h.beginning h.created
  | task id event => exact h.task htool hbudget hpos hmarked (taskSteps_of_taskStep hs)
  | recv msg now =>
      cases msg with
      | start msg => exact h.start htool hbudget hpos hmarked hs
      | message _ | cancel | ping | pong | endSession =>
          exact hloop (fun _ _ h => by cases h) rfl (loopSteps_of_loopStep hs)
  | recvInvalid _ | recvFailed _ | parseFailed _ | sent _ | closed _ | engineAborted _ | resume =>
      exact hloop (fun _ _ h => by cases h) rfl (loopSteps_of_loopStep hs)

end Step

/-! ## Every run -/

/--
**The tool model is shown the end of what was said to it.** In a tool deployment, over every
sequence of messages, decisions, cancellations and interrupted turns:

* no turn is stored twice, although its id is reserved long before it is stored;
* the store is the last turns of the ledger, in order, whatever was trimmed on the way;
* it fits the budget, and its texts are what is counted, none of them blank.
-/
theorem toolStore_ledger {deps : Deps} {budget : Int}
    (htool : deps.sh.historyConfig.deployTool = true)
    (hbudget : deps.sh.toolHistoryBudget = some budget) (hpos : 0 < budget) {clientId : Text}
    {labels : List Label} {c : Conn deps.sanitizer}
    (h : exec (Conn.step deps) (Conn.init deps.sanitizer deps.sh.server clientId) labels = some c) :
    let ids := Conn.ledger deps (Conn.init deps.sanitizer deps.sh.server clientId) labels
    let stored := HistoryController.toolTurns c.session
    ids.Nodup
      ∧ turnIds stored <:+ ids
      ∧ (countToolTokens (join ['\n'] (stored.map (·.user))) deps.sh.toolTokenizer true : Int)
          ≤ budget
      ∧ ∀ turn ∈ stored, strip turn.user = turn.user ∧ turn.user ≠ [] := by
  have hkeeps : Keeps deps budget c
      (Conn.ledger deps (Conn.init deps.sanitizer deps.sh.server clientId) labels) := by
    refine history_inv (I := fun c ids => Keeps deps budget c ids) ?_
      (keeps_init deps budget clientId) h
    intro c label c' ids hc hs
    exact keeps_step htool hbudget hpos hc hs
  obtain ⟨hstore, hrecent, horder⟩ := hkeeps.store
  refine ⟨horder.imp Nat.ne_of_lt, hrecent, ?_, hstore.users⟩
  have hfits := hstore.fits
  rw [countToolTurns, getUserTexts_of_stripped hstore.users] at hfits
  omega

/-- A start with a history, and a turn that is interrupted before its task has run at all. -/
def unheard : List Label :=
  [.recv (.start (sampleStart [("history".toList, .list [
      .obj [("role".toList, .str "user".toList), ("content".toList, .str "hi ".toList)]])])) 0,
    .sent .ack, .recv (.message (utterance "look".toList)) 0, .resume, .resume]
  ++ interrupts "no, listen" ++ [.task 0 (.chain .cancel 0), .task 1 (.run 0)]

theorem toolStore_ledger_unheard :
    let ids := Conn.ledger (.sample true true)
      (Conn.init plainSanitizer .shipped "client".toList) unheard
    ids = [0, 4]
      ∧ ∃ c, exec (Conn.step (.sample true true))
          (Conn.init plainSanitizer .shipped "client".toList) unheard = some c
        ∧ HistoryController.toolTurns c.session
          = [⟨0, "hi".toList, []⟩, ⟨4, "no, listen".toList, []⟩]
        ∧ turnIds (HistoryController.toolTurns c.session) <:+ ids := by
  have hrun : (exec (Conn.step (.sample true true))
      (Conn.init plainSanitizer .shipped "client".toList) unheard).map
        (fun c => HistoryController.toolTurns c.session)
      = some [⟨0, "hi".toList, []⟩, ⟨4, "no, listen".toList, []⟩] := by decide +kernel
  obtain ⟨c, hc, hstored⟩ := Option.map_eq_some_iff.mp hrun
  have hledger := @toolStore_ledger (.sample true true) 1536 rfl rfl (by decide) "client".toList
    unheard c hc
  exact ⟨by decide +kernel, c, hc, hstored, hledger.2.1⟩

end YapInference
