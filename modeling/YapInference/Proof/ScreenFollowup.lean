import YapInference.Lib.Outputs
import YapInference.Proof.BargeIn
import YapInference.Proof.WireOrder
import YapInference.WebSocket.Screens

/-!
# Whose screenshot a message comes with

Between the plan of a turn and its decision nobody else decides: the turns before were asked to
cancel when it was planned, and a turn that was asked makes no decision any more. So the note is the
same at both, and what it says is the last decision that was acted on.
-/

namespace YapInference

open Py Conn Lts

/-! ## Who writes the note -/

section Tasks

variable {deps : Deps} {freshId : TurnId} {s : SessionState} {plan : TurnPlan}

/-- A turn that streams has its decision behind it. -/
theorem startStream_undecided (isTool : Bool) (now : ℚ) :
    (startStream deps s plan isTool now).2.mayStream = false := by
  unfold startStream
  dsimp only
  split
  · rfl
  · split
    · rfl
    · exact (phaseOfOutcome_quiet _ _).2
    · rfl

theorem dispatchExecution_followup (now : ℚ) :
    (dispatchExecution deps freshId s plan now).1.screenFollowupPending
      = s.screenFollowupPending := by
  have hroute : ∀ user turnId, (routeTool deps s
      (deps.sh.prepareToolTurn freshId s user turnId)).1.screenFollowupPending
        = s.screenFollowupPending := by
    intro user turnId
    unfold routeTool
    split
    · rename_i he
      exact (prepareToolTurn_writes he).history.screenFollowupPending
    · rfl
  unfold dispatchExecution
  dsimp only
  split
  · split
    · rfl
    · exact hroute _ _
  · split
    · rename_i hnot hchat
      split
      · rfl
      · -- without a tool deployment nothing is noted
        have htool : plan.deployTool = false := by simpa [hchat] using hnot
        rw [startStream_session, chatUserUttForPlan_session, htool]
        rfl
    · split
      · split
        · rfl
        · exact hroute _ _
      · rfl

/-- A send that came back is acted on, or raised, and a cancellation always raises. -/
theorem afterTaskSend_followup {next : SessionState × TaskPhase deps.sanitizer} {e : ChainEvent}
    {s' : SessionState} {phase' : TaskPhase deps.sanitizer}
    (h : afterTaskSend deps s e next = some (s', phase')) :
    (∃ result b, sendResult e = some result ∧ safeSendText result = .ok b ∧ e ≠ .cancel
        ∧ (s', phase') = next)
      ∨ (∃ result r, sendResult e = some result ∧ safeSendText result = .error r ∧ s' = s) := by
  obtain ⟨result, hresult, heq⟩ := Option.map_eq_some_iff.mp h
  split at heq
  · rename_i b hb
    refine Or.inl ⟨result, b, hresult, hb, ?_, heq.symm⟩
    rintro rfl
    cases hresult
    cases hb
  · rename_i r hr
    exact Or.inr ⟨result, r, hresult, hr, (Prod.mk.inj heq).1.symm⟩

/-- **The note is written with the decision**, and by nothing else a task does. -/
theorem runTask_followup {s' : SessionState} {phase phase' : TaskPhase deps.sanitizer}
    {event : TaskEvent} (h : runTask deps freshId s plan phase event = some (s', phase')) :
    (phase.decides plan event = [] ∧ s'.screenFollowupPending = s.screenFollowupPending)
      ∨ ∃ isTool e now, phase = .sendingTool isTool ∧ event = .chain e now ∧ e ≠ .cancel
        ∧ phase.decides plan event = [.decided plan.applyScreenCheckedPrefix isTool]
        ∧ phase'.mayStream = false
        ∧ s'.screenFollowupPending = if isTool then true
          else if plan.applyScreenCheckedPrefix then false else s.screenFollowupPending := by
  -- the other sends leave the session as it is
  have hsend : ∀ {e : ChainEvent} {next : TaskPhase deps.sanitizer},
      afterTaskSend deps s e (s, next) = some (s', phase') →
      s'.screenFollowupPending = s.screenFollowupPending := by
    intro e next hs
    rcases afterTaskSend_followup hs with ⟨_, _, _, _, _, heq⟩ | ⟨_, _, _, _, heq⟩
    · rw [(Prod.mk.inj heq).1]
    · rw [heq]
  unfold runTask at h
  split at h
  · injection h with h
    have hsame := @dispatchExecution_followup deps freshId s plan ‹ℚ›
    rw [h] at hsame
    exact Or.inl ⟨rfl, hsame⟩
  · cases h; exact Or.inl ⟨rfl, rfl⟩
  · cases h; exact Or.inl ⟨rfl, rfl⟩
  · cases h; exact Or.inl ⟨rfl, rfl⟩
  · cases h; exact Or.inl ⟨rfl, rfl⟩
  · rename_i isTool e now
    rcases afterTaskSend_followup h with ⟨result, b, hresult, hb, hne, heq⟩
      | ⟨result, r, hresult, hr, heq⟩
    · cases hchat : plan.deployChat with
      | false =>
          rw [hchat] at heq
          refine Or.inl ⟨by simp [TaskPhase.decides, hresult, hb, hchat], ?_⟩
          rw [(Prod.mk.inj heq).1]
      | true =>
          rw [hchat] at heq
          have hsession := congrArg SessionState.screenFollowupPending ((Prod.mk.inj heq).1.trans
            ((startStream_session _ _ _ _ _).trans (chatUserUttForPlan_session _ _ _ _)))
          cases htool : plan.deployTool with
          | false =>
              rw [htool] at hsession
              exact Or.inl ⟨by simp [TaskPhase.decides, hresult, hb, htool], hsession⟩
          | true =>
              rw [htool] at hsession
              refine Or.inr ⟨isTool, e, now, rfl, rfl, hne, ?_, ?_, hsession⟩
              · simp [TaskPhase.decides, hresult, hb, hchat, htool]
              · rw [(Prod.mk.inj heq).2]
                exact startStream_undecided isTool now
    · exact Or.inl ⟨by simp [TaskPhase.decides, hresult, hr], by rw [heq]⟩
  · exact Or.inl ⟨rfl, hsend h⟩
  · exact Or.inl ⟨rfl, hsend h⟩
  · exact Or.inl ⟨rfl, hsend h⟩
  · obtain ⟨result, -, heq⟩ := Option.map_eq_some_iff.mp h
    cases heq
    exact Or.inl ⟨rfl, rfl⟩
  · cases h
    refine Or.inl ⟨rfl, ?_⟩
    unfold completeRequest cleanupSessionRequests
    split <;> rfl
  · cases h; exact Or.inl ⟨rfl, rfl⟩
  · cases h

end Tasks

theorem bootstrapStartTurn_followup (sh : SessionHandler) (parsing : NumberParsing)
    (pt : PromptText) (freshId : Nat → TurnId) (s : SessionState) (msg : Dict Text Json) :
    (bootstrapStartTurn sh parsing pt freshId s msg).state.screenFollowupPending = false := by
  rcases bootstrapStartTurn_writes sh parsing pt freshId s msg with heq | ⟨update, hwrites⟩
  · rw [heq]
    rfl
  · exact hwrites.screenFollowupPending

/-- What a step of the handler does to the note: a start clears it. -/
inductive NoteMoves {S : Sanitizer} (c c' : Conn S) : Prop where
  | same : c'.session.screenFollowupPending = c.session.screenFollowupPending → NoteMoves c c'
  | cleared : c.started = false → c'.session.screenFollowupPending = false → NoteMoves c c'

section Loop

variable {deps : Deps} {c c' : Conn deps.sanitizer} {label : Label}

theorem noteMoves_of_loop (hs : LoopSteps deps c label c') : NoteMoves c c' := by
  cases sessionMoves_of_loop hs with
  | requests hw => exact .same hw.screenFollowupPending
  | planned hw hplan =>
      obtain ⟨_, _, -, hsession, -⟩ := planMessageTurn_planned hplan
      exact .same (hsession ▸ hw.screenFollowupPending)
  | started _ hst hsession =>
      exact .cleared hst (hsession ▸ bootstrapStartTurn_followup _ _ _ _ _ _)

/-- A plan is made with what the note says. -/
theorem planned_of_loop (hs : LoopSteps deps c label c') {plan : TurnPlan}
    (hp : c'.phase = .beginning plan) :
    plan.applyScreenCheckedPrefix = c'.session.screenFollowupPending := by
  have hplans : ∀ {c₀ : Conn deps.sanitizer} {msg}, Plans deps c₀ msg c' →
      plan.applyScreenCheckedPrefix = c'.session.screenFollowupPending := by
    intro c₀ msg hplan
    cases hplan with
    | rejected _ _ _ => cases hp
    | planned hplan =>
        obtain rfl := LoopPhase.beginning.inj hp
        obtain ⟨_, _, -, rfl, rfl⟩ := planMessageTurn_planned hplan
        rfl
  cases hs with
  | @raised _ c₁ e hr =>
      obtain ⟨phase, hphase, heq⟩ := raiseLoop_cases deps.sh.lower c₁ e
      rw [heq] at hp
      rcases hphase with rfl | rfl <;> cases hp
  | messagePlans _ _ _ hplan => exact hplans hplan
  | abortedPlans _ hplan => exact hplans hplan
  | pong hphase => rw [hphase] at hp; cases hp
  | @replied frame next _ b _ _ => cases next <;> cases hp
  | cancelled _ =>
      dsimp only at hp
      split at hp <;> cases hp
  | began _ =>
      unfold beginSection at hp
      dsimp only at hp
      split at hp <;> cases hp
  | _ => cases hp

end Loop

/-- What the handler leaves live was live, or is the turn that begins. -/
theorem TasksMove.live {S : Sanitizer} {c c' : Conn S} (h : TasksMove c c') {id : TaskId}
    {t' : Task S} (ht : c'.tasks[id]? = some t') (hl : t'.isLive = true) :
    c.tasks[id]? = some t' ∨ ∃ plan, c.phase = .beginning plan ∧ t' = .create plan := by
  cases h with
  | same h => exact Or.inl (h ▸ ht)
  | @asked id' h =>
      rw [h, List.getElem?_modify] at ht
      obtain ⟨t, hget, hmod⟩ := Option.map_eq_some_iff.mp ht
      split at hmod
      · subst hmod
        simp [Task.isLive, Task.cancel] at hl
      · exact Or.inl (hmod ▸ hget)
  | @created plan hp h =>
      rw [h, List.getElem?_append] at ht
      split at ht
      · exact Or.inl ht
      · rw [List.getElem?_singleton] at ht
        split at ht
        · exact Or.inr ⟨plan, hp, (Option.some.inj ht).symm⟩
        · cases ht

theorem isDone_of_mayStream {S : Sanitizer} {t : Task S} (h : t.phase.mayStream = true) :
    t.isDone = false := by
  unfold Task.isDone
  split
  · rename_i hp
    rw [hp] at h
    cases h
  · rfl

/-- Whoever takes anything but the cancellation has none pending. -/
theorem not_pending_of_admits {S : Sanitizer} {t : Task S} {event : TaskEvent}
    (h : admits t event = true) (hne : ∀ now, event ≠ .chain .cancel now) :
    t.cancelPending = false := by
  unfold admits at h
  split at h
  · exact absurd rfl (hne _)
  · simpa using h

/-- And if it is before its stream, it was not asked to cancel. -/
theorem Settled.live_of_mayStream {deps : Deps} {c : Conn deps.sanitizer} (h : Settled deps c)
    {id : TaskId} {t : Task deps.sanitizer} (ht : c.tasks[id]? = some t)
    (hm : t.phase.mayStream = true) (hpending : t.cancelPending = false) : t.isLive = true := by
  have hasked : t.cancelAsked = false := by
    by_contra hasked
    rw [Bool.not_eq_false] at hasked
    cases h.leaving id t ht hasked with
    | finished hd => rw [isDone_of_mayStream hm] at hd; cases hd
    | asked hc => rw [hpending] at hc; cases hc
    | completing hp | replying hp | flushing hp _ _ _ => rw [hp] at hm; cases hm
  simp [Task.isLive, isDone_of_mayStream hm, hasked]

/-! ## The note of a connection -/

/-- Whoever can still decide, and the turn about to begin, was planned with what the note says. -/
structure Marked (deps : Deps) (c : Conn deps.sanitizer) : Prop where
  settled : Settled deps c
  flag : FlagPromised c
  beginning : ∀ plan, c.phase = .beginning plan →
    plan.applyScreenCheckedPrefix = c.session.screenFollowupPending
  undecided : ∀ (id : TaskId) (t : Task deps.sanitizer), c.tasks[id]? = some t →
    t.isLive = true → t.phase.mayStream = true →
    t.plan.applyScreenCheckedPrefix = c.session.screenFollowupPending
  /-- Before a start there is no turn, and no note. -/
  unstarted : c.started = false → c.tasks = [] ∧ c.session.screenFollowupPending = false

theorem marked_init (deps : Deps) (clientId : Text) :
    Marked deps (Conn.init deps.sanitizer deps.sh.server clientId) where
  settled := settled_init deps clientId
  flag := flagPromised_init _ clientId
  beginning := nofun
  undecided := fun _ _ h => absurd h (by simp [Conn.init])
  unstarted := fun _ => ⟨rfl, rfl⟩

section Marked

variable {deps : Deps} {c c' : Conn deps.sanitizer} {label : Label}

/-- **The handler never moves the note**: where a start clears it, it was clear. -/
theorem Marked.loop (h : Marked deps c) (hs : LoopSteps deps c label c') :
    c'.session.screenFollowupPending = c.session.screenFollowupPending := by
  cases noteMoves_of_loop hs with
  | same heq => exact heq
  | cleared hst hfalse => rw [hfalse, (h.unstarted hst).2]

/-- What a step keeps, and shows. -/
structure Notes (c : Conn deps.sanitizer) (label : Label) (c' : Conn deps.sanitizer) : Prop where
  shown : exec nextFollowup c.session.screenFollowupPending (Conn.screenEvents deps c label c')
    = some c'.session.screenFollowupPending
  beginning : ∀ plan, c'.phase = .beginning plan →
    plan.applyScreenCheckedPrefix = c'.session.screenFollowupPending
  undecided : ∀ (id : TaskId) (t : Task deps.sanitizer), c'.tasks[id]? = some t →
    t.isLive = true → t.phase.mayStream = true →
    t.plan.applyScreenCheckedPrefix = c'.session.screenFollowupPending

/-- A task that moves without touching the note. -/
theorem Marked.moved (h : Marked deps c) {id : TaskId} {event : TaskEvent}
    {t : Task deps.sanitizer} {session : SessionState} {phase : TaskPhase deps.sanitizer}
    {response : Option StreamRun} {n : Nat} (ht : c.tasks[id]? = some t)
    (hdecides : t.phase.decides t.plan event = [])
    (hsame : session.screenFollowupPending = c.session.screenFollowupPending)
    (hphase : phase.mayStream = true → t.phase.mayStream = true ∧ t.isDone = false) :
    Notes c (.task id event) (c.moved id
      { t with phase := phase, cancelPending := false, response := response } session n) := by
  refine ⟨?_, ?_, ?_⟩
  · simp only [Conn.screenEvents, ht, hdecides]
    exact congrArg some hsame.symm
  · intro plan hp
    exact (h.beginning plan hp).trans hsame.symm
  · intro id' u hu hl hm
    refine Eq.trans ?_ hsame.symm
    rcases getElem?_set_cases hu with ⟨rfl, rfl⟩ | ⟨-, hu⟩
    · obtain ⟨hm', hd⟩ := hphase hm
      refine h.undecided id' t ht ?_ hm'
      simp only [Task.isLive, Bool.and_eq_true] at hl ⊢
      exact ⟨by simpa using hd, hl.2⟩
    · exact h.undecided id' u hu hl hm

theorem Marked.task (h : Marked deps c) {id : TaskId} {event : TaskEvent}
    (hs : TaskSteps deps c id event c') : Notes c (.task id event) c' := by
  cases hs with
  | @streamed t turn turn' event now ht hadmits hp hturn =>
      refine h.moved ht (by rw [hp]; rfl)
        (commitAppends_writes _ _ _).history.screenFollowupPending ?_
      intro hm
      unfold phaseOfTurn at hm
      split at hm
      · rw [(phaseOfOutcome_quiet _ _).2] at hm
        cases hm
      · cases hm
  | @ran t _ session phase ht hadmits hrun =>
      rcases runTask_followup hrun with ⟨hdecides, hsame⟩
        | ⟨isTool, e, now, hp, rfl, hne, hdecides, hm, hpending⟩
      · refine h.moved ht hdecides hsame fun hm => ?_
        have hlead := runTask_leads hrun
        have hbefore : t.phase.mayStream = true := by
          cases phase <;> first | exact hlead | cases hm
        exact ⟨hbefore, isDone_of_mayStream hbefore⟩
      · -- the one live task decides, so nobody else was planned with the old note
        have hbefore : t.phase.mayStream = true := by rw [hp]; rfl
        have hlive := h.settled.live_of_mayStream ht hbefore
          (not_pending_of_admits hadmits fun _ heq => hne (by cases heq; rfl))
        have happly := h.undecided id t ht hlive hbefore
        have hafter : session.screenFollowupPending = isTool := by
          rw [hpending, happly]
          cases isTool <;> cases c.session.screenFollowupPending <;> rfl
        refine ⟨?_, ?_, ?_⟩
        · simp only [Conn.screenEvents, ht, hdecides]
          show exec nextFollowup _ [_] = some session.screenFollowupPending
          rw [hafter, happly]
          simp [exec, nextFollowup]
        · intro plan hbegin
          have hnone := h.settled.tracked.quiescent (by
            rw [show c.phase = .beginning plan from hbegin]; rfl) id t ht
          rw [hnone] at hlive
          cases hlive
        · intro id' u hu hl hm'
          rcases getElem?_set_cases hu with ⟨rfl, rfl⟩ | ⟨hother, hu⟩
          · rw [show phase.mayStream = false from hm] at hm'
            cases hm'
          · exact absurd (h.settled.tracked.atMostOne hu ht hl hlive) hother

/-- A step of the handler shows at most a plan. -/
theorem Marked.handler (h : Marked deps c) (hs : LoopSteps deps c label c')
    (hevents : Conn.screenEvents deps c label c' = c.plansTurn c') : Notes c label c' := by
  have hsame := h.loop hs
  refine ⟨?_, fun plan => planned_of_loop hs, ?_⟩
  · rw [hevents, hsame]
    unfold plansTurn
    split
    · rfl
    · rename_i plan hp _
      rw [planned_of_loop hs hp, hsame]
      simp [exec, nextFollowup]
    · rfl
  · intro id t ht hl hm
    rw [hsame]
    rcases (loopSteps_tasks hs).live ht hl with ht | ⟨plan, hp, rfl⟩
    · exact h.undecided id t ht hl hm
    · exact h.beginning plan hp

theorem Marked.notes (h : Marked deps c) (hs : c.step deps label = some c') : Notes c label c' := by
  cases label with
  | watchdog =>
      injection hs with hs
      subst hs
      refine ⟨?_, h.beginning, h.undecided⟩
      have hnone : c.plansTurn { c with idleTimedOut := true } = [] := by
        unfold plansTurn
        cases c.phase <;> rfl
      exact congrArg (exec nextFollowup c.session.screenFollowupPending) hnone
  | task id event => exact h.task (taskSteps_of_taskStep hs)
  | _ => exact h.handler (loopSteps_of_loopStep hs) rfl

/-- **Preserved by every step**, and what the step shows is what the note is for. -/
theorem marked_step (h : Marked deps c) (hs : c.step deps label = some c') :
    Marked deps c'
      ∧ exec nextFollowup c.session.screenFollowupPending (Conn.screenEvents deps c label c')
        = some c'.session.screenFollowupPending := by
  have hnotes := h.notes hs
  refine ⟨⟨settled_step h.settled hs, flagPromised_step h.flag hs, hnotes.beginning,
    hnotes.undecided, fun hst => ?_⟩, hnotes.shown⟩
  have hbefore : c.started = false := by
    by_contra hst'
    rw [Bool.not_eq_false] at hst'
    rw [started_of_step h.flag hs hst'] at hst
    cases hst
  obtain ⟨hnone, hfalse⟩ := h.unstarted hbefore
  refine ⟨?_, ?_⟩
  · rcases length_step hs with hlength | ⟨-, plan, hp⟩
    · rw [hnone] at hlength
      exact List.length_eq_zero_iff.mp hlength
    · have hst' := h.flag.phase
      rw [hp, hbefore] at hst'
      cases hst'
  · rcases step_cases hs with ⟨rfl, rfl⟩ | ⟨id, event, rfl, htask⟩ | hl
    · exact hfalse
    · cases htask with
      | streamed ht _ _ _ | ran ht _ _ => simp [hnone] at ht
    · exact (h.loop hl).trans hfalse

end Marked

/-! ## Every run -/

/-- **Follow-ups and decisions.** However turns are cancelled and overlapped, a turn is planned, and
sent on after its own decision, as the follow-up of a screenshot exactly if the last decision that
was acted on asked for one. -/
theorem followup_of_last_decision {deps : Deps} {clientId : Text} {labels : List Label}
    {c : Conn deps.sanitizer}
    (h : exec (Conn.step deps) (Conn.init deps.sanitizer deps.sh.server clientId) labels = some c) :
    exec nextFollowup false (outputs (Conn.step deps) (Conn.screenEvents deps)
        (Conn.init deps.sanitizer deps.sh.server clientId) labels)
      = some c.session.screenFollowupPending := by
  obtain ⟨pending, hrun, -, rfl⟩ := outputs_refine
    (R := fun c pending => Marked deps c ∧ c.session.screenFollowupPending = pending)
    (fun c label c' pending hR hs => by
      obtain ⟨hmarked, rfl⟩ := hR
      obtain ⟨hmarked', hshown⟩ := marked_step hmarked hs
      exact ⟨_, hshown, hmarked', rfl⟩)
    ⟨marked_init deps clientId, rfl⟩ h
  exact hrun

/-- A message that interrupts a turn, up to its task. -/
def interrupts (text : String) : List Label :=
  [.recv (.message (utterance text.toList)) 0, .resume, .engineAborted none, .resume, .resume,
    .resume]

/-- A screenshot is asked for. The first message that comes with it is interrupted before its own
decision, and the next one is the follow-up in its place. -/
def lookTwice : List Label :=
  oneTurn
  ++ [.task 0 (.run 0), .task 0 (.toolDecision true), .task 0 (.chain (.sent .ack) 0)]
  ++ interrupts "here" ++ [.task 1 (.run 0)] ++ interrupts "and here"
  ++ [.task 2 (.run 0), .task 2 (.toolDecision false), .task 2 (.chain (.sent .ack) 0)]

theorem followup_of_last_decision_lookTwice :
    let shown := outputs (Conn.step (.sample true true)) (Conn.screenEvents (.sample true true))
      (Conn.init plainSanitizer .shipped "client".toList) lookTwice
    shown = [.planned false, .decided false true, .planned true, .planned true,
        .decided true false]
      ∧ exec nextFollowup false shown = some false := by
  have hrun : (exec (Conn.step (.sample true true))
      (Conn.init plainSanitizer .shipped "client".toList) lookTwice).map
        (fun c => c.session.screenFollowupPending) = some false := by decide +kernel
  obtain ⟨c, hc, hpending⟩ := Option.map_eq_some_iff.mp hrun
  have hshown := @followup_of_last_decision (.sample true true) "client".toList lookTwice c hc
  rw [hpending] at hshown
  exact ⟨by decide +kernel, hshown⟩

end YapInference
