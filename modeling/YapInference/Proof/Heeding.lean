import YapInference.Proof.WireOrder

/-!
# Who sees a cancellation

The cancel check of a stream reads the session, not the task. It never stops a live task: as long as
the session is being cancelled, no task is live. And it stops no other either, since a task that was
asked to cancel sees its cancellation before it sees another output. So the check is never the one
to stop a stream.
-/

namespace YapInference

open Py Conn

/-! ## The cancel flag -/

theorem TaskWrites.cancelRequested {deps : Deps} {freshId : TurnId} {s s' : SessionState}
    {plan : TurnPlan} (h : TaskWrites deps freshId s plan s') :
    s'.cancelRequested = s.cancelRequested := by
  cases h with
  | nothing => rfl
  | followup isTool => rw [chatUserUttForPlan_session]
  | toolTurn he => exact (prepareToolTurn_writes he).history.cancelRequested

theorem bootstrapStartTurn_cancelRequested (sh : SessionHandler) (parsing : NumberParsing)
    (pt : PromptText) (freshId : Nat → TurnId) (s : SessionState) (msg : Dict Text Json) :
    (bootstrapStartTurn sh parsing pt freshId s msg).state.cancelRequested = s.cancelRequested := by
  rcases bootstrapStartTurn_writes sh parsing pt freshId s msg with heq | ⟨update, hwrites⟩
  · rw [heq]
    rfl
  · exact hwrites.cancelRequested

/-! ## The check of a stream -/

namespace ChatTurn

variable {S : Sanitizer}

theorem pull_not_aborting (t : ChatTurn S) (next : GenNext) (cause : AbortCause) :
    (t.pull next).phase ≠ .aborting cause := by
  cases next with
  | engine => exact fun h => by cases h
  | items rest exit => cases rest <;> cases exit <;> exact fun h => by cases h

theorem exitStream_not_aborting (t : ChatTurn S) (exit : Option Raised) (cause : AbortCause) :
    (t.exitStream exit).phase ≠ .aborting cause := by
  unfold exitStream
  dsimp only
  split
  · exact pull_not_aborting _ _ _
  · split <;> exact pull_not_aborting _ _ _

theorem onOutput_not_aborting (t : ChatTurn S) (output : Option Text) (now : ℚ)
    (cause : AbortCause) : (t.onOutput output now).phase ≠ .aborting cause := by
  rcases onOutput_cases t output now with ⟨-, hp⟩ | ⟨chunk, -, hp⟩ <;> simp [hp]

theorem onSent_not_aborting (t : ChatTurn S) (next : GenNext) (result : SendResult)
    (cause : AbortCause) : (t.onSent next result).phase ≠ .aborting cause := by
  unfold onSent
  dsimp only
  split
  · exact pull_not_aborting _ _ _
  · exact fun h => by cases h
  · exact fun h => by cases h

/-- A stream is stopped by its check when the check is true. -/
theorem checked_of_step {t t' : ChatTurn S} {event : ChainEvent} (hs : t.step event = some t')
    (hp : t'.phase = .aborting .cancelCheck) :
    t.phase = .engine ∧ ∃ text now, event = .output text true now := by
  cases steps_of_step hs with
  | check hengine => exact ⟨hengine, _, _, rfl⟩
  | output _ => exact absurd hp (onOutput_not_aborting _ _ _ _)
  | exhausted _ | failed _ _ | cancelEngine _ | abortedCheck _ | abortedTimeout _ | abortFailed _ _
  | cancelAbort _ => exact absurd hp (exitStream_not_aborting _ _ _)
  | failedTimeout _ | timedOut _ | abortTimeout _ => cases hp
  | sent _ _ | cancelSend _ => exact absurd hp (onSent_not_aborting _ _ _ _)

end ChatTurn

/-! ## Nobody else sees it -/

/-- The session is being cancelled. -/
def SessionState.Cancelling (s : SessionState) : Prop :=
  s.cancelRequested = true ∨ s.lifecycleState = .cancelling

theorem SessionState.Cancelling.of_same {s s' : SessionState} (h : s'.Cancelling)
    (hflag : s'.cancelRequested = s.cancelRequested)
    (hlife : s'.lifecycleState = s.lifecycleState) : s.Cancelling := by
  rw [Cancelling, ← hflag, ← hlife]
  exact h

theorem not_cancelling_cleanup (s : SessionState) :
    ¬ (cleanupSessionRequests s none true).Cancelling := by
  unfold cleanupSessionRequests SessionState.Cancelling
  by_cases hc : s.lifecycleState = .closed <;> simp [hc]

/-- What is known of the cancellations of a connection. -/
structure Heeding (deps : Deps) (c : Conn deps.sanitizer) : Prop where
  settled : Settled deps c
  cancelling : c.session.Cancelling → NoneLive c
  /-- The id an abort read on entry is the active request, unless that has completed since. -/
  entry : ∀ a next, c.phase = .abortLock a next →
    c.session.activeRequestId = a ∨ c.session.activeRequestId = none
  /-- No stream was stopped by its cancel check. -/
  unchecked : ∀ (id : TaskId) (t : Task deps.sanitizer) (turn : ChatTurn deps.sanitizer),
    c.tasks[id]? = some t → t.phase = .streaming turn → turn.phase ≠ .aborting .cancelCheck

theorem heeding_init (deps : Deps) (clientId : Text) :
    Heeding deps (Conn.init deps.sanitizer deps.sh.server clientId) where
  settled := settled_init deps clientId
  cancelling := fun _ _ _ h => absurd h (by simp [Conn.init])
  entry := nofun
  unchecked := fun _ _ _ h => absurd h (by simp [Conn.init])

section Heeding

variable {deps : Deps} {c c' : Conn deps.sanitizer} {label : Label}

/-- **The cancel check is false** for every task that pulls its stream. -/
theorem Heeding.check (h : Heeding deps c) {id : TaskId} {t : Task deps.sanitizer}
    {turn : ChatTurn deps.sanitizer} {event : ChainEvent} {now : ℚ}
    (ht : c.tasks[id]? = some t) (hp : t.phase = .streaming turn) (hpulls : turn.phase = .engine)
    (hne : event ≠ .cancel) (hadmits : admits t (.chain event now) = true) :
    isRequestCancelled c.session t.plan.requestId = false := by
  have hasked : t.cancelAsked = false := by
    by_contra hasked
    rw [Bool.not_eq_false] at hasked
    cases h.settled.leaving id t ht hasked with
    | finished hd => simp [Task.isDone, hp] at hd
    | asked hpending => cases event <;> simp_all [admits]
    | completing hc | replying hc => rw [hp] at hc; cases hc
    | flushing hturn _ hcons _ =>
        obtain rfl := TaskPhase.streaming.inj (hp.symm.trans hturn)
        rw [hpulls] at hcons
        cases hcons
  have hlive : t.isLive = true := by simp [Task.isLive, Task.isDone, hp, hasked]
  have hactive := (h.settled.tracked.live id t ht hlive).1
  have hnot : ¬ c.session.Cancelling := by
    intro hc
    rw [h.cancelling hc id t ht] at hlive
    cases hlive
  have hopen : c.session.lifecycleState ≠ .closed := by
    intro hc
    rw [(h.settled.tracked.closed hc).2 id t ht] at hlive
    cases hlive
  obtain ⟨hflag, hlife⟩ := not_or.mp hnot
  simp [isRequestCancelled, hactive, hflag, hlife, hopen]

/-- So no step of a stream is stopped by it. -/
theorem Heeding.unchecked_step (h : Heeding deps c) {id : TaskId} {t : Task deps.sanitizer}
    {turn turn' : ChatTurn deps.sanitizer} {event : ChainEvent} {now : ℚ}
    (ht : c.tasks[id]? = some t) (hadmits : admits t (.chain event now) = true)
    (hp : t.phase = .streaming turn)
    (hs : turn.step (withCancelCheck c.session t.plan.requestId event) = some turn') :
    turn'.phase ≠ .aborting .cancelCheck := by
  intro hchecked
  obtain ⟨hengine, text, at', hevent⟩ := ChatTurn.checked_of_step hs hchecked
  cases event with
  | output text' check now' =>
      have hfalse := h.check ht hp hengine (by simp) hadmits
      injection hevent with _ htrue _
      rw [hfalse] at htrue
      cases htrue
  | _ => cases hevent

/-- A step of the handler starts to cancel only when nothing is live. -/
theorem cancelling_loop (h : Heeding deps c) (hs : LoopSteps deps c label c') :
    (c'.session.Cancelling → c.session.Cancelling ∧ c'.tasks = c.tasks) ∨ NoneLive c' := by
  have hplans : ∀ {c₀ : Conn deps.sanitizer} {msg}, Plans deps c₀ msg c' → c₀.tasks = c.tasks →
      (c₀.session.Cancelling → c.session.Cancelling) →
      c'.session.Cancelling → c.session.Cancelling ∧ c'.tasks = c.tasks := by
    intro c₀ msg hp htasks hback hc
    cases hp with
    | rejected _ _ _ => exact ⟨hback hc, htasks⟩
    | planned hplan =>
        obtain ⟨_, _, -, rfl, rfl⟩ := planMessageTurn_planned hplan
        exact ⟨hback (hc.of_same rfl rfl), htasks⟩
  have hstart : ∀ (msg : Dict Text Json) (session : SessionState),
      (bootstrapStartTurn deps.sh deps.parsing deps.promptText (fun i => c.nextId + i) c.session
        msg).state = session → session.Cancelling → c.session.Cancelling := by
    intro msg session heq hc
    subst heq
    exact hc.of_same (bootstrapStartTurn_cancelRequested _ _ _ _ _ _)
      (bootstrapStartTurn_requests rfl).lifecycle
  cases hs with
  | @raised _ c₁ e hr =>
      obtain ⟨phase, -, heq⟩ := raiseLoop_cases deps.sh.lower c₁ e
      rw [heq]
      cases hr with
      | received _ _ | parsed _ | sent _ _ | closed _ | message _ _ _ _ _ =>
          exact Or.inl fun hc => ⟨hc, rfl⟩
      | @started msg now session _ _ _ _ hb =>
          exact Or.inl fun hc => ⟨hstart msg session (by rw [hb]; rfl) hc, rfl⟩
      | aborted _ _ => exact Or.inl fun hc => absurd hc (not_cancelling_cleanup _)
  | answered _ _ | pong _ | ending _ | hangup _ | cancelling _ | startRefused _ _ _
  | unstarted _ _ _ | messageAborts _ _ _ | internalReplied _ | closed _ | closedEnd _
  | engineAborted _ | stopped _ | stoppedStateless _ | disconnected _ =>
      exact Or.inl fun hc => ⟨hc, rfl⟩
  | @startRejected msg now ml session error frame next _ _ hb _ _ _ =>
      exact Or.inl fun hc => ⟨hstart msg session (by rw [hb]; rfl) hc, rfl⟩
  | @startAnswered msg now ml session _ _ hb =>
      exact Or.inl fun hc => ⟨hstart msg session (by rw [hb]; rfl) hc, rfl⟩
  | messagePlans _ _ _ hplan => exact Or.inl (hplans hplan rfl fun hc => hc)
  | abortedPlans _ hplan =>
      exact Or.inl (hplans hplan rfl fun hc => absurd hc (not_cancelling_cleanup _))
  | @replied frame next _ b _ _ => cases next <;> exact Or.inl fun hc => ⟨hc, rfl⟩
  | cancelled hp =>
      exact Or.inr (h.settled.tracked.noneLive_cancelSection (by simp [hp]))
  | abortedConfirms _ | abortedCloses _ =>
      exact Or.inl fun hc => absurd hc (not_cancelling_cleanup _)
  | began _ =>
      unfold beginSection beginSessionRequest
      dsimp only
      by_cases hclosed : c.session.lifecycleState = .closed
      · simp only [hclosed, if_true]
        exact Or.inl fun hc => ⟨hc, rfl⟩
      · simp only [hclosed, if_false]
        exact Or.inl fun hc => absurd hc (by simp [SessionState.Cancelling])
  | tracked _ =>
      refine Or.inl fun hc => ⟨hc.of_same ?_ ?_, rfl⟩
      · unfold attachRequestTask
        split
        · rfl
        · split <;> rfl
      · unfold attachRequestTask
        split
        · rfl
        · split <;> rfl
  | markedClosed hp =>
      exact Or.inr (h.settled.tracked.quiescent (by rw [hp]; rfl))

/-- An abort is entered with the active request read. -/
theorem abortLock_of_loop (hs : LoopSteps deps c label c') {a : Option RequestId}
    {next : AfterAbort} (hp : c'.phase = .abortLock a next) : c'.session.activeRequestId = a := by
  have hplans : ∀ {c₀ : Conn deps.sanitizer} {msg}, ¬ Plans deps c₀ msg c' := by
    intro c₀ msg hplan
    cases hplan <;> cases hp
  cases hs with
  | cancelling _ | messageAborts _ _ _ | stopped _ =>
      injection hp with ha _
  | @raised _ c₁ e hr =>
      obtain ⟨phase, hphase, heq⟩ := raiseLoop_cases deps.sh.lower c₁ e
      rw [heq] at hp
      rcases hphase with rfl | rfl <;> cases hp
  | messagePlans _ _ _ hplan => exact absurd hplan hplans
  | abortedPlans _ hplan => exact absurd hplan hplans
  | pong hphase => rw [hphase] at hp; cases hp
  | @replied frame next _ b _ _ => cases next <;> cases hp
  | cancelled _ =>
      dsimp only at hp
      split at hp <;> cases hp
  | began _ =>
      unfold beginSection at hp
      dsimp only at hp
      split at hp <;> cases hp
  | _ => cases hp

/-- A task does not start to cancel. -/
theorem cancelling_task {id : TaskId} {event : TaskEvent} (hs : TaskSteps deps c id event c')
    (hc : c'.session.Cancelling) : c.session.Cancelling := by
  cases hs with
  | streamed _ _ _ _ =>
      exact hc.of_same (commitAppends_writes _ _ _).history.cancelRequested
        (commitAppends_writes _ _ _).history.requests.lifecycle
  | @ran t _ session phase _ _ hrun =>
      rcases runTask_writes hrun with hw | ⟨rfl, -⟩
      · exact hc.of_same hw.cancelRequested hw.requests.lifecycle
      · by_cases hactive : c.session.activeRequestId = some t.plan.requestId
        · -- its own request: the session is idle then
          refine absurd hc ?_
          show ¬ (completeRequest c.session t.plan.requestId).Cancelling
          have hidle : completeRequest c.session t.plan.requestId
              = cleanupSessionRequests c.session none true := by
            simp [completeRequest, cleanupSessionRequests, hactive]
          rw [hidle]
          exact not_cancelling_cleanup _
        · rwa [show (c.moved id _ (completeRequest c.session t.plan.requestId) 1).session
            = c.session from completeRequest_stale hactive] at hc

/-- Nor does it make another request the active one. -/
theorem active_task {id : TaskId} {event : TaskEvent} (hs : TaskSteps deps c id event c') :
    c'.session.activeRequestId = c.session.activeRequestId
      ∨ c'.session.activeRequestId = none := by
  cases hs with
  | streamed _ _ _ _ => exact Or.inl (commitAppends_writes _ _ _).history.requests.id
  | @ran t _ session phase _ _ hrun =>
      rcases runTask_requests hrun with hreq | ⟨rfl, -⟩
      · exact Or.inl hreq.id
      · show (completeRequest c.session t.plan.requestId).activeRequestId = _ ∨ _
        unfold completeRequest cleanupSessionRequests
        split
        · exact Or.inl rfl
        · exact Or.inr rfl

/-- **Preserved by every step.** -/
theorem heeding_step (h : Heeding deps c) (hs : c.step deps label = some c') : Heeding deps c' := by
  refine ⟨settled_step h.settled hs, ?_, ?_, ?_⟩
  · intro hc
    rcases step_cases hs with ⟨rfl, rfl⟩ | ⟨id, event, rfl, htask⟩ | hl
    · exact h.cancelling hc
    · refine noneLive_step hs (h.cancelling (cancelling_task htask hc)) ?_
      cases htask with
      | streamed _ _ _ _ | ran _ _ _ => exact List.length_set
    · rcases cancelling_loop h hl with hback | hnone
      · obtain ⟨hbefore, htasks⟩ := hback hc
        intro id t ht
        exact h.cancelling hbefore id t (htasks ▸ ht)
      · exact hnone
  · intro a next hp
    rcases step_cases hs with ⟨rfl, rfl⟩ | ⟨id, event, rfl, htask⟩ | hl
    · exact h.entry a next hp
    · have hbefore : c.phase = .abortLock a next := by
        cases htask with
        | streamed _ _ _ _ | ran _ _ _ => exact hp
      rcases active_task htask with hsame | hnone
      · rw [hsame]
        exact h.entry a next hbefore
      · exact Or.inr hnone
    · exact Or.inl (abortLock_of_loop hl hp)
  · intro id u turn hu hp hchecked
    rcases step_cases hs with ⟨rfl, rfl⟩ | ⟨id', event, rfl, htask⟩ | hl
    · exact h.unchecked id u turn hu hp hchecked
    · cases htask with
      | @streamed t turn₀ turn' event now hget hadmits hphase hturn =>
          rcases getElem?_set_cases hu with ⟨rfl, rfl⟩ | ⟨-, hu⟩
          · obtain rfl := turn_of_phaseOfTurn hp
            exact h.unchecked_step hget hadmits hphase hturn hchecked
          · exact h.unchecked id u turn hu hp hchecked
      | @ran t _ session phase hget _ hrun =>
          rcases getElem?_set_cases hu with ⟨rfl, rfl⟩ | ⟨-, hu⟩
          · obtain ⟨historyUser, now, rfl⟩ := (taskRuns_of_runTask hrun).fresh turn hp
            cases hchecked
          · exact h.unchecked id u turn hu hp hchecked
    · rcases (loopSteps_tasks hl).get hu with ⟨t, ht, hphase, -, -⟩ | ⟨hphase, -, -⟩
      · exact h.unchecked id t turn ht (hphase ▸ hp) hchecked
      · rw [hphase] at hp
        cases hp

end Heeding

end YapInference
