import YapInference.Proof.Conversation
import YapInference.Proof.TurnFrames

/-!
# Turns do not interleave

A task that was asked to cancel is on its way out. It takes the cancellation before anything else,
and what is then left of it is small: nothing at all unless tokens are buffered, and otherwise the
buffered tail and the error frame of a tail that could not be sent. `remaining` is that budget.

New tasks are only created when no task is live. So without buffering the frames of a turn come
after all frames of the turns before it, although no frame names its turn.
-/

namespace YapInference

open Py Conn

/-! ## On the way out -/

/-- A task that was asked to cancel, at each point until it is finished. -/
inductive Task.Leaving {S : Sanitizer} (t : Task S) : Prop where
  | finished : t.isDone = true → Task.Leaving t
  /-- The cancellation is the next thing it will see. -/
  | asked : t.cancelPending = true → Task.Leaving t
  | completing : t.phase = .completing → Task.Leaving t
  | replying : t.phase = .replying → Task.Leaving t
  /-- The buffered tail is being sent while the cancellation unwinds the stream. -/
  | flushing {turn chunk} : t.phase = .streaming turn → 0 < turn.flushMs →
      turn.phase = .consuming (.items [] (some .cancelledError)) →
      turn.run.phase = .sendToken chunk → Task.Leaving t

/-- How many frames a leaving task can still hand over. -/
def Task.remaining {S : Sanitizer} (t : Task S) : Nat :=
  match t.phase with
  | .streaming turn =>
      if turn.flushMs ≤ 0 then 0
      else
        match turn.phase with
        | .engine | .aborting _ => 2
        | .consuming _ => if t.cancelPending then 0 else 1
        | .over => 0
  | _ => 0

theorem Task.remaining_le {S : Sanitizer} (t : Task S) : t.remaining ≤ 2 := by
  unfold Task.remaining
  split
  · split
    · omega
    · split
      · omega
      · omega
      · split <;> omega
      · omega
  · omega

/-- What a phase hands over by being entered. -/
def TaskPhase.sendCount {S : Sanitizer} (phase : TaskPhase S) : Nat := phase.sends.toList.length

/-- After its operation was cancelled, a task completes without a word. -/
theorem phaseOfOutcome_cancelled {S : Sanitizer} (lower : Lower) :
    phaseOfOutcome (S := S) lower (.raised .cancelledError) = .completing := rfl

/-- A task whose operation ended says at most one thing more. -/
theorem phaseOfOutcome_leaving {S : Sanitizer} (lower : Lower) (outcome : StreamOutcome) :
    phaseOfOutcome (S := S) lower outcome = .completing
      ∨ phaseOfOutcome (S := S) lower outcome = .replying := by
  unfold phaseOfOutcome
  split
  · exact Or.inr rfl
  · exact Or.inl rfl

/-- A cancellation is never a send that came back well. -/
theorem safeSendText_cancel {result : SendResult} (h : sendResult .cancel = some result) :
    safeSendText result = .error .cancelledError := by
  cases h
  rfl

/-- **A task that takes the cancellation outside a stream is done with its turn.** -/
theorem TaskRuns.cancelled {deps : Deps} {session : SessionState} {plan : TurnPlan}
    {phase phase' : TaskPhase deps.sanitizer} {now : ℚ}
    (h : TaskRuns deps session plan phase (.chain .cancel now) phase') :
    phase' = .completing ∨ phase' = .finished := by
  cases h with
  | neverRan | cancelledCompleting => exact Or.inr rfl
  | cancelledRouting | replied _ => exact Or.inl rfl
  | toolSent hresult hb | sent _ hresult hb =>
      rw [safeSendText_cancel hresult] at hb
      cases hb
  | sendRaised _ hresult hr =>
      rw [safeSendText_cancel hresult] at hr
      cases hr
      exact Or.inl rfl

/-- And so is one that was past it. -/
theorem TaskRuns.leaving {deps : Deps} {session : SessionState} {plan : TurnPlan}
    {phase phase' : TaskPhase deps.sanitizer} {event : TaskEvent}
    (h : TaskRuns deps session plan phase event phase')
    (hp : phase = .completing ∨ phase = .replying) : phase' = .completing ∨ phase' = .finished := by
  cases h with
  | completed | cancelledCompleting => exact Or.inr rfl
  | replied _ => exact Or.inl rfl
  | sent hnext _ _ => rcases hp with rfl | rfl <;> cases hnext
  | sendRaised hsends _ _ => rcases hp with rfl | rfl <;> cases hsends
  | dispatched | neverRan | decided | toolRaised | cancelledRouting | toolSent _ _ =>
      rcases hp with hp | hp <;> cases hp

/-- The first step of a cancelled stream: it ends, or it flushes what it has buffered. -/
theorem exitStream_cancelled {S : Sanitizer} {turn : ChatTurn S} (h : turn.run.phase = .nextChunk) :
    (turn.exitStream (some .cancelledError)).run.phase = .ended (.raised .cancelledError)
      ∨ 0 < turn.flushMs
        ∧ (turn.exitStream (some .cancelledError)).phase
            = .consuming (.items [] (some .cancelledError))
        ∧ ∃ chunk, (turn.exitStream (some .cancelledError)).run.phase = .sendToken chunk := by
  cases htail : turn.flushedTail.2 with
  | none => exact Or.inl (ChatTurn.exitStream_quiet h (by simp) htail).2.1
  | some chunk =>
      have hflush : 0 < turn.flushMs := by
        by_contra hle
        have hnone : turn.flushedTail.2 = none := by
          simp [ChatTurn.flushedTail, ControllerState.flushTail, le_of_not_gt hle]
        rw [hnone] at htail
        cases htail
      have hexit : turn.exitStream (some .cancelledError)
          = turn.flushedTail.1.pull (.items [chunk] (some .cancelledError)) := by
        unfold ChatTurn.exitStream
        rw [if_neg (by simp)]
        simp only [htail, Option.toList_some]
      rw [hexit]
      exact Or.inr ⟨hflush, rfl, chunk, rfl⟩

/-- A cancelled send ends the stream. -/
theorem onSent_cancelled {S : Sanitizer} (turn : ChatTurn S) (next : GenNext) :
    (turn.onSent next .cancelled).run.phase = .ended (.raised .cancelledError) := by
  have hended := (StreamRun.attempted_onSent_cancelled turn.run).2
  unfold ChatTurn.onSent
  simp [hended]

/-- When the flushed tail comes back, the stream ends. -/
theorem onSent_flushed {S : Sanitizer} {turn : ChatTurn S} {chunk : Text}
    (h : turn.run.phase = .sendToken chunk) (result : SendResult) :
    ∃ outcome, (turn.onSent (.items [] (some .cancelledError)) result).run.phase
      = .ended outcome := by
  have hcases : (turn.run.onSent result).phase = .nextChunk
      ∨ ∃ outcome, (turn.run.onSent result).phase = .ended outcome := by
    rw [StreamRun.onSent_eq]
    cases hsafe : safeSendText result with
    | ok b =>
        cases b with
        | true => exact Or.inl (by simp [StreamRun.onAck, StreamRun.logged, h])
        | false => exact Or.inr ⟨_, by simp [StreamRun.onGone, StreamRun.logged, h,
            StreamRun.interrupt, StreamRun.leave]; rfl⟩
    | error r => exact Or.inr ⟨_, rfl⟩
  unfold ChatTurn.onSent
  rcases hcases with hp | ⟨outcome, hp⟩
  · simp only [hp]
    exact ⟨_, rfl⟩
  · simp only [hp]
    exact ⟨outcome, rfl⟩

/-- A step of a stream whose task is leaving. -/
inductive TurnLeaves {S : Sanitizer} (t : Task S) (turn turn' : ChatTurn S) : Prop where
  | cancelled : turn'.run.phase = .ended (.raised .cancelledError) → TurnLeaves t turn turn'
  /-- The buffered tail is handed over. -/
  | flushes {chunk} : 0 < turn.flushMs →
      (turn.phase = .engine ∨ ∃ cause, turn.phase = .aborting cause) →
      turn'.phase = .consuming (.items [] (some .cancelledError)) →
      turn'.run.phase = .sendToken chunk → TurnLeaves t turn turn'
  /-- The tail's send came back. -/
  | flushed {next outcome} : 0 < turn.flushMs → turn.phase = .consuming next →
      t.cancelPending = false → turn'.run.phase = .ended outcome → TurnLeaves t turn turn'

theorem turnLeaves_of_step {S : Sanitizer} {t : Task S} {turn turn' : ChatTurn S}
    {event : ChainEvent} {now : ℚ} {session : SessionState} {requestId : RequestId}
    (hwell : turn.WellPhased) (hp : t.phase = .streaming turn) (hl : t.Leaving)
    (hadmits : admits t (.chain event now) = true)
    (hs : turn.step (withCancelCheck session requestId event) = some turn') :
    TurnLeaves t turn turn' := by
  -- the cancellation is delivered, wherever the chain is
  have hcancel : turn.step .cancel = some turn' → TurnLeaves t turn turn' := by
    intro hs
    have hexit : turn.run.phase = .nextChunk →
        (turn.phase = .engine ∨ ∃ cause, turn.phase = .aborting cause) →
        TurnLeaves t turn (turn.exitStream (some .cancelledError)) := by
      intro hnext hphase
      rcases exitStream_cancelled hnext with hended | ⟨hflush, hcons, chunk, hrun⟩
      · exact .cancelled hended
      · exact .flushes hflush hphase hcons hrun
    cases ChatTurn.steps_of_step hs with
    | cancelEngine hphase => exact hexit (hwell.engine hphase) (Or.inl hphase)
    | cancelAbort hphase => exact hexit (hwell.aborting hphase) (Or.inr ⟨_, hphase⟩)
    | cancelSend _ => exact .cancelled (onSent_cancelled _ _)
  cases hpending : t.cancelPending with
  | true =>
      cases event with
      | cancel => exact hcancel hs
      | _ => simp [admits, hpending] at hadmits
  | false =>
      cases hl with
      | finished hd => simp [Task.isDone, hp] at hd
      | asked hc => rw [hpending] at hc; cases hc
      | completing hc | replying hc => rw [hp] at hc; cases hc
      | @flushing turn₀ chunk hturn hflush hcons hrun =>
          obtain rfl : turn = turn₀ := TaskPhase.streaming.inj (hp.symm.trans hturn)
          cases event with
          | cancel => exact hcancel hs
          | sent result =>
              cases ChatTurn.steps_of_step hs with
              | @sent next result hphase _ =>
                  obtain rfl := ChainPhase.consuming.inj (hcons.symm.trans hphase)
                  obtain ⟨outcome, hended⟩ := onSent_flushed hrun result
                  exact .flushed hflush hcons hpending hended
          | _ => simp [withCancelCheck, ChatTurn.step, hcons] at hs

/-- **A leaving task stays on its way out**, and pays for what it hands over. -/
theorem leaving_taskStep {deps : Deps} {c c' : Conn deps.sanitizer} {id : TaskId}
    {event : TaskEvent} {t : Task deps.sanitizer} (h : ChainsInv deps c)
    (hs : TaskSteps deps c id event c') (ht : c.tasks[id]? = some t) (hl : t.Leaving) :
    ∃ t', c'.tasks = c.tasks.set id t' ∧ t'.Leaving
      ∧ t'.phase.sendCount + t'.remaining ≤ t.remaining := by
  -- what is not streaming any more has at most an error to send
  have hquiet : ∀ {plan asked pending response} {phase : TaskPhase deps.sanitizer},
      phase = .completing ∨ phase = .finished →
      (Task.mk plan phase asked pending response).Leaving
        ∧ phase.sendCount + (Task.mk plan phase asked pending response).remaining = 0 := by
    intro plan asked pending response phase hp
    rcases hp with rfl | rfl
    · exact ⟨.completing rfl, rfl⟩
    · exact ⟨.finished rfl, rfl⟩
  cases hs with
  | @streamed t₀ turn turn' event now hget hadmits hphase hturn =>
      obtain rfl := Option.some.inj (hget.symm.trans ht)
      refine ⟨_, rfl, ?_⟩
      cases turnLeaves_of_step (h id t₀ turn hget hphase).1 hphase hl hadmits hturn with
      | cancelled hended =>
          have hpt : phaseOfTurn deps.sh.lower turn' = .completing := by
            simp [phaseOfTurn, hended, phaseOfOutcome_cancelled]
          rw [hpt]
          obtain ⟨h1, h2⟩ := hquiet (Or.inl rfl)
          exact ⟨h1, h2 ▸ Nat.zero_le _⟩
      | @flushes chunk hflush hwhere hcons hrun =>
          have hpt : phaseOfTurn deps.sh.lower turn' = .streaming turn' := by
            simp [phaseOfTurn, hrun]
          have hflush' : 0 < turn'.flushMs := (ChatTurn.step_flushMs hturn).symm ▸ hflush
          rw [hpt]
          refine ⟨.flushing rfl hflush' hcons hrun, ?_⟩
          have hbefore : t₀.remaining = 2 := by
            rcases hwhere with hw | ⟨cause, hw⟩ <;>
              simp [Task.remaining, hphase, hw, not_le.mpr hflush]
          rw [hbefore]
          simp [TaskPhase.sendCount, TaskPhase.sends, StreamRun.pendingFrame, hrun, Task.remaining,
            hcons, not_le.mpr hflush']
      | @flushed next outcome hflush hcons hpending hended =>
          have hbefore : t₀.remaining = 1 := by
            simp [Task.remaining, hphase, hcons, hpending, not_le.mpr hflush]
          have hpt : phaseOfTurn deps.sh.lower turn' = phaseOfOutcome deps.sh.lower outcome := by
            simp [phaseOfTurn, hended]
          rw [hpt, hbefore]
          rcases phaseOfOutcome_leaving (S := deps.sanitizer) deps.sh.lower outcome with hp | hp
          · obtain ⟨h1, h2⟩ := hquiet (Or.inl hp)
            exact ⟨h1, h2 ▸ Nat.zero_le _⟩
          · rw [hp]
            exact ⟨.replying rfl, by simp [TaskPhase.sendCount, TaskPhase.sends, Task.remaining]⟩
  | @ran t₀ _ session phase hget hadmits hrun =>
      obtain rfl := Option.some.inj (hget.symm.trans ht)
      refine ⟨_, rfl, ?_⟩
      have hruns := taskRuns_of_runTask hrun
      have hover : phase = .completing ∨ phase = .finished := by
        cases hl with
        | finished hd =>
            unfold Task.isDone at hd
            split at hd
            · rename_i hp
              rw [hp, runTask_finished] at hrun
              cases hrun
            · cases hd
        | asked hp =>
            -- only the cancellation is admitted
            cases event with
            | chain e now =>
                cases e with
                | cancel => exact hruns.cancelled
                | _ => simp [admits, hp] at hadmits
            | _ => simp [admits, hp] at hadmits
        | completing hp => exact hruns.leaving (Or.inl hp)
        | replying hp => exact hruns.leaving (Or.inr hp)
        | flushing hp _ _ _ =>
            rw [hp] at hrun
            cases event <;> cases hrun
      obtain ⟨h1, h2⟩ := hquiet hover
      exact ⟨h1, h2 ▸ Nat.zero_le _⟩

/-! ## The tasks of a connection -/

/-- A task that was asked to cancel is leaving, a task that is no longer the newest is not live,
and the cancel confirmation is sent when no task is. -/
structure Settled (deps : Deps) (c : Conn deps.sanitizer) : Prop where
  tracked : Tracked c
  chains : ChainsInv deps c
  leaving : ∀ (id : TaskId) (t : Task deps.sanitizer), c.tasks[id]? = some t →
    t.cancelAsked = true → t.Leaving
  /-- A turn begins when the turns before it are over. -/
  older : ∀ (k : Nat) (t : Task deps.sanitizer), c.tasks[k]? = some t → k + 1 < c.tasks.length →
    t.isLive = false
  confirming : ∀ next, c.phase = .replying .cancelled next → NoneLive c

theorem settled_init (deps : Deps) (clientId : Text) :
    Settled deps (Conn.init deps.sanitizer deps.sh.server clientId) where
  tracked := tracked_init _ clientId
  chains := chainsInv_init deps clientId
  leaving := fun _ _ h => absurd h (by simp [Conn.init])
  older := fun _ _ h => absurd h (by simp [Conn.init])
  confirming := nofun

theorem Settled.leaves {deps : Deps} {c : Conn deps.sanitizer} (h : Settled deps c) {id : TaskId}
    {t : Task deps.sanitizer} (ht : c.tasks[id]? = some t) (hl : t.isLive = false) : t.Leaving := by
  unfold Task.isLive at hl
  rw [Bool.and_eq_false_iff] at hl
  rcases hl with hd | ha
  · exact .finished (by simpa using hd)
  · exact h.leaving id t ht (by simpa using ha)

/-- What a step leaves of a task, by id: it is asked or over when it was before. -/
theorem task_step {deps : Deps} {c c' : Conn deps.sanitizer} {label : Label}
    (hs : c.step deps label = some c') {id : Nat} {t : Task deps.sanitizer}
    (ht : c.tasks[id]? = some t) :
    ∃ t', c'.tasks[id]? = some t' ∧ (t.isLive = false → t'.isLive = false) := by
  rcases step_cases hs with ⟨rfl, rfl⟩ | ⟨id', event, rfl, htask⟩ | hl
  · exact ⟨t, ht, fun h => h⟩
  · -- a finished task takes no step, and a step takes no request to cancel back
    have hset : ∃ u u', c.tasks[id']? = some u ∧ c'.tasks = c.tasks.set id' u'
        ∧ (u.isLive = false → u'.isLive = false) := by
      cases htask with
      | @streamed u turn turn' event now hget _ hp _ =>
          refine ⟨u, _, hget, rfl, fun hlive => ?_⟩
          simp only [Task.isLive, Bool.and_eq_false_iff, Bool.not_eq_false'] at hlive ⊢
          rcases hlive with hd | ha
          · simp [Task.isDone, hp] at hd
          · exact Or.inr ha
      | @ran u _ session phase hget _ hrun =>
          refine ⟨u, _, hget, rfl, fun hlive => ?_⟩
          simp only [Task.isLive, Bool.and_eq_false_iff, Bool.not_eq_false'] at hlive ⊢
          rcases hlive with hd | ha
          · unfold Task.isDone at hd
            split at hd
            · rename_i hp
              rw [hp, runTask_finished] at hrun
              cases hrun
            · cases hd
          · exact Or.inr ha
    obtain ⟨u, u', hu, htasks, hlive⟩ := hset
    rw [htasks]
    by_cases hi : id' = id
    · subst hi
      obtain rfl := Option.some.inj (hu.symm.trans ht)
      exact ⟨u', List.getElem?_set_self (List.getElem?_eq_some_iff.mp ht).1, hlive⟩
    · exact ⟨t, (List.getElem?_set_ne hi).trans ht, fun h => h⟩
  · cases loopSteps_tasks hl with
    | same h => exact ⟨t, h ▸ ht, fun h => h⟩
    | @asked id' h =>
        rw [h, List.getElem?_modify, ht]
        refine ⟨_, rfl, fun hlive => ?_⟩
        split
        · simp [Task.isLive, Task.cancel]
        · exact hlive
    | @created plan _ h =>
        refine ⟨t, ?_, fun h => h⟩
        rw [h, List.getElem?_append_left (List.getElem?_eq_some_iff.mp ht).1, ht]

/-- Without a live task, a step brings none to life. -/
theorem noneLive_step {deps : Deps} {c c' : Conn deps.sanitizer} {label : Label}
    (hs : c.step deps label = some c') (h : NoneLive c)
    (hlength : c'.tasks.length = c.tasks.length) : NoneLive c' := by
  intro id t' ht'
  have hlt : id < c.tasks.length := hlength ▸ (List.getElem?_eq_some_iff.mp ht').1
  obtain ⟨u, hu, hlive⟩ := task_step hs (List.getElem?_eq_getElem hlt)
  obtain rfl := Option.some.inj (hu.symm.trans ht')
  exact hlive (h id _ (List.getElem?_eq_getElem hlt))

/-- The tasks of a connection are only ever added to, by a turn that begins. -/
theorem length_step {deps : Deps} {c c' : Conn deps.sanitizer} {label : Label}
    (hs : c.step deps label = some c') :
    c'.tasks.length = c.tasks.length
      ∨ c'.tasks.length = c.tasks.length + 1 ∧ ∃ plan, c.phase = .beginning plan := by
  rcases step_cases hs with ⟨rfl, rfl⟩ | ⟨id', event, rfl, htask⟩ | hl
  · exact Or.inl rfl
  · cases htask with
    | streamed _ _ _ _ | ran _ _ _ => exact Or.inl List.length_set
  · cases loopSteps_tasks hl with
    | same h => exact Or.inl (by rw [h])
    | asked h => exact Or.inl (by rw [h, List.length_modify])
    | @created plan hp h => exact Or.inr ⟨by simp [h], plan, hp⟩

/-- The confirmation of a cancel follows the cleanup of its abort. -/
theorem confirming_of_loop {deps : Deps} {c c' : Conn deps.sanitizer} {label : Label}
    (hs : LoopSteps deps c label c') {next : AfterReply}
    (hp : c'.phase = .replying .cancelled next) :
    c.phase = .abortCleanup .confirmCancel ∨ c'.phase = c.phase := by
  have hplans : ∀ {c₀ msg}, Plans deps c₀ msg c' →
      c.phase = .abortCleanup .confirmCancel ∨ c'.phase = c.phase := by
    intro c₀ msg hplan
    cases hplan with
    | rejected hf _ _ => exact absurd (LoopPhase.replying.inj hp).1 hf
    | planned _ => cases hp
  cases hs with
  | @raised _ c₁ e hr =>
      obtain ⟨phase, hphase, heq⟩ := raiseLoop_cases deps.sh.lower c₁ e
      rw [heq] at hp
      rcases hphase with rfl | rfl <;> cases hp
  | answered _ hf => exact absurd (LoopPhase.replying.inj hp).1 hf
  | startRefused _ _ hf | unstarted _ _ hf => exact absurd (LoopPhase.replying.inj hp).1 hf
  | startRejected _ _ _ hf _ _ => exact absurd (LoopPhase.replying.inj hp).1 hf
  | pong _ => exact Or.inr rfl
  | abortedConfirms hphase => exact Or.inl hphase
  | messagePlans _ _ _ hplan => exact hplans hplan
  | abortedPlans _ hplan => exact hplans hplan
  | @replied frame next' _ b _ _ => cases next' <;> cases hp
  | @cancelled requestId next' _ =>
      dsimp only at hp
      split at hp <;> cases hp
  | @began plan _ =>
      unfold beginSection at hp
      dsimp only at hp
      split at hp <;> cases hp
  | ending _ | hangup _ | cancelling _ | internalReplied _ | closed _ | closedEnd _
  | engineAborted _ | abortedCloses _ | tracked _ | stopped _ | stoppedStateless _
  | markedClosed _ | disconnected _ => cases hp
  | startAnswered _ _ _ | messageAborts _ _ _ => cases hp

theorem settled_step {deps : Deps} {c c' : Conn deps.sanitizer} {label : Label}
    (h : Settled deps c) (hs : c.step deps label = some c') : Settled deps c' := by
  have hlength := length_step hs
  refine ⟨tracked_step h.tracked hs, chainsInv_step h.chains hs, ?_, ?_, ?_⟩
  · intro id t' ht' hasked
    rcases step_cases hs with ⟨rfl, rfl⟩ | ⟨id', event, rfl, htask⟩ | hl
    · exact h.leaving id t' ht' hasked
    · by_cases hi : id' = id
      · subst hi
        -- the step keeps the request to cancel as it was
        have hbefore : ∃ t, c.tasks[id']? = some t ∧ t.cancelAsked = true := by
          cases htask with
          | @streamed t _ _ _ _ hget _ _ _ =>
              rcases getElem?_set_cases ht' with ⟨-, rfl⟩ | ⟨hne, -⟩
              · exact ⟨t, hget, hasked⟩
              · exact absurd rfl hne
          | @ran t _ _ _ hget _ _ =>
              rcases getElem?_set_cases ht' with ⟨-, rfl⟩ | ⟨hne, -⟩
              · exact ⟨t, hget, hasked⟩
              · exact absurd rfl hne
        obtain ⟨t, hget, hasked⟩ := hbefore
        obtain ⟨u, htasks, hl, -⟩ :=
          leaving_taskStep h.chains htask hget (h.leaving id' t hget hasked)
        rw [htasks] at ht'
        rcases getElem?_set_cases ht' with ⟨-, rfl⟩ | ⟨hne, -⟩
        · exact hl
        · exact absurd rfl hne
      · have hold : c.tasks[id]? = some t' := by
          cases htask with
          | streamed _ _ _ _ => exact (List.getElem?_set_ne hi).symm.trans ht'
          | ran _ _ _ => exact (List.getElem?_set_ne hi).symm.trans ht'
        exact h.leaving id t' hold hasked
    · cases loopSteps_tasks hl with
      | same htasks => exact h.leaving id t' (htasks ▸ ht') hasked
      | @asked id' htasks =>
          rw [htasks, List.getElem?_modify] at ht'
          obtain ⟨t, ht, hmod⟩ := Option.map_eq_some_iff.mp ht'
          split at hmod
          · subst hmod
            exact .asked rfl
          · subst hmod
            exact h.leaving id t ht hasked
      | @created plan _ htasks =>
          rw [htasks, List.getElem?_append] at ht'
          split at ht'
          · exact h.leaving id t' ht' hasked
          · rw [List.getElem?_singleton] at ht'
            split at ht'
            · obtain rfl := Option.some.inj ht'
              cases hasked
            · cases ht'
  · intro k t' ht' hk
    -- a task before the newest one was there before the step
    have hlt : k < c.tasks.length := by omega
    obtain ⟨u, hu, hlive⟩ := task_step hs (List.getElem?_eq_getElem hlt)
    obtain rfl := Option.some.inj (hu.symm.trans ht')
    refine hlive ?_
    rcases hlength with heq | ⟨-, plan, hp⟩
    · exact h.older k _ (List.getElem?_eq_getElem hlt) (by omega)
    · exact h.tracked.quiescent (by rw [hp]; rfl) k _ (List.getElem?_eq_getElem hlt)
  · intro next hp
    have hbefore : c.phase = .abortCleanup .confirmCancel ∨ c'.phase = c.phase := by
      rcases step_cases hs with ⟨rfl, rfl⟩ | ⟨id', event, rfl, htask⟩ | hl
      · exact Or.inr rfl
      · cases htask with
        | streamed _ _ _ _ | ran _ _ _ => exact Or.inr rfl
      · exact confirming_of_loop hl hp
    have hsame : c'.tasks.length = c.tasks.length := by
      rcases hlength with heq | ⟨-, plan, hb⟩
      · exact heq
      · rcases hbefore with hc | hc
        · rw [hb] at hc; cases hc
        · rw [hc, hb] at hp; cases hp
    refine noneLive_step hs ?_ hsame
    rcases hbefore with hc | hc
    · exact h.tracked.quiescent (by rw [hc]; rfl)
    · exact h.confirming next (hc ▸ hp)

theorem settled_run {deps : Deps} {clientId : Text} {labels : List Label}
    {c : Conn deps.sanitizer}
    (h : Lts.exec (Conn.step deps) (Conn.init deps.sanitizer deps.sh.server clientId) labels
      = some c) : Settled deps c :=
  Lts.exec_inv (fun _ _ _ hi hs => settled_step hi hs) (settled_init deps clientId) h

/-! ## Every run -/

/-- What a task hands over is what it is sending when its step ends. -/
theorem hands_task {S : Sanitizer} {c c' : Conn S} {label : Label} {a : Sent} {id : TaskId}
    (ha : a ∈ c.hands label c') (hid : a.sender = .task id) :
    (∃ event, label = .task id event) ∧ c'.taskSends id = some a.type := by
  unfold hands at ha
  split at ha
  · rename_i id' event
    obtain ⟨f, hf, rfl⟩ := List.mem_map.mp ha
    injection hid with hid
    subst hid
    exact ⟨⟨event, rfl⟩, Option.mem_toList.mp hf⟩
  · cases ha
  · obtain ⟨f, -, rfl⟩ := List.mem_map.mp ha
    cases hid

/-- How many frames a task can still hand over once it is leaving. -/
def Conn.remaining {S : Sanitizer} (c : Conn S) (id : TaskId) : Nat :=
  (c.tasks[id]?.map Task.remaining).getD 0

/-- To be asked to cancel once more leaves a task no more to say. -/
theorem remaining_cancel {S : Sanitizer} (t : Task S) :
    t.cancel.remaining ≤ t.remaining := by
  unfold Task.remaining Task.cancel
  dsimp only
  split
  · split
    · exact Nat.le_refl _
    · split <;> simp
  · exact Nat.le_refl _

theorem remaining_loop {deps : Deps} {c c' : Conn deps.sanitizer} {label : Label}
    (hs : LoopSteps deps c label c') {id : Nat} {t : Task deps.sanitizer}
    (ht : c.tasks[id]? = some t) : c'.remaining id ≤ c.remaining id := by
  unfold Conn.remaining
  cases loopSteps_tasks hs with
  | same h => rw [h]
  | @asked id' h =>
      rw [h, List.getElem?_modify, ht]
      by_cases hi : id' = id
      · simpa [hi] using remaining_cancel t
      · simp [hi]
  | @created plan _ h =>
      rw [h, List.getElem?_append_left (List.getElem?_eq_some_iff.mp ht).1]

/-- **A leaving task pays for its frames**, whoever makes the step. -/
theorem hands_le_remaining {deps : Deps} {c c' : Conn deps.sanitizer} {label : Label}
    (h : Settled deps c) (hs : c.step deps label = some c') {id : Nat} {t : Task deps.sanitizer}
    (ht : c.tasks[id]? = some t) (hl : t.isLive = false) :
    (c.hands label c').countP (Sent.isFrom id) + c'.remaining id ≤ c.remaining id := by
  have hleaving := h.leaves ht hl
  have hsilent : (∀ event, label ≠ .task id event) →
      (c.hands label c').countP (Sent.isFrom id) = 0 := by
    intro hne
    refine List.countP_eq_zero.mpr fun a ha hfrom => ?_
    obtain ⟨⟨event, he⟩, -⟩ := hands_task ha (by simpa [Sent.isFrom] using hfrom)
    exact hne event he
  have hbefore : c.remaining id = t.remaining := by simp [Conn.remaining, ht]
  have hloop : (∀ event, label ≠ .task id event) → LoopSteps deps c label c' →
      (c.hands label c').countP (Sent.isFrom id) + c'.remaining id ≤ c.remaining id := by
    intro hne hl
    rw [hsilent hne, Nat.zero_add]
    exact remaining_loop hl ht
  cases label with
  | watchdog =>
      rw [hsilent nofun, Nat.zero_add, ← Option.some.inj hs]
      exact Nat.le_refl _
  | task id' event =>
      have htask := taskSteps_of_taskStep hs
      by_cases hi : id' = id
      · subst hi
        obtain ⟨t', htasks, -, hpays⟩ := leaving_taskStep h.chains htask ht hleaving
        have hlt := (List.getElem?_eq_some_iff.mp ht).1
        have hget : c'.tasks[id']? = some t' := by rw [htasks, List.getElem?_set_self hlt]
        have hcount : (c.hands (.task id' event) c').countP (Sent.isFrom id')
            = t'.phase.sendCount := by
          have hsends : c'.taskSends id' = t'.phase.sends := by simp [taskSends, hget]
          unfold hands TaskPhase.sendCount
          dsimp only
          rw [hsends]
          cases t'.phase.sends <;> simp [Sent.isFrom]
        have hafter : c'.remaining id' = t'.remaining := by simp [Conn.remaining, hget]
        omega
      · rw [hsilent (fun event' he => hi (Label.task.inj he).1)]
        have hsame : c'.tasks[id]? = some t := by
          cases htask with
          | streamed _ _ _ _ => exact (List.getElem?_set_ne hi).trans ht
          | ran _ _ _ => exact (List.getElem?_set_ne hi).trans ht
        have hafter : c'.remaining id = t.remaining := by simp [Conn.remaining, hsame]
        omega
  | recv _ _ | recvInvalid _ | recvFailed _ | parseFailed _ | sent _ | closed _ | engineAborted _
  | resume => exact hloop nofun (loopSteps_of_loopStep hs)

/-- Without buffering, a task that is not live has nothing left to say. -/
theorem Settled.silent {deps : Deps} {c : Conn deps.sanitizer} (h : Settled deps c)
    (hflush : deps.sh.server.streamFlushMs ≤ 0) (id : TaskId) : c.remaining id = 0 := by
  unfold Conn.remaining
  cases ht : c.tasks[id]? with
  | none => rfl
  | some t =>
      simp only [Option.map_some, Option.getD_some, Task.remaining]
      split
      · rename_i turn hp
        rw [if_pos ((h.chains id t turn ht hp).2 ▸ hflush)]
      · rfl

/--
**Turns do not interleave.** Without buffering, in every run, once a turn has handed a frame to the
socket no turn before it hands over another: the frames of the connection's turns are those of the
first turn, then those of the second, and so on, although no frame names its turn.
-/
theorem handedOver_ordered (deps : Deps) (hflush : deps.sh.server.streamFlushMs ≤ 0)
    (clientId : Text) (labels : List Label) :
    (Conn.handedOver deps (Conn.init deps.sanitizer deps.sh.server clientId) labels).Pairwise
      fun a b => ∀ i j : Nat, a.sender = .task i → b.sender = .task j → i ≤ j := by
  refine Lts.outputs_pairwise (I := Settled deps)
    (K := fun c a => ∀ i : Nat, a.sender = .task i → i < c.tasks.length
      ∧ ∀ (k : Nat) (t : Task deps.sanitizer), k < i → c.tasks[k]? = some t → t.isLive = false)
    (fun _ _ _ h hs => settled_step h hs) ?_ ?_ ?_ ?_ (settled_init deps clientId) labels
  · -- a task that hands something over now: the ones before it are not live
    intro c label c' h hs a ha i hi
    obtain ⟨-, hsends⟩ := hands_task ha hi
    obtain ⟨t, ht, -⟩ := Option.bind_eq_some_iff.mp hsends
    have hlt : i < c'.tasks.length := (List.getElem?_eq_some_iff.mp ht).1
    exact ⟨hlt, fun k u hk hu => (settled_step h hs).older k u hu (by omega)⟩
  · intro c label c' h hs a ha i hi
    obtain ⟨hlt, hlive⟩ := ha i hi
    have hle : c.tasks.length ≤ c'.tasks.length := by
      rcases length_step hs with heq | ⟨heq, -⟩ <;> omega
    refine ⟨by omega, fun k t' hk ht' => ?_⟩
    have hklt : k < c.tasks.length := by omega
    obtain ⟨u, hu, hstays⟩ := task_step hs (List.getElem?_eq_getElem hklt)
    obtain rfl := Option.some.inj (hu.symm.trans ht')
    exact hstays (hlive k _ hk (List.getElem?_eq_getElem hklt))
  · -- and a task that is not live hands nothing over
    intro c label c' h hs a ha b hb i j hi hj
    obtain ⟨hlt, hlive⟩ := ha i hi
    by_contra hlt'
    have hji : j < i := by omega
    have hjlt : j < c.tasks.length := by omega
    have hpays := hands_le_remaining h hs (List.getElem?_eq_getElem hjlt)
      (hlive j _ hji (List.getElem?_eq_getElem hjlt))
    rw [h.silent hflush j] at hpays
    have hzero : (c.hands label c').countP (Sent.isFrom j) = 0 := by omega
    exact List.countP_eq_zero.mp hzero b hb (by simp [Sent.isFrom, hj])
  · intro c label c' _ _
    unfold hands
    split
    · cases c'.taskSends _ <;> simp
    · exact List.Pairwise.nil
    · cases c'.phase.sends <;> simp

/-- A turn is interrupted while its first token is being sent. -/
def interruptedTurn : List Label :=
  oneTurn ++ [.task 0 (.run 0), .task 0 (.chain (.output (some "Hi".toList) false 0) 0),
    .recv (.message (utterance "bye".toList)) 0, .resume, .engineAborted none, .resume]

/-- And the turn that interrupts it speaks before it has seen its cancellation. -/
def nextTurn : List Label :=
  [.resume, .resume, .task 1 (.run 0), .task 1 (.chain (.output (some "Yo".toList) false 0) 0),
    .task 0 (.chain .cancel 0), .task 0 .complete, .task 1 (.chain (.sent .ack) 0)]

theorem handedOver_ordered_interrupted :
    let wire := Conn.handedOver (.sample true false)
      (Conn.init plainSanitizer .shipped "client".toList) (interruptedTurn ++ nextTurn)
    wire = [⟨.handler, .done⟩, ⟨.task 0, .token⟩, ⟨.task 1, .token⟩]
      ∧ wire.Pairwise fun a b => ∀ i j : Nat, a.sender = .task i → b.sender = .task j → i ≤ j :=
  ⟨by decide +kernel, handedOver_ordered (.sample true false) (by decide +kernel) "client".toList
    (interruptedTurn ++ nextTurn)⟩

/--
**The cancel confirmation is a barrier**, and so is the moment a turn begins: of the turns spawned
before it, each hands over at most two frames after it, whatever happens, and none at all when
tokens are not buffered.
-/
theorem handedOver_after_cancelled (deps : Deps) (clientId : Text) (before after : List Label)
    (c : Conn deps.sanitizer)
    (h : Lts.exec (Conn.step deps) (Conn.init deps.sanitizer deps.sh.server clientId) before
      = some c)
    (hp : (∃ next, c.phase = .replying .cancelled next) ∨ ∃ plan, c.phase = .beginning plan)
    (id : Nat) (hid : id < c.tasks.length) :
    (Conn.handedOver deps c after).countP (Sent.isFrom id) ≤ 2
      ∧ (deps.sh.server.streamFlushMs ≤ 0 →
        (Conn.handedOver deps c after).countP (Sent.isFrom id) = 0) := by
  have hsettled := settled_run h
  have hnone : NoneLive c := by
    rcases hp with ⟨next, hp⟩ | ⟨plan, hp⟩
    · exact hsettled.confirming next hp
    · exact hsettled.tracked.quiescent (by rw [hp]; rfl)
  have hget := List.getElem?_eq_getElem hid
  have hpaid : (Conn.handedOver deps c after).countP (Sent.isFrom id) ≤ c.remaining id := by
    refine Lts.countP_outputs_le
      (I := fun c => Settled deps c
        ∧ ∃ t : Task deps.sanitizer, c.tasks[id]? = some t ∧ t.isLive = false)
      (B := fun c => c.remaining id) ?_ ?_ ⟨hsettled, _, hget, hnone id _ hget⟩ after
    · intro c label c' hc hs
      obtain ⟨h, t, ht, hl⟩ := hc
      obtain ⟨t', ht', hl'⟩ := task_step hs ht
      exact ⟨settled_step h hs, t', ht', hl' hl⟩
    · intro c label c' hc hs
      obtain ⟨h, t, ht, hl⟩ := hc
      exact hands_le_remaining h hs ht hl
  have hle : c.remaining id ≤ 2 := by
    simp only [Conn.remaining, hget, Option.map_some, Option.getD_some]
    exact Task.remaining_le _
  refine ⟨by omega, fun hflush => ?_⟩
  have hzero := hsettled.silent hflush id
  omega

theorem handedOver_after_cancelled_interrupted :
    ∃ c, Lts.exec (Conn.step (.sample true false))
        (Conn.init plainSanitizer .shipped "client".toList) interruptedTurn = some c
      ∧ (Conn.handedOver (.sample true false) c nextTurn).countP (Sent.isFrom 0) = 0 := by
  have hrun : (Lts.exec (Conn.step (.sample true false))
      (Conn.init plainSanitizer .shipped "client".toList) interruptedTurn).map
        (fun c => (c.phase.begins, c.tasks.length))
      = some (true, 1) := by decide +kernel
  obtain ⟨c, hc, hobs⟩ := Option.map_eq_some_iff.mp hrun
  obtain ⟨hphase, hlength⟩ := Prod.mk.inj hobs
  have hlength : c.tasks.length = 1 := hlength
  have hbegins : ∃ plan, c.phase = .beginning plan := by
    cases hp : c.phase with
    | beginning plan => exact ⟨plan, rfl⟩
    | _ => rw [hp] at hphase; cases hphase
  exact ⟨c, hc, (handedOver_after_cancelled (.sample true false) "client".toList interruptedTurn
    nextTurn c hc (Or.inr hbegins) 0 (by omega)).2 (by decide +kernel)⟩

end YapInference
