import YapInference.WebSocket.Wire
import YapInference.Proof.TaskSteps
import YapInference.Proof.Tracking

/-!
# The frames of a turn

A client reads a turn as an optional tool decision, some tokens, at most one `final`, and one
`done` or `error` that ends it. The task that sends them goes through phases in that order and
sends in each phase the frames that belong to it, so a phase says which frames may still come.
-/

namespace YapInference

open Py Conn

/-! ## Places in a turn -/

/-- Where in a turn a frame has its place. -/
def FrameType.place : FrameType → Nat
  | .tool => 0
  | .token => 1
  | .final => 2
  | .done | .error => 3
  | .cancelled | .pong => 4

/-- **May `g` come after `f` in one turn?** Only tokens are repeated. -/
def Follows (f g : FrameType) : Prop := f.place < g.place ∨ f = .token ∧ g = .token

instance (f g : FrameType) : Decidable (Follows f g) := by unfold Follows; infer_instance

/-- The place a response has reached. -/
def StreamPhase.place : StreamPhase → Nat
  | .sendInitial | .nextChunk | .sendToken _ => 1
  | .sendFinal => 2
  | .sendDone | .sendEmptyOutput => 3
  -- what was raised may still be answered with an error
  | .ended (.raised _) => 3
  | .ended (.returned _) => 4

/-- The place a task has reached: no frame before it is still to come. -/
def TaskPhase.place {S : Sanitizer} : TaskPhase S → Nat
  | .created | .routing | .sendingTool _ => 0
  | .streaming turn => turn.run.phase.place
  | .sendingToolFinal => 2
  | .sendingToolDone | .sendingFitError | .replying => 3
  | .completing | .finished => 4

/-- At this place a frame of type `f` may be behind: what it repeats is a token. -/
def Behind (f : FrameType) (place : Nat) : Prop := f.place < place ∨ f = .token ∧ place = 1

theorem Behind.later {f : FrameType} {place place' : Nat} (h : Behind f place)
    (hle : place ≤ place') : Behind f place' := by
  rcases h with h | ⟨rfl, rfl⟩
  · exact Or.inl (by omega)
  · rcases Nat.eq_or_lt_of_le hle with rfl | hlt
    · exact Or.inr ⟨rfl, rfl⟩
    · exact Or.inl hlt

theorem Behind.follows {f g : FrameType} (h : Behind f g.place) : Follows f g := by
  rcases h with h | ⟨rfl, hg⟩
  · exact Or.inl h
  · refine Or.inr ⟨rfl, ?_⟩
    cases g <;> first | rfl | cases hg

/-! ## The response -/

namespace StreamRun

theorem place_pos (phase : StreamPhase) : 1 ≤ phase.place := by
  unfold StreamPhase.place
  split <;> omega

/-- A response sends what belongs to its place, and is not over. -/
theorem place_of_pendingFrame {run : StreamRun} {frame : Frame}
    (h : run.pendingFrame = some frame) :
    frame.type.place = run.phase.place ∧ run.phase.place ≤ 3 := by
  unfold pendingFrame at h
  split at h
  all_goals first | cases h
  all_goals simp [Frame.type, FrameType.place, StreamPhase.place, emptyOutputFrame, *]

/-- A send that came back leaves its place behind, at least when it was acknowledged. -/
theorem place_onSent {run : StreamRun} {frame : Frame} (hf : run.pendingFrame = some frame)
    (result : SendResult) :
    run.phase.place ≤ (run.onSent result).phase.place
      ∧ (result = .ack → Behind frame.type (run.onSent result).phase.place) := by
  have hlate := (place_of_pendingFrame hf).2
  have hended : ∀ outcome, run.phase.place ≤ (StreamPhase.ended outcome).place := by
    intro outcome
    cases outcome with
    | returned _ => exact Nat.le_succ_of_le hlate
    | raised _ => exact hlate
  rw [onSent_eq]
  unfold logged
  cases result with
  | ack =>
      cases hp : run.phase with
      | sendInitial | sendToken _ =>
          simp only [pendingFrame, hp, Option.some.injEq] at hf
          subst hf
          exact ⟨by simp [safeSendText, onAck, StreamPhase.place],
            fun _ => Or.inr ⟨rfl, by simp [safeSendText, onAck, StreamPhase.place]⟩⟩
      | sendEmptyOutput | sendFinal | sendDone =>
          simp only [pendingFrame, hp, Option.some.injEq] at hf
          subst hf
          refine ⟨by simp [safeSendText, onAck, leave, StreamPhase.place], fun _ => Or.inl ?_⟩
          simp [safeSendText, onAck, leave, Frame.type, FrameType.place, StreamPhase.place,
            emptyOutputFrame]
      | nextChunk | ended _ => simp [pendingFrame, hp] at hf
  | gone =>
      refine ⟨?_, fun hack => by cases hack⟩
      simp only [safeSendText, onGone]
      split
      · exact hended _
      · exact hended _
  | failed e =>
      refine ⟨?_, fun hack => by cases hack⟩
      cases e with
      | webSocketDisconnect =>
          simp only [safeSendText, onGone]
          split
          · exact hended _
          · exact hended _
      | _ => exact hended _
  | cancelled => exact ⟨hended _, fun hack => by cases hack⟩

end StreamRun

/-! ## The chain -/

namespace ChatTurn

variable {S : Sanitizer}

/-- **A step of the chain goes forward in the turn**, past what it learns to be delivered. -/
theorem step_place {t t' : ChatTurn S} {event : ChainEvent} (h : t.WellPhased)
    (hs : t.step event = some t') :
    t.run.phase.place ≤ t'.run.phase.place
      ∧ (event = .sent .ack → ∀ frame, t.run.pendingFrame = some frame →
        Behind frame.type t'.run.phase.place) := by
  have hpulling : ∀ {t'' : ChatTurn S}, t.run.phase = .nextChunk →
      t.run.phase.place ≤ t''.run.phase.place := by
    intro t'' hp
    rw [hp]
    exact StreamRun.place_pos _
  -- after a send the stream is pulled again, which goes nowhere back
  have hsent : ∀ (next : GenNext) (result : SendResult),
      (t.run.onSent result).phase.place ≤ (t.onSent next result).run.phase.place := by
    intro next result
    unfold onSent
    dsimp only
    split
    · rename_i hp
      rw [hp]
      exact StreamRun.place_pos _
    · exact Nat.le_refl _
    · exact Nat.le_refl _
  have hsending : ∀ {next : GenNext}, t.phase = .consuming next →
      ∃ frame, t.run.pendingFrame = some frame := by
    intro next hp
    rw [WellPhased, hp] at h
    exact Option.isSome_iff_exists.mp h
  cases steps_of_step hs with
  | check hp | failedTimeout hp | timedOut hp | abortTimeout hp =>
      exact ⟨Nat.le_refl _, fun hack => by cases hack⟩
  | output hp | exhausted hp | cancelEngine hp =>
      exact ⟨hpulling (h.engine hp), fun hack => by cases hack⟩
  | failed hp _ => exact ⟨hpulling (h.engine hp), fun hack => by cases hack⟩
  | abortedCheck hp | abortedTimeout hp | cancelAbort hp =>
      exact ⟨hpulling (h.aborting hp), fun hack => by cases hack⟩
  | abortFailed hp _ => exact ⟨hpulling (h.aborting hp), fun hack => by cases hack⟩
  | @sent next result hp _ =>
      obtain ⟨frame, hframe⟩ := hsending hp
      obtain ⟨hle, hbehind⟩ := StreamRun.place_onSent hframe result
      refine ⟨Nat.le_trans hle (hsent next result), fun he frame' hf => ?_⟩
      injection he with he
      obtain rfl := Option.some.inj (hframe.symm.trans hf)
      exact (hbehind he).later (hsent next result)
  | @cancelSend next hp =>
      obtain ⟨frame, hframe⟩ := hsending hp
      exact ⟨Nat.le_trans (StreamRun.place_onSent hframe .cancelled).1 (hsent next .cancelled),
        fun hack => by cases hack⟩

/-- The chain keeps its flush interval. -/
theorem pull_flushMs (t : ChatTurn S) (next : GenNext) : (t.pull next).flushMs = t.flushMs := by
  cases next with
  | engine => rfl
  | items rest exit => cases rest with
    | cons chunk rest => rfl
    | nil => cases exit <;> rfl

@[simp] theorem pushChunk_flushMs (t : ChatTurn S) (chunk : Text) :
    (t.pushChunk chunk).1.flushMs = t.flushMs := by
  unfold pushChunk; split <;> rfl

@[simp] theorem flushedTail_flushMs (t : ChatTurn S) : t.flushedTail.1.flushMs = t.flushMs := by
  unfold flushedTail
  dsimp only
  split
  · rfl
  · exact pushChunk_flushMs _ _

theorem exitStream_flushMs (t : ChatTurn S) (exit : Option Raised) :
    (t.exitStream exit).flushMs = t.flushMs := by
  unfold exitStream
  dsimp only
  split
  · exact pull_flushMs _ _
  · split <;> rw [pull_flushMs, flushedTail_flushMs]

theorem onOutput_flushMs (t : ChatTurn S) (output : Option Text) (now : ℚ) :
    (t.onOutput output now).flushMs = t.flushMs := by
  unfold onOutput
  dsimp only
  split
  · rfl
  · split
    · rfl
    · rename_i chunk _
      have hkept := pushChunk_flushMs { t with
        ctrl := ((t.ctrl.extractDelta output).1.emit t.flushMs now
          (t.ctrl.extractDelta output).2).1 } chunk
      split
      · rename_i hpush
        rw [hpush] at hkept
        exact hkept
      · rename_i hpush
        rw [hpush] at hkept
        exact hkept

theorem onSent_flushMs (t : ChatTurn S) (next : GenNext) (result : SendResult) :
    (t.onSent next result).flushMs = t.flushMs := by
  unfold onSent
  dsimp only
  split
  · exact pull_flushMs _ _
  · rfl
  · rfl

theorem step_flushMs {t t' : ChatTurn S} {event : ChainEvent} (hs : t.step event = some t') :
    t'.flushMs = t.flushMs := by
  cases steps_of_step hs with
  | check _ | failedTimeout _ | timedOut _ | abortTimeout _ => rfl
  | output _ => exact onOutput_flushMs _ _ _
  | exhausted _ | cancelEngine _ | abortedCheck _ | abortedTimeout _ | cancelAbort _ =>
      exact exitStream_flushMs _ _
  | failed _ _ | abortFailed _ _ => exact exitStream_flushMs _ _
  | sent _ _ => exact onSent_flushMs _ _ _
  | cancelSend _ => exact onSent_flushMs _ _ _

end ChatTurn

/-! ## The task around it -/

/-- A task sends what belongs to its place, and is not over. -/
theorem TaskPhase.place_of_sends {S : Sanitizer} {phase : TaskPhase S} {f : FrameType}
    (h : phase.sends = some f) : f.place = phase.place ∧ phase.place ≤ 3 := by
  cases phase with
  | streaming turn =>
      obtain ⟨frame, hframe, rfl⟩ := Option.map_eq_some_iff.mp h
      exact StreamRun.place_of_pendingFrame hframe
  | sendingTool _ | sendingToolFinal | sendingToolDone | sendingFitError | replying =>
      cases h
      exact ⟨rfl, by simp [TaskPhase.place]⟩
  | created | routing | completing | finished => cases h

/-- The phase after one that is a plain send. -/
def TaskPhase.afterSend {S : Sanitizer} : TaskPhase S → Option (TaskPhase S)
  | .sendingToolFinal => some .sendingToolDone
  | .sendingToolDone | .sendingFitError => some .completing
  | _ => none

/-- Is the task in a send of its own, outside the stream and the supervisor? -/
def TaskPhase.sendsPlainly {S : Sanitizer} : TaskPhase S → Bool
  | .sendingTool _ | .sendingToolFinal | .sendingToolDone | .sendingFitError => true
  | _ => false

/-- Where a task that is not streaming goes from one await to the next. -/
inductive TaskRuns (deps : Deps) (session : SessionState) (plan : TurnPlan) :
    TaskPhase deps.sanitizer → TaskEvent → TaskPhase deps.sanitizer → Prop where
  | dispatched {freshId now} :
      TaskRuns deps session plan .created (.run now)
        (dispatchExecution deps freshId session plan now).2
  | neverRan {now} : TaskRuns deps session plan .created (.chain .cancel now) .finished
  | decided {isTool} :
      TaskRuns deps session plan .routing (.toolDecision isTool) (.sendingTool isTool)
  | toolRaised {e} : TaskRuns deps session plan .routing (.toolFailed e)
      (phaseOfOutcome deps.sh.lower (.raised (.exc e)))
  | cancelledRouting {now} : TaskRuns deps session plan .routing (.chain .cancel now) .completing
  /-- The tool frame is out, and the chat turn starts, if there is one. -/
  | toolSent {isTool event now result b} : sendResult event = some result →
      safeSendText result = .ok b →
      TaskRuns deps session plan (.sendingTool isTool) (.chain event now)
        (if plan.deployChat then (startStream deps session plan isTool now).2
          else .sendingToolFinal)
  | sent {phase next event now result b} : phase.afterSend = some next →
      sendResult event = some result → safeSendText result = .ok b →
      TaskRuns deps session plan phase (.chain event now) next
  /-- A send raised. -/
  | sendRaised {phase event now result r} : phase.sendsPlainly = true →
      sendResult event = some result → safeSendText result = .error r →
      TaskRuns deps session plan phase (.chain event now)
        (phaseOfOutcome deps.sh.lower (.raised r))
  | replied {event now result} : sendResult event = some result →
      TaskRuns deps session plan .replying (.chain event now) .completing
  | completed : TaskRuns deps session plan .completing .complete .finished
  | cancelledCompleting {now} :
      TaskRuns deps session plan .completing (.chain .cancel now) .finished

/-- A plain send, by what it came back with. -/
theorem afterTaskSend_cases {deps : Deps} {session session' : SessionState}
    {phase' : TaskPhase deps.sanitizer} {event : ChainEvent}
    {next : SessionState × TaskPhase deps.sanitizer}
    (h : afterTaskSend deps session event next = some (session', phase')) :
    ∃ result, sendResult event = some result
      ∧ ((∃ b, safeSendText result = .ok b ∧ phase' = next.2)
        ∨ ∃ r, safeSendText result = .error r
          ∧ phase' = phaseOfOutcome deps.sh.lower (.raised r)) := by
  obtain ⟨result, hresult, heq⟩ := Option.map_eq_some_iff.mp h
  refine ⟨result, hresult, ?_⟩
  split at heq
  · rename_i b hb
    exact Or.inl ⟨b, hb, by rw [heq]⟩
  · rename_i r hr
    cases heq
    exact Or.inr ⟨r, hr, rfl⟩

/-- **What a task that is not streaming can do.** -/
theorem taskRuns_of_runTask {deps : Deps} {freshId : TurnId} {session session' : SessionState}
    {plan : TurnPlan} {phase phase' : TaskPhase deps.sanitizer} {event : TaskEvent}
    (h : runTask deps freshId session plan phase event = some (session', phase')) :
    TaskRuns deps session plan phase event phase' := by
  -- the sends whose results nobody looks at
  have hplain : ∀ {phase next : TaskPhase deps.sanitizer} {event now},
      phase.afterSend = some next → phase.sendsPlainly = true →
      afterTaskSend deps session event (session, next) = some (session', phase') →
      TaskRuns deps session plan phase (.chain event now) phase' := by
    intro phase next event now hnext hsends h
    obtain ⟨result, hresult, ⟨b, hb, rfl⟩ | ⟨r, hr, rfl⟩⟩ := afterTaskSend_cases h
    · exact .sent hnext hresult hb
    · exact .sendRaised hsends hresult hr
  unfold runTask at h
  split at h
  · rename_i now
    injection h with h
    have hd := @TaskRuns.dispatched deps session plan freshId now
    rw [h] at hd
    exact hd
  · cases h; exact .neverRan
  · cases h; exact .decided
  · cases h; exact .toolRaised
  · cases h; exact .cancelledRouting
  · rename_i isTool event now
    obtain ⟨result, hresult, ⟨b, hb, rfl⟩ | ⟨r, hr, rfl⟩⟩ := afterTaskSend_cases h
    · have hsent := @TaskRuns.toolSent deps session plan isTool event now result b hresult hb
      split at hsent
      · rename_i hchat
        rw [if_pos hchat]
        exact hsent
      · rename_i hchat
        rw [if_neg hchat]
        exact hsent
    · exact @TaskRuns.sendRaised deps session plan (.sendingTool isTool) event now result r
        rfl hresult hr
  · exact hplain rfl rfl h
  · exact hplain rfl rfl h
  · exact hplain rfl rfl h
  · obtain ⟨result, hresult, heq⟩ := Option.map_eq_some_iff.mp h
    cases heq
    exact .replied hresult
  · cases h; exact .completed
  · cases h; exact .cancelledCompleting
  · cases h

/-- The chain of a task, as it was started. -/
def Chained {S : Sanitizer} (flushMs : ℚ) (turn : ChatTurn S) : Prop :=
  turn.WellPhased ∧ turn.flushMs = flushMs

theorem phaseOfOutcome_place {S : Sanitizer} (lower : Lower) (outcome : StreamOutcome) :
    (StreamPhase.ended outcome).place ≤ (phaseOfOutcome (S := S) lower outcome).place := by
  cases outcome with
  | returned _ => exact Nat.le_refl _
  | raised _ =>
      unfold phaseOfOutcome
      split <;> simp [TaskPhase.place, StreamPhase.place]

/-- A chain as a task starts it. -/
def Fresh (deps : Deps) (plan : TurnPlan) (turn : ChatTurn deps.sanitizer) : Prop :=
  ∃ historyUser now, turn = { ChatTurn.start deps.sanitizer [] deps.sh.server.streamFlushMs now
    (sanitizesOutput deps.sh.server plan.samplingOverrides) with run := .init historyUser }

theorem Fresh.chained {deps : Deps} {plan : TurnPlan} {turn : ChatTurn deps.sanitizer}
    (h : Fresh deps plan turn) : Chained deps.sh.server.streamFlushMs turn := by
  obtain ⟨historyUser, now, rfl⟩ := h
  exact ⟨rfl, rfl⟩

/-- Whatever a chat turn starts with is past the tool decision, and a chain starts afresh. -/
theorem startStream_place (deps : Deps) (session : SessionState) (plan : TurnPlan) (isTool : Bool)
    (now : ℚ) :
    1 ≤ (startStream deps session plan isTool now).2.place
      ∧ ∀ turn, (startStream deps session plan isTool now).2 = .streaming turn →
        Fresh deps plan turn := by
  unfold startStream
  dsimp only
  split
  · exact ⟨by simp [TaskPhase.place], fun turn hp => absurd hp (by simp)⟩
  · split
    · exact ⟨by simp [TaskPhase.place], fun turn hp => absurd hp (by simp)⟩
    · exact ⟨Nat.le_trans (StreamRun.place_pos _) (phaseOfOutcome_place _ _),
        fun turn hp => absurd hp ((phaseOfOutcome_quiet _ _).1 turn)⟩
    · refine ⟨by simp [TaskPhase.place, streamChatTurn, StreamRun.init, StreamRun.start,
        StreamPhase.place], fun turn hp => ?_⟩
      injection hp with hp
      exact ⟨_, now, hp.symm⟩

theorem dispatchExecution_fresh {deps : Deps} {freshId : TurnId} {session : SessionState}
    {plan : TurnPlan} {now : ℚ} {turn : ChatTurn deps.sanitizer}
    (h : (dispatchExecution deps freshId session plan now).2 = .streaming turn) :
    Fresh deps plan turn := by
  have houtcome : ∀ outcome, phaseOfOutcome (S := deps.sanitizer) deps.sh.lower outcome
      = .streaming turn → Fresh deps plan turn :=
    fun outcome hp => absurd hp ((phaseOfOutcome_quiet _ _).1 turn)
  have hroute : ∀ prepared, (routeTool deps session prepared).2 = .streaming turn →
      Fresh deps plan turn := by
    intro prepared hp
    cases prepared with
    | ok _ => cases hp
    | error e => exact houtcome _ hp
  unfold dispatchExecution at h
  dsimp only at h
  split at h
  · split at h
    · exact houtcome _ h
    · exact hroute _ h
  · split at h
    · split at h
      · exact houtcome _ h
      · exact (startStream_place deps session plan false now).2 turn h
    · split at h
      · split at h
        · exact houtcome _ h
        · exact hroute _ h
      · cases h

theorem TaskRuns.fresh {deps : Deps} {session : SessionState} {plan : TurnPlan}
    {phase phase' : TaskPhase deps.sanitizer} {event : TaskEvent}
    (h : TaskRuns deps session plan phase event phase') (turn : ChatTurn deps.sanitizer)
    (hp : phase' = .streaming turn) : Fresh deps plan turn := by
  cases h with
  | dispatched => exact dispatchExecution_fresh hp
  | @toolRaised e =>
      exact absurd hp ((phaseOfOutcome_quiet deps.sh.lower (.raised (.exc e))).1 turn)
  | @sendRaised _ _ _ _ r _ _ _ =>
      exact absurd hp ((phaseOfOutcome_quiet deps.sh.lower (.raised r)).1 turn)
  | @toolSent isTool event now result b _ _ =>
      split at hp
      · exact (startStream_place deps session plan isTool now).2 turn hp
      · cases hp
  | sent hnext _ _ =>
      subst hp
      unfold TaskPhase.afterSend at hnext
      split at hnext <;> cases hnext
  | neverRan | decided | cancelledRouting | replied _ | completed | cancelledCompleting => cases hp

/-- **A task goes forward in its turn**, past what it learns to be delivered. -/
theorem TaskRuns.place {deps : Deps} {session : SessionState} {plan : TurnPlan}
    {phase phase' : TaskPhase deps.sanitizer} {event : TaskEvent}
    (h : TaskRuns deps session plan phase event phase') :
    phase.place ≤ phase'.place
      ∧ ∀ now, event = .chain (.sent .ack) now → ∀ f, phase.sends = some f →
        Behind f phase'.place := by
  have hack : ∀ {event : ChainEvent} {now now' : ℚ} {result : SendResult} {r : Raised},
      sendResult event = some result → safeSendText result = .error r →
      TaskEvent.chain event now ≠ .chain (.sent .ack) now' := by
    intro event now now' result r hresult hr he
    injection he with he _
    subst he
    cases hresult
    cases hr
  cases h with
  | dispatched => exact ⟨Nat.zero_le _, nofun⟩
  | neverRan | decided | cancelledRouting => exact ⟨Nat.zero_le _, nofun⟩
  | toolRaised => exact ⟨Nat.zero_le _, nofun⟩
  | @toolSent isTool event now result b _ _ =>
      refine ⟨Nat.zero_le _, fun _ _ f hf => ?_⟩
      cases hf
      refine Or.inl ?_
      split
      · exact (startStream_place deps session plan isTool now).1
      · simp [TaskPhase.place, FrameType.place]
  | sent hnext _ _ =>
      unfold TaskPhase.afterSend at hnext
      split at hnext
      all_goals cases hnext
      all_goals refine ⟨by simp [TaskPhase.place], fun _ _ f hf => Or.inl ?_⟩
      all_goals
        cases hf
        simp [TaskPhase.place, FrameType.place]
  | @sendRaised phase event now result r hsends hresult hr =>
      refine ⟨?_, fun now' he => absurd he (hack hresult hr)⟩
      refine Nat.le_trans ?_ (phaseOfOutcome_place deps.sh.lower (.raised r))
      unfold TaskPhase.sendsPlainly at hsends
      split at hsends
      all_goals first | cases hsends
      all_goals simp [TaskPhase.place, StreamPhase.place]
  | replied _ =>
      refine ⟨by simp [TaskPhase.place], fun _ _ f hf => Or.inl ?_⟩
      cases hf
      simp [TaskPhase.place, FrameType.place]
  | completed | cancelledCompleting => exact ⟨Nat.le_refl _, nofun⟩

/-! ## The tasks of a connection -/

/-- What a step of the handler does to the tasks: it asks one to cancel, or creates one. -/
inductive TasksMove {S : Sanitizer} (c c' : Conn S) : Prop where
  | same : c'.tasks = c.tasks → TasksMove c c'
  | asked {id} : c'.tasks = c.tasks.modify id Task.cancel → TasksMove c c'
  | created {plan} : c.phase = .beginning plan → c'.tasks = c.tasks ++ [.create plan] →
      TasksMove c c'

theorem loopSteps_tasks {deps : Deps} {c c' : Conn deps.sanitizer} {label : Label}
    (hs : LoopSteps deps c label c') : TasksMove c c' := by
  have hplans : ∀ {c₀ : Conn deps.sanitizer} {msg}, Plans deps c₀ msg c' →
      c₀.tasks = c.tasks → TasksMove c c' := by
    intro c₀ msg hp htasks
    cases hp with
    | rejected _ _ _ | planned _ => exact .same htasks
  cases hs with
  | @raised _ c₁ e hr =>
      obtain ⟨phase, -, heq⟩ := raiseLoop_cases deps.sh.lower c₁ e
      rw [heq]
      cases hr with
      | received _ _ | parsed _ | sent _ _ | closed _ | aborted _ _ => exact .same rfl
      | started _ _ _ _ | message _ _ _ _ _ => exact .same rfl
  | answered _ _ | pong _ | ending _ | hangup _ | cancelling _ | internalReplied _ | closed _
  | closedEnd _ | engineAborted _ | abortedConfirms _ | abortedCloses _ | tracked _ | stopped _
  | stoppedStateless _ | markedClosed _ | disconnected _ => exact .same rfl
  | startRefused _ _ _ | unstarted _ _ _ | messageAborts _ _ _ | startAnswered _ _ _ =>
      exact .same rfl
  | startRejected _ _ _ _ _ _ => exact .same rfl
  | messagePlans _ _ _ hplan => exact hplans hplan rfl
  | abortedPlans _ hplan => exact hplans hplan rfl
  | @replied frame next _ b _ _ => cases next <;> exact .same rfl
  | @cancelled requestId next hp =>
      show TasksMove c { c.cancelSection with phase := _ }
      unfold cancelSection
      split
      · rename_i id _
        exact @TasksMove.asked _ _ _ id rfl
      · exact .same rfl
  | @began plan hp =>
      unfold beginSection
      dsimp only
      split
      · exact .same rfl
      · exact .created hp rfl

/-- A task stays where it is, in its phase, when the handler moves; a task that appears has not
run. -/
theorem TasksMove.get {S : Sanitizer} {c c' : Conn S} (h : TasksMove c c') {id : Nat}
    {t' : Task S} (ht : c'.tasks[id]? = some t') :
    (∃ t, c.tasks[id]? = some t ∧ t'.phase = t.phase ∧ t'.plan = t.plan ∧ t'.response = t.response)
      ∨ t'.phase = .created ∧ t'.response = none ∧ id = c.tasks.length := by
  cases h with
  | same h => exact Or.inl ⟨t', h ▸ ht, rfl, rfl, rfl⟩
  | @asked id' h =>
      rw [h, List.getElem?_modify] at ht
      obtain ⟨t, ht, hmod⟩ := Option.map_eq_some_iff.mp ht
      refine Or.inl ⟨t, ht, ?_⟩
      split at hmod <;> (subst hmod; exact ⟨rfl, rfl, rfl⟩)
  | @created plan _ h =>
      rw [h, List.getElem?_append] at ht
      split at ht
      · exact Or.inl ⟨t', ht, rfl, rfl, rfl⟩
      · rename_i hlt
        rw [List.getElem?_singleton] at ht
        split at ht
        · obtain rfl := Option.some.inj ht
          exact Or.inr ⟨rfl, rfl, by omega⟩
        · cases ht

theorem TasksMove.kept {S : Sanitizer} {c c' : Conn S} (h : TasksMove c c') {id : TaskId}
    {t : Task S} (ht : c.tasks[id]? = some t) :
    ∃ t', c'.tasks[id]? = some t' ∧ t'.phase = t.phase := by
  cases h with
  | same h => exact ⟨t, h ▸ ht, rfl⟩
  | @asked id' h =>
      rw [h, List.getElem?_modify, ht]
      refine ⟨_, rfl, ?_⟩
      split <;> rfl
  | @created plan _ h =>
      refine ⟨t, ?_, rfl⟩
      rw [h, List.getElem?_append_left (List.getElem?_eq_some_iff.mp ht).1, ht]

/-- Every stream on the connection is one of its chains. -/
def ChainsInv (deps : Deps) (c : Conn deps.sanitizer) : Prop :=
  ∀ (id : TaskId) (t : Task deps.sanitizer) (turn : ChatTurn deps.sanitizer),
    c.tasks[id]? = some t → t.phase = .streaming turn →
    Chained deps.sh.server.streamFlushMs turn

/-- A stream that goes on is where its phase says. -/
theorem turn_of_phaseOfTurn {S : Sanitizer} {lower : Lower} {turn turn' : ChatTurn S}
    (h : phaseOfTurn lower turn' = .streaming turn) : turn' = turn := by
  unfold phaseOfTurn at h
  split at h
  · rename_i outcome _
    exact absurd h ((phaseOfOutcome_quiet lower outcome).1 turn)
  · exact TaskPhase.streaming.inj h

theorem chainsInv_step {deps : Deps} {c c' : Conn deps.sanitizer} {label : Label}
    (h : ChainsInv deps c) (hs : c.step deps label = some c') : ChainsInv deps c' := by
  intro id u turn hu hp
  rcases step_cases hs with ⟨rfl, rfl⟩ | ⟨id', event, rfl, ht⟩ | hl
  · exact h id u turn hu hp
  · cases ht with
    | @streamed t turn₀ turn' event now hget _ hphase hturn =>
        rcases getElem?_set_cases hu with ⟨rfl, rfl⟩ | ⟨-, hu⟩
        · obtain rfl := turn_of_phaseOfTurn hp
          obtain ⟨hwell, hflush⟩ := h id t turn₀ hget hphase
          exact ⟨ChatTurn.step_wellPhased hwell hturn, (ChatTurn.step_flushMs hturn).trans hflush⟩
        · exact h id u turn hu hp
    | @ran t _ session phase hget _ hrun =>
        rcases getElem?_set_cases hu with ⟨rfl, rfl⟩ | ⟨-, hu⟩
        · exact ((taskRuns_of_runTask hrun).fresh turn hp).chained
        · exact h id u turn hu hp
  · rcases (loopSteps_tasks hl).get hu with ⟨t, ht, hphase, -⟩ | ⟨hcreated, -⟩
    · exact h id t turn ht (hphase ▸ hp)
    · rw [hcreated] at hp
      cases hp

theorem chainsInv_init (deps : Deps) (clientId : Text) :
    ChainsInv deps (Conn.init deps.sanitizer deps.sh.server clientId) := by
  intro id t turn ht
  simp [Conn.init] at ht

theorem phaseOfTurn_place {S : Sanitizer} (lower : Lower) (turn : ChatTurn S) :
    turn.run.phase.place ≤ (phaseOfTurn lower turn).place := by
  unfold phaseOfTurn
  split
  · rename_i outcome hp
    rw [hp]
    exact phaseOfOutcome_place lower outcome
  · exact Nat.le_refl _

/-- What a step of a task does to its place. -/
theorem taskSteps_place {deps : Deps} {c c' : Conn deps.sanitizer} {id : TaskId}
    {event : TaskEvent} (h : ChainsInv deps c) (hs : TaskSteps deps c id event c') :
    ∃ t t', c.tasks[id]? = some t ∧ c'.tasks = c.tasks.set id t' ∧ t.phase.place ≤ t'.phase.place
      ∧ ∀ now, event = .chain (.sent .ack) now → ∀ f, t.phase.sends = some f →
        Behind f t'.phase.place := by
  cases hs with
  | @streamed t turn turn' event now ht _ hp hturn =>
      obtain ⟨hle, hbehind⟩ := ChatTurn.step_place (h id t turn ht hp).1 hturn
      have hlater := phaseOfTurn_place deps.sh.lower turn'
      refine ⟨t, _, ht, rfl, ?_, fun now' he f hf => ?_⟩
      · rw [hp]
        exact Nat.le_trans hle hlater
      · rw [hp] at hf
        obtain ⟨frame, hframe, rfl⟩ := Option.map_eq_some_iff.mp hf
        injection he with he _
        subst he
        exact (hbehind rfl frame hframe).later hlater
  | @ran t _ session phase ht _ hrun =>
      obtain ⟨hle, hbehind⟩ := (taskRuns_of_runTask hrun).place
      exact ⟨t, _, ht, rfl, hle, hbehind⟩

/-! ## Every run -/

/-- What a connection knows of a delivered frame: its task has left it behind. -/
def LeftBehind (c : Conn S) (a : Sent) : Prop :=
  ∀ id, a.sender = .task id → ∃ t, c.tasks[id]? = some t ∧ Behind a.type t.phase.place

theorem leftBehind_step {deps : Deps} {c c' : Conn deps.sanitizer} {label : Label} {a : Sent}
    (h : ChainsInv deps c) (hs : c.step deps label = some c') (ha : LeftBehind c a) :
    LeftBehind c' a := by
  intro id hid
  obtain ⟨t, ht, hbehind⟩ := ha id hid
  rcases step_cases hs with ⟨rfl, rfl⟩ | ⟨id', event, rfl, htask⟩ | hl
  · exact ⟨t, ht, hbehind⟩
  · obtain ⟨u, u', hu, htasks, hle, -⟩ := taskSteps_place h htask
    rw [htasks]
    by_cases hi : id' = id
    · subst hi
      obtain rfl := Option.some.inj (hu.symm.trans ht)
      have hlt := (List.getElem?_eq_some_iff.mp ht).1
      exact ⟨u', List.getElem?_set_self hlt, hbehind.later hle⟩
    · exact ⟨t, (List.getElem?_set_ne hi).trans ht, hbehind⟩
  · obtain ⟨t', ht', hphase⟩ := (loopSteps_tasks hl).kept ht
    exact ⟨t', ht', hphase ▸ hbehind⟩

/-- A delivery of a task is a step of that task, from a phase that sends the frame. -/
theorem delivers_task {S : Sanitizer} {c c' : Conn S} {label : Label} {a : Sent} {id : TaskId}
    (ha : a ∈ c.delivers label c') (hid : a.sender = .task id) :
    (∃ now, label = .task id (.chain (.sent .ack) now))
      ∧ ∃ t, c.tasks[id]? = some t ∧ t.phase.sends = some a.type := by
  unfold delivers at ha
  split at ha
  · rename_i id' now
    obtain ⟨f, hf, rfl⟩ := List.mem_map.mp ha
    injection hid with hid
    subst hid
    obtain ⟨t, ht, hsends⟩ := Option.bind_eq_some_iff.mp (Option.mem_toList.mp hf)
    exact ⟨⟨now, rfl⟩, t, ht, hsends⟩
  · obtain ⟨f, -, rfl⟩ := List.mem_map.mp ha
    cases hid
  · cases ha

/--
**What is delivered of a turn, in every run**: at most one tool decision, then tokens, then at
most one `final`, then one `done` or one `error`, after which nothing more of the turn is
delivered.
-/
theorem delivered_follows (deps : Deps) (clientId : Text) (labels : List Label) :
    (Conn.delivered deps (Conn.init deps.sanitizer deps.sh.server clientId) labels).Pairwise
      fun a b => ∀ id, a.sender = .task id → b.sender = .task id → Follows a.type b.type := by
  refine Lts.outputs_pairwise (I := ChainsInv deps) (K := LeftBehind)
    (fun _ _ _ h hs => chainsInv_step h hs) ?_ (fun _ _ _ h hs _ ha => leftBehind_step h hs ha)
    ?_ ?_ (chainsInv_init deps clientId) labels
  · -- what is delivered now is behind from here on
    intro c label c' h hs a ha id hid
    obtain ⟨⟨now, rfl⟩, t, ht, hsends⟩ := delivers_task ha hid
    obtain ⟨u, u', hu, htasks, -, hbehind⟩ := taskSteps_place h (taskSteps_of_taskStep hs)
    obtain rfl := Option.some.inj (hu.symm.trans ht)
    have hlt := (List.getElem?_eq_some_iff.mp ht).1
    exact ⟨u', by rw [htasks, List.getElem?_set_self hlt], hbehind now rfl _ hsends⟩
  · -- and a task delivers what belongs to the place it has reached
    intro c label c' h hs a ha b hb id hida hidb
    obtain ⟨t, ht, hbehind⟩ := ha id hida
    obtain ⟨-, u, hu, hsends⟩ := delivers_task hb hidb
    obtain rfl := Option.some.inj (hu.symm.trans ht)
    rw [← (TaskPhase.place_of_sends hsends).1] at hbehind
    exact hbehind.follows
  · intro c label c' _ _
    unfold delivers
    split
    · cases c.taskSends _ <;> simp
    · cases c.phase.sends <;> simp
    · exact List.Pairwise.nil

end YapInference
