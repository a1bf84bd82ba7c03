import YapInference.Lib.Lts
import YapInference.Proof.RequestFrame

/-!
# Steps of a connection

What one step of the connection does, said once. `LoopSteps` lists what the handler can do
between two awaits, with the guards; `TaskSteps` does so for the tasks. An exception that
leaves the loop is listed apart, in `RaisesOut`, by where it comes from: the theorems about
cleanup are about exactly those.
-/

namespace YapInference

open Py

/-- The `started` flag a reply was sent with. -/
def AfterReply.sets : AfterReply → Option Bool
  | .setStarted started | .closeThenSet started => some started
  | .startAccepted => some true
  | .continue | .endSession => none

namespace Conn

variable {S : Sanitizer}

/-- The handler after a rate limiter was asked. -/
def charged (c : Conn S) (ml cl : SlidingWindowRateLimiter) : Conn S :=
  { c with messageLimiter := ml, cancelLimiter := cl }

/-- The ids a plan draws now. -/
def planIds (c : Conn S) : PlanIds := { requestId := c.nextId, turnId := c.nextId + 1 }

/-- Planning ran: its ids are used up. -/
def drawn (c : Conn S) (n : Nat) : Conn S := { c with nextId := c.nextId + n }

/-- A message passed the `started` check. -/
def dispatched (c : Conn S) : Conn S := { c with log := c.log ++ [LoopEvent.turnDispatched] }

/-- A message was planned. -/
def planned (c : Conn S) (msg : Dict Text Json) (session : SessionState) (plan : TurnPlan) :
    Conn S :=
  { c.drawn 2 with
    session := session
    phase := .beginning plan
    log := c.log ++ [LoopEvent.turnPlanned msg plan] }

/-- A start ran, and left this session. -/
def handled (c : Conn S) (msg : Dict Text Json) (session : SessionState) : Conn S :=
  { c.drawn (historyLength msg) with
    session := session
    log := c.log ++ [LoopEvent.startHandled (HistoryController.chatMessages session)] }

theorem errorFrame_ne_cancelled (code message : Text) : errorFrame code message ≠ .cancelled :=
  nofun

/-- Where `_send_turn_error` stands before its first await. -/
theorem replyTurnError_cases (c : Conn S) (error : TurnError) (started : Bool) :
    ∃ frame next, c.replyTurnError error started = c.reply frame next ∧ frame ≠ .cancelled
      ∧ next.sets = some started ∧ next ≠ .startAccepted := by
  unfold replyTurnError
  split
  · exact ⟨_, _, rfl, errorFrame_ne_cancelled _ _, rfl, nofun⟩
  · exact ⟨_, _, rfl, errorFrame_ne_cancelled _ _, rfl, nofun⟩

/-- Leaving the loop by an exception is logged, and leaves without `state`. -/
theorem raiseLoop_cases (lower : Lower) (c : Conn S) (e : Exc) :
    ∃ phase, (phase = .stopping false ∨ phase = .replyingInternal)
      ∧ c.raiseLoop lower e
        = { c with log := c.log ++ [LoopEvent.loopRaised e], phase := phase } := by
  unfold raiseLoop finalize
  dsimp only
  split
  · exact ⟨.stopping false, Or.inl rfl, rfl⟩
  · exact ⟨.replyingInternal, Or.inr rfl, rfl⟩

theorem raiseLoop_session (lower : Lower) (c : Conn S) (e : Exc) :
    (c.raiseLoop lower e).session = c.session := by
  obtain ⟨phase, -, heq⟩ := raiseLoop_cases lower c e
  rw [heq]

end Conn

open Conn

/-! ## The handler -/

/-- An exception leaves the loop: `e`, out of the handler's state `c₁`. -/
inductive RaisesOut (deps : Deps) (c : Conn deps.sanitizer) :
    Label → Conn deps.sanitizer → Exc → Prop where
  /-- `receive_text` raised, the peer is not known to be gone and nobody closed. -/
  | received {e} : c.phase = .receiving →
      (c.idleTimedOut || isExpectedWsDisconnect deps.sh.lower e) = false →
      RaisesOut deps c (.recvFailed e) c e
  | parsed {e} : c.phase = .receiving → RaisesOut deps c (.parseFailed e) c e
  /-- A send raised something other than `WebSocketDisconnect`. -/
  | sent {frame next result e} : c.phase = .replying frame next →
      safeSendText result = .error (.exc e) → RaisesOut deps c (.sent result) c e
  | closed {started e} : c.phase = .closing started → RaisesOut deps c (.closed (some e)) c e
  /-- Validating a start raised. -/
  | started {msg now session e} : c.phase = .receiving →
      (c.messageLimiter.consume now).2 = true → c.started = false →
      bootstrapStartTurn deps.sh deps.parsing deps.promptText (fun i => c.nextId + i) c.session msg
        = .escaped session e →
      RaisesOut deps c (.recv (.start msg) now)
        ((c.charged (c.messageLimiter.consume now).1 c.cancelLimiter).handled msg session) e
  /-- Validating a message raised. -/
  | message {msg now e} : c.phase = .receiving →
      (c.messageLimiter.consume now).2 = true → c.started = true →
      hasRunningTask c.taskDone c.session = false →
      planMessageTurn deps.sh deps.parsing c.planIds c.session msg = .escaped e →
      RaisesOut deps c (.recv (.message msg) now)
        ((c.charged (c.messageLimiter.consume now).1 c.cancelLimiter).dispatched.drawn 2) e
  /-- Validating a message raised, after the turn before it was aborted. -/
  | aborted {msg e} : c.phase = .abortCleanup (.plan msg) →
      planMessageTurn deps.sh deps.parsing c.planIds (cleanupSessionRequests c.session none true)
        msg = .escaped e →
      RaisesOut deps c .resume
        ({ c with session := cleanupSessionRequests c.session none true }.drawn 2) e

/-- What planning a message comes to, unless it raises. -/
inductive Plans (deps : Deps) (c : Conn deps.sanitizer) (msg : Dict Text Json) :
    Conn deps.sanitizer → Prop where
  | rejected {frame next} : frame ≠ .cancelled → next.sets = some true → next ≠ .startAccepted →
      Plans deps c msg ((c.drawn 2).reply frame next)
  | planned {session plan} :
      planMessageTurn deps.sh deps.parsing c.planIds c.session msg = .planned session plan →
      Plans deps c msg (c.planned msg session plan)

/-- What the handler does between two awaits. -/
inductive LoopSteps (deps : Deps) (c : Conn deps.sanitizer) :
    Label → Conn deps.sanitizer → Prop where
  | raised {label c₁ e} : RaisesOut deps c label c₁ e →
      LoopSteps deps c label (c₁.raiseLoop deps.sh.lower e)
  /-- A ping, an invalid message or a rate limit is answered, and the loop continues. -/
  | answered {label frame ml cl} : c.phase = .receiving → frame ≠ .cancelled →
      LoopSteps deps c label ((c.charged ml cl).reply frame .continue)
  | pong {now} : c.phase = .receiving → LoopSteps deps c (.recv .pong now) c
  | ending {now} : c.phase = .receiving →
      LoopSteps deps c (.recv .endSession now) (c.reply (.done 200) .endSession)
  | hangup {e} : c.phase = .receiving → LoopSteps deps c (.recvFailed e) c.leaveLoop
  | cancelling {now cl} : c.phase = .receiving →
      LoopSteps deps c (.recv .cancel now)
        ((c.charged c.messageLimiter cl).abortSessionRequests .confirmCancel)
  | startRefused {msg now ml frame} : c.phase = .receiving → c.started = true →
      frame ≠ .cancelled →
      LoopSteps deps c (.recv (.start msg) now)
        ({ c.charged ml c.cancelLimiter with log := c.log ++ [LoopEvent.startRefused] }.reply frame
          (.setStarted true))
  | startRejected {msg now ml session error frame next} : c.phase = .receiving →
      c.started = false →
      bootstrapStartTurn deps.sh deps.parsing deps.promptText (fun i => c.nextId + i) c.session msg
        = .rejected session error →
      frame ≠ .cancelled → next.sets = some false → next ≠ .startAccepted →
      LoopSteps deps c (.recv (.start msg) now)
        (((c.charged ml c.cancelLimiter).handled msg session).reply frame next)
  /-- A start passed, and its `done` frame is being sent. -/
  | startAnswered {msg now ml session} : c.phase = .receiving → c.started = false →
      bootstrapStartTurn deps.sh deps.parsing deps.promptText (fun i => c.nextId + i) c.session msg
        = .accepted session →
      LoopSteps deps c (.recv (.start msg) now)
        ({ (c.charged ml c.cancelLimiter).handled msg session with starting := some msg }.reply
          (.done 200) .startAccepted)
  | unstarted {msg now ml frame} : c.phase = .receiving → c.started = false →
      frame ≠ .cancelled →
      LoopSteps deps c (.recv (.message msg) now)
        ((c.charged ml c.cancelLimiter).reply frame (.setStarted false))
  | messageAborts {msg now ml} : c.phase = .receiving → c.started = true →
      hasRunningTask c.taskDone c.session = true →
      LoopSteps deps c (.recv (.message msg) now)
        ((c.charged ml c.cancelLimiter).dispatched.abortSessionRequests (.plan msg))
  | messagePlans {msg now ml c'} : c.phase = .receiving → c.started = true →
      hasRunningTask c.taskDone c.session = false →
      Plans deps (c.charged ml c.cancelLimiter).dispatched msg c' →
      LoopSteps deps c (.recv (.message msg) now) c'
  /-- The reply is out, or the peer is gone. -/
  | replied {frame next result b} : c.phase = .replying frame next →
      safeSendText result = .ok b → LoopSteps deps c (.sent result) (c.afterReply next)
  | internalReplied {result} : c.phase = .replyingInternal →
      LoopSteps deps c (.sent result) (c.finalize false)
  | closed {started} : c.phase = .closing started →
      LoopSteps deps c (.closed none) { c with phase := .receiving, started := started }
  | closedEnd {failure} : c.phase = .closingEnd → LoopSteps deps c (.closed failure) c.leaveLoop
  /-- The first critical section of an abort; the engine is told when there is a request. -/
  | cancelled {requestId next} : c.phase = .abortLock requestId next →
      LoopSteps deps c .resume { c.cancelSection with
        phase := if requestId.isSome && deps.hasChatEngine then .abortEngine next
          else .abortCleanup next }
  | engineAborted {next failure} : c.phase = .abortEngine next →
      LoopSteps deps c (.engineAborted failure) { c with phase := .abortCleanup next }
  /-- The second critical section, and planning. -/
  | abortedPlans {msg c'} : c.phase = .abortCleanup (.plan msg) →
      Plans deps { c with session := cleanupSessionRequests c.session none true } msg c' →
      LoopSteps deps c .resume c'
  | abortedConfirms : c.phase = .abortCleanup .confirmCancel →
      LoopSteps deps c .resume
        ({ c with session := cleanupSessionRequests c.session none true }.reply .cancelled
          (.setStarted true))
  | abortedCloses : c.phase = .abortCleanup .markClosed →
      LoopSteps deps c .resume
        { c with session := cleanupSessionRequests c.session none true, phase := .closeLock }
  | began {plan} : c.phase = .beginning plan → LoopSteps deps c .resume (c.beginSection plan)
  | tracked {requestId task} : c.phase = .tracking requestId task →
      LoopSteps deps c .resume
        { c with
          session := attachRequestTask c.session requestId task
          phase := .receiving
          started := true }
  | stopped : c.phase = .stopping true →
      LoopSteps deps c .resume (c.abortSessionRequests .markClosed)
  | stoppedStateless : c.phase = .stopping false →
      LoopSteps deps c .resume { c with phase := .disconnecting }
  | markedClosed : c.phase = .closeLock →
      LoopSteps deps c .resume
        { c with session := closeSessionRequests c.session, phase := .disconnecting }
  | disconnected : c.phase = .disconnecting → LoopSteps deps c .resume c.disconnectSection

/-- Planning, with its exception apart. -/
theorem planTurn_cases (deps : Deps) (c : Conn deps.sanitizer) (msg : Dict Text Json) :
    Plans deps c msg (c.planTurn deps msg)
      ∨ ∃ e, planMessageTurn deps.sh deps.parsing c.planIds c.session msg = .escaped e
        ∧ c.planTurn deps msg = (c.drawn 2).raiseLoop deps.sh.lower e := by
  unfold planTurn
  dsimp only
  split
  · rename_i error _
    obtain ⟨frame, next, heq, hf, hn, hs⟩ := (c.drawn 2).replyTurnError_cases error true
    exact Or.inl (heq ▸ .rejected hf hn hs)
  · rename_i e he
    exact Or.inr ⟨e, he, rfl⟩
  · rename_i session plan hp
    exact Or.inl (.planned hp)

theorem handleStart_steps {deps : Deps} {c : Conn deps.sanitizer} {msg : Dict Text Json} {now : ℚ}
    (hp : c.phase = .receiving) (hpass : (c.messageLimiter.consume now).2 = true) :
    LoopSteps deps c (.recv (.start msg) now)
      ((c.charged (c.messageLimiter.consume now).1 c.cancelLimiter).handleStart deps msg) := by
  unfold handleStart
  split
  · rename_i hs
    exact .startRefused hp hs (errorFrame_ne_cancelled _ _)
  · rename_i hs
    have hs' : c.started = false := Bool.eq_false_of_not_eq_true hs
    dsimp only
    split
    · rename_i session error hb
      obtain ⟨frame, next, heq, hf, hn, hne⟩ :=
        ((c.charged (c.messageLimiter.consume now).1 c.cancelLimiter).handled msg
          session).replyTurnError_cases error false
      exact heq ▸ .startRejected hp hs' hb hf hn hne
    · rename_i session e hb
      exact .raised (.started hp hpass hs' hb)
    · rename_i session hb
      exact @LoopSteps.startAnswered deps c msg now (c.messageLimiter.consume now).1 session hp hs' hb

theorem handleMessage_steps {deps : Deps} {c : Conn deps.sanitizer} {msg : Dict Text Json} {now : ℚ}
    (hp : c.phase = .receiving) (hpass : (c.messageLimiter.consume now).2 = true) :
    LoopSteps deps c (.recv (.message msg) now)
      ((c.charged (c.messageLimiter.consume now).1 c.cancelLimiter).handleMessage deps msg) := by
  unfold handleMessage
  split
  · rename_i hs
    have hs' : (!c.started) = true := hs
    exact .unstarted hp (by simpa using hs') (errorFrame_ne_cancelled _ _)
  · rename_i hs
    have hs' : c.started = true := by simpa using (show ¬(!c.started) = true from hs)
    dsimp only
    split
    · rename_i hr
      exact .messageAborts hp hs' hr
    · rename_i hr
      have hr' : hasRunningTask c.taskDone c.session = false := Bool.eq_false_of_not_eq_true hr
      rcases planTurn_cases deps
          (c.charged (c.messageLimiter.consume now).1 c.cancelLimiter).dispatched msg with
        hplan | ⟨e, he, heq⟩
      · exact .messagePlans hp hs' hr' hplan
      · exact heq ▸ .raised (.message hp hpass hs' hr' he)

/-- A reply no limiter was asked for. -/
theorem answered_uncharged {deps : Deps} {c : Conn deps.sanitizer} {label : Label} {frame : Frame}
    (hp : c.phase = .receiving) (hf : frame ≠ .cancelled) :
    LoopSteps deps c label (c.reply frame .continue) :=
  @LoopSteps.answered deps c label frame c.messageLimiter c.cancelLimiter hp hf

theorem handle_steps {deps : Deps} {c : Conn deps.sanitizer} (hp : c.phase = .receiving)
    (msg : ClientMessage) (now : ℚ) : LoopSteps deps c (.recv msg now) (c.handle deps msg now) := by
  cases msg with
  | ping => exact answered_uncharged hp nofun
  | pong => exact .pong hp
  | endSession => exact .ending hp
  | cancel =>
      unfold handle
      dsimp only
      split
      · exact .cancelling hp
      · exact .answered hp (errorFrame_ne_cancelled _ _)
  | start msg =>
      unfold handle
      dsimp only
      split
      · rename_i ha; exact handleStart_steps hp ha
      · exact .answered hp (errorFrame_ne_cancelled _ _)
  | message msg =>
      unfold handle
      dsimp only
      split
      · rename_i ha; exact handleMessage_steps hp ha
      · exact .answered hp (errorFrame_ne_cancelled _ _)

/-- **What a step of the handler can be.** -/
theorem loopSteps_of_loopStep {deps : Deps} {c c' : Conn deps.sanitizer} {label : Label}
    (h : c.loopStep deps label = some c') : LoopSteps deps c label c' := by
  unfold loopStep at h
  split at h
  · rename_i msg now hp
    injection h with h; subst h; exact handle_steps hp msg now
  · rename_i message hp
    injection h with h; subst h
    exact answered_uncharged hp (errorFrame_ne_cancelled _ _)
  · rename_i e hp
    split at h
    · injection h with h; subst h; exact .hangup hp
    · rename_i hne
      injection h with h; subst h; exact .raised (.received hp (by simpa using hne))
  · rename_i e hp
    injection h with h; subst h; exact .raised (.parsed hp)
  · rename_i frame next result hp
    split at h
    · rename_i b hb
      injection h with h; subst h; exact .replied hp hb
    · rename_i e he
      injection h with h; subst h; exact .raised (.sent hp he)
    · exact absurd h (by simp)
  · rename_i result hp
    split at h
    · exact absurd h (by simp)
    · injection h with h; subst h; exact .internalReplied hp
  · rename_i started hp
    injection h with h; subst h; exact .closed hp
  · rename_i started e hp
    injection h with h; subst h; exact .raised (.closed hp)
  · rename_i failure hp
    injection h with h; subst h; exact .closedEnd hp
  · rename_i requestId next hp
    have hc := LoopSteps.cancelled hp
    dsimp only at h
    split at h
    · rename_i hr
      injection h with h; subst h
      rw [if_pos hr] at hc; exact hc
    · rename_i hr
      injection h with h; subst h
      rw [if_neg hr] at hc; exact hc
  · rename_i next failure hp
    injection h with h; subst h; exact .engineAborted hp
  · rename_i next hp
    injection h with h; subst h
    cases next with
    | plan msg =>
        rcases planTurn_cases deps
            { c with session := cleanupSessionRequests c.session none true } msg with
          hplan | ⟨e, he, heq⟩
        · exact .abortedPlans hp hplan
        · show LoopSteps deps c .resume (planTurn deps _ msg)
          exact heq ▸ .raised (.aborted hp he)
    | confirmCancel => exact .abortedConfirms hp
    | markClosed => exact .abortedCloses hp
  · rename_i plan hp
    injection h with h; subst h; exact .began hp
  · rename_i requestId task hp
    injection h with h; subst h; exact .tracked hp
  · rename_i hp
    injection h with h; subst h; exact .stopped hp
  · rename_i hp
    injection h with h; subst h; exact .stoppedStateless hp
  · rename_i hp
    injection h with h; subst h; exact .markedClosed hp
  · rename_i hp
    injection h with h; subst h; exact .disconnected hp
  · exact absurd h (by simp)

/-! ## The tasks -/

namespace Conn

variable {S : Sanitizer}

/-- A task moved: its new value, the session it left, and the ids it may have used. -/
def moved (c : Conn S) (id : TaskId) (t : Task S) (session : SessionState) (n : Nat) : Conn S :=
  { c.drawn n with session := session, tasks := c.tasks.set id t }

end Conn

/-- What a task does between two awaits. -/
inductive TaskSteps (deps : Deps) (c : Conn deps.sanitizer) (id : TaskId) :
    TaskEvent → Conn deps.sanitizer → Prop where
  /-- It is streaming. -/
  | streamed {t turn turn' event now} : c.tasks[id]? = some t →
      admits t (.chain event now) = true → t.phase = .streaming turn →
      turn.step (withCancelCheck c.session t.plan.requestId event) = some turn' →
      TaskSteps deps c id (.chain event now)
        (c.moved id
          { t with
            phase := phaseOfTurn deps.sh.lower turn'
            cancelPending := false
            response := some turn'.run }
          (commitAppends deps.sh c.session (newAppends turn.run turn'.run)) 0)
  /-- It is anywhere else. -/
  | ran {t event session phase} : c.tasks[id]? = some t → admits t event = true →
      runTask deps c.nextId c.session t.plan t.phase event = some (session, phase) →
      TaskSteps deps c id event
        (c.moved id { t with phase := phase, cancelPending := false } session 1)

/-- **What a step of a task can be.** -/
theorem taskSteps_of_taskStep {deps : Deps} {c c' : Conn deps.sanitizer} {id : TaskId}
    {event : TaskEvent} (h : c.taskStep deps id event = some c') : TaskSteps deps c id event c' := by
  unfold taskStep at h
  split at h
  · exact absurd h (by simp)
  · rename_i t ht
    split at h
    · exact absurd h (by simp)
    · rename_i ha
      have ha' : admits t event = true := by simpa using ha
      split at h
      · rename_i turn e now hp
        obtain ⟨turn', hturn, rfl⟩ := Option.map_eq_some_iff.mp h
        exact .streamed ht ha' hp hturn
      · obtain ⟨⟨session, phase⟩, hrun, rfl⟩ := Option.map_eq_some_iff.mp h
        exact .ran ht ha' hrun

/-- **What a step of a connection can be**: of the watchdog, of a task, of the handler. -/
theorem step_cases {deps : Deps} {c c' : Conn deps.sanitizer} {label : Label}
    (h : c.step deps label = some c') :
    (label = .watchdog ∧ c' = { c with idleTimedOut := true })
      ∨ (∃ id event, label = .task id event ∧ TaskSteps deps c id event c')
      ∨ LoopSteps deps c label c' := by
  unfold step at h
  split at h
  · injection h with h; exact Or.inl ⟨rfl, h.symm⟩
  · rename_i id event
    exact Or.inr (Or.inl ⟨id, event, rfl, taskSteps_of_taskStep h⟩)
  · exact Or.inr (Or.inr (loopSteps_of_loopStep h))

/-! ## The log -/

/-- Where an event of the log comes from. -/
inductive Logged (deps : Deps) (c : Conn deps.sanitizer) (label : Label) : LoopEvent → Prop where
  | handled {history} : c.phase = .receiving → c.started = false →
      Logged deps c label (.startHandled history)
  | refused : Logged deps c label .startRefused
  | dispatched : Logged deps c label .turnDispatched
  | planned {ids session session' msg plan} :
      planMessageTurn deps.sh deps.parsing ids session msg = .planned session' plan →
      Logged deps c label (.turnPlanned msg plan)
  | accepted {msg} : c.starting = some msg → Logged deps c label (.startAccepted msg)
  | raised {c₁ e} : RaisesOut deps c label c₁ e → Logged deps c label (.loopRaised e)

theorem plans_logged {deps : Deps} {c c₀ c' : Conn deps.sanitizer} {label : Label}
    {msg : Dict Text Json} (hp : Plans deps c₀ msg c') :
    ∃ events, c'.log = c₀.log ++ events ∧ ∀ event ∈ events, Logged deps c label event := by
  cases hp with
  | rejected _ _ _ => exact ⟨[], (List.append_nil _).symm, by simp⟩
  | planned hplan =>
      exact ⟨_, rfl, fun event he => List.mem_singleton.mp he ▸ .planned hplan⟩

/-- **The log only grows**, by events with a source. -/
theorem step_logged {deps : Deps} {c c' : Conn deps.sanitizer} {label : Label}
    (hs : c.step deps label = some c') :
    ∃ events, c'.log = c.log ++ events ∧ ∀ event ∈ events, Logged deps c label event := by
  have hsame : c'.log = c.log →
      ∃ events, c'.log = c.log ++ events ∧ ∀ event ∈ events, Logged deps c label event :=
    fun hlog => ⟨[], by simp [hlog], by simp⟩
  have hone : ∀ event, Logged deps c label event → c'.log = c.log ++ [event] →
      ∃ events, c'.log = c.log ++ events ∧ ∀ event ∈ events, Logged deps c label event :=
    fun event hsource hlog => ⟨[event], hlog, fun e he => List.mem_singleton.mp he ▸ hsource⟩
  rcases step_cases hs with ⟨rfl, rfl⟩ | ⟨id, event, rfl, ht⟩ | hl
  · exact hsame rfl
  · cases ht with
    | streamed _ _ _ _ | ran _ _ _ => exact hsame rfl
  · cases hl with
    | @raised _ c₁ e hr =>
        obtain ⟨phase, -, heq⟩ := raiseLoop_cases deps.sh.lower c₁ e
        rw [heq]
        -- what was logged on the way to the exception, and then the exception
        have hgrow : ∃ events, c₁.log = c.log ++ events
            ∧ ∀ event ∈ events, Logged deps c label event := by
          cases hr with
          | received _ _ | parsed _ | sent _ _ | closed _ | aborted _ _ =>
              exact ⟨[], (List.append_nil _).symm, by simp⟩
          | started hp _ hst _ =>
              exact ⟨[_], rfl, fun event he => List.mem_singleton.mp he ▸ .handled hp hst⟩
          | message _ _ _ _ _ =>
              exact ⟨[_], rfl, fun event he => List.mem_singleton.mp he ▸ .dispatched⟩
        obtain ⟨events, hlog, hsource⟩ := hgrow
        refine ⟨events ++ [.loopRaised e], by simp [hlog], fun event he => ?_⟩
        rcases List.mem_append.mp he with he | he
        · exact hsource event he
        · exact List.mem_singleton.mp he ▸ .raised hr
    | answered _ _ | pong _ | ending _ | hangup _ | cancelling _ | unstarted _ _ _
    | internalReplied _ | closed _ | closedEnd _ | cancelled _ | engineAborted _ | abortedConfirms _
    | abortedCloses _ | tracked _ | stopped _ | stoppedStateless _ | markedClosed _
    | disconnected _ => exact hsame rfl
    | startRefused _ _ _ => exact hone _ .refused rfl
    | startRejected hp hst _ _ _ _ => exact hone _ (.handled hp hst) rfl
    | startAnswered hp hst _ => exact hone _ (.handled hp hst) rfl
    | messageAborts _ _ _ => exact hone _ .dispatched rfl
    | messagePlans _ _ _ hplan =>
        obtain ⟨events, hlog, hsource⟩ := plans_logged hplan
        refine ⟨.turnDispatched :: events, ?_, fun event he => ?_⟩
        · rw [hlog]; exact List.append_assoc _ _ _
        · rcases List.mem_cons.mp he with rfl | he
          · exact .dispatched
          · exact hsource event he
    | abortedPlans _ hplan =>
        obtain ⟨events, hlog, hsource⟩ := plans_logged hplan
        exact ⟨events, hlog, hsource⟩
    | began _ =>
        unfold beginSection
        dsimp only
        split <;> exact ⟨[], (List.append_nil _).symm, by simp⟩
    | @replied frame next _ b _ _ =>
        cases next with
        | startAccepted =>
            refine ⟨c.starting.toList.map LoopEvent.startAccepted, rfl, fun event he => ?_⟩
            obtain ⟨msg, hmsg, rfl⟩ := List.mem_map.mp he
            exact .accepted (by simpa using hmsg)
        | «continue» | setStarted _ | closeThenSet _ | endSession => exact hsame rfl

/-! ## The session -/

/-- What a step of the handler makes of the session. -/
inductive SessionMoves (deps : Deps) (c : Conn deps.sanitizer) (label : Label) (s' : SessionState) :
    Prop where
  | requests : WritesRequests s' c.session → SessionMoves deps c label s'
  | planned {s ids msg plan} : WritesRequests s c.session →
      planMessageTurn deps.sh deps.parsing ids s msg = .planned s' plan →
      SessionMoves deps c label s'
  | started {msg now} : label = .recv (.start msg) now → c.started = false →
      (bootstrapStartTurn deps.sh deps.parsing deps.promptText (fun i => c.nextId + i) c.session
        msg).state = s' →
      SessionMoves deps c label s'

/-- **The handler writes to the bookkeeping of the requests**, plans, or starts. -/
theorem sessionMoves_of_loop {deps : Deps} {c c' : Conn deps.sanitizer} {label : Label}
    (hs : LoopSteps deps c label c') : SessionMoves deps c label c'.session := by
  have hsame : SessionMoves deps c label c.session := .requests (.refl _)
  have hcleanup := cleanupSessionRequests_writes c.session none true
  have hplans : ∀ {c₀ : Conn deps.sanitizer} {msg}, Plans deps c₀ msg c' →
      WritesRequests c₀.session c.session → SessionMoves deps c label c'.session := by
    intro c₀ msg hp hw
    cases hp with
    | rejected _ _ _ => exact .requests hw
    | planned hplan => exact .planned hw hplan
  have hstart : ∀ (msg : Dict Text Json) {result : StartResult}, c.started = false →
      bootstrapStartTurn deps.sh deps.parsing deps.promptText (fun i => c.nextId + i) c.session msg
        = result → ∀ now, SessionMoves deps c (.recv (.start msg) now) result.state := by
    intro msg result hst hb now
    exact .started rfl hst (congrArg StartResult.state hb)
  cases hs with
  | raised hr =>
      rw [raiseLoop_session]
      cases hr with
      | received _ _ | parsed _ | sent _ _ | closed _ | message _ _ _ _ _ => exact hsame
      | started _ _ hst hb => exact hstart _ hst hb _
      | aborted _ _ => exact .requests hcleanup
  | answered _ _ | pong _ | ending _ | hangup _ | cancelling _ | startRefused _ _ _
  | unstarted _ _ _ | messageAborts _ _ _ | internalReplied _ | closed _ | closedEnd _
  | engineAborted _ | stopped _ | stoppedStateless _ | disconnected _ => exact hsame
  | startRejected _ hst hb _ _ _ => exact hstart _ hst hb _
  | startAnswered _ hst hb => exact hstart _ hst hb _
  | messagePlans _ _ _ hplan => exact hplans hplan (.refl _)
  | abortedPlans _ hplan => exact hplans hplan hcleanup
  | @replied frame next _ b _ _ => cases next <;> exact hsame
  | cancelled _ | markedClosed _ => exact .requests ⟨_, _, _, _, rfl⟩
  | abortedConfirms _ | abortedCloses _ => exact .requests hcleanup
  | @began plan _ =>
      refine .requests ?_
      have hbegan := beginSessionRequest_writes c.session plan.requestId
      unfold beginSection
      dsimp only
      split <;> exact hbegan
  | tracked _ => exact .requests (attachRequestTask_writes _ _ _)

end YapInference
