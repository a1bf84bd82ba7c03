import Mathlib.Tactic.Linarith
import YapInference.Lib.Outputs
import YapInference.Proof.ConnStep
import YapInference.WebSocket.Lifecycle

/-!
# The idle watchdog closes what is idle, and nothing else

The watchdog fires once, and its flag stays set. What it looks at is the last activity, so a close
comes no sooner than the timeout after any message before it. In the other direction it depends on
the event loop: as long as no timer is late by more than `delay`, no connection is idle for longer
than the timeout, one tick and the delay.

Seen from the connection the watchdog is the label `watchdog`, so all that holds of the runs of a
connection holds here.
-/

namespace YapInference

open Py Lts Conn

/-! ## What is seen from outside -/

/-- What the watchdog does, and what it goes by. -/
inductive WatchdogEvent where
  /-- A message that parsed. -/
  | touched (now : ℚ)
  /-- The websocket is closed for idleness. -/
  | closedIdle (now : ℚ) (code : Int) (reason : Text)
  /-- `stop` returned. -/
  | stopped
  deriving DecidableEq

/-- What is asked of two events, the first before the second. -/
def WatchdogEvent.Precedes (timeout : ℚ) : WatchdogEvent → WatchdogEvent → Prop
  | .touched last, .closedIdle now _ _ => last + timeout ≤ now
  | .closedIdle _ _ _, .closedIdle _ _ _ => False
  | .stopped, .closedIdle _ _ _ => False
  | _, _ => True

/-- The reading of the clock after a step. -/
def WatchedLabel.reads (clock : ℚ) : WatchedLabel → ℚ
  | .received _ _ now | .elapsed now | .run now | .wake now => now
  | .conn _ | .closed | .cancelled => clock

/-- Is it a step of the watchdog? -/
def WatchedLabel.watches : WatchedLabel → Bool
  | .run _ | .wake _ | .closed | .cancelled => true
  | _ => false

/-- The watchdog is in `ws.close`. -/
def WebSocketLifecycle.inClose (l : WebSocketLifecycle) : Bool :=
  l.task.any fun t => t.phase = .closing

namespace WatchedConn

variable {deps : Deps}

/-- The events of a step: the websocket is closed where the watchdog enters `ws.close`. -/
def events (w : WatchedConn deps.sanitizer) (label : WatchedLabel)
    (w' : WatchedConn deps.sanitizer) : List WatchdogEvent :=
  match label with
  | .received _ touched _ => [.touched touched]
  | .conn label => if w.conn.phase.isStopping && label.isResume then [.stopped] else []
  | label =>
      if w'.lifecycle.inClose && !w.lifecycle.inClose then
        [.closedIdle (label.reads w.clock) w.lifecycle.idleCloseCode w.lifecycle.idleCloseReason]
      else []

end WatchedConn

/-! ## The steps -/

/-- What a step of the watchdog task can be. -/
inductive WatchdogSteps (l : WebSocketLifecycle) (now : ℚ) : WebSocketLifecycle → Prop where
  /-- The first sleep. -/
  | begins : l.task = some ⟨.created, false⟩ → l.stopEvent = false →
      WatchdogSteps l now (l.awaits (.sleeping (now + l.watchdogTickS)))
  /-- The next one: there was activity. -/
  | sleeps {due} : l.task = some ⟨.sleeping due, false⟩ → due ≤ now → l.stopEvent = false →
      now - l.lastActivity < l.idleTimeoutS →
      WatchdogSteps l now (l.awaits (.sleeping (now + l.watchdogTickS)))
  | fires {due} : l.task = some ⟨.sleeping due, false⟩ → due ≤ now → l.stopEvent = false →
      l.idleTimeoutS ≤ now - l.lastActivity →
      WatchdogSteps l now ({ l with idleTimeoutEvent := true, stopEvent := true }.awaits .closing)
  /-- It was stopped, or cancelled, or the close came back. -/
  | ends {t} : l.task = some t →
      (l.stopEvent = true ∨ t.cancelPending = true ∨ t.phase = .closing) →
      WatchdogSteps l now (l.awaits .done)

namespace WebSocketLifecycle

variable {l l' : WebSocketLifecycle} {now : ℚ}

theorem steps_of_run (h : l.run now = some l') : WatchdogSteps l now l' := by
  unfold run at h
  split at h
  · rename_i htask
    cases h
    unfold loopHead
    split
    · rename_i hstop
      exact .ends htask (.inl hstop)
    · rename_i hstop
      exact .begins htask (Bool.eq_false_iff.mpr hstop)
  · cases h

theorem steps_of_wake (h : l.wake now = some l') : WatchdogSteps l now l' := by
  unfold wake at h
  split at h
  · rename_i due htask
    split at h
    · rename_i hdue
      cases h
      unfold afterSleep
      split
      · rename_i hstop
        exact .ends htask (.inl hstop)
      · rename_i hstop
        have hstop' := Bool.eq_false_iff.mpr hstop
        split
        · rename_i hidle
          exact .fires htask hdue hstop' hidle
        · rename_i hactive
          unfold loopHead
          rw [if_neg hstop]
          exact .sleeps htask hdue hstop' (not_le.mp hactive)
    · cases h
  · cases h

theorem steps_of_closed (h : l.closed = some l') : WatchdogSteps l now l' := by
  unfold closed at h
  split at h
  · rename_i htask
    cases h
    exact .ends htask (.inr (.inr rfl))
  · cases h

theorem steps_of_cancelled (h : l.cancelled = some l') : WatchdogSteps l now l' := by
  unfold cancelled at h
  split at h
  · rename_i phase htask
    cases h
    exact .ends htask (.inr (.inl rfl))
  · cases h

/-- What `stop` leaves. -/
theorem stopped_spec (h : l.stopped = some l') : l' = { l with task := none } := by
  unfold stopped at h
  split at h
  · rename_i hnone
    cases h
    rw [← hnone]
  · split at h
    · cases h
      rfl
    · cases h

end WebSocketLifecycle

/-- No step of the watchdog counts as activity, and the flag stays set. -/
theorem WatchdogSteps.keeps {l l' : WebSocketLifecycle} {now : ℚ} (h : WatchdogSteps l now l') :
    l'.lastActivity = l.lastActivity
      ∧ (l.idleTimeoutEvent = true → l'.idleTimeoutEvent = true) := by
  cases h with
  | begins _ _ | sleeps _ _ _ _ | ends _ _ => exact ⟨rfl, id⟩
  | fires _ _ _ _ => exact ⟨rfl, fun _ => rfl⟩

theorem WatchedConn.watch_phase {S : Sanitizer} (w : WatchedConn S) (now : ℚ)
    (l : WebSocketLifecycle) : (w.watch now l).conn.phase = w.conn.phase := by
  unfold WatchedConn.watch
  dsimp only
  split <;> rfl

/-- **What a step of the two can be.** -/
inductive WatchedSteps (deps : Deps) (w : WatchedConn deps.sanitizer) :
    WatchedLabel → WatchedConn deps.sanitizer → Prop where
  | received {msg touched now c'} : w.clock ≤ touched → touched ≤ now →
      w.conn.step deps (.recv msg now) = some c' →
      WatchedSteps deps w (.received msg touched now)
        ({ w with lifecycle := w.lifecycle.touch touched, clock := now }.advance c')
  | conn {label c'} : label ≠ .watchdog → (w.conn.phase.isStopping && label.isResume) = false →
      w.conn.step deps label = some c' → WatchedSteps deps w (.conn label) (w.advance c')
  /-- `stop` returned. -/
  | stopped {lifecycle c'} : w.conn.phase.isStopping = true →
      w.lifecycle.stopped = some lifecycle → w.conn.step deps .resume = some c' →
      WatchedSteps deps w (.conn .resume) ({ w with lifecycle := lifecycle }.advance c')
  | elapsed {now} : w.clock ≤ now → WatchedSteps deps w (.elapsed now) { w with clock := now }
  | watchdog {label lifecycle} : label.watches = true → w.clock ≤ label.reads w.clock →
      WatchdogSteps w.lifecycle (label.reads w.clock) lifecycle →
      WatchedSteps deps w label (w.watch (label.reads w.clock) lifecycle)

theorem watchedSteps_of_step {deps : Deps} {w w' : WatchedConn deps.sanitizer}
    {label : WatchedLabel} (h : w.step deps label = some w') : WatchedSteps deps w label w' := by
  cases label with
  | received msg touched now =>
      simp only [WatchedConn.step] at h
      split at h
      · rename_i htime
        obtain ⟨c', hc, rfl⟩ := Option.map_eq_some_iff.mp h
        exact .received htime.1 htime.2 hc
      · cases h
  | conn label =>
      have hlabel : label ≠ .watchdog := by
        intro hw
        rw [hw] at h
        cases h
      have hconn : (if w.conn.phase.isStopping && label.isResume then
            w.lifecycle.stopped.bind fun lifecycle =>
              (w.conn.step deps label).map { w with lifecycle := lifecycle }.advance
          else (w.conn.step deps label).map w.advance) = some w' := by
        cases label with
        | recv _ _ | watchdog => cases h
        | _ => exact h
      split at hconn
      · rename_i hstop
        obtain ⟨hphase, hresume⟩ := Bool.and_eq_true_iff.mp hstop
        obtain ⟨lifecycle, hstopped, hconn⟩ := Option.bind_eq_some_iff.mp hconn
        obtain ⟨c', hc, rfl⟩ := Option.map_eq_some_iff.mp hconn
        cases label with
        | resume => exact .stopped hphase hstopped hc
        | _ => cases hresume
      · rename_i hstop
        obtain ⟨c', hc, rfl⟩ := Option.map_eq_some_iff.mp hconn
        exact .conn hlabel (Bool.eq_false_iff.mpr hstop) hc
  | elapsed now =>
      simp only [WatchedConn.step] at h
      split at h
      · cases h
        exact .elapsed ‹_›
      · cases h
  | run now =>
      simp only [WatchedConn.step] at h
      split at h
      · obtain ⟨l', hl, rfl⟩ := Option.map_eq_some_iff.mp h
        exact .watchdog rfl ‹_› (WebSocketLifecycle.steps_of_run hl)
      · cases h
  | wake now =>
      simp only [WatchedConn.step] at h
      split at h
      · obtain ⟨l', hl, rfl⟩ := Option.map_eq_some_iff.mp h
        exact .watchdog rfl ‹_› (WebSocketLifecycle.steps_of_wake hl)
      · cases h
  | closed =>
      obtain ⟨l', hl, rfl⟩ := Option.map_eq_some_iff.mp h
      exact .watchdog rfl le_rfl (WebSocketLifecycle.steps_of_closed hl)
  | cancelled =>
      obtain ⟨l', hl, rfl⟩ := Option.map_eq_some_iff.mp h
      exact .watchdog rfl le_rfl (WebSocketLifecycle.steps_of_cancelled hl)

/-! ## Past `stop` -/

/-- After `lifecycle.stop`. -/
def LoopPhase.pastStop : LoopPhase → Bool
  | .abortLock _ .markClosed | .abortEngine .markClosed | .abortCleanup .markClosed | .closeLock
  | .disconnecting | .returned => true
  | _ => false

theorem LoopPhase.not_pastStop {phase : LoopPhase} (h : phase.isStopping = true) :
    phase.pastStop = false := by
  unfold LoopPhase.isStopping at h
  split at h
  · rfl
  · cases h

/-- In the message loop. -/
def LoopPhase.inLoop (phase : LoopPhase) : Prop :=
  phase.isStopping = false ∧ phase.pastStop = false

/-- A handler in the loop does not get past `stop` at once; from there it goes on. -/
theorem loopSteps_stops {deps : Deps} {c c' : Conn deps.sanitizer} {label : Label}
    (hs : LoopSteps deps c label c') :
    (c.phase.inLoop ∧ c'.phase.pastStop = false)
      ∨ (c.phase.isStopping = true ∧ label = .resume ∧ c'.phase.pastStop = true)
      ∨ (c.phase.pastStop = true ∧ c'.phase.pastStop = true) := by
  have hloop : ∀ {phase : LoopPhase}, c.phase = phase → phase.inLoop → c.phase.inLoop :=
    fun hp h => hp ▸ h
  have hplans : ∀ {c₀ c₁ : Conn deps.sanitizer} {msg}, Plans deps c₀ msg c₁ →
      c₁.phase.pastStop = false := by
    intro c₀ c₁ msg hp
    cases hp with
    | rejected _ _ _ | planned _ => rfl
  cases hs with
  | @raised _ c₁ e hr =>
      obtain ⟨phase, hphase, heq⟩ := raiseLoop_cases deps.sh.lower c₁ e
      rw [heq]
      refine Or.inl ⟨?_, by rcases hphase with rfl | rfl <;> rfl⟩
      cases hr with
      | received hp _ | parsed hp | sent hp _ | closed hp | aborted hp _ | started hp _ _ _
      | message hp _ _ _ _ => exact hloop hp ⟨rfl, rfl⟩
  | answered hp _ | ending hp | hangup hp | cancelling hp | startRefused hp _ _
  | startRejected hp _ _ _ _ _ | startAnswered hp _ _ | unstarted hp _ _ | messageAborts hp _ _
  | internalReplied hp | closed hp | closedEnd hp | abortedConfirms hp | tracked hp =>
      exact Or.inl ⟨hloop hp ⟨rfl, rfl⟩, rfl⟩
  | pong hp => exact Or.inl ⟨hloop hp ⟨rfl, rfl⟩, by rw [hp]; rfl⟩
  | messagePlans hp _ _ hplan => exact Or.inl ⟨hloop hp ⟨rfl, rfl⟩, hplans hplan⟩
  | abortedPlans hp hplan => exact Or.inl ⟨hloop hp ⟨rfl, rfl⟩, hplans hplan⟩
  | @replied _ next _ _ hp _ =>
      exact Or.inl ⟨hloop hp ⟨rfl, rfl⟩, by cases next <;> rfl⟩
  | @cancelled requestId next hp =>
      cases next with
      | markClosed =>
          refine Or.inr (Or.inr ⟨by rw [hp]; rfl, ?_⟩)
          dsimp only
          split <;> rfl
      | plan _ | confirmCancel =>
          refine Or.inl ⟨hloop hp ⟨rfl, rfl⟩, ?_⟩
          dsimp only
          split <;> rfl
  | @engineAborted next failure hp =>
      cases next with
      | markClosed => exact Or.inr (Or.inr ⟨by rw [hp]; rfl, rfl⟩)
      | plan _ | confirmCancel => exact Or.inl ⟨hloop hp ⟨rfl, rfl⟩, rfl⟩
  | @began plan hp =>
      refine Or.inl ⟨hloop hp ⟨rfl, rfl⟩, ?_⟩
      unfold beginSection
      dsimp only
      split <;> rfl
  | stopped hp | stoppedStateless hp => exact Or.inr (Or.inl ⟨by rw [hp]; rfl, rfl, rfl⟩)
  | abortedCloses hp | markedClosed hp | disconnected hp =>
      exact Or.inr (Or.inr ⟨by rw [hp]; rfl, rfl⟩)

/-- The same of any step. -/
theorem step_stops {deps : Deps} {c c' : Conn deps.sanitizer} {label : Label}
    (hs : c.step deps label = some c') :
    c'.phase = c.phase
      ∨ (c.phase.inLoop ∧ c'.phase.pastStop = false)
      ∨ (c.phase.isStopping = true ∧ label = .resume ∧ c'.phase.pastStop = true)
      ∨ (c.phase.pastStop = true ∧ c'.phase.pastStop = true) := by
  rcases step_cases hs with ⟨rfl, rfl⟩ | ⟨id, event, rfl, ht⟩ | hl
  · exact Or.inl rfl
  · cases ht with
    | streamed _ _ _ _ | ran _ _ _ => exact Or.inl rfl
  · exact Or.inr (loopSteps_stops hl)

/-- Only the watchdog sets the flag. -/
theorem step_idleTimedOut {deps : Deps} {c c' : Conn deps.sanitizer} {label : Label}
    (hlabel : label ≠ .watchdog) (hs : c.step deps label = some c') :
    c'.idleTimedOut = c.idleTimedOut := by
  rcases step_cases hs with ⟨rfl, -⟩ | ⟨id, event, rfl, ht⟩ | hl
  · exact absurd rfl hlabel
  · cases ht with
    | streamed _ _ _ _ | ran _ _ _ => rfl
  · cases hl with
    | raised hr =>
        obtain ⟨phase, -, heq⟩ := raiseLoop_cases deps.sh.lower ‹_› ‹_›
        rw [heq]
        cases hr <;> rfl
    | messagePlans _ _ _ hplan => cases hplan <;> rfl
    | abortedPlans _ hplan => cases hplan <;> rfl
    | @replied _ next _ _ _ _ => cases next <;> rfl
    | began _ =>
        unfold beginSection
        dsimp only
        split <;> rfl
    | _ => rfl

/-! ## The invariant -/

/-- What holds of a connection and its watchdog between any two steps. -/
structure Attended (deps : Deps) (cfg : WatchdogConfig) (clientId : Text) (start : ℚ)
    (w : WatchedConn deps.sanitizer) : Prop where
  conn : ∃ labels, exec (Conn.step deps) (Conn.init deps.sanitizer deps.sh.server clientId) labels
    = some w.conn
  timeout : w.lifecycle.idleTimeoutS = cfg.wsIdleTimeoutS
  tick : w.lifecycle.watchdogTickS = cfg.wsWatchdogTickS
  code : w.lifecycle.idleCloseCode = cfg.wsCloseIdleCode
  reason : w.lifecycle.idleCloseReason = cfg.wsCloseIdleReason
  since : start ≤ w.lifecycle.lastActivity
  activity : w.lifecycle.lastActivity ≤ w.clock
  /-- The connection sees the flag. -/
  seen : w.conn.idleTimedOut = w.lifecycle.idleTimeoutEvent
  fired : w.lifecycle.idleTimeoutEvent = true → w.lifecycle.stopEvent = true
  /-- Only the watchdog and the end of the loop stop it. -/
  halted : w.lifecycle.stopEvent = true →
    w.lifecycle.idleTimeoutEvent = true ∨ w.conn.phase.isStopping = true
      ∨ w.conn.phase.pastStop = true
  /-- Without a stop the task goes on. -/
  alive : w.lifecycle.stopEvent = false →
    ∃ phase, w.lifecycle.task = some ⟨phase, false⟩ ∧ phase ≠ .closing ∧ phase ≠ .done
  stopping : w.conn.phase.isStopping = true → w.lifecycle.stopEvent = true
  /-- Past `stop` there is no task. -/
  gone : w.conn.phase.pastStop = true → w.lifecycle.stopEvent = true ∧ w.lifecycle.task = none

theorem attended_init (deps : Deps) (cfg : WatchdogConfig) (clientId : Text) (start : ℚ) :
    Attended deps cfg clientId start
      (.init deps.sanitizer deps.sh.server cfg clientId start) where
  conn := ⟨[], rfl⟩
  timeout := rfl
  tick := rfl
  code := rfl
  reason := rfl
  since := le_rfl
  activity := le_rfl
  seen := rfl
  fired := nofun
  halted := nofun
  alive := fun _ => ⟨.created, rfl, nofun, nofun⟩
  stopping := nofun
  gone := nofun

section Steps

variable {deps : Deps} {cfg : WatchdogConfig} {clientId : Text} {start : ℚ}
  {w w' : WatchedConn deps.sanitizer}

/-- The connection goes on. -/
theorem Attended.advance (h : Attended deps cfg clientId start w) {label : Label}
    {c' : Conn deps.sanitizer} (hlabel : label ≠ .watchdog)
    (hs : w.conn.step deps label = some c')
    (hgone : c'.phase.pastStop = true →
      w.lifecycle.stopEvent = true ∧ w.lifecycle.task = none) :
    Attended deps cfg clientId start (w.advance c') := by
  obtain ⟨labels, hrun⟩ := h.conn
  have hconn : ∃ labels, exec (Conn.step deps)
      (Conn.init deps.sanitizer deps.sh.server clientId) labels = some c' :=
    ⟨labels ++ [label], exec_append_eq_some.mpr ⟨w.conn, hrun, by simp [exec, hs]⟩⟩
  have hseen := (step_idleTimedOut hlabel hs).trans h.seen
  by_cases hcall : (!w.conn.phase.isStopping && c'.phase.isStopping) = true
  · have hadvance : w.advance c' = { w with conn := c', lifecycle := w.lifecycle.stop } := by
      simp only [WatchedConn.advance, hcall, if_true]
    have hstopping : c'.phase.isStopping = true := (Bool.and_eq_true_iff.mp hcall).2
    rw [hadvance]
    refine ⟨hconn, h.timeout, h.tick, h.code, h.reason, h.since, h.activity, hseen, fun _ => rfl,
      fun _ => Or.inr (Or.inl hstopping), (fun hnot => by cases hnot), fun _ => rfl, fun hp => ?_⟩
    rw [LoopPhase.not_pastStop hstopping] at hp
    cases hp
  · have hadvance : w.advance c' = { w with conn := c' } := by
      simp only [WatchedConn.advance, hcall, Bool.false_eq_true, if_false]
    rw [hadvance]
    refine ⟨hconn, h.timeout, h.tick, h.code, h.reason, h.since, h.activity, hseen, h.fired,
      fun hstop => ?_, h.alive, fun hp => h.stopping ?_, hgone⟩
    · rcases h.halted hstop with hidle | hout
      · exact Or.inl hidle
      · refine Or.inr ?_
        rcases step_stops hs with heq | ⟨hloop, -⟩ | ⟨-, -, hpast⟩ | ⟨-, hpast⟩
        · exact heq.symm ▸ hout
        · rw [hloop.1, hloop.2] at hout
          rcases hout with hout | hout <;> cases hout
        · exact Or.inr hpast
        · exact Or.inr hpast
    · rw [show c'.phase.isStopping = true from hp] at hcall
      simpa using hcall

/-- The watchdog goes on. -/
theorem Attended.watch (h : Attended deps cfg clientId start w) {now : ℚ}
    {lifecycle : WebSocketLifecycle} (htime : w.clock ≤ now)
    (hs : WatchdogSteps w.lifecycle now lifecycle) :
    Attended deps cfg clientId start (w.watch now lifecycle) := by
  have hactivity : w.lifecycle.lastActivity ≤ now := h.activity.trans htime
  obtain ⟨labels, hrun⟩ := h.conn
  have hconn : ∀ l', ∃ labels, exec (Conn.step deps)
      (Conn.init deps.sanitizer deps.sh.server clientId) labels = some (w.watch now l').conn := by
    intro l'
    unfold WatchedConn.watch
    dsimp only
    split
    · exact ⟨labels ++ [.watchdog], exec_append_eq_some.mpr ⟨w.conn, hrun, rfl⟩⟩
    · exact ⟨labels, hrun⟩
  have hphase := w.watch_phase now
  have hseen : ∀ l' : WebSocketLifecycle,
      (w.lifecycle.idleTimeoutEvent = true → l'.idleTimeoutEvent = true) →
      (w.watch now l').conn.idleTimedOut = l'.idleTimeoutEvent := by
    intro l' hkeeps
    unfold WatchedConn.watch
    dsimp only
    split
    · rename_i hidle
      exact hidle.symm
    · rename_i hidle
      rw [h.seen, Bool.eq_false_iff.mpr hidle, Bool.eq_false_iff]
      exact fun hold => hidle (hkeeps hold)
  have hstopping : ∀ l', (w.watch now l').conn.phase.isStopping = true →
      w.lifecycle.stopEvent = true := fun l' hp => h.stopping (hphase l' ▸ hp)
  have hhalted : ∀ l', w.lifecycle.stopEvent = true → w.lifecycle.idleTimeoutEvent = true
      ∨ (w.watch now l').conn.phase.isStopping = true
      ∨ (w.watch now l').conn.phase.pastStop = true := fun l' hstop => by
    rw [hphase]
    exact h.halted hstop
  -- there is a task, so the handler is not past `stop`
  have hnotGone : ∀ {t}, w.lifecycle.task = some t → ∀ l',
      (w.watch now l').conn.phase.pastStop ≠ true := by
    intro t ht l' hp
    rw [hphase] at hp
    rw [(h.gone hp).2] at ht
    cases ht
  cases hs with
  | begins htask hstop | sleeps htask _ hstop _ =>
      exact ⟨hconn _, h.timeout, h.tick, h.code, h.reason, h.since, hactivity, hseen _ id, h.fired,
        hhalted _, fun _ => ⟨_, rfl, nofun, nofun⟩, hstopping _,
        fun hp => absurd hp (hnotGone htask _)⟩
  | fires htask _ hstop _ =>
      exact ⟨hconn _, h.timeout, h.tick, h.code, h.reason, h.since, hactivity,
        hseen _ fun _ => rfl, fun _ => rfl, fun _ => Or.inl rfl, nofun, fun _ => rfl,
        fun hp => absurd hp (hnotGone htask _)⟩
  | @ends t htask hends =>
      have hstop : w.lifecycle.stopEvent = true := by
        by_contra hnot
        obtain ⟨phase, halive, hclosing, -⟩ := h.alive (Bool.eq_false_iff.mpr hnot)
        obtain rfl : t = ⟨phase, false⟩ := Option.some.inj (htask.symm.trans halive)
        rcases hends with hstop | hcancel | hclose
        · exact hnot hstop
        · cases hcancel
        · exact hclosing hclose
      exact ⟨hconn _, h.timeout, h.tick, h.code, h.reason, h.since, hactivity, hseen _ id, h.fired,
        hhalted _, fun hnot => absurd (hstop.symm.trans hnot) (by simp), hstopping _,
        fun hp => absurd hp (hnotGone htask _)⟩

/-- **Preserved by every step.** -/
theorem attended_step {label : WatchedLabel} (h : Attended deps cfg clientId start w)
    (hs : w.step deps label = some w') : Attended deps cfg clientId start w' := by
  have hnext : ∀ {label : Label} {c' : Conn deps.sanitizer},
      (w.conn.phase.isStopping && label.isResume) = false → w.conn.step deps label = some c' →
      c'.phase.pastStop = true → w.lifecycle.stopEvent = true ∧ w.lifecycle.task = none := by
    intro label c' hnot hs hp
    rcases step_stops hs with heq | ⟨-, hloop⟩ | ⟨hstop, rfl, -⟩ | ⟨hpast, -⟩
    · exact h.gone (heq ▸ hp)
    · rw [hp] at hloop
      cases hloop
    · simp [hstop, Label.isResume] at hnot
    · exact h.gone hpast
  cases watchedSteps_of_step hs with
  | @received msg touched now c' hclock htouched hc =>
      have htouch : Attended deps cfg clientId start
          { w with lifecycle := w.lifecycle.touch touched, clock := now } :=
        ⟨h.conn, h.timeout, h.tick, h.code, h.reason, h.since.trans (h.activity.trans hclock),
          htouched, h.seen, h.fired, h.halted, h.alive, h.stopping, h.gone⟩
      exact htouch.advance (show Label.recv msg now ≠ .watchdog from nofun) hc
        (hnext (by simp [Label.isResume]) hc)
  | conn hlabel hnot hc => exact h.advance hlabel hc (hnext hnot hc)
  | @stopped lifecycle c' hstopping hstopped hc =>
      have hstop := h.stopping hstopping
      have heq := WebSocketLifecycle.stopped_spec hstopped
      have hwait : Attended deps cfg clientId start { w with lifecycle := lifecycle } := by
        rw [heq]
        exact ⟨h.conn, h.timeout, h.tick, h.code, h.reason, h.since, h.activity, h.seen, h.fired,
          h.halted, fun hnot => absurd (hstop.symm.trans hnot) (by simp), h.stopping,
          fun _ => ⟨hstop, rfl⟩⟩
      refine hwait.advance (show Label.resume ≠ .watchdog from nofun) hc fun _ => ?_
      rw [heq]
      exact ⟨hstop, rfl⟩
  | elapsed hclock =>
      exact ⟨h.conn, h.timeout, h.tick, h.code, h.reason, h.since, h.activity.trans hclock, h.seen,
        h.fired, h.halted, h.alive, h.stopping, h.gone⟩
  | watchdog _ hclock hw => exact h.watch hclock hw

/-! ## What is seen -/

/-- What a state knows of an event before it. -/
def WatchdogEvent.Known (w : WatchedConn deps.sanitizer) : WatchdogEvent → Prop
  | .touched last => last ≤ w.lifecycle.lastActivity
  | .closedIdle _ _ _ => w.lifecycle.idleTimeoutEvent = true
  | .stopped => w.conn.phase.pastStop = true

/-- What the steps do not take back. -/
structure Onward (w w' : WatchedConn deps.sanitizer) : Prop where
  activity : w.lifecycle.lastActivity ≤ w'.lifecycle.lastActivity
  idle : w.lifecycle.idleTimeoutEvent = true → w'.lifecycle.idleTimeoutEvent = true
  past : w.conn.phase.pastStop = true → w'.conn.phase.pastStop = true

theorem WatchdogEvent.Known.onward {e : WatchdogEvent} (h : e.Known w) (ho : Onward w w') :
    e.Known w' := by
  cases e with
  | touched last => exact le_trans h ho.activity
  | closedIdle _ _ _ => exact ho.idle h
  | stopped => exact ho.past h

theorem advance_lifecycle (w : WatchedConn deps.sanitizer) (c' : Conn deps.sanitizer) :
    (w.advance c').lifecycle.lastActivity = w.lifecycle.lastActivity
      ∧ (w.advance c').lifecycle.idleTimeoutEvent = w.lifecycle.idleTimeoutEvent := by
  unfold WatchedConn.advance
  dsimp only
  split <;> exact ⟨rfl, rfl⟩

theorem step_pastStop {c c' : Conn deps.sanitizer} {label : Label}
    (hs : c.step deps label = some c') (hp : c.phase.pastStop = true) :
    c'.phase.pastStop = true := by
  rcases step_stops hs with heq | ⟨hloop, -⟩ | ⟨-, -, hpast⟩ | ⟨-, hpast⟩
  · exact heq ▸ hp
  · rw [hloop.2] at hp
    cases hp
  · exact hpast
  · exact hpast

theorem onward_step {label : WatchedLabel} (h : Attended deps cfg clientId start w)
    (hs : w.step deps label = some w') : Onward w w' := by
  cases watchedSteps_of_step hs with
  | @received msg touched now c' hclock htouched hc =>
      obtain ⟨hactivity, hidle⟩ := advance_lifecycle
        { w with lifecycle := w.lifecycle.touch touched, clock := now } c'
      exact ⟨hactivity ▸ h.activity.trans hclock, fun hi => hidle.trans hi, step_pastStop hc⟩
  | @conn label c' hlabel hnot hc =>
      obtain ⟨hactivity, hidle⟩ := advance_lifecycle w c'
      exact ⟨hactivity.symm.le, fun hi => hidle.trans hi, step_pastStop hc⟩
  | @stopped lifecycle c' hstopping hstopped hc =>
      obtain ⟨hactivity, hidle⟩ := advance_lifecycle { w with lifecycle := lifecycle } c'
      rw [WebSocketLifecycle.stopped_spec hstopped] at hactivity hidle ⊢
      exact ⟨hactivity.symm.le, fun hi => hidle.trans hi, step_pastStop hc⟩
  | elapsed hclock => exact ⟨le_rfl, id, id⟩
  | watchdog _ hclock hw =>
      obtain ⟨hactivity, hidle⟩ := hw.keeps
      exact ⟨hactivity.symm.le, hidle, fun hp => (w.watch_phase _ _).symm ▸ hp⟩

/-- **Where an event comes from.** -/
inductive Sees (w w' : WatchedConn deps.sanitizer) : WatchdogEvent → Prop where
  | touched {last} : w.clock ≤ last → w'.lifecycle.lastActivity = last → Sees w w' (.touched last)
  | stopped : w'.conn.phase.pastStop = true → Sees w w' .stopped
  /-- The watchdog fires, for the first time. -/
  | closedIdle {now} : w.lifecycle.stopEvent = false →
      w.lifecycle.lastActivity + w.lifecycle.idleTimeoutS ≤ now →
      w'.lifecycle.idleTimeoutEvent = true →
      Sees w w' (.closedIdle now w.lifecycle.idleCloseCode w.lifecycle.idleCloseReason)

/-- A watchdog's step is seen if it enters the close. -/
theorem events_of_watches {label : WatchedLabel} (hl : label.watches = true) :
    w.events label w' = if w'.lifecycle.inClose && !w.lifecycle.inClose then
      [.closedIdle (label.reads w.clock) w.lifecycle.idleCloseCode w.lifecycle.idleCloseReason]
      else [] := by
  cases label with
  | received _ _ _ | conn _ | elapsed _ => cases hl
  | run _ | wake _ | closed | cancelled => rfl

/-- It enters it where it fires. -/
theorem enters_of_fires {l : WebSocketLifecycle} {now due : ℚ}
    (htask : l.task = some ⟨.sleeping due, false⟩) :
    let closing := { l with idleTimeoutEvent := true, stopEvent := true }.awaits .closing
    ((w.watch now closing).lifecycle.inClose && !l.inClose) = true := by
  simp [WatchedConn.watch, WebSocketLifecycle.awaits, WebSocketLifecycle.inClose, htask]

theorem sees_of_events {label : WatchedLabel} (hs : w.step deps label = some w') :
    w.events label w' = [] ∨ ∃ e, w.events label w' = [e] ∧ Sees w w' e := by
  cases watchedSteps_of_step hs with
  | @received msg touched now c' hclock htouched hc =>
      exact Or.inr ⟨.touched touched, rfl, .touched hclock (advance_lifecycle _ c').1⟩
  | @conn label c' hlabel hnot hc =>
      exact Or.inl (by simp [WatchedConn.events, hnot])
  | @stopped lifecycle c' hstopping hstopped hc =>
      have hpast : c'.phase.pastStop = true := by
        rcases loopSteps_stops (loopSteps_of_loopStep hc) with
          ⟨hloop, -⟩ | ⟨-, -, hpast⟩ | ⟨-, hpast⟩
        · rw [hloop.1] at hstopping
          cases hstopping
        · exact hpast
        · exact hpast
      exact Or.inr ⟨.stopped, by simp [WatchedConn.events, hstopping, Label.isResume],
        .stopped hpast⟩
  | elapsed hclock => exact Or.inl (by simp [WatchedConn.events])
  | @watchdog label lifecycle hl hclock hw =>
      rw [events_of_watches hl]
      cases hw with
      | begins _ _ | sleeps _ _ _ _ | ends _ _ =>
          exact Or.inl (if_neg (by simp [WatchedConn.watch, WebSocketLifecycle.awaits,
            WebSocketLifecycle.inClose]))
      | fires htask _ hstop hidle =>
          exact Or.inr ⟨_, if_pos (enters_of_fires htask), .closedIdle hstop (by linarith) rfl⟩

/-- The flag is set where the close is entered. -/
theorem closedIdle_of_flag {label : WatchedLabel} (hs : w.step deps label = some w')
    (hbefore : ¬ w.lifecycle.idleTimeoutEvent = true)
    (hafter : w'.lifecycle.idleTimeoutEvent = true) :
    ∃ e ∈ w.events label w', ∃ now code reason, e = .closedIdle now code reason := by
  cases watchedSteps_of_step hs with
  | @received msg touched now c' hclock htouched hc =>
      exact absurd ((advance_lifecycle _ c').2.symm.trans hafter) hbefore
  | @conn label c' hlabel hnot hc =>
      exact absurd ((advance_lifecycle _ c').2.symm.trans hafter) hbefore
  | @stopped lifecycle c' hstopping hstopped hc =>
      have hidle := (advance_lifecycle { w with lifecycle := lifecycle } c').2.symm.trans hafter
      rw [WebSocketLifecycle.stopped_spec hstopped] at hidle
      exact absurd hidle hbefore
  | elapsed hclock => exact absurd hafter hbefore
  | @watchdog label lifecycle hl hclock hw =>
      cases hw with
      | begins _ _ | sleeps _ _ _ _ | ends _ _ => exact absurd hafter hbefore
      | fires htask _ _ _ =>
          rw [events_of_watches hl, if_pos (enters_of_fires htask)]
          exact ⟨_, List.mem_singleton_self _, _, _, _, rfl⟩

end Steps

/-! ## Every run -/

/--
**The watchdog closes what is idle, once, and nothing else.** However the connection, the tasks of
its turns and its watchdog interleave:

* what the connection does is a run of the connection alone, and it sees the flag as it is;
* a close for idleness comes no sooner than the timeout after the handler entered the loop and
  after every message that parsed before it, with the code and the reason of the configuration;
  there is one at most, and none once `stop` has returned;
* the flag, which is set before the close is awaited, is set just when there was one;
* past `stop` there is no watchdog task.
-/
theorem watchdog_closes (deps : Deps) (cfg : WatchdogConfig) (clientId : Text) (start : ℚ)
    (labels : List WatchedLabel) (w : WatchedConn deps.sanitizer)
    (h : exec (WatchedConn.step deps)
      (.init deps.sanitizer deps.sh.server cfg clientId start) labels = some w) :
    let seen := outputs (WatchedConn.step deps) WatchedConn.events
      (.init deps.sanitizer deps.sh.server cfg clientId start) labels
    ((∃ connLabels, exec (Conn.step deps)
          (Conn.init deps.sanitizer deps.sh.server clientId) connLabels = some w.conn)
        ∧ w.conn.idleTimedOut = w.lifecycle.idleTimeoutEvent)
      ∧ (seen.Pairwise (WatchdogEvent.Precedes cfg.wsIdleTimeoutS)
        ∧ ∀ now code reason, .closedIdle now code reason ∈ seen →
          start + cfg.wsIdleTimeoutS ≤ now ∧ code = cfg.wsCloseIdleCode
            ∧ reason = cfg.wsCloseIdleReason)
      ∧ (w.lifecycle.idleTimeoutEvent = true
        ↔ ∃ now code reason, .closedIdle now code reason ∈ seen)
      ∧ (w.conn.phase.pastStop = true → w.lifecycle.task = none) := by
  intro seen
  have hI : ∀ s l s', Attended deps cfg clientId start s → s.step deps l = some s' →
      Attended deps cfg clientId start s' := fun _ _ _ => attended_step
  have hinit := attended_init deps cfg clientId start
  have hfinal : Attended deps cfg clientId start w := exec_inv hI hinit h
  have hsees : ∀ s l s', s.step deps l = some s' →
      ∀ e ∈ WatchedConn.events s l s', Sees s s' e := by
    intro s l s' hs e he
    rcases sees_of_events hs with hnil | ⟨e', hone, hsee⟩
    · rw [hnil] at he
      cases he
    · rw [hone] at he
      exact List.mem_singleton.mp he ▸ hsee
  have hnew : ∀ s l s', Attended deps cfg clientId start s → s.step deps l = some s' →
      ∀ e ∈ WatchedConn.events s l s', e.Known s' := by
    intro s l s' _ hs e he
    cases hsees s l s' hs e he with
    | touched _ hlast => exact hlast.symm.le
    | stopped hpast => exact hpast
    | closedIdle _ _ hidle => exact hidle
  have hstay : ∀ s l s', Attended deps cfg clientId start s → s.step deps l = some s' →
      ∀ e : WatchdogEvent, e.Known s → e.Known s' :=
    fun s l s' hi hs e he => he.onward (onward_step hi hs)
  refine ⟨⟨hfinal.conn, hfinal.seen⟩, ⟨?_, ?_⟩, ⟨fun hidle => ?_, ?_⟩, fun hp => (hfinal.gone hp).2⟩
  · refine outputs_pairwise hI hnew hstay ?_ ?_ hinit labels
    · -- a close finds the watchdog running, so it is the first, and `stop` has not returned
      intro s l s' hi hs a ha b hb
      cases hsees s l s' hs b hb with
      | touched _ _ | stopped _ => cases a <;> trivial
      | closedIdle hstop hlate _ =>
          rw [hi.timeout] at hlate
          cases a with
          | touched last => exact (add_le_add_left ha _).trans hlate
          | closedIdle _ _ _ => exact absurd ((hi.fired ha).symm.trans hstop) (by simp)
          | stopped => exact absurd ((hi.gone ha).1.symm.trans hstop) (by simp)
    · intro s l s' _ hs
      rcases sees_of_events hs with hnil | ⟨e, hone, -⟩
      · rw [hnil]
        exact List.Pairwise.nil
      · rw [hone]
        exact List.pairwise_singleton _ e
  · intro now code reason hmem
    have hall := forall_outputs (P := fun e => ∀ now code reason, e = .closedIdle now code reason →
      start + cfg.wsIdleTimeoutS ≤ now ∧ code = cfg.wsCloseIdleCode
        ∧ reason = cfg.wsCloseIdleReason) hI ?_ hinit labels _ hmem
    · exact hall now code reason rfl
    · intro s l s' hi hs e he now code reason heq
      subst heq
      cases hsees s l s' hs _ he with
      | closedIdle _ hlate _ =>
          rw [hi.timeout] at hlate
          exact ⟨(add_le_add_left hi.since _).trans hlate, hi.code, hi.reason⟩
  · obtain ⟨e, he, now, code, reason, rfl⟩ := exists_output
      (P := fun e => ∃ now code reason, e = WatchdogEvent.closedIdle now code reason)
      (Q := fun s => s.lifecycle.idleTimeoutEvent = true) hI
      (fun s l s' _ hs hbefore hafter => closedIdle_of_flag hs hbefore hafter) hinit nofun h hidle
    exact ⟨now, code, reason, he⟩
  · intro hclosed
    obtain ⟨now, code, reason, hmem⟩ := hclosed
    exact outputs_known hI hnew hstay hinit h _ hmem

/-- A short timeout, looked at every second. -/
def sampleWatchdog : WatchdogConfig :=
  { WatchdogConfig.shipped with wsIdleTimeoutS := 2, wsWatchdogTickS := 1 }

/-- A connection that is about to receive its first message, and its watchdog. -/
def sampleWatched : WatchedConn plainSanitizer :=
  .init plainSanitizer .shipped sampleWatchdog "client".toList 0

/-- A ping at the first second, and nothing after it for a while. -/
def onePing : List WatchedLabel :=
  [.run 0, .received .ping 1 1, .conn (.sent .ack), .wake 1, .elapsed 2]

/-- The watchdog fires, and the handler finds the websocket closed. -/
def idledOut : List WatchedLabel :=
  onePing ++ [.wake 2, .wake 3, .closed, .conn (.recvFailed .webSocketDisconnect), .conn .resume]

theorem watchdog_closes_idledOut :
    let seen := outputs (WatchedConn.step (.sample true false)) WatchedConn.events sampleWatched
      idledOut
    seen = [.touched 1, .closedIdle 3 4000 "idle_timeout".toList, .stopped]
      ∧ seen.Pairwise (WatchdogEvent.Precedes 2) := by
  intro seen
  obtain ⟨w, hw⟩ : ∃ w, exec (WatchedConn.step (.sample true false)) sampleWatched idledOut
      = some w := Option.isSome_iff_exists.mp (by decide +kernel)
  exact ⟨by decide +kernel,
    (watchdog_closes (.sample true false) sampleWatchdog "client".toList 0 idledOut w hw).2.1.1⟩

/-! ## Nothing stays idle -/

/-- No timer is late by more than `delay`: the clock does not go further while it is due. -/
def Punctual {S : Sanitizer} (start delay : ℚ) (w : WatchedConn S) (label : WatchedLabel) : Prop :=
  match w.lifecycle.task with
  | some ⟨.created, false⟩ => label.reads w.clock ≤ start + delay
  | some ⟨.sleeping due, false⟩ => label.reads w.clock ≤ due + delay
  | _ => True

instance {S : Sanitizer} (start delay : ℚ) (w : WatchedConn S) (label : WatchedLabel) :
    Decidable (Punctual start delay w label) := by
  unfold Punctual
  split <;> infer_instance

/-- Until it is stopped, the watchdog is due in time. -/
def OnTime {S : Sanitizer} (start delay : ℚ) (w : WatchedConn S) : Prop :=
  w.lifecycle.stopEvent = false →
    (w.lifecycle.task = some ⟨.created, false⟩ ∧ w.clock ≤ start + delay)
      ∨ ∃ due, w.lifecycle.task = some ⟨.sleeping due, false⟩ ∧ w.clock ≤ due + delay
        ∧ due ≤ w.lifecycle.lastActivity + w.lifecycle.idleTimeoutS + w.lifecycle.watchdogTickS

section OnTime

variable {deps : Deps} {cfg : WatchdogConfig} {clientId : Text} {start delay : ℚ}
  {w w' : WatchedConn deps.sanitizer}

/-- The clock goes on, and with it perhaps the last activity. -/
theorem OnTime.passes (h : OnTime start delay w) {label : WatchedLabel}
    (hp : Punctual start delay w label) {touched : ℚ}
    (htouched : w.lifecycle.lastActivity ≤ touched) :
    OnTime start delay
      { w with lifecycle := w.lifecycle.touch touched, clock := label.reads w.clock } := by
  intro hstop
  unfold Punctual at hp
  rcases h hstop with ⟨htask, -⟩ | ⟨due, htask, -, hdue⟩
  · rw [htask] at hp
    exact Or.inl ⟨htask, hp⟩
  · rw [htask] at hp
    refine Or.inr ⟨due, htask, hp, hdue.trans ?_⟩
    exact add_le_add_left (add_le_add_left htouched _) _

/-- The connection goes on; if it stops the watchdog, nothing is asked any more. -/
theorem OnTime.advance (h : OnTime start delay w) (c' : Conn deps.sanitizer) :
    OnTime start delay (w.advance c') := by
  unfold WatchedConn.advance
  split
  · exact fun hstop => absurd (show true = false from hstop) (by simp)
  · exact h

/-- **Preserved by every punctual step.** -/
theorem onTime_step {label : WatchedLabel} (hdelay : 0 ≤ delay) (htick : 0 ≤ cfg.wsWatchdogTickS)
    (htimeout : delay ≤ cfg.wsIdleTimeoutS) (ha : Attended deps cfg clientId start w)
    (h : OnTime start delay w) (hp : Punctual start delay w label)
    (hs : w.step deps label = some w') : OnTime start delay w' := by
  have ha' := attended_step ha hs
  have hsince := ha.since
  cases watchedSteps_of_step hs with
  | @received msg touched now c' hclock htouched hc =>
      exact (h.passes hp (ha.activity.trans hclock)).advance c'
  | @conn label c' hlabel hnot hc => exact h.advance c'
  | @stopped lifecycle c' hstopping hstopped hc =>
      intro hstop
      have hkept : (WatchedConn.advance { w with lifecycle := lifecycle } c').lifecycle.stopEvent
          = true := by
        unfold WatchedConn.advance
        split
        · rfl
        · rw [WebSocketLifecycle.stopped_spec hstopped]
          exact ha.stopping hstopping
      exact absurd (hkept.symm.trans hstop) (by simp)
  | elapsed hclock => exact h.passes hp le_rfl
  | @watchdog label lifecycle hl hclock hw =>
      intro hstop
      unfold Punctual at hp
      rw [← ha.timeout] at htimeout
      rw [← ha.tick] at htick
      cases hw with
      | begins htask _ =>
          rw [htask] at hp
          refine Or.inr ⟨_, rfl, ?_, ?_⟩
          · show label.reads w.clock ≤ label.reads w.clock + w.lifecycle.watchdogTickS + delay
            linarith
          · show label.reads w.clock + w.lifecycle.watchdogTickS
              ≤ w.lifecycle.lastActivity + w.lifecycle.idleTimeoutS + w.lifecycle.watchdogTickS
            have hreads : label.reads w.clock ≤ start + delay := hp
            linarith
      | sleeps htask _ _ hactive =>
          refine Or.inr ⟨_, rfl, ?_, ?_⟩
          · show label.reads w.clock ≤ label.reads w.clock + w.lifecycle.watchdogTickS + delay
            linarith
          · show label.reads w.clock + w.lifecycle.watchdogTickS
              ≤ w.lifecycle.lastActivity + w.lifecycle.idleTimeoutS + w.lifecycle.watchdogTickS
            linarith
      | fires _ _ _ _ => exact absurd (show true = false from hstop) (by simp)
      | ends _ _ =>
          -- the task is done, so it was stopped
          obtain ⟨phase, htask, -, hdone⟩ := ha'.alive hstop
          cases htask
          exact absurd rfl hdone

end OnTime

/--
**No connection stays idle.** As long as no timer is late by more than `delay`, however the
connection and its watchdog interleave: in every state of the message loop, unless the watchdog has
fired, the last message that parsed is no more than the timeout, one tick and the delay ago.
-/
theorem idle_bounded (deps : Deps) (cfg : WatchdogConfig) (clientId : Text) (start delay : ℚ)
    (hdelay : 0 ≤ delay) (htick : 0 ≤ cfg.wsWatchdogTickS) (htimeout : delay ≤ cfg.wsIdleTimeoutS)
    (labels : List WatchedLabel) (w : WatchedConn deps.sanitizer)
    (h : exec (WatchedConn.step deps)
      (.init deps.sanitizer deps.sh.server cfg clientId start) labels = some w)
    (hm : Meets (WatchedConn.step deps) (Punctual start delay)
      (.init deps.sanitizer deps.sh.server cfg clientId start) labels)
    (hloop : w.conn.phase.inLoop) (hidle : w.conn.idleTimedOut = false) :
    w.clock - w.lifecycle.lastActivity
      ≤ cfg.wsIdleTimeoutS + cfg.wsWatchdogTickS + delay := by
  have hinit : OnTime start delay
      (.init deps.sanitizer deps.sh.server cfg clientId start : WatchedConn deps.sanitizer) :=
    fun _ => Or.inl ⟨rfl, le_add_of_nonneg_right hdelay⟩
  obtain ⟨ha, hontime⟩ := exec_inv_of_meets
    (I := fun w => Attended deps cfg clientId start w ∧ OnTime start delay w)
    (fun _ _ _ hi hp hs =>
      ⟨attended_step hi.1 hs, onTime_step hdelay htick htimeout hi.1 hi.2 hp hs⟩)
    ⟨attended_init deps cfg clientId start, hinit⟩ hm h
  have hrunning : w.lifecycle.stopEvent = false := by
    by_contra hstop
    rcases ha.halted (Bool.not_eq_false _ ▸ hstop) with hflag | hout | hout
    · rw [ha.seen, hflag] at hidle
      cases hidle
    · rw [hloop.1] at hout
      cases hout
    · rw [hloop.2] at hout
      cases hout
  have hsince := ha.since
  rw [← ha.timeout] at htimeout ⊢
  rw [← ha.tick] at htick ⊢
  rcases hontime hrunning with ⟨-, hclock⟩ | ⟨due, -, hclock, hdue⟩
  · linarith
  · linarith

theorem idle_bounded_onePing :
    ∃ w, exec (WatchedConn.step (.sample true false)) sampleWatched onePing = some w
      ∧ w.clock - w.lifecycle.lastActivity ≤ 2 + 1 + 0 := by
  have hrun : (exec (WatchedConn.step (.sample true false)) sampleWatched onePing).map
      (fun w => (w.conn.phase.isStopping, w.conn.phase.pastStop, w.conn.idleTimedOut))
      = some (false, false, false) := by decide +kernel
  obtain ⟨w, hw, hstate⟩ := Option.map_eq_some_iff.mp hrun
  obtain ⟨hstopping, hpast, hidle⟩ : w.conn.phase.isStopping = false ∧ w.conn.phase.pastStop = false
      ∧ w.conn.idleTimedOut = false := by simpa using hstate
  exact ⟨w, hw, idle_bounded (.sample true false) sampleWatchdog "client".toList 0 0 le_rfl
    (by decide) (by decide) onePing w hw (by decide +kernel) ⟨hstopping, hpast⟩ hidle⟩

end YapInference
