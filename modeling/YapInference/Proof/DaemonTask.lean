import YapInference.Proof.CacheDaemon
import YapInference.Proof.ResetLock

/-!
# The daemon among the callers

`Engines.Cache` takes a reset by another task for an event that may come whenever the loop is
suspended and is not too soon. With the lock in between, that is what the loop sees of the others:
nobody can reset the caches between the second test of a call and the return of the engine. So the
task is a `CacheDaemon`, and keeps its pace.
-/

namespace YapInference

open Lts

namespace CacheResets

variable {hasResetCaches : Bool}

/-! ## The call the loop awaits -/

/-- The call the loop awaits is a forced one, and not over. -/
def Awaited (s : CacheResets) : Prop :=
  ∀ call calledAt, s.daemon = .calling call calledAt →
    ∃ c, s.calls[call]? = some c ∧ c.force = true ∧ c.phase ≠ .over

theorem awaits_iff {task : DaemonTask} {call : Nat} :
    task.awaits call = true ↔ ∃ calledAt, task = .calling call calledAt := by
  cases task <;> simp [DaemonTask.awaits]

section Frame

variable {s : CacheResets} {force : Bool} {now : ℚ}

@[simp] theorem tryReset_daemon : (s.tryReset force now).daemon = s.daemon := by
  unfold tryReset
  split <;> rfl

@[simp] theorem tryReset_attempts : (s.tryReset force now).attempts = s.attempts := by
  unfold tryReset
  split <;> rfl

theorem Awaited.tryReset (h : s.Awaited) : (s.tryReset force now).Awaited := by
  intro call calledAt hd
  obtain ⟨c, hc, hrest⟩ := h call calledAt (tryReset_daemon ▸ hd)
  refine ⟨c, ?_, hrest⟩
  unfold CacheResets.tryReset
  split
  · exact hc
  · exact (List.getElem?_append_left (List.getElem?_eq_some_iff.mp hc).1).trans hc

/-- A loop that makes a call awaits it. -/
theorem awaited_callReset : (s.callReset now).Awaited := by
  intro call calledAt hd
  obtain ⟨rfl, -⟩ := DaemonTask.calling.inj hd
  refine ⟨⟨true, .locking⟩, ?_, rfl, by simp⟩
  show (s.tryReset true now).calls[s.calls.length]? = _
  unfold CacheResets.tryReset
  rw [if_neg (by simp)]
  exact List.getElem?_concat_length

theorem Awaited.ends (h : s.Awaited) (call : Nat) (c : ResetCall) {next : DaemonTask}
    (hnext : ∀ call calledAt, next ≠ .calling call calledAt) : (s.ends call c next).Awaited := by
  intro call' calledAt hd
  unfold CacheResets.ends at hd ⊢
  dsimp only at hd ⊢
  split at hd
  · exact absurd hd (hnext _ _)
  · rename_i hother
    obtain ⟨c', hc', hrest⟩ := h call' calledAt hd
    have hne : call ≠ call' := fun heq => hother (awaits_iff.mpr ⟨calledAt, heq ▸ hd⟩)
    exact ⟨c', (List.getElem?_set_ne hne).trans hc', hrest⟩

theorem awaited_onRound : (s.onRound now).Awaited := by
  unfold onRound
  split
  · intro call calledAt hd
    cases hd
  · dsimp only
    split
    · exact awaited_callReset
    · intro call calledAt hd
      cases hd

/-- `ensure_daemon_running` leaves a task that is not done alone. -/
theorem ensureDaemonRunning_cases (s : CacheResets) :
    s.ensureDaemonRunning = s
      ∨ 0 < s.manager.interval ∧ (s.daemon = .none ∨ s.daemon = .done)
        ∧ s.ensureDaemonRunning = { s with daemon := .created, attempts := [] } := by
  unfold ensureDaemonRunning
  split
  · rename_i hd
    split
    · exact .inl rfl
    · rename_i hon
      exact .inr ⟨not_le.mp hon, .inl hd, rfl⟩
  · rename_i hd
    split
    · exact .inl rfl
    · rename_i hon
      exact .inr ⟨not_le.mp hon, .inr hd, rfl⟩
  · exact .inl rfl

end Frame

theorem Awaited.step {s s' : CacheResets} {now : ℚ} {event : ResetEvent} (h : s.Awaited)
    (hs : Steps hasResetCaches s now event s') : s'.Awaited := by
  have hlater : Awaited { s with clock := now } := h
  cases hs with
  | called => exact hlater.tryReset
  | @acquired call c hc _ _ =>
      unfold onAcquired
      split
      · exact hlater.ends _ _ (by simp)
      · split
        · exact hlater.ends _ _ (by simp)
        · intro call' calledAt hd
          obtain ⟨c', hc', hforce, hover⟩ := h call' calledAt hd
          dsimp only
          by_cases heq : call = call'
          · subst heq
            obtain rfl := Option.some.inj (hc.symm.trans hc')
            refine ⟨_, List.getElem?_set_self (List.getElem?_eq_some_iff.mp hc).1, hforce, by simp⟩
          · exact ⟨c', (List.getElem?_set_ne heq).trans hc', hforce, hover⟩
  | @returned _ _ _ success _ _ =>
      have hfree : Awaited { s with
        clock := now, manager := s.manager.onReset success now, locked := false } := h
      exact hfree.ends _ _ (by simp)
  | lockRaised _ _ => exact hlater.ends _ _ (by simp)
  | resetRaised _ _ =>
      have hfree : Awaited { s with clock := now, locked := false } := h
      exact hfree.ends _ _ (by simp)
  | ensured =>
      rcases ensureDaemonRunning_cases { s with clock := now } with heq | ⟨-, -, heq⟩
      · exact heq.symm ▸ hlater
      · rw [heq]
        intro call calledAt hd
        cases hd
  | round _ => exact awaited_onRound
  | woken _ _ | cancelled _ =>
      intro call calledAt hd
      cases hd
  | timedOut _ _ => exact awaited_callReset

/-! ## The daemon as a loop -/

/-- The daemon is that loop. -/
structure Shows (s : CacheResets) (d : CacheDaemon) : Prop where
  phase : s.daemon.phase = some d.phase
  attempts : d.attempts = s.attempts
  clock : d.clock ≤ s.clock
  manager : d.phase ≠ .ended → d.manager = s.manager

/-- What holds of the manager, its callers and the daemon. -/
structure Driven (s : CacheResets) : Prop extends s.Exclusive where
  awaited : s.Awaited
  /-- A task is created for a positive interval only. -/
  enabled : s.daemon ≠ .none → 0 < s.manager.interval
  /-- One that has not run has made no attempt. -/
  fresh : s.daemon.phase = none → s.attempts = []

/-- What a step does to the task: nothing, or it is created, or it was there and runs, first by a
round. -/
theorem daemon_of_steps {s s' : CacheResets} {now : ℚ} {event : ResetEvent}
    (hs : Steps hasResetCaches s now event s') :
    (s'.daemon = s.daemon ∧ s'.attempts = s.attempts)
      ∨ (0 < s.manager.interval ∧ s'.daemon = .created ∧ s'.attempts = [])
      ∨ (s.daemon ≠ .none ∧ s'.daemon.phase ≠ none ∧ (s.daemon = .created → event = .round)) := by
  -- a call that ends is the one the task awaits, or none of its concern
  have hends : ∀ (t : CacheResets) (call : Nat) (c : ResetCall) (next : DaemonTask),
      t.daemon = s.daemon → t.attempts = s.attempts → next.phase ≠ none →
      ((t.ends call c next).daemon = s.daemon ∧ (t.ends call c next).attempts = s.attempts)
        ∨ (0 < s.manager.interval ∧ (t.ends call c next).daemon = .created
          ∧ (t.ends call c next).attempts = [])
        ∨ (s.daemon ≠ .none ∧ (t.ends call c next).daemon.phase ≠ none
          ∧ (s.daemon = .created → event = .round)) := by
    intro t call c next hdaemon hattempts hnext
    cases hawaits : s.daemon.awaits call with
    | true =>
        obtain ⟨calledAt, hcalling⟩ := awaits_iff.mp hawaits
        refine .inr (.inr ⟨by simp [hcalling], ?_, by simp [hcalling]⟩)
        simpa [ends, hdaemon, hawaits] using hnext
    | false => exact .inl ⟨by simp [ends, hdaemon, hawaits], hattempts⟩
  cases hs with
  | called => exact .inl ⟨tryReset_daemon, tryReset_attempts⟩
  | acquired _ _ _ =>
      unfold onAcquired
      split
      · exact hends _ _ _ _ rfl rfl (by simp [DaemonTask.phase])
      · split
        · exact hends _ _ _ _ rfl rfl (by simp [DaemonTask.phase])
        · exact .inl ⟨rfl, rfl⟩
  | returned _ _ | lockRaised _ _ | resetRaised _ _ =>
      exact hends _ _ _ _ rfl rfl (by simp [DaemonTask.phase])
  | ensured =>
      rcases ensureDaemonRunning_cases { s with clock := now } with heq | ⟨hon, -, heq⟩
      · exact .inl (heq.symm ▸ ⟨rfl, rfl⟩)
      · exact .inr (.inl (heq.symm ▸ ⟨hon, rfl, rfl⟩))
  | round hd =>
      refine .inr (.inr ⟨by rcases hd with hd | hd <;> simp [hd], ?_, fun _ => rfl⟩)
      unfold onRound
      split
      · simp [DaemonTask.phase]
      · dsimp only
        split <;> simp [callReset, DaemonTask.phase]
  | woken hd _ | timedOut hd _ | cancelled hd =>
      exact .inr (.inr ⟨by simp [hd], by simp [callReset, DaemonTask.phase], by simp [hd]⟩)

theorem driven_create (interval now : ℚ) : (create interval now).Driven where
  toExclusive := exclusive_create interval now
  awaited := fun call calledAt hd => by cases hd
  enabled := fun hd => absurd rfl hd
  fresh := fun _ => rfl

theorem driven_step {s s' : CacheResets} {l : ResetLabel} (h : s.Driven)
    (hs : s.step hasResetCaches l = some s') : s'.Driven := by
  obtain ⟨-, -, hsteps⟩ := steps_of_step hs
  have hinterval := (frame_of_steps hsteps).2
  have hmoves := daemon_of_steps hsteps
  refine {
    toExclusive := exclusive_step h.toExclusive hs
    awaited := h.awaited.step hsteps
    enabled := ?_
    fresh := ?_ }
  · intro hne
    rw [hinterval]
    rcases hmoves with ⟨hsame, -⟩ | ⟨hon, -⟩ | ⟨hthere, -⟩
    · exact h.enabled (hsame ▸ hne)
    · exact hon
    · exact h.enabled hthere
  · intro hnone
    rcases hmoves with ⟨hsame, hattempts⟩ | ⟨-, -, hnew⟩ | ⟨-, hruns⟩
    · exact hattempts.trans (h.fresh (hsame ▸ hnone))
    · exact hnew
    · exact absurd hnone hruns.1

/-! ## The simulation -/

/-- The loop sees nothing of a step that leaves it and its manager alone. -/
theorem Shows.stays {s s' : CacheResets} {d : CacheDaemon} (h : s.Shows d)
    (hclock : s.clock ≤ s'.clock) (hdaemon : s'.daemon = s.daemon)
    (hattempts : s'.attempts = s.attempts)
    (hmanager : d.phase ≠ .ended → s'.manager = s.manager) : s'.Shows d where
  phase := hdaemon.symm ▸ h.phase
  attempts := h.attempts.trans hattempts.symm
  clock := h.clock.trans hclock
  manager := fun hne => (h.manager hne).trans (hmanager hne).symm

/-- A loop that has not ended is all in the daemon, but for its clock. -/
theorem Shows.eq {s : CacheResets} {d : CacheDaemon} (h : s.Shows d) (phase : DaemonPhase)
    (hphase : s.daemon.phase = some phase) (hne : phase ≠ .ended) :
    d = ⟨s.manager, phase, d.clock, s.attempts⟩ := by
  obtain ⟨manager, p, clock, attempts⟩ := d
  obtain rfl : p = phase := Option.some.inj (h.phase.symm.trans hphase)
  obtain rfl : manager = s.manager := h.manager hne
  obtain rfl : attempts = s.attempts := h.attempts
  rfl

/-- A daemon that runs and neither loops nor is suspended is done. -/
theorem Shows.ended_of_not_suspended {s : CacheResets} {d : CacheDaemon} (h : s.Shows d)
    (hs : s.daemon.isSuspended = false) (hlooping : s.daemon ≠ .looping) : d.phase = .ended := by
  have hphase := h.phase
  cases hdaemon : s.daemon with
  | done =>
      rw [hdaemon] at hphase
      exact (Option.some.inj hphase).symm
  | looping => exact absurd hdaemon hlooping
  | none | created => simp [hdaemon, DaemonTask.phase] at hphase
  | calling _ _ | waiting _ => simp [hdaemon, DaemonTask.isSuspended] at hs

section Events

variable {s : CacheResets} {d : CacheDaemon} {now : ℚ} (hd : s.Shows d) (hle : d.clock ≤ now)
include hd hle

/-- The call the loop awaits returns. -/
theorem step_resetReturned {call : Nat} (hawaits : s.daemon.awaits call = true) (success : Bool) :
    d.step (.resetReturned success now)
      = some ⟨s.manager.onReset success now, .looping, now, s.attempts⟩ := by
  obtain ⟨calledAt, hcalling⟩ := awaits_iff.mp hawaits
  rw [hd.eq (.resetting calledAt) (by rw [hcalling]; rfl) (by simp)]
  simp [CacheDaemon.step, DaemonEvent.now, not_lt.mpr hle]

/-- What it awaits raises. -/
theorem step_raised (hs : s.daemon.isSuspended = true) :
    d.step (.raised now) = some ⟨s.manager, .ended, now, s.attempts⟩ := by
  cases hdaemon : s.daemon with
  | calling call calledAt =>
      rw [hd.eq (.resetting calledAt) (by rw [hdaemon]; rfl) (by simp)]
      simp [CacheDaemon.step, DaemonEvent.now, not_lt.mpr hle, CacheDaemon.isSuspended]
  | waiting deadline =>
      rw [hd.eq (.waiting deadline) (by rw [hdaemon]; rfl) (by simp)]
      simp [CacheDaemon.step, DaemonEvent.now, not_lt.mpr hle, CacheDaemon.isSuspended]
  | none | created | looping | done => simp [hdaemon, DaemonTask.isSuspended] at hs

/-- A call it does not await was successful, and is not too soon even now. -/
theorem step_otherReset (hs : s.daemon.isSuspended = true) {force : Bool}
    (hsoon : s.manager.isTooSoon force now = false) :
    d.step (.otherReset force now)
      = some ⟨s.manager.onReset true now, d.phase, now, s.attempts⟩ := by
  cases hdaemon : s.daemon with
  | calling call calledAt =>
      rw [hd.eq (.resetting calledAt) (by rw [hdaemon]; rfl) (by simp)]
      simp [CacheDaemon.step, DaemonEvent.now, not_lt.mpr hle, CacheDaemon.isSuspended, hsoon]
  | waiting deadline =>
      rw [hd.eq (.waiting deadline) (by rw [hdaemon]; rfl) (by simp)]
      simp [CacheDaemon.step, DaemonEvent.now, not_lt.mpr hle, CacheDaemon.isSuspended, hsoon]
  | none | created | looping | done => simp [hdaemon, DaemonTask.isSuspended] at hs

end Events

/-- A round of the task is a round of the loop. -/
theorem shows_onRound (s : CacheResets) (now : ℚ) :
    Shows (s.onRound now)
      (CacheDaemon.onRound ⟨s.manager, .looping, s.clock, s.attempts⟩ now) := by
  unfold onRound CacheDaemon.onRound
  dsimp only
  split
  · exact ⟨rfl, rfl, le_refl _, fun _ => rfl⟩
  · split
    · exact ⟨rfl, rfl, tryReset_clock.ge, fun _ => tryReset_manager.symm⟩
    · exact ⟨rfl, rfl, le_refl _, fun _ => rfl⟩

theorem exec_single {d d' : CacheDaemon} {e : DaemonEvent} (h : d.step e = some d') :
    exec CacheDaemon.step d [e] = some d' :=
  exec_cons_eq_some.mpr ⟨d', h, rfl⟩

/-- A call that ends without a reset: the loop goes on if it awaits it, and sees nothing if not. -/
theorem Shows.ends {s t : CacheResets} {d : CacheDaemon} (h : s.Shows d) (call : Nat)
    (c : ResetCall) {next : DaemonTask} {phase : DaemonPhase} (hnext : next.phase = some phase)
    (hclock : s.clock ≤ t.clock) (hdaemon : t.daemon = s.daemon)
    (hattempts : t.attempts = s.attempts) (hmanager : t.manager = s.manager) :
    (t.ends call c next).Shows
      (if s.daemon.awaits call then ⟨s.manager, phase, t.clock, s.attempts⟩ else d) := by
  split
  · rename_i hawaits
    exact ⟨by simp [CacheResets.ends, hdaemon, hawaits, hnext], hattempts.symm, le_refl _,
      fun _ => hmanager.symm⟩
  · rename_i hother
    refine h.stays hclock ?_ hattempts fun _ => hmanager
    simp [CacheResets.ends, hdaemon, hother]

/-- The step of a call that has the lock now. -/
theorem shows_acquired {s : CacheResets} {d : CacheDaemon} {now : ℚ} (h : s.Driven)
    (hd : s.Shows d) (hclock : s.clock ≤ now) {call : Nat} {c : ResetCall}
    (hc : s.calls[call]? = some c) :
    ∃ d', exec CacheDaemon.step d (daemonEvents hasResetCaches s ⟨now, .acquired call⟩) = some d'
      ∧ (onAcquired hasResetCaches { s with clock := now } call c now).Shows d' := by
  have hends := @Shows.ends s { s with clock := now } d hd call c .looping .looping rfl hclock
    rfl rfl rfl
  have hstays : Shows { s with
      clock := now
      calls := s.calls.set call { c with phase := .resetting now }
      locked := true } d := hd.stays hclock rfl rfl fun _ => rfl
  unfold onAcquired daemonEvents
  dsimp only
  cases hawaits : s.daemon.awaits call with
  | false =>
      rw [hawaits] at hends
      refine ⟨d, rfl, ?_⟩
      split
      · exact hends
      · split
        · exact hends
        · exact hstays
  | true =>
      -- the call of the loop is forced, so only a missing `reset_caches` turns it back
      rw [hawaits] at hends
      obtain ⟨calledAt, hcalling⟩ := awaits_iff.mp hawaits
      obtain ⟨c', hc', hforce, -⟩ := h.awaited _ _ hcalling
      obtain rfl := Option.some.inj (hc.symm.trans hc')
      have hsoon : s.manager.isTooSoon c.force now = false := by rw [hforce]; rfl
      simp only [hsoon, Bool.false_eq_true, if_false]
      cases hasResetCaches with
      | false =>
          have hstep := step_resetReturned hd (hd.clock.trans hclock) hawaits false
          exact ⟨_, exec_single hstep, hends⟩
      | true => exact ⟨d, rfl, hstays⟩

/-- The step of a call the engine has answered. -/
theorem shows_returned {s : CacheResets} {d : CacheDaemon} {now : ℚ} (h : s.Driven)
    (hd : s.Shows d) (hclock : s.clock ≤ now) (hlooping : s.daemon ≠ .looping) {call : Nat}
    {c : ResetCall} {startedAt : ℚ} (hc : s.calls[call]? = some c)
    (hp : c.phase = .resetting startedAt) (success : Bool) :
    ∃ d', exec CacheDaemon.step d (daemonEvents hasResetCaches s ⟨now, .returned call success⟩)
        = some d'
      ∧ (onReturned { s with clock := now } call c success now).Shows d' := by
  have hle := hd.clock.trans hclock
  unfold onReturned daemonEvents
  dsimp only
  cases hawaits : s.daemon.awaits call with
  | true =>
      exact ⟨_, exec_single (step_resetReturned hd hle hawaits success),
        by simp [ends, hawaits, DaemonTask.phase], rfl, le_refl _, fun _ => rfl⟩
  | false =>
      cases success with
      | false =>
          exact ⟨d, rfl, hd.stays hclock (by simp [ends, hawaits]) rfl fun _ => rfl⟩
      | true =>
          cases hs : s.daemon.isSuspended with
          | true =>
              -- since its second test nobody has reset the caches
              have hsoon : s.manager.isTooSoon c.force now = false := by
                obtain ⟨-, hpast, hdue⟩ := h.since _ _ _ (resets_of_phase hc hp)
                exact not_tooSoon_of_due fun hforce => (hdue hforce).trans (hpast.trans hclock)
              rw [hc]
              exact ⟨_, exec_single (step_otherReset hd hle hs hsoon),
                by simp [ends, hawaits, hd.phase], rfl, le_refl _, fun _ => rfl⟩
          | false =>
              -- a loop that has ended does not care
              have hended : d.phase = .ended := hd.ended_of_not_suspended hs hlooping
              exact ⟨d, rfl, hd.stays hclock (by simp [ends, hawaits]) rfl
                fun hne => absurd hended hne⟩

/-- The step of a call that raised. -/
theorem shows_raised {s t : CacheResets} {d : CacheDaemon} {now : ℚ} (hd : s.Shows d)
    (hclock : s.clock ≤ now) (call : Nat) (c : ResetCall) (ht : t.clock = now)
    (hdaemon : t.daemon = s.daemon) (hattempts : t.attempts = s.attempts)
    (hmanager : t.manager = s.manager) :
    ∃ d', exec CacheDaemon.step d (daemonEvents hasResetCaches s ⟨now, .raised call⟩) = some d'
      ∧ (t.ends call c .done).Shows d' := by
  subst ht
  have hends := @Shows.ends s t d hd call c .done .ended rfl hclock hdaemon hattempts hmanager
  unfold daemonEvents
  dsimp only
  cases hawaits : s.daemon.awaits call with
  | true =>
      rw [hawaits] at hends
      obtain ⟨calledAt, hcalling⟩ := awaits_iff.mp hawaits
      have hs : s.daemon.isSuspended = true := by rw [hcalling]; rfl
      exact ⟨_, exec_single (step_raised hd (hd.clock.trans hclock) hs), hends⟩
  | false =>
      rw [hawaits] at hends
      exact ⟨d, rfl, hends⟩

/-- **Every step is one of the loop's, or none of its concern.** -/
theorem shows_step {s s' : CacheResets} {l : ResetLabel} {d : CacheDaemon} (h : s.Driven)
    (hd : s.Shows d) (hs : s.step hasResetCaches l = some s') :
    s'.daemon.phase = none
      ∨ ∃ d', exec CacheDaemon.step d (daemonEvents hasResetCaches s l) = some d'
        ∧ s'.Shows d' := by
  obtain ⟨now, event⟩ := l
  obtain ⟨hclock, hlooping, hsteps⟩ := steps_of_step hs
  have hle : ¬ now < d.clock := not_lt.mpr (hd.clock.trans hclock)
  cases hsteps with
  | called =>
      exact .inr ⟨d, rfl, hd.stays (hclock.trans tryReset_clock.ge) tryReset_daemon
        tryReset_attempts fun _ => tryReset_manager⟩
  | acquired hc _ _ => exact .inr (shows_acquired h hd hclock hc)
  | returned hc hp =>
      exact .inr (shows_returned h hd hclock (fun hl => by cases hlooping hl) hc hp _)
  | lockRaised _ _ => exact .inr (shows_raised hd hclock _ _ rfl rfl rfl rfl)
  | resetRaised _ _ => exact .inr (shows_raised hd hclock _ _ rfl rfl rfl rfl)
  | ensured =>
      rcases ensureDaemonRunning_cases { s with clock := now } with heq | ⟨-, -, heq⟩
      · exact .inr ⟨d, rfl, heq.symm ▸ hd.stays hclock rfl rfl fun _ => rfl⟩
      · exact .inl (heq.symm ▸ rfl)
  | round hrun =>
      rcases hrun with hrun | hrun
      · have hphase := hd.phase
        rw [hrun] at hphase
        cases hphase
      · refine .inr ⟨_, exec_single ?_, shows_onRound { s with clock := now } now⟩
        rw [hd.eq .looping (by rw [hrun]; rfl) (by simp)]
        simp [CacheDaemon.step, DaemonEvent.now, hle]
  | @woken deadline hwaiting hevent =>
      refine .inr ⟨⟨{ s.manager with event := false }, .looping, now, s.attempts⟩, exec_single ?_,
        rfl, rfl, le_refl _, fun _ => rfl⟩
      rw [hd.eq (.waiting deadline) (by rw [hwaiting]; rfl) (by simp)]
      simp [CacheDaemon.step, DaemonEvent.now, hle, hevent]
  | @timedOut deadline hwaiting hdue =>
      refine .inr ⟨CacheDaemon.callReset ⟨s.manager, .waiting deadline, now, s.attempts⟩ now,
        exec_single ?_, rfl, rfl, tryReset_clock.ge, fun _ => ?_⟩
      · rw [hd.eq (.waiting deadline) (by rw [hwaiting]; rfl) (by simp)]
        simp [CacheDaemon.step, DaemonEvent.now, hle, hdue]
      · exact (@tryReset_manager { s with clock := now } true now).symm
  | @cancelled deadline hwaiting =>
      refine .inr ⟨⟨s.manager, .ended, now, s.attempts⟩, exec_single ?_,
        rfl, rfl, le_refl _, fun _ => rfl⟩
      exact step_raised hd (hd.clock.trans hclock) (by rw [hwaiting]; rfl)

/-! ## Every run -/

/-- What was noted of the daemon since it first ran is a run of the loop. -/
structure Follows (s : CacheResets) (seen : CacheResetManager × List DaemonEvent) : Prop where
  driven : s.Driven
  interval : seen.1.interval = s.manager.interval
  runs : ∀ phase, s.daemon.phase = some phase →
    ∃ d, exec CacheDaemon.step (CacheDaemon.start seen.1) seen.2 = some d ∧ s.Shows d

/-- The task runs for the first time. -/
theorem runs_created {s : CacheResets} {now : ℚ} (h : s.Driven) (hd : s.daemon = .created)
    (hclock : s.clock ≤ now) :
    ∃ d, exec CacheDaemon.step (CacheDaemon.start s.manager) [.round now] = some d
      ∧ (onRound { s with clock := now } now).Shows d := by
  have hon : 0 < s.manager.interval := h.enabled (by simp [hd])
  have hfresh : s.attempts = [] := h.fresh (by rw [hd]; rfl)
  have hstart : CacheDaemon.start s.manager
      = ⟨s.manager, .looping, s.manager.lastReset, s.attempts⟩ := by
    simp [CacheDaemon.start, not_le.mpr hon, hfresh]
  refine ⟨_, exec_single ?_, shows_onRound { s with clock := now } now⟩
  rw [hstart]
  simp [CacheDaemon.step, DaemonEvent.now, not_lt.mpr (h.last.trans hclock)]

theorem follows_step {s s' : CacheResets} {l : ResetLabel}
    {seen : CacheResetManager × List DaemonEvent} (h : s.Follows seen)
    (hs : s.step hasResetCaches l = some s') : s'.Follows (noted hasResetCaches s l seen) := by
  obtain ⟨hclock, -, hsteps⟩ := steps_of_step hs
  have hinterval := (frame_of_steps hsteps).2
  have hmoves := daemon_of_steps hsteps
  -- where the loop runs already, the events of the step are its next
  have hruns : ∀ phase, s.daemon.phase = some phase → ∀ phase', s'.daemon.phase = some phase' →
      ∃ d, exec CacheDaemon.step (CacheDaemon.start seen.1)
        (seen.2 ++ daemonEvents hasResetCaches s l) = some d ∧ s'.Shows d := by
    intro phase hphase phase' hphase'
    obtain ⟨d, hrun, hd⟩ := h.runs phase hphase
    rcases shows_step h.driven hd hs with hnone | ⟨d', hevents, hd'⟩
    · rw [hnone] at hphase'
      cases hphase'
    · exact ⟨d', exec_append_eq_some.mpr ⟨d, hrun, hevents⟩, hd'⟩
  refine ⟨driven_step h.driven hs, ?_, ?_⟩
  · rw [hinterval]
    unfold noted
    split
    · exact h.interval
    · split
      · rfl
      · exact h.interval
    · exact h.interval
  · cases hd : s.daemon with
    | none =>
        intro phase hphase
        rcases hmoves with ⟨hsame, -⟩ | ⟨-, hnew, -⟩ | ⟨hthere, -⟩
        · rw [hsame, hd] at hphase
          cases hphase
        · rw [hnew] at hphase
          cases hphase
        · exact absurd hd hthere
    | created =>
        intro phase hphase
        simp only [noted, hd]
        split
        · rename_i hevent
          rw [hevent] at hsteps
          cases hsteps
          exact runs_created h.driven hd hclock
        · rename_i hevent
          rcases hmoves with ⟨hsame, -⟩ | ⟨-, hnew, -⟩ | ⟨-, -, hfirst⟩
          · rw [hsame, hd] at hphase
            cases hphase
          · rw [hnew] at hphase
            cases hphase
          · exact absurd (hfirst hd) hevent
    | looping | calling _ _ | waiting _ | done =>
        simp only [noted, hd]
        exact hruns _ (by rw [hd]; rfl)

theorem follows_history {s t : CacheResets} {seen : CacheResetManager × List DaemonEvent}
    {ls : List ResetLabel} (hs : s.Follows seen)
    (h : exec (step hasResetCaches) s ls = some t) :
    t.Follows (history (step hasResetCaches) (noted hasResetCaches) s seen ls) := by
  refine history_inv (I := Follows) ?_ hs h
  intro s l s' seen hI hstep
  exact follows_step hI hstep

/-- Does the engine say that a reset failed? -/
def failed (l : ResetLabel) : Bool :=
  match l.event with
  | .returned _ success => !success
  | _ => false

/-- The engine can reset its caches, and does. -/
def Succeeds (hasResetCaches : Bool) (l : ResetLabel) : Prop :=
  hasResetCaches = true ∧ failed l = false

instance (hasResetCaches : Bool) (l : ResetLabel) : Decidable (Succeeds hasResetCaches l) :=
  inferInstanceAs (Decidable (_ ∧ _))

/-- The loop is not told of a failure then. -/
theorem events_succeed {s : CacheResets} {l : ResetLabel} (h : Succeeds hasResetCaches l) :
    ∀ e ∈ daemonEvents hasResetCaches s l, ∀ now, e ≠ .resetReturned false now := by
  obtain ⟨now, event⟩ := l
  obtain ⟨rfl, hreturned⟩ := h
  intro e he now' hfailed
  subst hfailed
  unfold daemonEvents at he
  cases event with
  | returned call success =>
      cases success with
      | false => simp [failed] at hreturned
      | true =>
          dsimp only at he
          split at he
          · simp at he
          · split at he <;> simp at he
  | acquired call => simp at he
  | raised call =>
      dsimp only at he
      split at he <;> simp at he
  | called _ | ensured | round | woken | timedOut | cancelled => simp at he

theorem noted_succeeds {s : CacheResets} {l : ResetLabel}
    {seen : CacheResetManager × List DaemonEvent} (h : Succeeds hasResetCaches l)
    (hseen : ∀ e ∈ seen.2, ∀ now, e ≠ .resetReturned false now) :
    ∀ e ∈ (noted hasResetCaches s l seen).2, ∀ now, e ≠ .resetReturned false now := by
  unfold noted
  split
  · exact hseen
  · split
    · simp
    · exact hseen
  · intro e he
    rcases List.mem_append.mp he with he | he
    · exact hseen e he
    · exact events_succeed h e he

theorem history_succeeds {s t : CacheResets} {seen : CacheResetManager × List DaemonEvent}
    {ls : List ResetLabel} (hseen : ∀ e ∈ seen.2, ∀ now, e ≠ .resetReturned false now)
    (hall : ∀ l ∈ ls, Succeeds hasResetCaches l) (h : exec (step hasResetCaches) s ls = some t) :
    ∀ e ∈ (history (step hasResetCaches) (noted hasResetCaches) s seen ls).2,
      ∀ now, e ≠ .resetReturned false now := by
  refine history_inv_of_meets (C := fun _ l => Succeeds hasResetCaches l)
    (I := fun _ (seen : CacheResetManager × List DaemonEvent) =>
      ∀ e ∈ seen.2, ∀ now, e ≠ .resetReturned false now) ?_ hseen (meets_of_forall hall _) h
  intro s l s' seen hI hC _
  exact noted_succeeds hC hI

/-- A loop whose resets all succeed has nothing to make up for. -/
theorem holds_of_succeeds {m : CacheResetManager} {es : List DaemonEvent} {d : CacheDaemon}
    (hes : ∀ e ∈ es, ∀ now, e ≠ .resetReturned false now)
    (h : exec CacheDaemon.step (CacheDaemon.start m) es = some d) : d.Holds := by
  refine exec_inv_of_meets (C := fun _ e => ∀ now, e ≠ .resetReturned false now)
    (fun c e c' hc he hstep => CacheDaemon.holds_step hc ?_ hstep) (CacheDaemon.holds_start m)
    (meets_of_forall hes _) h
  unfold CacheDaemon.MadeUp
  split
  · exact absurd rfl (he _)
  · trivial

/-- **The daemon among the callers.** Whoever else resets the caches, and however their calls and
those of the daemon come by the lock, the task is a run of the loop with resets by others for
events. So if the engine does not fail, its attempts are an interval apart. -/
theorem daemon_refines {interval start : ℚ} {ls : List ResetLabel} {s : CacheResets}
    (h : exec (step hasResetCaches) (create interval start) ls = some s) :
    let seen := history (step hasResetCaches) (noted hasResetCaches) (create interval start)
      ((create interval start).manager, []) ls
    (∀ phase, s.daemon.phase = some phase →
        ∃ d, exec CacheDaemon.step (CacheDaemon.start seen.1) seen.2 = some d ∧ s.Shows d)
      ∧ ((∀ l ∈ ls, Succeeds hasResetCaches l) →
          s.attempts.IsChain fun a b => a + interval ≤ b) := by
  intro seen
  have hinit : (create interval start).Follows ((create interval start).manager, []) :=
    ⟨driven_create _ _, rfl, fun phase hphase => by cases hphase⟩
  have hfollows : s.Follows seen := follows_history hinit h
  refine ⟨hfollows.runs, fun hall => ?_⟩
  have hinterval : s.manager.interval = interval := exec_interval h
  cases hphase : s.daemon.phase with
  | none =>
      rw [hfollows.driven.fresh hphase]
      exact List.isChain_nil
  | some phase =>
      obtain ⟨d, hrun, hshows⟩ := hfollows.runs phase hphase
      have hseen : ∀ e ∈ seen.2, ∀ now, e ≠ .resetReturned false now :=
        history_succeeds (fun e he => absurd he List.not_mem_nil) hall h
      have hpaced := (holds_of_succeeds hseen hrun).paced
      have hsame : d.manager.interval = interval :=
        (CacheDaemon.exec_interval hrun).trans (hfollows.interval.trans hinterval)
      rw [CacheDaemon.Paced, hshows.attempts, hsame] at hpaced
      exact hpaced

/-- The daemon's call waits at the lock behind a forced one, and resets the caches again. -/
def behind : List ResetLabel :=
  [⟨10, .ensured⟩, ⟨10, .round⟩, ⟨599, .called true⟩, ⟨599, .acquired 0⟩, ⟨600, .timedOut⟩,
    ⟨601, .returned 0 true⟩, ⟨601, .acquired 1⟩, ⟨602, .returned 1 true⟩, ⟨602, .round⟩,
    ⟨602, .round⟩, ⟨1202, .timedOut⟩]

theorem daemon_refines_behind :
    ∃ s, exec (step true) (create 600 0) behind = some s
      ∧ history (step true) (noted true) (create 600 0) ((create 600 0).manager, []) behind
        = (⟨600, 0, false⟩, [.round 10, .timedOut 600, .otherReset true 601,
            .resetReturned true 602, .round 602, .round 602, .timedOut 1202])
      ∧ s.attempts = [600, 1202] ∧ s.attempts.IsChain fun a b => a + 600 ≤ b := by
  have hrun : (exec (step true) (create 600 0) behind).map (·.attempts) = some [600, 1202] := by
    decide +kernel
  obtain ⟨s, hs, hattempts⟩ := Option.map_eq_some_iff.mp hrun
  exact ⟨s, hs, by decide +kernel, hattempts, (daemon_refines hs).2 (by decide +kernel)⟩

end CacheResets

end YapInference
