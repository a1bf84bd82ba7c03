import Mathlib.Tactic.Linarith
import Mathlib.Data.List.Pairwise
import YapInference.Lib.Outputs
import YapInference.Engines.Resets

/-!
# The lock of the cache resets

A call tests the interval before it asks for the lock and again when it has it. In between others
may have reset the caches, so only the second test says anything of the reset that follows; and it
says it of the whole reset, for nobody else can be in one.
-/

namespace YapInference

open Lts

namespace CacheResets

variable {hasResetCaches : Bool}

/-! ## What a step does -/

/-- The steps there are, with their guards. -/
inductive Steps (hasResetCaches : Bool) (s : CacheResets) (now : ℚ) :
    ResetEvent → CacheResets → Prop
  | called {force : Bool} :
      Steps hasResetCaches s now (.called force) ({ s with clock := now }.tryReset force now)
  | acquired {call : Nat} {c : ResetCall} (hc : s.calls[call]? = some c)
      (hp : c.phase = .locking) (hfree : s.locked = false) :
      Steps hasResetCaches s now (.acquired call)
        ({ s with clock := now }.onAcquired hasResetCaches call c now)
  | returned {call : Nat} {c : ResetCall} {startedAt : ℚ} {success : Bool}
      (hc : s.calls[call]? = some c) (hp : c.phase = .resetting startedAt) :
      Steps hasResetCaches s now (.returned call success)
        ({ s with clock := now }.onReturned call c success now)
  | lockRaised {call : Nat} {c : ResetCall} (hc : s.calls[call]? = some c)
      (hp : c.phase = .locking) :
      Steps hasResetCaches s now (.raised call) ({ s with clock := now }.ends call c .done)
  | resetRaised {call : Nat} {c : ResetCall} {startedAt : ℚ} (hc : s.calls[call]? = some c)
      (hp : c.phase = .resetting startedAt) :
      Steps hasResetCaches s now (.raised call)
        ({ s with clock := now, locked := false }.ends call c .done)
  | ensured :
      Steps hasResetCaches s now .ensured { s with clock := now }.ensureDaemonRunning
  | round (hd : s.daemon = .created ∨ s.daemon = .looping) :
      Steps hasResetCaches s now .round ({ s with clock := now }.onRound now)
  | woken {deadline : ℚ} (hd : s.daemon = .waiting deadline) (he : s.manager.event = true) :
      Steps hasResetCaches s now .woken { s with
        clock := now, manager := { s.manager with event := false }, daemon := .looping }
  | timedOut {deadline : ℚ} (hd : s.daemon = .waiting deadline) (hle : deadline ≤ now) :
      Steps hasResetCaches s now .timedOut ({ s with clock := now }.callReset now)
  | cancelled {deadline : ℚ} (hd : s.daemon = .waiting deadline) :
      Steps hasResetCaches s now .cancelled { s with clock := now, daemon := .done }

theorem steps_of_step {s s' : CacheResets} {l : ResetLabel}
    (h : s.step hasResetCaches l = some s') :
    s.clock ≤ l.now ∧ (s.daemon = .looping → l.event = .round)
      ∧ Steps hasResetCaches s l.now l.event s' := by
  obtain ⟨now, event⟩ := l
  unfold step at h
  split at h
  · rename_i hadmits
    simp only [admits, Bool.and_eq_true, decide_eq_true_eq, Bool.or_eq_true, bne_iff_ne,
      beq_iff_eq] at hadmits
    refine ⟨hadmits.1, fun hd => hadmits.2.resolve_left (absurd hd), ?_⟩
    cases event with
    | called force => exact Option.some.inj h ▸ .called
    | ensured => exact Option.some.inj h ▸ .ensured
    | acquired call =>
        simp only [onEvent] at h
        split at h
        · rename_i c hc
          split at h
          · rename_i hp
            split at h
            · cases h
            · rename_i hfree
              exact Option.some.inj h ▸ .acquired hc hp (Bool.eq_false_iff.mpr hfree)
          · cases h
        · cases h
    | returned call success =>
        simp only [onEvent] at h
        split at h
        · rename_i c hc
          split at h
          · rename_i hp
            exact Option.some.inj h ▸ .returned hc hp
          · cases h
        · cases h
    | raised call =>
        simp only [onEvent] at h
        split at h
        · rename_i c hc
          split at h
          · rename_i hp
            exact Option.some.inj h ▸ .lockRaised hc hp
          · rename_i hp
            exact Option.some.inj h ▸ .resetRaised hc hp
          · cases h
        · cases h
    | round =>
        simp only [onEvent] at h
        split at h
        · rename_i hd
          exact Option.some.inj h ▸ .round (.inl hd)
        · rename_i hd
          exact Option.some.inj h ▸ .round (.inr hd)
        · cases h
    | woken =>
        simp only [onEvent] at h
        split at h
        · rename_i hd
          split at h
          · rename_i he
            exact Option.some.inj h ▸ .woken hd he
          · cases h
        · cases h
    | timedOut =>
        simp only [onEvent] at h
        split at h
        · rename_i hd
          split at h
          · rename_i hle
            exact Option.some.inj h ▸ .timedOut hd hle
          · cases h
        · cases h
    | cancelled =>
        simp only [onEvent] at h
        split at h
        · rename_i hd
          exact Option.some.inj h ▸ .cancelled hd
        · cases h
  · cases h

/-! ## The resets in progress -/

/-- The call is in the engine's `reset_caches`, since then. -/
def Resets (s : CacheResets) (call : Nat) (force : Bool) (startedAt : ℚ) : Prop :=
  s.calls[call]? = some ⟨force, .resetting startedAt⟩

section Frame

variable {s : CacheResets} {call call' : Nat} {c : ResetCall} {force force' : Bool}
  {startedAt now : ℚ} {next : DaemonTask}

@[simp] theorem tryReset_manager : (s.tryReset force now).manager = s.manager := by
  unfold tryReset
  split <;> rfl

@[simp] theorem tryReset_locked : (s.tryReset force now).locked = s.locked := by
  unfold tryReset
  split <;> rfl

@[simp] theorem tryReset_clock : (s.tryReset force now).clock = s.clock := by
  unfold tryReset
  split <;> rfl

@[simp] theorem isTooSoon_force (m : CacheResetManager) : m.isTooSoon true now = false := rfl

/-- A call that was made just now is not at the engine. -/
@[simp] theorem resets_tryReset :
    (s.tryReset force now).Resets call force' startedAt ↔ s.Resets call force' startedAt := by
  unfold tryReset Resets
  split
  · rfl
  · rw [List.getElem?_append]
    split
    · rfl
    · rename_i hlen
      rw [List.getElem?_eq_none (not_lt.mp hlen)]
      constructor
      · intro h
        have hlast := List.mem_of_getElem? h
        simp at hlast
      · intro h
        cases h

/-- Nor is one that came to an end. -/
@[simp] theorem resets_ends :
    (s.ends call c next).Resets call' force startedAt
      ↔ call' ≠ call ∧ s.Resets call' force startedAt := by
  unfold ends Resets
  rw [List.getElem?_set]
  split
  · rename_i heq
    subst heq
    constructor
    · intro h
      split at h <;> simp at h
    · intro h
      exact absurd rfl h.1
  · rename_i hne
    exact ⟨fun h => ⟨fun heq => hne heq.symm, h⟩, fun h => h.2⟩

end Frame

/-- What a step does to the lock, by what it does to the resets in progress. -/
inductive LockSteps (s : CacheResets) (now : ℚ) (s' : CacheResets) : Prop
  | kept (hlock : s'.locked = s.locked) (hlast : s'.manager.lastReset = s.manager.lastReset)
      (hresets : ∀ call force startedAt,
        s'.Resets call force startedAt ↔ s.Resets call force startedAt)
  | begins (call : Nat) {force : Bool} (hfree : s.locked = false) (hlock : s'.locked = true)
      (hlast : s'.manager.lastReset = s.manager.lastReset)
      (hsoon : s.manager.isTooSoon force now = false)
      (hresets : ∀ call' force' startedAt, s'.Resets call' force' startedAt →
        s.Resets call' force' startedAt ∨ (call' = call ∧ force' = force ∧ startedAt = now))
  | finishes {call : Nat} {force : Bool} {startedAt : ℚ} {success : Bool}
      (hreset : s.Resets call force startedAt) (hlock : s'.locked = false)
      (hlast : s'.manager.lastReset = if success then now else s.manager.lastReset)
      (hresets : ∀ call' force' startedAt', s'.Resets call' force' startedAt'
        ↔ call' ≠ call ∧ s.Resets call' force' startedAt')

theorem resets_of_phase {s : CacheResets} {call : Nat} {c : ResetCall} {startedAt : ℚ}
    (hc : s.calls[call]? = some c) (hp : c.phase = .resetting startedAt) :
    s.Resets call c.force startedAt := by
  obtain ⟨force, phase⟩ := c
  obtain rfl : phase = .resetting startedAt := hp
  exact hc

/-- A call that waits at the lock is not at the engine. -/
theorem not_resets_of_locking {s : CacheResets} {call : Nat} {c : ResetCall}
    (hc : s.calls[call]? = some c) (hp : c.phase = .locking) {force : Bool} {startedAt : ℚ} :
    ¬ s.Resets call force startedAt := by
  intro h
  obtain rfl := Option.some.inj (hc.symm.trans h)
  cases hp

theorem lockSteps_onRound {s : CacheResets} {now : ℚ} (t : CacheResets)
    (hcalls : t.calls = s.calls) (hlock : t.locked = s.locked)
    (hlast : t.manager.lastReset = s.manager.lastReset) :
    LockSteps s now (t.onRound now) := by
  have hsame : ∀ call force startedAt, t.Resets call force startedAt
      ↔ s.Resets call force startedAt := fun _ _ _ => by rw [Resets, Resets, hcalls]
  unfold onRound
  split
  · exact .kept hlock hlast hsame
  · dsimp only
    split
    · refine .kept (tryReset_locked.trans hlock) ?_ fun _ _ _ => resets_tryReset.trans (hsame _ _ _)
      rw [callReset, tryReset_manager]
      exact hlast
    · exact .kept hlock hlast hsame

theorem lockSteps_of_steps {s s' : CacheResets} {now : ℚ} {event : ResetEvent}
    (h : Steps hasResetCaches s now event s') : LockSteps s now s' := by
  cases h with
  | called => exact .kept tryReset_locked (by rw [tryReset_manager]) fun _ _ _ => resets_tryReset
  | @acquired call c hc hp hfree =>
      -- a call that ends at the lock was not at the engine
      have hends : ∀ call' force startedAt, (ends { s with clock := now } call c .looping).Resets
          call' force startedAt ↔ s.Resets call' force startedAt := by
        intro call' force startedAt
        refine resets_ends.trans ⟨fun h => h.2, fun h => ⟨fun heq => ?_, h⟩⟩
        exact not_resets_of_locking hc hp (heq ▸ h)
      unfold onAcquired
      split
      · exact .kept rfl rfl hends
      · rename_i hsoon
        split
        · exact .kept rfl rfl hends
        · refine .begins call hfree rfl rfl (Bool.eq_false_iff.mpr hsoon)
            fun call' force' startedAt h' => ?_
          unfold Resets at h'
          rw [List.getElem?_set] at h'
          split at h'
          · rename_i heq
            split at h'
            · obtain ⟨hforce, hphase⟩ := ResetCall.mk.inj (Option.some.inj h')
              exact .inr ⟨heq.symm, hforce.symm, (ResetPhase.resetting.inj hphase).symm⟩
            · cases h'
          · exact .inl h'
  | @returned call c startedAt success hc hp =>
      have hlast : (s.manager.onReset success now).lastReset
          = if success then now else s.manager.lastReset := by
        cases success <;> rfl
      exact .finishes (resets_of_phase hc hp) rfl hlast fun _ _ _ => resets_ends
  | lockRaised hc hp =>
      refine .kept rfl rfl fun call' force startedAt =>
        resets_ends.trans ⟨fun h => h.2, fun h => ⟨fun heq => ?_, h⟩⟩
      exact not_resets_of_locking hc hp (heq ▸ h)
  | resetRaised hc hp =>
      exact .finishes (resets_of_phase hc hp) rfl (if_neg Bool.false_ne_true).symm
        fun _ _ _ => resets_ends
  | ensured =>
      unfold ensureDaemonRunning
      split
      · split <;> exact .kept rfl rfl fun _ _ _ => Iff.rfl
      · split <;> exact .kept rfl rfl fun _ _ _ => Iff.rfl
      · exact .kept rfl rfl fun _ _ _ => Iff.rfl
  | round hd => exact lockSteps_onRound _ rfl rfl rfl
  | woken hd he => exact .kept rfl rfl fun _ _ _ => Iff.rfl
  | timedOut hd hle =>
      exact .kept tryReset_locked (by rw [callReset, tryReset_manager]) fun _ _ _ => resets_tryReset
  | cancelled hd => exact .kept rfl rfl fun _ _ _ => Iff.rfl

theorem clock_onRound (s : CacheResets) (now : ℚ) : (s.onRound now).clock = s.clock := by
  unfold onRound
  split
  · rfl
  · dsimp only
    split
    · exact tryReset_clock
    · rfl

theorem interval_onRound (s : CacheResets) (now : ℚ) :
    (s.onRound now).manager.interval = s.manager.interval := by
  unfold onRound
  split
  · rfl
  · dsimp only
    split
    · rw [callReset, tryReset_manager]
    · rfl

/-- A step leaves the reading of the clock it was taken at, and the configuration as it was. -/
theorem frame_of_steps {s s' : CacheResets} {now : ℚ} {event : ResetEvent}
    (h : Steps hasResetCaches s now event s') :
    s'.clock = now ∧ s'.manager.interval = s.manager.interval := by
  cases h with
  | called => exact ⟨tryReset_clock, by rw [tryReset_manager]⟩
  | acquired _ _ _ =>
      unfold onAcquired
      split
      · exact ⟨rfl, rfl⟩
      · split <;> exact ⟨rfl, rfl⟩
  | returned _ _ => exact ⟨rfl, by cases ‹Bool› <;> rfl⟩
  | ensured =>
      unfold ensureDaemonRunning
      split
      · split <;> exact ⟨rfl, rfl⟩
      · split <;> exact ⟨rfl, rfl⟩
      · exact ⟨rfl, rfl⟩
  | round _ => exact ⟨clock_onRound _ _, interval_onRound _ _⟩
  | timedOut _ _ => exact ⟨tryReset_clock, by rw [callReset, tryReset_manager]⟩
  | lockRaised _ _ | resetRaised _ _ | woken _ _ | cancelled _ => exact ⟨rfl, rfl⟩

theorem exec_interval {s t : CacheResets} {ls : List ResetLabel}
    (h : exec (step hasResetCaches) s ls = some t) : t.manager.interval = s.manager.interval :=
  exec_inv (I := fun t => t.manager.interval = s.manager.interval)
    (fun _ _ _ hI hstep => (frame_of_steps (steps_of_step hstep).2.2).2.trans hI) rfl h

/-! ## One at a time -/

/-- What the lock keeps: a single call is at the engine, and it was not too soon. -/
structure Exclusive (s : CacheResets) : Prop where
  taken : ∀ call force startedAt, s.Resets call force startedAt → s.locked = true
  alone : ∀ call force startedAt, s.Resets call force startedAt →
    ∀ call' force' startedAt', s.Resets call' force' startedAt' → call' = call
  /-- No reset is in the future. -/
  last : s.manager.lastReset ≤ s.clock
  /-- The second test still stands. -/
  since : ∀ call force startedAt, s.Resets call force startedAt →
    s.manager.lastReset ≤ startedAt ∧ startedAt ≤ s.clock
      ∧ (force = false → s.manager.lastReset + s.manager.interval ≤ startedAt)

theorem exclusive_create (interval now : ℚ) : (create interval now).Exclusive where
  taken := fun call force startedAt h => by simp [Resets, create] at h
  alone := fun call force startedAt h => by simp [Resets, create] at h
  last := le_refl _
  since := fun call force startedAt h => by simp [Resets, create] at h

/-- What the test lets pass. -/
theorem due_of_not_tooSoon {m : CacheResetManager} {now : ℚ} (hle : m.lastReset ≤ now)
    (h : m.isTooSoon false now = false) : m.lastReset + m.interval ≤ now := by
  simp only [CacheResetManager.isTooSoon, Bool.not_false, Bool.true_and, Bool.and_eq_false_iff,
    decide_eq_false_iff_not, not_lt] at h
  rcases h with hoff | hdue <;> linarith

theorem not_tooSoon_of_due {m : CacheResetManager} {force : Bool} {now : ℚ}
    (h : force = false → m.lastReset + m.interval ≤ now) : m.isTooSoon force now = false := by
  cases force with
  | true => rfl
  | false =>
      have hdue := h rfl
      simp only [CacheResetManager.isTooSoon, Bool.and_eq_false_iff, decide_eq_false_iff_not,
        not_lt]
      exact .inr (by linarith)

theorem exclusive_step {s s' : CacheResets} {l : ResetLabel} (h : s.Exclusive)
    (hs : s.step hasResetCaches l = some s') : s'.Exclusive := by
  obtain ⟨hclock, -, hsteps⟩ := steps_of_step hs
  obtain ⟨hnow, hinterval⟩ := frame_of_steps hsteps
  cases lockSteps_of_steps hsteps with
  | kept hlock hlast hresets =>
      exact {
        taken := fun call force startedAt hr =>
          hlock.trans (h.taken _ _ _ ((hresets _ _ _).mp hr))
        alone := fun call force startedAt hr call' force' startedAt' hr' =>
          h.alone _ _ _ ((hresets _ _ _).mp hr) _ _ _ ((hresets _ _ _).mp hr')
        last := by
          rw [hlast, hnow]
          exact h.last.trans hclock
        since := by
          intro call force startedAt hr
          obtain ⟨hle, hpast, hdue⟩ := h.since _ _ _ ((hresets _ _ _).mp hr)
          rw [hlast, hnow, hinterval]
          exact ⟨hle, hpast.trans hclock, hdue⟩ }
  | @begins call force hfree hlock hlast hsoon hresets =>
      -- the lock was free, so the one that begins is the only one
      have hone : ∀ call' force' startedAt, s'.Resets call' force' startedAt →
          call' = call ∧ force' = force ∧ startedAt = l.now := by
        intro call' force' startedAt hr
        refine (hresets _ _ _ hr).resolve_left fun hold => ?_
        exact absurd (h.taken _ _ _ hold) (by simp [hfree])
      exact {
        taken := fun _ _ _ _ => hlock
        alone := fun _ _ _ hr _ _ _ hr' => (hone _ _ _ hr').1.trans (hone _ _ _ hr).1.symm
        last := by
          rw [hlast, hnow]
          exact h.last.trans hclock
        since := by
          intro call' force' startedAt hr
          obtain ⟨rfl, rfl, rfl⟩ := hone _ _ _ hr
          rw [hlast, hnow, hinterval]
          refine ⟨h.last.trans hclock, le_refl _, fun hforce => ?_⟩
          subst hforce
          exact due_of_not_tooSoon (h.last.trans hclock) hsoon }
  | @finishes call force startedAt success hreset hlock hlast hresets =>
      -- the one that ends was the only one
      have hnone : ∀ call' force' startedAt', ¬ s'.Resets call' force' startedAt' := by
        intro call' force' startedAt' hr
        obtain ⟨hne, hold⟩ := (hresets _ _ _).mp hr
        exact hne (h.alone _ _ _ hreset _ _ _ hold)
      exact {
        taken := fun _ _ _ hr => absurd hr (hnone _ _ _)
        alone := fun _ _ _ hr => absurd hr (hnone _ _ _)
        last := by
          rw [hlast, hnow]
          split
          · exact le_refl _
          · exact h.last.trans hclock
        since := fun _ _ _ hr => absurd hr (hnone _ _ _) }

/-! ## Every run -/

/-- What is known of a reset that came to an end. -/
structure Past (s : CacheResets) (r : EngineReset) : Prop where
  ended : r.endedAt ≤ s.clock
  counts : r.success = true → r.endedAt ≤ s.manager.lastReset
  before : ∀ call force startedAt, s.Resets call force startedAt → r.endedAt ≤ startedAt

/-- A reset that comes to an end was in progress. -/
theorem mem_engineResets {s s' : CacheResets} {l : ResetLabel} {r : EngineReset}
    (h : r ∈ engineResets s l s') :
    r.endedAt = l.now ∧ ∃ call, s.Resets call r.force r.startedAt
      ∧ (l.event = .returned call r.success ∨ l.event = .raised call ∧ r.success = false) := by
  unfold engineResets at h
  dsimp only at h
  split at h
  · rename_i call success hevent
    split at h
    · rename_i hc
      obtain rfl := List.mem_singleton.mp h
      exact ⟨rfl, call, hc, .inl hevent⟩
    · cases h
  · rename_i call hevent
    split at h
    · rename_i hc
      obtain rfl := List.mem_singleton.mp h
      exact ⟨rfl, call, hc, .inr ⟨hevent, rfl⟩⟩
    · cases h
  · cases h

theorem length_engineResets (s : CacheResets) (l : ResetLabel) (s' : CacheResets) :
    (engineResets s l s').length ≤ 1 := by
  unfold engineResets
  dsimp only
  split
  · split <;> simp
  · split <;> simp
  · simp

theorem Past.step {s s' : CacheResets} {l : ResetLabel} {r : EngineReset} (hpast : s.Past r)
    (hs : s.step hasResetCaches l = some s') : s'.Past r := by
  obtain ⟨hclock, -, hsteps⟩ := steps_of_step hs
  obtain ⟨hnow, -⟩ := frame_of_steps hsteps
  have hended : r.endedAt ≤ s'.clock := hnow ▸ hpast.ended.trans hclock
  cases lockSteps_of_steps hsteps with
  | kept _ hlast hresets =>
      exact ⟨hended, hlast ▸ hpast.counts,
        fun _ _ _ hr => hpast.before _ _ _ ((hresets _ _ _).mp hr)⟩
  | begins _ _ _ hlast _ hresets =>
      refine ⟨hended, hlast ▸ hpast.counts, fun _ _ _ hr => ?_⟩
      rcases hresets _ _ _ hr with hold | ⟨-, -, rfl⟩
      · exact hpast.before _ _ _ hold
      · exact hpast.ended.trans hclock
  | @finishes _ _ _ success _ _ hlast hresets =>
      refine ⟨hended, fun hsuccess => ?_, fun _ _ _ hr =>
        hpast.before _ _ _ ((hresets _ _ _).mp hr).2⟩
      rw [hlast]
      split
      · exact hpast.ended.trans hclock
      · exact hpast.counts hsuccess

/-- A reset that comes to an end leaves the engine to nobody. -/
theorem past_of_mem {s s' : CacheResets} {l : ResetLabel} {r : EngineReset} (h : s.Exclusive)
    (hs : s.step hasResetCaches l = some s') (hr : r ∈ engineResets s l s') : s'.Past r := by
  obtain ⟨-, -, hsteps⟩ := steps_of_step hs
  obtain ⟨hnow, -⟩ := frame_of_steps hsteps
  obtain ⟨hended, call, hreset, hevent⟩ := mem_engineResets hr
  refine ⟨(hended.trans hnow.symm).le, fun hsuccess => ?_, fun call' force startedAt hr' => ?_⟩
  · rcases hevent with hevent | ⟨-, hfailed⟩
    · rw [hevent, hsuccess] at hsteps
      cases hsteps
      exact hended.le
    · simp [hsuccess] at hfailed
  · -- it was alone at the engine, and its call is over
    have hends : ∀ (t : CacheResets) (c : ResetCall) (next : DaemonTask),
        s' = t.ends call c next → t.calls = s.calls → r.endedAt ≤ startedAt := by
      intro t c next heq hcalls
      rw [heq] at hr'
      obtain ⟨hne, hold⟩ := resets_ends.mp hr'
      rw [Resets, hcalls] at hold
      exact absurd (h.alone _ _ _ hreset _ _ _ hold) hne
    rcases hevent with hevent | ⟨hevent, -⟩
    · rw [hevent] at hsteps
      cases hsteps
      exact hends _ _ _ rfl rfl
    · rw [hevent] at hsteps
      cases hsteps
      · exact hends _ _ _ rfl rfl
      · exact hends _ _ _ rfl rfl

/-- **Cache resets one by one.** However many calls there are, forced or not, at most one is at the
engine. The engine's resets follow each other, and one that nobody forced begins an interval after
the last that was successful, also when that one came while its call waited for the lock. -/
theorem resets_serialized {interval start : ℚ} {ls : List ResetLabel} {s : CacheResets}
    (h : exec (step hasResetCaches) (create interval start) ls = some s) :
    (∀ call force startedAt, s.Resets call force startedAt →
        ∀ call' force' startedAt', s.Resets call' force' startedAt' → call' = call)
      ∧ (outputs (step hasResetCaches) engineResets (create interval start) ls).Pairwise
        fun a b => a.endedAt ≤ b.startedAt
          ∧ (a.success = true → b.force = false → a.endedAt + interval ≤ b.startedAt) := by
  have hstep : ∀ s l s', (s.Exclusive ∧ s.manager.interval = interval) →
      step hasResetCaches s l = some s' → s'.Exclusive ∧ s'.manager.interval = interval := by
    intro s l s' h hs
    obtain ⟨-, -, hsteps⟩ := steps_of_step hs
    exact ⟨exclusive_step h.1 hs, (frame_of_steps hsteps).2.trans h.2⟩
  have hinit : (create interval start).Exclusive
      ∧ (create interval start).manager.interval = interval := ⟨exclusive_create _ _, rfl⟩
  refine ⟨(exec_inv hstep hinit h).1.alone, ?_⟩
  refine outputs_pairwise hstep (K := Past) ?_ ?_ ?_ ?_ hinit ls
  · intro s l s' hI hs r hr
    exact past_of_mem hI.1 hs hr
  · intro s l s' _ hs r hpast
    exact hpast.step hs
  · -- the one that ends now was in progress: its tests still stand
    intro s l s' hI hs a hpast b hb
    obtain ⟨-, call, hreset, -⟩ := mem_engineResets hb
    obtain ⟨-, -, hdue⟩ := hI.1.since _ _ _ hreset
    refine ⟨hpast.before _ _ _ hreset, fun hsuccess hforce => ?_⟩
    have hlast := hpast.counts hsuccess
    have hbegan := hdue hforce
    rw [hI.2] at hbegan
    linarith
  · intro s l s' _ _
    have hlen := length_engineResets s l s'
    rcases hout : engineResets s l s' with _ | ⟨r, _ | ⟨r', rest⟩⟩
    · exact List.Pairwise.nil
    · exact List.pairwise_singleton _ _
    · simp [hout] at hlen

/-- Two calls pass the first test together. The forced one is first, and the other is turned back
with the lock in its hands; it is made again an interval later. -/
def overtaken : List ResetLabel :=
  [⟨700, .called false⟩, ⟨700, .called true⟩, ⟨700, .acquired 1⟩, ⟨702, .returned 1 true⟩,
    ⟨702, .acquired 0⟩, ⟨1302, .called false⟩, ⟨1302, .acquired 2⟩, ⟨1303, .returned 2 true⟩]

theorem resets_serialized_overtaken :
    let resets := outputs (step true) engineResets (create 600 0) overtaken
    resets = [⟨true, 700, 702, true⟩, ⟨false, 1302, 1303, true⟩]
      ∧ resets.Pairwise fun a b => a.endedAt ≤ b.startedAt
          ∧ (a.success = true → b.force = false → a.endedAt + 600 ≤ b.startedAt) := by
  have hsome : (exec (step true) (create 600 0) overtaken).isSome = true := by decide +kernel
  obtain ⟨s, hs⟩ := Option.isSome_iff_exists.mp hsome
  exact ⟨by decide +kernel, (@resets_serialized true 600 0 overtaken s hs).2⟩

end CacheResets

end YapInference
