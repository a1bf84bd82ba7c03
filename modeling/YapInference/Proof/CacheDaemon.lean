import Mathlib.Tactic.Linarith
import Mathlib.Data.List.Chain
import YapInference.Lib.Lts
import YapInference.Engines.Cache

/-!
# The pace of the cache reset daemon

The loop measures its wait from the last reset that was successful. As long as each of its attempts
is followed by a success, its own or another task's, no attempt begins sooner than an interval after
the one before. An attempt that fails leaves the last reset where it was, an interval ago, and the
loop tries again without a wait.
-/

namespace YapInference

open Lts

namespace CacheDaemon

/-- Consecutive attempts are at least an interval apart. -/
def Paced (d : CacheDaemon) : Prop := d.attempts.IsChain fun a b => a + d.manager.interval ≤ b

instance (d : CacheDaemon) : Decidable d.Paced := inferInstanceAs (Decidable (List.IsChain _ _))

/-- An attempt that comes back was successful, or another reset has been since it began, or it took
at least an interval. -/
def MadeUp (d : CacheDaemon) (e : DaemonEvent) : Prop :=
  match e, d.phase with
  | .resetReturned false now, .resetting startedAt =>
      startedAt ≤ d.manager.lastReset ∨ startedAt + d.manager.interval ≤ now
  | _, _ => True

instance (d : CacheDaemon) (e : DaemonEvent) : Decidable (d.MadeUp e) := by
  unfold MadeUp
  split <;> infer_instance

/-! ## What an event does -/

/-- The events a loop can take, with their guards. -/
inductive Steps (d : CacheDaemon) : DaemonEvent → CacheDaemon → Prop
  | round {now : ℚ} (hp : d.phase = .looping) :
      Steps d (.round now) (onRound { d with clock := now } now)
  | resetReturned {success : Bool} {now startedAt : ℚ} (hp : d.phase = .resetting startedAt) :
      Steps d (.resetReturned success now) { d with
        clock := now, manager := d.manager.onReset success now, phase := .looping }
  | otherReset {force : Bool} {now : ℚ} (hs : d.isSuspended = true) :
      Steps d (.otherReset force now) { d with
        clock := now, manager := d.manager.onReset true now }
  | woken {now deadline : ℚ} (hp : d.phase = .waiting deadline) (he : d.manager.event = true) :
      Steps d (.woken now) { d with
        clock := now, manager := { d.manager with event := false }, phase := .looping }
  | timedOut {now deadline : ℚ} (hp : d.phase = .waiting deadline) (hd : deadline ≤ now) :
      Steps d (.timedOut now) (callReset { d with clock := now } now)
  | raised {now : ℚ} (hs : d.isSuspended = true) :
      Steps d (.raised now) { d with clock := now, phase := .ended }

theorem steps_of_step {d d' : CacheDaemon} {e : DaemonEvent} (h : d.step e = some d') :
    d.clock ≤ e.now ∧ Steps d e d' := by
  unfold step at h
  split at h
  · exact absurd h (by simp)
  · rename_i hclock
    refine ⟨not_lt.mp hclock, ?_⟩
    dsimp only at h
    split at h
    · rename_i hp
      exact Option.some.inj h ▸ .round hp
    · rename_i hp
      exact Option.some.inj h ▸ .resetReturned hp
    · split at h
      · rename_i hs
        exact Option.some.inj h ▸ .otherReset (Bool.and_eq_true_iff.mp hs).1
      · exact absurd h (by simp)
    · rename_i hp
      split at h
      · rename_i he
        exact Option.some.inj h ▸ .woken hp he
      · exact absurd h (by simp)
    · rename_i hp
      split at h
      · rename_i hd
        exact Option.some.inj h ▸ .timedOut hp hd
      · exact absurd h (by simp)
    · split at h
      · rename_i hs
        exact Option.some.inj h ▸ .raised hs
      · exact absurd h (by simp)
    · exact absurd h (by simp)

/-- **What a round does**: it clears the event, or calls the reset because an interval has passed
since the last one, or waits for the rest of the interval. -/
theorem onRound_cases {d : CacheDaemon} {now : ℚ} (hle : d.manager.lastReset ≤ now) :
    (d.manager.event = true ∧ d.onRound now = { d with manager := { d.manager with event := false } })
      ∨ (d.manager.event = false ∧ d.manager.lastReset + d.manager.interval ≤ now
        ∧ d.onRound now = d.callReset now)
      ∨ (d.manager.event = false ∧ now < d.manager.lastReset + d.manager.interval
        ∧ d.onRound now
          = { d with phase := .waiting (d.manager.lastReset + d.manager.interval) }) := by
  have helapsed : d.manager.secondsSinceLastReset now = now - d.manager.lastReset :=
    if_neg (not_lt.mpr (sub_nonneg.mpr hle))
  cases hevent : d.manager.event with
  | true => exact .inl ⟨rfl, by rw [onRound, if_pos hevent]⟩
  | false =>
      right
      rw [onRound, if_neg (by simp [hevent]), helapsed]
      dsimp only
      by_cases hdue : d.manager.lastReset + d.manager.interval ≤ now
      · have hwait : max 0 (d.manager.interval - (now - d.manager.lastReset)) = 0 :=
          max_eq_left (by linarith)
        exact .inl ⟨rfl, hdue, if_pos hwait.le⟩
      · have hlt := not_le.mp hdue
        have hwait : max 0 (d.manager.interval - (now - d.manager.lastReset))
            = d.manager.interval - (now - d.manager.lastReset) := max_eq_right (by linarith)
        have hdeadline : now + (d.manager.interval - (now - d.manager.lastReset))
            = d.manager.lastReset + d.manager.interval := by linarith
        rw [hwait, hdeadline, if_neg (by linarith)]
        exact .inr ⟨rfl, hlt, rfl⟩

/-! ## The pace -/

/-- The loop is between two attempts. -/
def Measures (d : CacheDaemon) : Prop := d.phase = .looping ∨ ∃ deadline, d.phase = .waiting deadline

/-- What holds of a loop whose failed attempts have all been made up for. -/
structure Holds (d : CacheDaemon) : Prop where
  paced : d.Paced
  /-- No reset is in the future, -/
  lastReset_le : d.manager.lastReset ≤ d.clock
  /-- nor is an attempt. -/
  attempt_le : ∀ a, d.attempts.getLast? = some a → a ≤ d.clock
  /-- The attempt in progress is the last one. -/
  resetting : ∀ startedAt, d.phase = .resetting startedAt → d.attempts.getLast? = some startedAt
  /-- Between two attempts, a reset has succeeded since the last, or an interval has passed. -/
  made_up : d.Measures → ∀ a, d.attempts.getLast? = some a →
    a ≤ d.manager.lastReset ∨ a + d.manager.interval ≤ d.clock
  /-- The wait is long enough. -/
  waiting : ∀ deadline, d.phase = .waiting deadline → ∀ a, d.attempts.getLast? = some a →
    a + d.manager.interval ≤ deadline

theorem holds_start (m : CacheResetManager) : (start m).Holds where
  paced := List.isChain_nil
  lastReset_le := le_refl _
  attempt_le := fun a h => absurd h (by simp [start])
  resetting := fun startedAt h => by
    simp only [start] at h
    split at h <;> exact absurd h (by simp)
  made_up := fun _ a h => absurd h (by simp [start])
  waiting := fun deadline _ a h => absurd h (by simp [start])

/-- An attempt that begins an interval after the last one keeps the pace. -/
theorem Holds.callReset {d : CacheDaemon} (h : d.Holds) {now : ℚ} (hclock : d.clock = now)
    (hgap : ∀ a, d.attempts.getLast? = some a → a + d.manager.interval ≤ now) :
    (d.callReset now).Holds where
  paced := by
    refine List.isChain_append.mpr ⟨h.paced, List.isChain_singleton _, fun a ha b hb => ?_⟩
    obtain rfl : now = b := by simpa using hb
    exact hgap a ha
  lastReset_le := h.lastReset_le
  attempt_le := by
    intro a ha
    obtain rfl : now = a := by simpa [CacheDaemon.callReset] using ha
    exact hclock.ge
  resetting := by
    intro startedAt hp
    obtain rfl : now = startedAt := by simpa [CacheDaemon.callReset] using hp
    simp [CacheDaemon.callReset]
  made_up := fun hp => absurd hp (by simp [Measures, CacheDaemon.callReset])
  waiting := fun deadline hp => absurd hp (by simp [CacheDaemon.callReset])

/-- Time passes. -/
theorem Holds.later {d : CacheDaemon} (h : d.Holds) {now : ℚ} (hle : d.clock ≤ now) :
    Holds { d with clock := now } :=
  { h with
    lastReset_le := h.lastReset_le.trans hle
    attempt_le := fun a ha => (h.attempt_le a ha).trans hle
    made_up := fun hp a ha => (h.made_up hp a ha).imp_right (·.trans hle) }

/-- A reset by another task is one that any attempt before it is made up for by. -/
theorem Holds.otherReset {d : CacheDaemon} (h : d.Holds) :
    Holds { d with manager := d.manager.onReset true d.clock } :=
  { h with
    paced := h.paced
    lastReset_le := le_refl _
    made_up := fun _ a ha => .inl (h.attempt_le a ha) }

/-- The head of the loop measures from the last reset. -/
theorem Holds.round {d : CacheDaemon} (h : d.Holds) (hp : d.phase = .looping) :
    (d.onRound d.clock).Holds := by
  have hmade := h.made_up (.inl hp)
  rcases onRound_cases h.lastReset_le with ⟨-, heq⟩ | ⟨-, hdue, heq⟩ | ⟨-, hwait, heq⟩
  · rw [heq]
    exact { h with paced := h.paced }
  · rw [heq]
    refine h.callReset rfl fun a ha => ?_
    rcases hmade a ha with hsince | hlong
    · linarith
    · exact hlong
  · rw [heq]
    refine { h with
      paced := h.paced
      resetting := fun startedAt hp' => absurd hp' (by simp)
      made_up := fun _ => hmade
      waiting := fun deadline hp' a ha => ?_ }
    obtain rfl : d.manager.lastReset + d.manager.interval = deadline := by simpa using hp'
    rcases hmade a ha with hsince | hlong
    · dsimp only
      linarith
    · dsimp only
      linarith

theorem holds_step {d d' : CacheDaemon} {e : DaemonEvent} (h : d.Holds) (hc : d.MadeUp e)
    (hstep : d.step e = some d') : d'.Holds := by
  obtain ⟨hle, hcases⟩ := steps_of_step hstep
  have hlater := h.later hle
  cases hcases with
  | round hp => exact hlater.round hp
  | @resetReturned success now startedAt hp =>
      have hlast := h.resetting _ hp
      cases success with
      | true =>
          exact { hlater.otherReset with
            resetting := fun startedAt hp' => absurd hp' (by simp)
            made_up := fun _ a ha => .inl (hlater.attempt_le a ha)
            waiting := fun deadline hp' => absurd hp' (by simp) }
      | false =>
          refine { hlater with
            resetting := fun startedAt hp' => absurd hp' (by simp)
            made_up := fun _ a ha => ?_
            waiting := fun deadline hp' => absurd hp' (by simp) }
          obtain rfl : startedAt = a := Option.some.inj (hlast.symm.trans ha)
          simpa [MadeUp, hp, CacheResetManager.onReset] using hc
  | otherReset hs => exact hlater.otherReset
  | woken hp he =>
      exact { hlater with
        paced := h.paced
        resetting := fun startedAt hp' => absurd hp' (by simp)
        made_up := fun _ => hlater.made_up (.inr ⟨_, hp⟩)
        waiting := fun deadline hp' => absurd hp' (by simp) }
  | timedOut hp hd => exact hlater.callReset rfl fun a ha => (h.waiting _ hp a ha).trans hd
  | raised hs =>
      exact { hlater with
        paced := h.paced
        resetting := fun startedAt hp' => absurd hp' (by simp)
        made_up := fun hm => absurd hm (by simp [Measures])
        waiting := fun deadline hp' => absurd hp' (by simp) }

/-! ## Every run -/

@[simp] theorem onReset_interval (m : CacheResetManager) (success : Bool) (now : ℚ) :
    (m.onReset success now).interval = m.interval := by
  cases success <;> rfl

theorem onRound_interval (d : CacheDaemon) (now : ℚ) :
    (d.onRound now).manager.interval = d.manager.interval := by
  unfold onRound
  split
  · rfl
  · dsimp only
    split <;> rfl

theorem step_interval {d d' : CacheDaemon} {e : DaemonEvent} (h : d.step e = some d') :
    d'.manager.interval = d.manager.interval := by
  cases (steps_of_step h).2 with
  | round hp => exact onRound_interval _ _
  | resetReturned hp => exact onReset_interval _ _ _
  | otherReset hs => exact onReset_interval _ _ _
  | woken hp he => rfl
  | timedOut hp hd => rfl
  | raised hs => rfl

theorem holds_exec {d d' : CacheDaemon} {es : List DaemonEvent} (hd : d.Holds)
    (hm : Meets step MadeUp d es) (h : exec step d es = some d') : d'.Holds :=
  exec_inv_of_meets (fun _ _ _ hs hc hstep => holds_step hs hc hstep) hd hm h

theorem exec_interval {d d' : CacheDaemon} {es : List DaemonEvent} (h : exec step d es = some d') :
    d'.manager.interval = d.manager.interval :=
  exec_inv (I := fun s => s.manager.interval = d.manager.interval)
    (fun _ _ _ hs hstep => (step_interval hstep).trans hs) rfl h

/-- **The pace.** In a run all of whose failed attempts are made up for, the attempts are at least
an interval apart. -/
theorem attempts_paced {m : CacheResetManager} {es : List DaemonEvent} {d : CacheDaemon}
    (hm : Meets step MadeUp (start m) es) (h : exec step (start m) es = some d) :
    d.attempts.IsChain fun a b => a + m.interval ≤ b := by
  have hpaced : d.Paced := (holds_exec (holds_start m) hm h).paced
  have hinterval : d.manager.interval = m.interval := exec_interval h
  exact hinterval ▸ hpaced

/-- A timer of ten minutes whose reset of 600 s fails, but while it waits for the lock another task
resets the caches. It is put off by one more at 900 s, and resets again at 1500 s. -/
def putOff : List DaemonEvent :=
  [.round 600, .otherReset true 605, .resetReturned false 610, .round 610, .round 611,
    .otherReset true 900, .woken 900, .round 900, .timedOut 1500]

theorem attempts_paced_putOff :
    ∃ d, exec step (start ⟨600, 0, false⟩) putOff = some d
      ∧ d.attempts = [600, 1500] ∧ d.attempts.IsChain fun a b => a + 600 ≤ b := by
  refine ⟨⟨⟨600, 900, false⟩, .resetting 1500, 1500, [600, 1500]⟩, by decide +kernel, rfl, ?_⟩
  exact @attempts_paced ⟨600, 0, false⟩ putOff _ (by decide +kernel) (by decide +kernel)

/-- Without that the loop tries again at once: the reset of 600 s fails, and it resets at 601 s. -/
theorem attempts_not_paced :
    ¬ ∀ (m : CacheResetManager) (es : List DaemonEvent) (d : CacheDaemon), 0 < m.interval →
      exec step (start m) es = some d → d.attempts.IsChain fun a b => a + m.interval ≤ b := by
  intro h
  have hrun : exec step (start ⟨600, 0, false⟩)
      [.round 600, .resetReturned false 601, .round 601]
      = some ⟨⟨600, 0, false⟩, .resetting 601, 601, [600, 601]⟩ := by decide +kernel
  exact absurd (h ⟨600, 0, false⟩ _ _ (by norm_num) hrun) (by decide +kernel)

/-! ## What the condition leaves out -/

theorem step_round {d : CacheDaemon} (hp : d.phase = .looping) :
    d.step (.round d.clock) = some (d.onRound d.clock) := by
  obtain ⟨manager, phase, clock, attempts⟩ := d
  obtain rfl : phase = .looping := hp
  exact if_neg (lt_irrefl clock)

theorem step_timedOut {d : CacheDaemon} {deadline : ℚ} (hp : d.phase = .waiting deadline)
    (hle : d.clock ≤ deadline) :
    d.step (.timedOut deadline) = some (callReset { d with clock := deadline } deadline) := by
  simp [step, DaemonEvent.now, hp, not_lt.mpr hle]

/-- A loop that is left alone calls the reset as soon as the interval is over, -/
theorem exists_attempt_of_event_false {d : CacheDaemon} (hp : d.phase = .looping)
    (hle : d.manager.lastReset ≤ d.clock) (he : d.manager.event = false) :
    ∃ es d', Meets step MadeUp d es ∧ exec step d es = some d' ∧ d'.attempts
      = d.attempts ++ [max d.clock (d.manager.lastReset + d.manager.interval)]
      ∧ d'.manager.interval = d.manager.interval := by
  have hstep := step_round hp
  rcases onRound_cases hle with ⟨htrue, -⟩ | ⟨-, hdue, heq⟩ | ⟨-, hwait, heq⟩
  · exact absurd (htrue.symm.trans he) (by simp)
  · rw [heq] at hstep
    refine ⟨[.round d.clock], _, ⟨trivial, fun _ _ => trivial⟩,
      exec_cons_eq_some.mpr ⟨_, hstep, rfl⟩, ?_, rfl⟩
    rw [max_eq_left hdue]
    rfl
  · rw [heq] at hstep
    have hend := step_timedOut
      (d := { d with phase := .waiting (d.manager.lastReset + d.manager.interval) }) rfl hwait.le
    refine ⟨[.round d.clock, .timedOut (d.manager.lastReset + d.manager.interval)], _,
      ⟨trivial, fun _ _ => ⟨trivial, fun _ _ => trivial⟩⟩,
      exec_cons_eq_some.mpr ⟨_, hstep, exec_cons_eq_some.mpr ⟨_, hend, rfl⟩⟩, ?_, rfl⟩
    rw [max_eq_right hwait.le]
    rfl

/-- also when it has an event to clear first. -/
theorem exists_attempt {d : CacheDaemon} (hp : d.phase = .looping)
    (hle : d.manager.lastReset ≤ d.clock) :
    ∃ es d', Meets step MadeUp d es ∧ exec step d es = some d' ∧ d'.attempts
      = d.attempts ++ [max d.clock (d.manager.lastReset + d.manager.interval)]
      ∧ d'.manager.interval = d.manager.interval := by
  cases he : d.manager.event with
  | false => exact exists_attempt_of_event_false hp hle he
  | true =>
      have hstep : d.step (.round d.clock)
          = some { d with manager := { d.manager with event := false } } := by
        rw [step_round hp, onRound, if_pos he]
      obtain ⟨es, d', hm, h, hattempts⟩ := exists_attempt_of_event_false
        (d := { d with manager := { d.manager with event := false } }) hp hle rfl
      refine ⟨.round d.clock :: es, d', ⟨trivial, fun d'' h'' => ?_⟩, ?_, hattempts⟩
      · exact Option.some.inj (hstep.symm.trans h'') ▸ hm
      · exact exec_cons_eq_some.mpr ⟨_, hstep, h⟩

theorem not_madeUp_iff {d : CacheDaemon} {e : DaemonEvent} :
    ¬ d.MadeUp e ↔ ∃ now startedAt, e = .resetReturned false now ∧ d.phase = .resetting startedAt
      ∧ d.manager.lastReset < startedAt ∧ now < startedAt + d.manager.interval := by
  unfold MadeUp
  split
  · rename_i now startedAt hp
    simp [hp, not_or, not_le]
  · rename_i hnone
    constructor
    · intro h
      exact absurd trivial h
    · intro h
      obtain ⟨now, startedAt, rfl, hp, -⟩ := h
      exact absurd hp (hnone now startedAt rfl)

/-- **The condition is exact.** After a step that does not meet it the loop can lose its pace with
no other such step. -/
theorem madeUp_iff {m : CacheResetManager} {es : List DaemonEvent} {d d' : CacheDaemon}
    {e : DaemonEvent} (hm : Meets step MadeUp (start m) es)
    (h : exec step (start m) es = some d) (hstep : d.step e = some d') :
    d.MadeUp e ↔ ∀ es' d'', Meets step MadeUp d' es' → exec step d' es' = some d'' → d''.Paced := by
  have hd := holds_exec (holds_start m) hm h
  constructor
  · intro hc es' d'' hm' h'
    exact (holds_exec (holds_step hd hc hstep) hm' h').paced
  · intro hall
    by_contra hc
    obtain ⟨now, startedAt, rfl, hp, hsince, hshort⟩ := not_madeUp_iff.mp hc
    obtain ⟨hle, hcases⟩ := steps_of_step hstep
    cases hcases with
    | resetReturned hp' =>
        obtain ⟨es', d'', hm', h', hattempts, hinterval⟩ := exists_attempt
          (d := { d with clock := now, phase := .looping }) rfl (hd.lastReset_le.trans hle)
        have hpaced := hall es' d'' hm' h'
        rw [Paced, hattempts, hinterval, List.isChain_append] at hpaced
        have hgap := hpaced.2.2 startedAt (hd.resetting startedAt hp) _ rfl
        have hnext : max now (d.manager.lastReset + d.manager.interval)
            < startedAt + d.manager.interval := max_lt hshort (by linarith)
        exact absurd hgap (not_le.mpr hnext)

end CacheDaemon

end YapInference
