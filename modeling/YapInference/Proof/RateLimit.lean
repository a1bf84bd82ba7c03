import YapInference.Lib.Window
import YapInference.WebSocket.Limits

/-!
# The rate limiter counts a sliding window

`consume` drops what has expired from the front of its queue and compares the length of the rest
with the limit. `Tracks` says what the queue knows of the accepted calls: all that has not expired
by now, in order. From it a call's answer is the answer of the window rule over the accepted
calls, whatever was rejected in between, and the rest of the module is about the rule.
-/

namespace YapInference

open Window

namespace SlidingWindowRateLimiter

/-- The limiter after calls at these times. -/
def after (l : SlidingWindowRateLimiter) (times : List ℚ) : SlidingWindowRateLimiter :=
  times.foldl (fun l t => (l.consume t).1) l

/-- What it answers to calls at these times. -/
def decisions (l : SlidingWindowRateLimiter) : List ℚ → List Bool
  | [] => []
  | t :: times => (l.consume t).2 :: (l.consume t).1.decisions times

/-- The times at which it accepts. -/
def accepted (l : SlidingWindowRateLimiter) : List ℚ → List ℚ
  | [] => []
  | t :: times => (if (l.consume t).2 then [t] else []) ++ (l.consume t).1.accepted times

@[simp] theorem after_snoc (l : SlidingWindowRateLimiter) (times : List ℚ) (t : ℚ) :
    l.after (times ++ [t]) = ((l.after times).consume t).1 := by
  simp [after]

theorem accepted_snoc (l : SlidingWindowRateLimiter) (times : List ℚ) (t : ℚ) :
    l.accepted (times ++ [t])
      = l.accepted times ++ if ((l.after times).consume t).2 then [t] else [] := by
  induction times generalizing l with
  | nil => exact List.append_nil _
  | cons s times ih =>
      rw [List.cons_append, accepted, accepted, ih, List.append_assoc]
      rfl

/-- What the queue knows at `now` of the calls accepted so far. -/
structure Tracks (limit : Nat) (window now : ℚ) (accepted : List ℚ)
    (l : SlidingWindowRateLimiter) : Prop where
  limit_eq : l.limit = limit
  window_eq : l.windowSeconds = window
  /-- They are in order, and not in the future. -/
  upTo : UpTo now accepted
  /-- The queue has lost only expired ones. -/
  remembers : Remembers window now accepted l.events
  /-- Each had room in its window. -/
  sparse : Sparse limit window accepted

theorem tracks_create {limit : Int} {window : ℚ} (hlimit : 1 ≤ limit) (hwindow : 0 < window)
    (now : ℚ) : Tracks limit.toNat window now [] (create limit window) where
  limit_eq := by simp only [create]; omega
  window_eq := max_eq_right hwindow.le
  upTo := upTo_nil now
  remembers := remembers_nil window now
  sparse := sparse_nil _ _

section Step

variable {limit : Nat} {window now : ℚ} {accepted : List ℚ} {l : SlidingWindowRateLimiter}

theorem Tracks.later (h : Tracks limit window now accepted l) {t : ℚ} (hle : now ≤ t) :
    Tracks limit window t accepted l :=
  { h with upTo := h.upTo.later hle, remembers := h.remembers.later hle }

theorem Tracks.sparse_within (h : Tracks limit window now accepted l) :
    (within window now accepted).length ≤ limit := by
  refine h.sparse.span h.upTo.ordered _ fun s t hs ht => ?_
  have hs := of_decide_eq_true hs
  have ht := of_decide_eq_true ht
  exact (sub_le_sub_right ht.2 window).trans_lt hs.1

variable (hlimit : 0 < limit) (hwindow : 0 < window)
include hlimit hwindow

theorem Tracks.enabled (h : Tracks limit window now accepted l) : l.enabled = true := by
  simp [SlidingWindowRateLimiter.enabled, h.limit_eq, h.window_eq, hlimit, hwindow]

/-- What one call does, in terms of the window that ends at it. -/
theorem Tracks.consume_eq (h : Tracks limit window now accepted l) :
    l.consume now = if (within window now accepted).length < limit then
        ({ l with events := within window now accepted ++ [now] }, true)
      else ({ l with events := within window now accepted }, false) := by
  have hevents : l.events.dropWhile (fun t => decide (t ≤ now - l.windowSeconds))
      = within window now accepted := by
    rw [h.window_eq]
    exact h.remembers.prune_eq le_rfl h.upTo
  have hlimit_eq := h.limit_eq
  unfold SlidingWindowRateLimiter.consume
  rw [if_neg (by simp [h.enabled hlimit hwindow])]
  dsimp only
  rw [hevents]
  by_cases hroom : (within window now accepted).length < limit
  · rw [if_neg (by omega), if_pos hroom]
  · rw [if_pos (by omega), if_neg hroom]

/-- **A call is answered by the rule.** -/
theorem Tracks.answer (h : Tracks limit window now accepted l) :
    (l.consume now).2 = admits limit window now accepted := by
  rw [h.consume_eq hlimit hwindow, admits]
  split <;> simp [*]

/-- **One call keeps track.** -/
theorem Tracks.step (h : Tracks limit window now accepted l) :
    Tracks limit window now
      (if admits limit window now accepted then accepted ++ [now] else accepted)
      (l.consume now).1 := by
  have hpruned : Remembers window now accepted (within window now accepted) :=
    h.remembers.prune_eq le_rfl h.upTo ▸ h.remembers.prune le_rfl
  rw [h.consume_eq hlimit hwindow, admits]
  by_cases hroom : (within window now accepted).length < limit
  · rw [if_pos hroom, if_pos (by simpa using hroom)]
    exact ⟨h.limit_eq, h.window_eq, h.upTo.snoc, hpruned.snoc now, h.sparse.snoc hroom⟩
  · rw [if_neg hroom, if_neg (by simpa using hroom)]
    exact ⟨h.limit_eq, h.window_eq, h.upTo, hpruned, h.sparse⟩

/-- **A rejected call that is made again when its error says is accepted.** -/
theorem Tracks.retry (h : Tracks limit window now accepted l)
    (hrejected : admits limit window now accepted = false) :
    ∃ e, l.rateLimitError now = some e ∧ ((l.consume now).1.consume (now + e.retryIn)).2 = true := by
  have hfull : ¬ (within window now accepted).length < limit := of_decide_eq_false hrejected
  have hstep := h.step hlimit hwindow
  have hsparse := h.sparse_within
  have hconsume := h.consume_eq hlimit hwindow
  rw [if_neg hfull] at hconsume
  rw [hrejected, hconsume] at hstep
  cases hwithin : within window now accepted with
  | nil => simp [hwithin] at hfull; omega
  | cons oldest rest =>
      rw [hwithin] at hconsume hstep hsparse
      have hmem : oldest ∈ within window now accepted := by simp [hwithin]
      have holdest := (of_decide_eq_true (List.mem_filter.mp hmem).2).1
      -- the error waits until the oldest call expires, which is later than now
      have hwait : 0 < oldest + window - now := by
        rw [sub_lt_iff_lt_add] at holdest
        exact sub_pos.mpr holdest
      refine ⟨.create (oldest + window - now) l.limit l.windowSeconds, ?_, ?_⟩
      · simp [rateLimitError, hconsume, h.window_eq, max_eq_right hwait.le]
      · have hretry : now + (RateLimitError.create (oldest + window - now) l.limit
            l.windowSeconds).retryIn = oldest + window := by
          simp [RateLimitError.create, max_eq_right hwait.le]
        have hle : now ≤ oldest + window := (sub_pos.mp hwait).le
        have hlater := hstep.later hle
        rw [hconsume, hretry, hlater.answer hlimit hwindow, admits, decide_eq_true_iff]
        rw [← hlater.remembers.prune_eq le_rfl hlater.upTo, prune]
        rw [List.dropWhile_cons_of_pos (by simp)]
        have hdrop := List.length_dropWhile_le
          (fun s => decide (s ≤ oldest + window - window)) rest
        simp only [List.length_cons] at hsparse
        omega

/-- **The limiter answers as the rule does**, whatever it has rejected before. -/
theorem Tracks.decisions_eq {times : List ℚ} (h : Tracks limit window now accepted l)
    (hordered : (now :: times).Pairwise (· ≤ ·)) :
    l.decisions times = answers limit window accepted times := by
  induction times generalizing now accepted l with
  | nil => rfl
  | cons t times ih =>
      obtain ⟨hle, hrest⟩ := List.pairwise_cons.mp hordered
      have ht := h.later (hle t (by simp))
      rw [decisions, answers, ht.answer hlimit hwindow]
      rw [ih (ht.step hlimit hwindow) hrest]

end Step

/-- After any calls in order, the queue knows the accepted ones. -/
theorem tracks_after {limit : Int} {window : ℚ} (hlimit : 1 ≤ limit) (hwindow : 0 < window)
    {times : List ℚ} {t : ℚ} (hordered : (times ++ [t]).Pairwise (· ≤ ·)) :
    Tracks limit.toNat window t ((create limit window).accepted times)
      ((create limit window).after times) := by
  induction times using List.reverseRecOn generalizing t with
  | nil => exact tracks_create hlimit hwindow t
  | append_singleton times s ih =>
      obtain ⟨hearlier, -, hle⟩ := List.pairwise_append.mp hordered
      have h := ih hearlier
      rw [accepted_snoc, after_snoc, h.answer (by omega) hwindow]
      have hstep := (h.step (by omega) hwindow).later (hle s (by simp) t (by simp))
      cases hroom : admits limit.toNat window s ((create limit window).accepted times) <;>
        simpa [hroom] using hstep

/-! ## Any calls in order -/

/--
**The limiter is exact.** With a limit of at least one and a window that is not empty, after any
calls at non-decreasing times:

* a call is accepted iff fewer than `limit` accepted ones lie in the window that ends at it;
* a rejected call changes no later answer;
* no half-open span of the window's width holds more than `limit` accepted calls;
* a rejection says when to come back, and a call then, with none in between, is accepted.
-/
theorem consume_run (limit : Int) (window : ℚ) (hlimit : 1 ≤ limit) (hwindow : 0 < window)
    (times : List ℚ) (t : ℚ) (hordered : (times ++ [t]).Pairwise (· ≤ ·)) :
    let l := create limit window
    let now := l.after times
    ((now.consume t).2 = true ↔
        (((l.accepted times).filter fun s => t - window < s ∧ s ≤ t).length : Int) < limit)
      ∧ ((now.consume t).2 = false → ∀ later, (t :: later).Pairwise (· ≤ ·) →
          (now.consume t).1.decisions later = now.decisions later)
      ∧ (∀ a, (((l.accepted (times ++ [t])).filter
            fun s => a < s ∧ s ≤ a + window).length : Int) ≤ limit
          ∧ (((l.accepted (times ++ [t])).filter
            fun s => a ≤ s ∧ s < a + window).length : Int) ≤ limit)
      ∧ ((now.consume t).2 = false → ∃ e, now.rateLimitError t = some e
          ∧ ((now.consume t).1.consume (t + e.retryIn)).2 = true) := by
  dsimp only
  have hpos : 0 < limit.toNat := by omega
  have h := tracks_after hlimit hwindow hordered
  have hanswer := h.answer hpos hwindow
  have hstep := h.step hpos hwindow
  generalize hacc : (create limit window).accepted times = accepted at h hanswer hstep
  generalize hnow : (create limit window).after times = l at h hanswer hstep
  refine ⟨?_, ?_, ?_, ?_⟩
  · rw [hanswer, admits, decide_eq_true_iff, within]
    omega
  · intro hrejected later hlater
    rw [hanswer] at hrejected
    rw [hrejected] at hstep
    rw [hstep.decisions_eq hpos hwindow hlater, h.decisions_eq hpos hwindow hlater]
    rfl
  · intro a
    have hafter : Tracks limit.toNat window t ((create limit window).accepted (times ++ [t]))
        (l.consume t).1 := by
      rw [accepted_snoc, hacc, hnow, hanswer]
      cases hroom : admits limit.toNat window t accepted <;> simpa [hroom] using hstep
    have hspan := hafter.sparse.span hafter.upTo.ordered
    refine ⟨?_, ?_⟩
    · have := hspan (fun s => a < s ∧ s ≤ a + window) (fun s u hs hu => by
        simp only [decide_eq_true_eq] at hs hu
        exact (sub_le_iff_le_add.mpr hu.2).trans_lt hs.1)
      omega
    · have := hspan (fun s => a ≤ s ∧ s < a + window) (fun s u hs hu => by
        simp only [decide_eq_true_eq] at hs hu
        exact (sub_lt_iff_lt_add.mpr hu.2).trans_le hs.1)
      omega
  · intro hrejected
    exact h.retry hpos hwindow (hanswer ▸ hrejected)

/-- Two calls a second for a limit of one a minute, and the one that is told to wait. -/
theorem consume_run_second :
    let l := create 1 60
    l.decisions [0, 1] = [true, false]
      ∧ ∃ e, (l.after [0]).rateLimitError 1 = some e
        ∧ (((l.after [0]).consume 1).1.consume (1 + e.retryIn)).2 = true := by
  have h := consume_run 1 60 (by decide) (by decide) [0] 1 (by decide)
  exact ⟨by decide +kernel, h.2.2.2 (by decide +kernel)⟩

end SlidingWindowRateLimiter

end YapInference
