import Mathlib.Algebra.GroupWithZero.Nat
import YapInference.History.Ops

/-!
# The bulk drop against the plain one

`_trim_oldest_items` promises to drop the oldest items until the count fits. Dropping
them one at a time keeps the longest suffix that fits. The code first drops
`estimatedDrops` of them at once, a guess from the average size of an item, and a guess
that is too high has thrown away items that would have fitted: what decides is the
suffix one item longer than the one the guess leaves.
-/

namespace YapInference

variable {α : Type}

/-- How many items the first, bulk drop removes from a list of `length` items that counts
`tokens`. -/
def estimatedDrops (tokens targetTokens length : Nat) : Nat :=
  min (max 1 ((tokens - targetTokens) / max 1 (tokens / length))) (length - 1)

theorem estimatedDrops_lt {tokens target length : Nat} (h : 0 < length) :
    estimatedDrops tokens target length < length := by
  unfold estimatedDrops
  omega

theorem estimatedDrops_pos {tokens target length : Nat} (h : 1 < length) :
    0 < estimatedDrops tokens target length := by
  unfold estimatedDrops
  omega

theorem trimOldestItems_of_fits {count : List α → Nat} {target : Nat} {items : List α}
    (h : count items ≤ target) : trimOldestItems items target count = items := if_pos h

theorem trimOldestItems_of_over {count : List α → Nat} {target : Nat} {items : List α}
    (h : target < count items) :
    trimOldestItems items target count
      = popWhileOver count target
          (items.drop (estimatedDrops (count items) target items.length)) :=
  if_neg (by omega)

theorem popWhileOver_of_fits {count : List α → Nat} {target : Nat} {items : List α}
    (h : count items ≤ target) : popWhileOver count target items = items := by
  rcases items with _ | ⟨x, _ | ⟨y, rest⟩⟩
  · rfl
  · rfl
  · rw [popWhileOver, if_neg (by omega)]

/-! ## Dropping one at a time -/

/-- **The plain loop keeps the longest suffix that fits**, or the last item: every longer
one is over the target, whatever the counting function. -/
theorem popWhileOver_longest (count : List α → Nat) (target : Nat) {items : List α}
    (hne : items ≠ []) :
    ∃ k, popWhileOver count target items = items.drop k ∧ k < items.length
      ∧ (∀ j < k, target < count (items.drop j))
      ∧ (count (items.drop k) ≤ target ∨ k + 1 = items.length) := by
  fun_induction popWhileOver count target items with
  | case1 => exact absurd rfl hne
  | case2 x => exact ⟨0, rfl, by simp, fun j hj => absurd hj (Nat.not_lt_zero j), Or.inr rfl⟩
  | case3 x y rest hover ih =>
      obtain ⟨k, hk, hlt, hbefore, hstop⟩ := ih (by simp)
      refine ⟨k + 1, by simpa using hk, by simpa using hlt, ?_, by simpa using hstop⟩
      intro j hj
      cases j with
      | zero => exact hover
      | succ j => exact hbefore j (by omega)
  | case4 x y rest hfits =>
      exact ⟨0, rfl, by simp, fun j hj => absurd hj (Nat.not_lt_zero j),
        Or.inl (Nat.le_of_not_lt hfits)⟩

/-- Suffixes over the target may be dropped in one go. -/
theorem popWhileOver_skip {count : List α → Nat} {target : Nat} {items : List α} :
    ∀ {d : Nat}, d < items.length → (∀ j < d, target < count (items.drop j)) →
      popWhileOver count target items = popWhileOver count target (items.drop d)
  | 0, _, _ => rfl
  | d + 1, hlt, hover => by
      rcases items with _ | ⟨x, _ | ⟨y, rest⟩⟩
      · exact absurd hlt (by simp)
      · exact absurd hlt (by simp)
      · have hfirst : target < count (x :: y :: rest) := hover 0 (by omega)
        have hrest : popWhileOver count target (y :: rest)
            = popWhileOver count target ((y :: rest).drop d) :=
          popWhileOver_skip (by simpa using hlt) (fun j hj => hover (j + 1) (by omega))
        rw [popWhileOver, if_pos hfirst, hrest, List.drop_succ_cons]

/-! ## When the guess is right -/

/-- A count that never grows when the oldest item goes only falls along the suffixes. -/
theorem count_drop_antitone {count : List α → Nat} {items : List α}
    (hmono : ∀ k, count (items.drop (k + 1)) ≤ count (items.drop k)) {j k : Nat} (h : j ≤ k) :
    count (items.drop k) ≤ count (items.drop j) := by
  induction h with
  | refl => exact Nat.le_refl _
  | step _ ih => exact Nat.le_trans (hmono _) ih

/-- **The bulk drop agrees with the plain one exactly when it does not overshoot**: the
list fits as it is, or is one item, or the suffix one item longer than the one the guess
leaves is still over the target. -/
theorem trimOldestItems_eq_popWhileOver_iff (items : List α) (target : Nat)
    (count : List α → Nat) (hne : items ≠ [])
    (hmono : ∀ k, count (items.drop (k + 1)) ≤ count (items.drop k)) :
    trimOldestItems items target count = popWhileOver count target items
      ↔ count items ≤ target ∨ items.length = 1
        ∨ target
            < count (items.drop (estimatedDrops (count items) target items.length - 1)) := by
  have hpos : 0 < items.length := List.length_pos_iff.mpr hne
  by_cases hfits : count items ≤ target
  · simp only [trimOldestItems_of_fits hfits, popWhileOver_of_fits hfits, hfits, true_or]
  rw [trimOldestItems_of_over (by omega)]
  set d := estimatedDrops (count items) target items.length with hd
  have hdlt : d < items.length := estimatedDrops_lt hpos
  by_cases hone : items.length = 1
  · have hd0 : d = 0 := by omega
    simp only [hd0, List.drop_zero, hone, true_or, or_true]
  have hdpos : 0 < d := estimatedDrops_pos (by omega)
  simp only [hfits, hone, false_or]
  constructor
  · intro heq
    by_contra hover
    -- the plain loop has stopped before `d` items are gone, the bulk one cannot have
    obtain ⟨k, hk, hklt, hbefore, -⟩ := popWhileOver_longest count target hne
    obtain ⟨k', hk', -⟩ := popWhileOver_drop count target (items.drop d)
    have hkd : k < d := by
      by_contra hge
      exact hover (hbefore (d - 1) (by omega))
    rw [hk, hk', List.drop_drop] at heq
    have hlen := congrArg List.length heq
    simp only [List.length_drop] at hlen
    omega
  · intro hover
    symm
    refine popWhileOver_skip hdlt fun j hj => ?_
    exact Nat.lt_of_lt_of_le hover (count_drop_antitone hmono (by omega))

/-- Items of one size: the guess is right. -/
theorem trimOldestItems_eq_popWhileOver_even :
    trimOldestItems [10, 10, 10, 10] 20 List.sum = popWhileOver List.sum 20 [10, 10, 10, 10] :=
  (trimOldestItems_eq_popWhileOver_iff [10, 10, 10, 10] 20 List.sum (by simp)
    (fun k => by
      rcases k with _ | _ | _ | _ | k <;> simp)).mpr (Or.inr (Or.inr (by decide)))

/-- One long item before four short ones: the average is twenty, two items go at once,
and the second of them would have fitted. -/
theorem trimOldestItems_overshoots :
    ¬ ∀ (items : List Nat) (target : Nat) (count : List Nat → Nat), items ≠ [] →
      (∀ k, count (items.drop (k + 1)) ≤ count (items.drop k)) →
      trimOldestItems items target count = popWhileOver count target items := by
  intro h
  have := h [100, 1, 1, 1, 1] 50 List.sum (by simp)
    (fun k => by rcases k with _ | _ | _ | _ | _ | k <;> simp)
  exact absurd this (by decide)

end YapInference
