import Mathlib.Data.List.Chain
import Mathlib.Data.List.Infix
import Mathlib.Data.List.Induction

/-!
# Emitting a growing text

A producer that cannot take anything back shows a sequence of targets by emitting, each time, what
the new target adds to the last one. When the new target does not begin with the last one, it emits
from where the two part, and the reader is left with text of the old target in the middle. So what
the reader has is the last target exactly when every target begins with the one before it.
-/

namespace Emission

universe u

variable {α : Type u} [DecidableEq α]

/-- The length of the longest common prefix. -/
def common : List α → List α → Nat
  | a :: as, b :: bs => if a = b then common as bs + 1 else 0
  | _, _ => 0

theorem common_le_left (a b : List α) : common a b ≤ a.length := by
  induction a generalizing b with
  | nil => exact Nat.zero_le _
  | cons x a ih =>
      cases b with
      | nil => exact Nat.zero_le _
      | cons y b =>
          unfold common
          split
          · exact Nat.succ_le_succ (ih b)
          · exact Nat.zero_le _

/-- The two agree up to there. -/
theorem take_common (a b : List α) : a.take (common a b) = b.take (common a b) := by
  induction a generalizing b with
  | nil => simp [common]
  | cons x a ih =>
      cases b with
      | nil => simp [common]
      | cons y b =>
          unfold common
          split
          · rename_i h
            simp [h, ih b]
          · rfl

theorem common_le_right (a b : List α) : common a b ≤ b.length := by
  induction a generalizing b with
  | nil => simp [common]
  | cons x a ih =>
      cases b with
      | nil => simp [common]
      | cons y b =>
          unfold common
          split
          · exact Nat.succ_le_succ (ih b)
          · exact Nat.zero_le _

theorem common_eq_length {a b : List α} : common a b = a.length ↔ a <+: b := by
  constructor
  · intro h
    have htake := take_common a b
    rw [h, List.take_length] at htake
    exact htake ▸ List.take_prefix _ _
  · intro h
    obtain ⟨c, rfl⟩ := h
    induction a with
    | nil => simp [common]
    | cons x a ih => simp [common, ih]

/-- The first characters of one list start another exactly as far as the two agree. -/
theorem take_isPrefix_iff {a b : List α} {n : Nat} (hn : n ≤ a.length) :
    a.take n <+: b ↔ n ≤ common a b := by
  induction a generalizing b n with
  | nil =>
      obtain rfl := Nat.le_zero.mp hn
      simp
  | cons x a ih =>
      cases n with
      | zero => simp
      | succ n =>
          cases b with
          | nil => simp [common]
          | cons y b =>
              rw [List.take_succ_cons, List.cons_prefix_cons, ih (Nat.le_of_succ_le_succ hn), common]
              split <;> simp [*]

/-- Emit a target to a reader: what the reader has, and the last target. -/
def emit (s : List α × List α) (target : List α) : List α × List α :=
  (s.1 ++ target.drop (common s.2 target), target)

/-- Emit a sequence of targets, from nothing. -/
def emitAll (targets : List (List α)) : List α × List α := targets.foldl emit ([], [])

theorem emitAll_snoc (targets : List (List α)) (t : List α) :
    emitAll (targets ++ [t])
      = ((emitAll targets).1 ++ t.drop (common (emitAll targets).2 t), t) := by
  simp [emitAll, emit]

theorem emitAll_last (targets : List (List α)) :
    (emitAll targets).2 = targets.getLast?.getD [] := by
  induction targets using List.reverseRecOn with
  | nil => rfl
  | append_singleton targets t _ => simp [emitAll_snoc]

/-- The reader never has less than the target. -/
theorem emitAll_le (targets : List (List α)) :
    (emitAll targets).2.length ≤ (emitAll targets).1.length := by
  induction targets using List.reverseRecOn with
  | nil => exact Nat.le_refl _
  | append_singleton targets t ih =>
      have hl := common_le_left (emitAll targets).2 t
      rw [emitAll_snoc]
      show t.length ≤ ((emitAll targets).1 ++ t.drop (common (emitAll targets).2 t)).length
      rw [List.length_append, List.length_drop]
      omega

/-- A target of the length of what the reader has then is what the reader has, and it begins with
the target before. -/
theorem emitAll_snoc_of_length {targets : List (List α)} {t : List α}
    (h : (emitAll (targets ++ [t])).1.length = t.length) :
    (emitAll targets).1.length = (emitAll targets).2.length ∧ (emitAll targets).2 <+: t := by
  have hle := emitAll_le targets
  have hl := common_le_left (emitAll targets).2 t
  have hr := common_le_right (emitAll targets).2 t
  rw [emitAll_snoc, List.length_append, List.length_drop] at h
  -- the reader had at least the old target, of which all but the common part is surplus
  have hcommon : common (emitAll targets).2 t = (emitAll targets).2.length := by omega
  exact ⟨by omega, common_eq_length.mp hcommon⟩

theorem emitAll_snoc_of_prefix {targets : List (List α)} {t : List α}
    (h : (emitAll targets).1 = (emitAll targets).2) (hp : (emitAll targets).2 <+: t) :
    (emitAll (targets ++ [t])).1 = t := by
  rw [emitAll_snoc, h, common_eq_length.mpr hp]
  exact List.prefix_iff_eq_append.mp hp

/-- What the reader has is the last target as soon as it has its length. -/
theorem emitAll_of_length {targets : List (List α)}
    (h : (emitAll targets).1.length = (emitAll targets).2.length) :
    (emitAll targets).1 = (emitAll targets).2 := by
  induction targets using List.reverseRecOn with
  | nil => rfl
  | append_singleton targets t ih =>
      have ht : (emitAll (targets ++ [t])).2 = t := by rw [emitAll_snoc]
      rw [ht] at h ⊢
      obtain ⟨hlen, hp⟩ := emitAll_snoc_of_length h
      exact emitAll_snoc_of_prefix (ih hlen) hp

/-- A chain of prefixes, from its end. -/
theorem isChain_snoc {targets : List (List α)} {t : List α} :
    (targets ++ [t]).IsChain (· <+: ·)
      ↔ targets.IsChain (· <+: ·) ∧ (emitAll targets).2 <+: t := by
  rw [List.isChain_append, emitAll_last]
  constructor
  · intro h
    obtain ⟨hchain, -, hlast⟩ := h
    refine ⟨hchain, ?_⟩
    cases hl : targets.getLast? with
    | none => exact List.nil_prefix
    | some last => exact hlast last (by simp [hl]) t (by simp)
  · intro h
    obtain ⟨hchain, hp⟩ := h
    refine ⟨hchain, List.isChain_singleton t, fun last hl y hy => ?_⟩
    obtain rfl : t = y := by simpa using hy
    rw [Option.mem_def] at hl
    simpa [hl] using hp

/-- **What the reader has is the last target exactly when each begins with the one before.** -/
theorem emitAll_iff (targets : List (List α)) :
    (emitAll targets).1 = (emitAll targets).2 ↔ targets.IsChain (· <+: ·) := by
  induction targets using List.reverseRecOn with
  | nil => exact ⟨fun _ => List.isChain_nil, fun _ => rfl⟩
  | append_singleton targets t ih =>
      have ht : (emitAll (targets ++ [t])).2 = t := by rw [emitAll_snoc]
      rw [ht, isChain_snoc]
      constructor
      · intro h
        obtain ⟨hlen, hp⟩ := emitAll_snoc_of_length (congrArg List.length h)
        exact ⟨ih.mp (emitAll_of_length hlen), hp⟩
      · intro h
        obtain ⟨hchain, hp⟩ := h
        exact emitAll_snoc_of_prefix (ih.mpr hchain) hp

end Emission
