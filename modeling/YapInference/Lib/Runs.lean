import Mathlib.Data.List.SplitBy

/-!
# Merging runs of equal keys

A list that is built from the left, each new element merged into the last one when their keys
agree, is the list of the runs of equal keys with each run merged into one element.

The runs are those of `List.splitBy`. What is needed of them is how they grow by one element at the
end, which is how the list is built.
-/

namespace Runs

variable {α κ : Type*} [DecidableEq κ] (key : α → κ) (merge : α → α → α)

/-- The maximal runs of elements with one key. -/
def runs (l : List α) : List (List α) := l.splitBy (fun a b => key a == key b)

/-- Append an element, or merge it into the last one. -/
def push (acc : List α) (x : α) : List α :=
  match acc.getLast? with
  | some last => if key last = key x then acc.dropLast ++ [merge last x] else acc ++ [x]
  | none => [x]

/-- Merge a run into one element. -/
def collapse : List α → Option α
  | [] => none
  | x :: xs => some (xs.foldl merge x)

variable {key merge}

@[simp] theorem runs_nil : runs key ([] : List α) = [] := rfl

@[simp] theorem push_nil (x : α) : push key merge [] x = [x] := rfl

theorem push_snoc (acc : List α) (last x : α) :
    push key merge (acc ++ [last]) x
      = if key last = key x then acc ++ [merge last x] else acc ++ [last, x] := by
  simp [push]

theorem collapse_snoc {g : List α} {a : α} (h : collapse merge g = some a) (x : α) :
    collapse merge (g ++ [x]) = some (merge a x) := by
  cases g with
  | nil => cases h
  | cons y ys =>
      cases h
      simp [collapse]

/-- An element with another key opens a run. -/
theorem runs_snoc_new {l : List α} {x : α} (h : ∀ last ∈ l.getLast?, key last ≠ key x) :
    runs key (l ++ [x]) = runs key l ++ [[x]] := by
  rw [runs, List.splitBy_append_cons [] (fun last hlast => by simpa using h last hlast)]
  rfl

/-- An element with the key of the last one joins its run. -/
theorem runs_snoc_join {l : List α} {L : List (List α)} {g : List α} {last x : α}
    (hl : runs key l = L ++ [g ++ [last]]) (h : key last = key x) :
    runs key (l ++ [x]) = L ++ [g ++ [last, x]] := by
  obtain ⟨hflat, hne, hinner, houter⟩ := List.splitBy_eq_iff.mp hl
  refine List.splitBy_eq_iff.mpr ⟨by simp [hflat], ?_, ?_, ?_⟩
  · intro hnil
    rcases List.mem_append.mp hnil with hnil | hnil
    · exact hne (List.mem_append_left _ hnil)
    · simp at hnil
  · intro m hm
    rcases List.mem_append.mp hm with hm | hm
    · exact hinner m (List.mem_append_left _ hm)
    · obtain rfl := List.mem_singleton.mp hm
      have hgroup := hinner (g ++ [last]) (by simp)
      have hgrown : (g ++ [last] ++ [x]).IsChain (fun a b => (key a == key b) = true) :=
        List.isChain_append.mpr ⟨hgroup, List.isChain_singleton x, by simp [h]⟩
      simpa using hgrown
  · -- the last run has kept its head
    rw [List.isChain_append] at houter ⊢
    refine ⟨houter.1, List.isChain_singleton _, fun a ha b hb => ?_⟩
    obtain rfl : g ++ [last, x] = b := by simpa using hb
    obtain ⟨hane, hbne, hdiff⟩ := houter.2.2 a ha (g ++ [last]) (by simp)
    refine ⟨hane, by simp, ?_⟩
    cases g with
    | nil => simpa using hdiff
    | cons y ys => simpa using hdiff

section Keyed

variable (hkey : ∀ a b, key a = key b → key (merge a b) = key a)
include hkey

/-- What the last run, and the last element made of it, are after a push. -/
theorem foldl_push_snoc (l : List α) (last : α) :
    ∃ L g a, runs key (l ++ [last]) = L ++ [g ++ [last]]
      ∧ collapse merge (g ++ [last]) = some a
      ∧ key a = key last
      ∧ (l ++ [last]).foldl (push key merge) [] = L.filterMap (collapse merge) ++ [a] := by
  induction l using List.reverseRecOn generalizing last with
  | nil => exact ⟨[], [], last, rfl, rfl, rfl, rfl⟩
  | append_singleton l before ih =>
      obtain ⟨L, g, a, hruns, hcollapse, ha, hfold⟩ := ih before
      have hstep : (l ++ [before] ++ [last]).foldl (push key merge) []
          = push key merge (L.filterMap (collapse merge) ++ [a]) last := by
        rw [List.foldl_append, hfold]
        rfl
      by_cases hsame : key before = key last
      · -- the run goes on
        refine ⟨L, g ++ [before], merge a last, ?_, ?_, ?_, ?_⟩
        · simpa using runs_snoc_join hruns hsame
        · exact collapse_snoc hcollapse last
        · rw [hkey a last (ha.trans hsame), ha, hsame]
        · rw [hstep, push_snoc, if_pos (ha.trans hsame)]
      · -- a run of its own
        refine ⟨L ++ [g ++ [before]], [], last, ?_, rfl, rfl, ?_⟩
        · rw [runs_snoc_new (by simpa using hsame), hruns]
          rfl
        · rw [hstep, push_snoc, if_neg (fun h => hsame (ha ▸ h)), List.filterMap_append]
          simp [hcollapse]

/-- **Pushing one element after the other merges the runs.** -/
theorem foldl_push (l : List α) :
    l.foldl (push key merge) [] = (runs key l).filterMap (collapse merge) := by
  rcases List.eq_nil_or_concat' l with rfl | ⟨l, last, rfl⟩
  · rfl
  · obtain ⟨L, g, a, hruns, hcollapse, -, hfold⟩ := foldl_push_snoc hkey l last
    rw [hfold, hruns, List.filterMap_append]
    simp [hcollapse]

/-- What is pushed is in the last element. -/
theorem push_eq_snoc (acc : List α) (x : α) :
    ∃ init last, push key merge acc x = init ++ [last] ∧ key last = key x := by
  rcases List.eq_nil_or_concat' acc with rfl | ⟨acc, last, rfl⟩
  · exact ⟨[], x, rfl, rfl⟩
  · by_cases hsame : key last = key x
    · exact ⟨acc, merge last x, by rw [push_snoc, if_pos hsame], (hkey last x hsame).trans hsame⟩
    · exact ⟨acc ++ [last], x, by rw [push_snoc, if_neg hsame]; simp, rfl⟩

/-- No two neighbours have one key. -/
theorem isChain_push {acc : List α} (h : acc.IsChain (fun a b => key a ≠ key b)) (x : α) :
    (push key merge acc x).IsChain (fun a b => key a ≠ key b) := by
  rcases List.eq_nil_or_concat' acc with rfl | ⟨acc, last, rfl⟩
  · exact List.isChain_singleton x
  · obtain ⟨hacc, -, hlast⟩ := List.isChain_append.mp h
    rw [push_snoc]
    split
    · rename_i hsame
      refine List.isChain_append.mpr ⟨hacc, List.isChain_singleton _, fun a ha b hb => ?_⟩
      obtain rfl : merge last x = b := by simpa using hb
      rw [hkey last x hsame]
      exact hlast a ha last (by simp)
    · rename_i hdiff
      have hpair : List.IsChain (fun a b => key a ≠ key b) [last, x] := by simpa using hdiff
      refine List.isChain_append.mpr ⟨hacc, hpair, fun a ha b hb => ?_⟩
      obtain rfl : last = b := by simpa using hb
      exact hlast a ha last (by simp)

theorem isChain_foldl_push {acc : List α} (h : acc.IsChain (fun a b => key a ≠ key b))
    (l : List α) : (l.foldl (push key merge) acc).IsChain (fun a b => key a ≠ key b) := by
  induction l generalizing acc with
  | nil => exact h
  | cons x l ih => exact ih (isChain_push hkey h x)

end Keyed

end Runs
