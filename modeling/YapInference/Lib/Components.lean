import Mathlib.Data.List.Perm.Subperm
import Mathlib.Logic.Relation

/-!
# Strongly connected components

Nodes are linked when each reaches the other. A component is a list of nodes that holds all those
linked to any one of them. To see that a set of linked nodes is one, it is enough to look at the
edges that leave it: they must end in a closed set that it does not meet, because a path that
enters a closed set does not come back.
-/

namespace Components

open Relation

variable {α : Type*} {E : α → α → Prop}

/-- Each reaches the other. -/
def Linked (E : α → α → Prop) (x y : α) : Prop := ReflTransGen E x y ∧ ReflTransGen E y x

/-- No edge leaves the set. -/
def Closed (E : α → α → Prop) (S : α → Prop) : Prop := ∀ x, S x → ∀ y, E x y → S y

/-- What a set of nodes reaches. -/
def ReachedFrom (E : α → α → Prop) (roots : List α) (y : α) : Prop :=
  ∃ x ∈ roots, ReflTransGen E x y

/-- A list of all the nodes linked to one of them. -/
structure IsComponent (E : α → α → Prop) (c : List α) : Prop where
  ne : c ≠ []
  nodup : c.Nodup
  mem_iff : ∀ x ∈ c, ∀ y, y ∈ c ↔ Linked E x y

/-- Lists that partition a set into its components. -/
structure IsPartition (E : α → α → Prop) (S : α → Prop) (components : List (List α)) : Prop where
  component : ∀ c ∈ components, IsComponent E c
  /-- No node is in two of them, or twice in one. -/
  nodup : components.flatten.Nodup
  covers : ∀ x, x ∈ components.flatten ↔ S x

theorem Linked.symm {x y : α} (h : Linked E x y) : Linked E y x := ⟨h.2, h.1⟩

theorem Linked.trans {x y z : α} (h : Linked E x y) (h' : Linked E y z) : Linked E x z :=
  ⟨h.1.trans h'.1, h'.2.trans h.2⟩

theorem Closed.reaches {S : α → Prop} (hS : Closed E S) {x y : α} (h : ReflTransGen E x y)
    (hx : S x) : S y := by
  induction h with
  | refl => exact hx
  | tail _ hedge ih => exact hS _ ih _ hedge

theorem closed_reachedFrom (roots : List α) : Closed E (ReachedFrom E roots) :=
  fun _ ⟨root, hroot, hreach⟩ _ hedge => ⟨root, hroot, hreach.tail hedge⟩

/-- **When linked nodes are a component**: what an edge leaves them for is closed and does not meet
them. -/
theorem isComponent_of_exits {c : List α} {S : α → Prop} {root : α} (hroot : root ∈ c)
    (hnodup : c.Nodup) (hlinked : ∀ x ∈ c, Linked E root x) (hS : Closed E S)
    (hexit : ∀ x ∈ c, ∀ y, E x y → y ∈ c ∨ S y) (hdisjoint : ∀ x ∈ c, ¬ S x) :
    IsComponent E c := by
  have hclosed : Closed E fun y => y ∈ c ∨ S y := by
    intro x hx y hedge
    rcases hx with hx | hx
    · exact hexit x hx y hedge
    · exact .inr (hS x hx y hedge)
  refine ⟨List.ne_nil_of_mem hroot, hnodup, fun x hx y => ?_⟩
  constructor
  · intro hy
    exact (hlinked x hx).symm.trans (hlinked y hy)
  · intro h
    rcases hclosed.reaches h.1 (.inl hx) with hy | hy
    · exact hy
    · exact absurd (hS.reaches h.2 hy) (hdisjoint x hx)

/-- A component of more than one node is a cycle through more than one. -/
theorem IsComponent.one_lt_iff {c : List α} (h : IsComponent E c) :
    1 < c.length ↔ ∃ x ∈ c, ∃ y, x ≠ y ∧ Linked E x y := by
  obtain ⟨x, c, rfl⟩ := List.exists_cons_of_ne_nil h.ne
  constructor
  · intro hlength
    cases c with
    | nil => exact absurd hlength (by simp)
    | cons y c =>
        have hne : x ≠ y := fun heq => (List.nodup_cons.mp h.nodup).1 (heq ▸ List.mem_cons_self)
        exact ⟨x, by simp, y, hne, (h.mem_iff x (by simp) y).mp (by simp)⟩
  · intro hcycle
    obtain ⟨y, hy, z, hne, hlinked⟩ := hcycle
    have hz := (h.mem_iff y hy z).mpr hlinked
    have hsub : [y, z] ⊆ x :: c := by simp [hy, hz]
    exact (List.subperm_of_subset (by simp [hne]) hsub).length_le

/-- **There is a component of more than one node exactly when two nodes are linked.** -/
theorem IsPartition.exists_one_lt_iff {S : α → Prop} {components : List (List α)}
    (h : IsPartition E S components) :
    (∃ c ∈ components, 1 < c.length) ↔ ∃ x y, S x ∧ x ≠ y ∧ Linked E x y := by
  constructor
  · intro hlarge
    obtain ⟨c, hc, hlength⟩ := hlarge
    obtain ⟨x, hx, y, hne, hlinked⟩ := (h.component c hc).one_lt_iff.mp hlength
    exact ⟨x, y, (h.covers x).mp (List.mem_flatten.mpr ⟨c, hc, hx⟩), hne, hlinked⟩
  · intro hcycle
    obtain ⟨x, y, hx, hne, hlinked⟩ := hcycle
    obtain ⟨c, hc, hxc⟩ := List.mem_flatten.mp ((h.covers x).mpr hx)
    exact ⟨c, hc, (h.component c hc).one_lt_iff.mpr ⟨x, hxc, y, hne, hlinked⟩⟩

/-- In a partition, to be in one list is to be linked. -/
theorem IsPartition.same_iff {S : α → Prop} {components : List (List α)}
    (h : IsPartition E S components) {x y : α} (hx : S x) :
    (∃ c ∈ components, x ∈ c ∧ y ∈ c) ↔ Linked E x y := by
  constructor
  · intro hsame
    obtain ⟨c, hc, hxc, hyc⟩ := hsame
    exact ((h.component c hc).mem_iff x hxc y).mp hyc
  · intro hlinked
    obtain ⟨c, hc, hxc⟩ := List.mem_flatten.mp ((h.covers x).mpr hx)
    exact ⟨c, hc, hxc, ((h.component c hc).mem_iff x hxc y).mpr hlinked⟩

/-- **A cycle** goes through one node or through more than one. -/
theorem transGen_self_iff {x : α} :
    TransGen E x x ↔ E x x ∨ ∃ y, x ≠ y ∧ Linked E x y := by
  constructor
  · intro h
    obtain ⟨y, hedge, hback⟩ := TransGen.head'_iff.mp h
    by_cases heq : x = y
    · exact .inl (heq ▸ hedge)
    · exact .inr ⟨y, heq, .single hedge, hback⟩
  · intro h
    rcases h with hedge | ⟨y, hne, hlinked⟩
    · exact .single hedge
    · rcases reflTransGen_iff_eq_or_transGen.mp hlinked.1 with heq | hpath
      · exact absurd heq.symm hne
      · exact hpath.trans_left hlinked.2

end Components
