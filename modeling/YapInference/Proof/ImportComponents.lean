import Mathlib.Data.List.Dedup
import YapInference.Lib.Components
import YapInference.Linting.ImportCycles

/-!
# The components of the import graph

The search is Tarjan's. A node that has been seen is on the stack, or in a component that is
complete. Those on the stack that are still being visited form a path, and every node of the stack
reaches one of them that is not above it; whatever is above a node of the path can be reached from
it. The lowlink of a node is the index of something on the stack that it reaches, and no edge that
leaves the nodes above it ends lower. So what is popped together is linked, and what leaves it ends
in components that are complete.
-/

namespace YapInference.ImportCycles

open Py Components Relation

variable {α : Type} [DecidableEq α]

/-- There is an edge from `x` to `y`. -/
def Imports (edges : Edges α) (x y : α) : Prop := y ∈ neighborsOf edges x

namespace SccState

variable {E : α → α → Prop} {S : α → Prop} {gray : List α} {s s' : SccState α} {node : α}

/-- The node has an index. -/
def Seen (s : SccState α) (x : α) : Prop := s.isNew x = false

/-- Its index. -/
def num (s : SccState α) (x : α) : Nat := (s.indexByNode.get? x).getD 0

/-- **The invariant of the search**, while the nodes of `gray` are being visited, the last one
first. `S` is what may be visited. -/
structure Inv (E : α → α → Prop) (S : α → Prop) (gray : List α) (s : SccState α) : Prop where
  onStack : ∀ x, x ∈ s.onStack ↔ x ∈ s.stack
  /-- The stack is in the order of the indices. -/
  sorted : s.stack.Pairwise fun x y => s.num y < s.num x
  seen : ∀ x ∈ s.stack, s.Seen x
  below : ∀ x, s.Seen x → s.num x < s.index
  source : ∀ x, s.Seen x → S x
  /-- What has left the stack is in a component, -/
  finished : ∀ x, x ∈ s.components.flatten ↔ s.Seen x ∧ x ∉ s.stack
  /-- and in one only. -/
  distinct : s.components.flatten.Nodup
  component : ∀ c ∈ s.components, IsComponent E c
  closed : Closed E (· ∈ s.components.flatten)
  gray_stack : ∀ x ∈ gray, x ∈ s.stack
  gray_nodup : gray.Nodup
  /-- All neighbors have been seen of a node that is not being visited. -/
  black : ∀ x, s.Seen x → x ∉ gray → ∀ y, E x y → s.Seen y
  /-- What is above a node that is being visited can be reached from it, -/
  descends : ∀ x ∈ gray, ∀ y ∈ s.stack, s.num x ≤ s.num y → ReflTransGen E x y
  /-- and every node reaches one of those that are not above it. -/
  returns : ∀ y ∈ s.stack, ∃ x ∈ gray, s.num x ≤ s.num y ∧ ReflTransGen E y x

/-- What the search never takes back. -/
structure Extends (s s' : SccState α) : Prop where
  seen : ∀ x, s.Seen x → s'.Seen x
  num : ∀ x, s.Seen x → s'.num x = s.num x
  /-- A node that is visited lowers its own lowlink only. -/
  lowlink : ∀ x, s.Seen x → s'.lowlinkByNode.get? x = s.lowlinkByNode.get? x
  index_le : s.index ≤ s'.index
  fresh : ∀ x, ¬ s.Seen x → s'.Seen x → s.index ≤ s'.num x

/-- What a visit of a node has done when it returns. -/
structure Visited (E : α → α → Prop) (S : α → Prop) (gray : List α) (node : α)
    (s s' : SccState α) (above : List α) (lowlink : Nat) : Prop where
  inv : Inv E S gray s'
  grows : Extends s s'
  seen : s'.Seen node
  lowlink_eq : s'.lowlinkByNode.get? node = some lowlink
  stack : s'.stack = above ++ s.stack
  /-- The lowlink is the node's own index, or that of a node it reaches. -/
  reaches : lowlink = s'.num node ∨ ∃ y ∈ s.stack, s.num y = lowlink ∧ ReflTransGen E node y
  /-- No edge from what it has left on the stack ends below the lowlink. -/
  exits : ∀ x ∈ above, ∀ y ∈ s.stack, E x y → lowlink ≤ s.num y

/-- What the loop over the neighbors has done of a visit that began at `s`, after the neighbors in
`done`. -/
structure Scanned (E : α → α → Prop) (S : α → Prop) (gray : List α) (node : α)
    (s : SccState α) (done : List α) (s' : SccState α) (above : List α) (lowlink : Nat) : Prop where
  inv : Inv E S (node :: gray) s'
  grows : Extends s s'
  lowlink_eq : s'.lowlinkByNode.get? node = some lowlink
  stack : s'.stack = above ++ node :: s.stack
  lowlink_le : lowlink ≤ s'.num node
  reaches : ∃ y ∈ s'.stack, s'.num y = lowlink ∧ ReflTransGen E node y
  exits : ∀ x ∈ above, ∀ y ∈ s.stack, E x y → lowlink ≤ s'.num y
  scanned : ∀ y ∈ done, s'.Seen y ∧ (y ∈ s.stack → lowlink ≤ s'.num y)

/-! ## Indices -/

theorem seen_iff {x : α} : s.Seen x ↔ s.indexByNode.get? x = some (s.num x) := by
  unfold Seen isNew num
  cases s.indexByNode.get? x <;> simp

theorem not_seen_iff {x : α} : ¬ s.Seen x ↔ s.isNew x = true := by
  simp [Seen]

theorem Extends.refl (s : SccState α) : Extends s s :=
  ⟨fun _ h => h, fun _ _ => rfl, fun _ _ => rfl, Nat.le_refl _, fun _ h h' => absurd h' h⟩

theorem Extends.trans {s₁ s₂ s₃ : SccState α} (h : Extends s₁ s₂) (h' : Extends s₂ s₃) :
    Extends s₁ s₃ where
  seen := fun x hx => h'.seen x (h.seen x hx)
  num := fun x hx => (h'.num x (h.seen x hx)).trans (h.num x hx)
  lowlink := fun x hx => (h'.lowlink x (h.seen x hx)).trans (h.lowlink x hx)
  index_le := h.index_le.trans h'.index_le
  fresh := by
    intro x hnew hseen
    by_cases hx : s₂.Seen x
    · exact (h'.num x hx).symm ▸ h.fresh x hnew hx
    · exact h.index_le.trans (h'.fresh x hx hseen)

/-! ## Entering a node -/

theorem seen_enter {x : α} : (s.enter node).Seen x ↔ x = node ∨ s.Seen x := by
  unfold Seen isNew enter
  by_cases hx : x = node
  · subst hx; simp
  · simp [Dict.get?_set_ne _ _ (Ne.symm hx), hx]

theorem num_enter_self : (s.enter node).num node = s.index := by
  simp [num, enter]

theorem num_enter_ne {x : α} (h : x ≠ node) : (s.enter node).num x = s.num x := by
  simp [num, enter, Dict.get?_set_ne _ _ h.symm]

theorem extends_enter (hnew : ¬ s.Seen node) : Extends s (s.enter node) where
  seen := fun x hx => seen_enter.mpr (.inr hx)
  num := fun x hx => num_enter_ne fun heq => hnew (heq ▸ hx)
  lowlink := fun x hx => Dict.get?_set_ne _ _ fun heq => hnew (heq ▸ hx)
  index_le := Nat.le_succ _
  fresh := by
    intro x hx hseen
    rcases seen_enter.mp hseen with rfl | hseen
    · exact num_enter_self.ge
    · exact absurd hseen hx

theorem inv_enter (h : Inv E S gray s) (hnew : ¬ s.Seen node) (hS : S node)
    (hreach : ∀ x ∈ gray, ReflTransGen E x node) : Inv E S (node :: gray) (s.enter node) := by
  have hext := extends_enter hnew
  have hnum : ∀ x ∈ s.stack, (s.enter node).num x = s.num x := fun x hx => hext.num x (h.seen x hx)
  have hlt : ∀ x ∈ s.stack, (s.enter node).num x < (s.enter node).num node := by
    intro x hx
    rw [hnum x hx, num_enter_self]
    exact h.below x (h.seen x hx)
  have hgray : ∀ x ∈ gray, x ∈ s.stack := h.gray_stack
  have hnode : node ∉ s.stack := fun hmem => hnew (h.seen node hmem)
  refine {
    onStack := fun x => by simp [enter, h.onStack]
    sorted := ?_
    seen := ?_
    below := ?_
    source := ?_
    finished := ?_
    distinct := h.distinct
    component := h.component
    closed := h.closed
    gray_stack := ?_
    gray_nodup := List.nodup_cons.mpr ⟨fun hmem => hnode (hgray node hmem), h.gray_nodup⟩
    black := ?_
    descends := ?_
    returns := ?_ }
  · refine List.pairwise_cons.mpr ⟨hlt, h.sorted.imp_of_mem fun hx hy hxy => ?_⟩
    rw [hnum _ hx, hnum _ hy]
    exact hxy
  · intro x hx
    exact seen_enter.mpr ((List.mem_cons.mp hx).imp_right (h.seen x))
  · intro x hx
    by_cases heq : x = node
    · rw [heq, num_enter_self]
      exact Nat.lt_succ_self _
    · rw [num_enter_ne heq]
      exact (h.below x ((seen_enter.mp hx).resolve_left heq)).trans (Nat.lt_succ_self _)
  · intro x hx
    rcases seen_enter.mp hx with rfl | hx
    · exact hS
    · exact h.source x hx
  · intro x
    change x ∈ s.components.flatten ↔ (s.enter node).Seen x ∧ x ∉ node :: s.stack
    rw [h.finished, seen_enter, List.mem_cons, not_or]
    constructor
    · intro hx
      exact ⟨.inr hx.1, fun heq => hnew (heq ▸ hx.1), hx.2⟩
    · intro hx
      exact ⟨hx.1.resolve_left hx.2.1, hx.2.2⟩
  · intro x hx
    exact (List.mem_cons.mp hx).elim (fun heq => heq ▸ List.mem_cons_self)
      fun hx => List.mem_cons_of_mem _ (hgray x hx)
  · intro x hx hnot y hedge
    have hne : x ≠ node := fun heq => hnot (heq ▸ List.mem_cons_self)
    refine seen_enter.mpr (.inr (h.black x ((seen_enter.mp hx).resolve_left hne) ?_ y hedge))
    exact fun hmem => hnot (List.mem_cons_of_mem _ hmem)
  · intro x hx y hy hle
    rcases List.mem_cons.mp hx with rfl | hx'
    · rcases List.mem_cons.mp hy with rfl | hy'
      · exact .refl
      · exact absurd (hlt y hy') (not_lt.mpr hle)
    · rcases List.mem_cons.mp hy with rfl | hy'
      · exact hreach x hx'
      · rw [hnum x (hgray x hx'), hnum y hy'] at hle
        exact h.descends x hx' y hy' hle
  · intro y hy
    rcases List.mem_cons.mp hy with rfl | hy
    · exact ⟨y, List.mem_cons_self, Nat.le_refl _, .refl⟩
    · obtain ⟨x, hx, hle, hback⟩ := h.returns y hy
      refine ⟨x, List.mem_cons_of_mem _ hx, ?_, hback⟩
      rw [hnum x (hgray x hx), hnum y hy]
      exact hle

theorem scanned_enter (h : Inv E S gray s) (hnew : ¬ s.Seen node) (hS : S node)
    (hreach : ∀ x ∈ gray, ReflTransGen E x node) :
    Scanned E S gray node s [] (s.enter node) [] s.index where
  inv := inv_enter h hnew hS hreach
  grows := extends_enter hnew
  lowlink_eq := Dict.get?_set_self _ _ _
  stack := rfl
  lowlink_le := num_enter_self.ge
  reaches := ⟨node, List.mem_cons_self, num_enter_self, .refl⟩
  exits := fun _ hx => absurd hx List.not_mem_nil
  scanned := fun _ hy => absurd hy List.not_mem_nil

/-! ## The loop over the neighbors -/

/-- A state with a lower lowlink for one node. -/
def lowered (s : SccState α) (node : α) (lowlink : Nat) : SccState α :=
  { s with lowlinkByNode := s.lowlinkByNode.set node lowlink }

theorem lower_eq {lowlink bound : Nat} (h : s.lowlinkByNode.get? node = some lowlink) :
    s.lower node (some bound) = some (s.lowered node (min lowlink bound)) := by
  simp [lower, lowered, h]

theorem inv_lowered (h : Inv E S gray s) (lowlink : Nat) : Inv E S gray (s.lowered node lowlink) :=
  ⟨h.onStack, h.sorted, h.seen, h.below, h.source, h.finished, h.distinct, h.component, h.closed,
    h.gray_stack, h.gray_nodup, h.black, h.descends, h.returns⟩

theorem extends_lowered (h : Extends s s') (hnew : ¬ s.Seen node) (lowlink : Nat) :
    Extends s (s'.lowered node lowlink) :=
  ⟨h.seen, h.num,
    fun x hx => (Dict.get?_set_ne _ _ fun heq : node = x => hnew (heq ▸ hx)).trans (h.lowlink x hx),
    h.index_le, h.fresh⟩

section Scan

variable {done above : List α} {lowlink : Nat} {neighbor : α}

/-- A neighbor that is in a component already changes nothing. -/
theorem Scanned.skip (h : Scanned E S gray node s done s' above lowlink)
    (hseen : s'.Seen neighbor) (hoff : neighbor ∉ s'.onStack) :
    Scanned E S gray node s (done ++ [neighbor]) s' above lowlink :=
  { h with
    scanned := by
      intro y hy
      rcases List.mem_append.mp hy with hy | hy
      · exact h.scanned y hy
      · rw [List.mem_singleton.mp hy]
        refine ⟨hseen, fun hstack => absurd ((h.inv.onStack neighbor).mpr ?_) hoff⟩
        rw [h.stack]
        exact List.mem_append_right _ (List.mem_cons_of_mem _ hstack) }

/-- A neighbor on the stack bounds the lowlink. -/
theorem Scanned.onStack (h : Scanned E S gray node s done s' above lowlink) (hnew : ¬ s.Seen node)
    (hedge : E node neighbor) (hon : neighbor ∈ s'.stack) :
    Scanned E S gray node s (done ++ [neighbor])
      (s'.lowered node (min lowlink (s'.num neighbor))) above
      (min lowlink (s'.num neighbor)) where
  inv := inv_lowered h.inv _
  grows := extends_lowered h.grows hnew _
  lowlink_eq := Dict.get?_set_self _ _ _
  stack := h.stack
  lowlink_le := (Nat.min_le_left _ _).trans h.lowlink_le
  reaches := by
    obtain ⟨y, hy, hnum, hreach⟩ := h.reaches
    rcases Nat.le_total lowlink (s'.num neighbor) with hle | hle
    · exact ⟨y, hy, hnum.trans (Nat.min_eq_left hle).symm, hreach⟩
    · exact ⟨neighbor, hon, (Nat.min_eq_right hle).symm, .single hedge⟩
  exits := fun x hx y hy hxy => (Nat.min_le_left _ _).trans (h.exits x hx y hy hxy)
  scanned := by
    intro y hy
    rcases List.mem_append.mp hy with hy | hy
    · obtain ⟨hseen, hle⟩ := h.scanned y hy
      exact ⟨hseen, fun hstack => (Nat.min_le_left _ _).trans (hle hstack)⟩
    · rw [List.mem_singleton.mp hy]
      exact ⟨h.inv.seen neighbor hon, fun _ => Nat.min_le_right _ _⟩

/-- A node is seen once it is on the stack. -/
theorem Scanned.seen_node (h : Scanned E S gray node s done s' above lowlink) : s'.Seen node :=
  h.inv.seen node (h.inv.gray_stack node List.mem_cons_self)

/-- **A neighbor that has been visited** leaves what it has left on the stack above the rest, and
its lowlink bounds that of the node. -/
theorem Scanned.visited (h : Scanned E S gray node s done s' above lowlink)
    (hnew : ¬ s.Seen node) (hfresh : ¬ s'.Seen neighbor) (hedge : E node neighbor)
    {s'' : SccState α} {above' : List α} {bound : Nat}
    (hv : Visited E S (node :: gray) neighbor s' s'' above' bound) :
    Scanned E S gray node s (done ++ [neighbor]) (s''.lowered node (min lowlink bound))
      (above' ++ above) (min lowlink bound) := by
  have hnode := h.seen_node
  have hkept : ∀ y ∈ s'.stack, y ∈ s''.stack ∧ s''.num y = s'.num y := fun y hy =>
    ⟨hv.stack ▸ List.mem_append_right _ hy, hv.grows.num y (h.inv.seen y hy)⟩
  have hbelow : ∀ y ∈ s.stack, y ∈ s'.stack := fun y hy =>
    h.stack ▸ List.mem_append_right _ (List.mem_cons_of_mem _ hy)
  exact {
    inv := inv_lowered hv.inv _
    grows := extends_lowered (h.grows.trans hv.grows) hnew _
    lowlink_eq := Dict.get?_set_self _ _ _
    stack := by
      change s''.stack = _
      rw [hv.stack, h.stack, List.append_assoc]
    lowlink_le := by
      change _ ≤ s''.num node
      rw [hv.grows.num node hnode]
      exact (Nat.min_le_left _ _).trans h.lowlink_le
    reaches := by
      change ∃ y ∈ s''.stack, s''.num y = _ ∧ _
      rcases Nat.lt_or_ge bound lowlink with hlt | hge
      · rcases hv.reaches with hown | ⟨y, hy, hnum, hreach⟩
        · -- an index that is given later is not lower
          have hlate := hv.grows.fresh neighbor hfresh hv.seen
          have hearly := h.inv.below node hnode
          have hle := h.lowlink_le
          omega
        · refine ⟨y, (hkept y hy).1, ?_, ReflTransGen.head hedge hreach⟩
          rw [(hkept y hy).2, hnum, Nat.min_eq_right hlt.le]
      · obtain ⟨y, hy, hnum, hreach⟩ := h.reaches
        refine ⟨y, (hkept y hy).1, ?_, hreach⟩
        rw [(hkept y hy).2, hnum, Nat.min_eq_left hge]
    exits := by
      intro x hx y hy hxy
      change _ ≤ s''.num y
      rw [(hkept y (hbelow y hy)).2]
      rcases List.mem_append.mp hx with hx | hx
      · exact (Nat.min_le_right _ _).trans (hv.exits x hx y (hbelow y hy) hxy)
      · exact (Nat.min_le_left _ _).trans (h.exits x hx y hy hxy)
    scanned := by
      intro y hy
      change s''.Seen y ∧ (y ∈ s.stack → _ ≤ s''.num y)
      rcases List.mem_append.mp hy with hy | hy
      · obtain ⟨hseen, hle⟩ := h.scanned y hy
        refine ⟨hv.grows.seen y hseen, fun hstack => ?_⟩
        rw [hv.grows.num y hseen]
        exact (Nat.min_le_left _ _).trans (hle hstack)
      · rw [List.mem_singleton.mp hy]
        exact ⟨hv.seen, fun hstack => absurd (h.inv.seen neighbor (hbelow neighbor hstack)) hfresh⟩ }

/-- What `visit` does, at some depth, to a node that may be visited next. -/
def VisitSpec (E : α → α → Prop) (S : α → Prop) (visit : α → SccState α → Option (SccState α))
    (gray : List α) : Prop :=
  ∀ node s, Inv E S gray s → ¬ s.Seen node → S node → (∀ x ∈ gray, ReflTransGen E x node) →
    ∃ s' above lowlink, visit node s = some s' ∧ Visited E S gray node s s' above lowlink

/-- **The loop**, neighbor by neighbor. -/
theorem scan_spec {visit : α → SccState α → Option (SccState α)}
    (hvisit : VisitSpec E S visit (node :: gray)) (hS : Closed E S) (hnew : ¬ s.Seen node)
    (hpath : ∀ x ∈ gray, ReflTransGen E x node)
    {neighbors : List α} (hedges : ∀ y ∈ neighbors, E node y)
    (h : Scanned E S gray node s done s' above lowlink) :
    ∃ s'' above' lowlink', scan visit node neighbors s' = some s''
      ∧ Scanned E S gray node s (done ++ neighbors) s'' above' lowlink' := by
  induction neighbors generalizing done s' above lowlink with
  | nil => exact ⟨s', above, lowlink, rfl, by rwa [List.append_nil]⟩
  | cons neighbor rest ih =>
      obtain ⟨hedge, hrest⟩ := List.forall_mem_cons.mp hedges
      have hnext : ∀ {s₁ above₁ lowlink₁},
          Scanned E S gray node s (done ++ [neighbor]) s₁ above₁ lowlink₁ →
          ∃ s'' above' lowlink', scan visit node rest s₁ = some s''
            ∧ Scanned E S gray node s (done ++ neighbor :: rest) s'' above' lowlink' := by
        intro s₁ above₁ lowlink₁ h₁
        have := ih hrest h₁
        rwa [List.append_assoc, List.singleton_append] at this
      unfold scan
      by_cases hfresh : s'.isNew neighbor = true
      · rw [if_pos hfresh]
        have hunseen := not_seen_iff.mpr hfresh
        have hnodeS : S node := h.inv.source node h.seen_node
        have hreach : ∀ x ∈ node :: gray, ReflTransGen E x neighbor := by
          intro x hx
          rcases List.mem_cons.mp hx with rfl | hx
          · exact .single hedge
          · exact (hpath x hx).tail hedge
        obtain ⟨s₁, above₁, bound, heq, hv⟩ :=
          hvisit neighbor s' h.inv hunseen (hS node hnodeS neighbor hedge) hreach
        have hlow : s₁.lowlinkByNode.get? node = some lowlink :=
          (hv.grows.lowlink node h.seen_node).trans h.lowlink_eq
        rw [heq, Option.bind_some, hv.lowlink_eq, lower_eq hlow, Option.bind_some]
        exact hnext (h.visited hnew hunseen hedge hv)
      · rw [if_neg hfresh]
        by_cases hon : neighbor ∈ s'.onStack
        · have hstack := (h.inv.onStack neighbor).mp hon
          rw [if_pos hon, seen_iff.mp (h.inv.seen neighbor hstack), lower_eq h.lowlink_eq,
            Option.bind_some]
          exact hnext (h.onStack hnew hedge hstack)
        · rw [if_neg hon, Option.bind_some]
          exact hnext (h.skip (by simpa [Seen] using hfresh) hon)

/-! ## The end of a visit -/

/-- Everything above the node has a higher index, and everything below it a lower one. -/
theorem Scanned.around (h : Scanned E S gray node s done s' above lowlink) :
    (∀ x ∈ above, s'.num node < s'.num x) ∧ ∀ y ∈ s.stack, s'.num y < s'.num node := by
  have hsorted := h.inv.sorted
  rw [h.stack] at hsorted
  obtain ⟨-, hbelow, hacross⟩ := List.pairwise_append.mp hsorted
  exact ⟨fun x hx => hacross x hx node List.mem_cons_self, (List.pairwise_cons.mp hbelow).1⟩

/-- With all its neighbors seen, the node is done with, -/
theorem Scanned.black (h : Scanned E S gray node s done s' above lowlink)
    (hall : ∀ y, E node y → y ∈ done) :
    ∀ x, s'.Seen x → x ∉ gray → ∀ y, E x y → s'.Seen y := by
  intro x hx hnot y hedge
  by_cases heq : x = node
  · exact (h.scanned y (hall y (heq ▸ hedge))).1
  · exact h.inv.black x hx (fun hmem => (List.mem_cons.mp hmem).elim heq hnot) y hedge

/-- and no edge from it or from what is above it ends below the lowlink. -/
theorem Scanned.lowlink_le_of_edge (h : Scanned E S gray node s done s' above lowlink)
    (hall : ∀ y, E node y → y ∈ done) :
    ∀ x ∈ above ++ [node], ∀ y ∈ s.stack, E x y → lowlink ≤ s'.num y := by
  intro x hx y hy hedge
  rcases List.mem_append.mp hx with hx | hx
  · exact h.exits x hx y hy hedge
  · rw [List.mem_singleton.mp hx] at hedge
    exact (h.scanned y (hall y hedge)).2 hy

/-- **A node that reaches something lower stays on the stack**, above a node that is being
visited. -/
theorem Scanned.stays (hs : Inv E S gray s)
    (h : Scanned E S gray node s done s' above lowlink) (hlow : lowlink < s'.num node)
    (hall : ∀ y, E node y → y ∈ done) :
    Visited E S gray node s s' (above ++ [node]) lowlink := by
  obtain ⟨habove, hbelow⟩ := h.around
  have hsame : ∀ y ∈ s.stack, s'.num y = s.num y := fun y hy => h.grows.num y (hs.seen y hy)
  have hback : ∃ x ∈ gray, s'.num x < s'.num node ∧ ReflTransGen E node x := by
    obtain ⟨z, hz, hnum, hreach⟩ := h.reaches
    obtain ⟨x, hx, hle, hreturn⟩ := h.inv.returns z hz
    rcases List.mem_cons.mp hx with rfl | hx
    · omega
    · exact ⟨x, hx, by omega, hreach.trans hreturn⟩
  refine {
    inv := { h.inv with
      gray_stack := fun x hx => h.inv.gray_stack x (List.mem_cons_of_mem _ hx)
      gray_nodup := (List.nodup_cons.mp h.inv.gray_nodup).2
      black := h.black hall
      descends := fun x hx => h.inv.descends x (List.mem_cons_of_mem _ hx)
      returns := ?_ }
    grows := h.grows
    seen := h.seen_node
    lowlink_eq := h.lowlink_eq
    stack := by rw [h.stack, List.append_assoc]; rfl
    reaches := .inr ?_
    exits := ?_ }
  · intro y hy
    obtain ⟨x, hx, hle, hreturn⟩ := h.inv.returns y hy
    rcases List.mem_cons.mp hx with rfl | hx
    · obtain ⟨g, hg, hlt, hreach⟩ := hback
      exact ⟨g, hg, by omega, hreturn.trans hreach⟩
    · exact ⟨x, hx, hle, hreturn⟩
  · obtain ⟨y, hy, hnum, hreach⟩ := h.reaches
    rw [h.stack] at hy
    rcases List.mem_append.mp hy with hy | hy
    · have := habove y hy
      omega
    · rcases List.mem_cons.mp hy with rfl | hy
      · omega
      · exact ⟨y, hy, (hsame y hy).symm.trans hnum, hreach⟩
  · intro x hx y hy hxy
    rw [← hsame y hy]
    exact h.lowlink_le_of_edge hall x hx y hy hxy

/-- What is popped: the node, after all that is above it. -/
theorem popComponent_append {above rest onStack : List α} (hnode : node ∉ above)
    (hmem : ∀ x ∈ above ++ [node], x ∈ onStack) (hnodup : (above ++ [node]).Nodup)
    (component : List α) :
    popComponent node (above ++ node :: rest) onStack component
      = some (rest, onStack.filter fun x => x ∉ above ++ [node], component ++ above ++ [node]) := by
  induction above generalizing onStack component with
  | nil =>
      rw [List.nil_append, popComponent, if_pos (hmem node (by simp))]
      simp
  | cons x above ih =>
      have hx : x ≠ node := fun heq => hnode (heq ▸ List.mem_cons_self)
      obtain ⟨hfresh, hnodup⟩ := List.nodup_cons.mp hnodup
      have hkept : ∀ y ∈ above ++ [node], y ∈ onStack.filter (· ≠ x) := fun y hy =>
        List.mem_filter.mpr ⟨hmem y (List.mem_cons_of_mem _ hy),
          decide_eq_true fun heq => hfresh (heq ▸ hy)⟩
      rw [List.cons_append, popComponent, if_pos (hmem x (by simp))]
      dsimp only
      rw [if_neg hx, ih (fun hm => hnode (List.mem_cons_of_mem _ hm)) hkept hnodup,
        List.filter_filter]
      simp [Bool.and_comm, Bool.and_left_comm]

/-- The stack has no node twice. -/
theorem Inv.stack_nodup (h : Inv E S gray s) : s.stack.Nodup :=
  h.sorted.imp fun hlt heq => absurd (congrArg s.num heq) hlt.ne'

theorem Scanned.stack_eq (h : Scanned E S gray node s done s' above lowlink) :
    s'.stack = (above ++ [node]) ++ s.stack := by
  rw [h.stack, List.append_assoc]
  rfl

/-- What is popped was not on the stack before the visit. -/
theorem Scanned.disjoint (h : Scanned E S gray node s done s' above lowlink) :
    ∀ x ∈ above ++ [node], x ∉ s.stack := by
  intro x hx hx'
  have hnodup := h.stack_eq ▸ h.inv.stack_nodup
  exact (List.nodup_append.mp hnodup).2.2 x hx x hx' rfl

/-- What leaves the nodes that are popped ends in components that are complete. -/
theorem Scanned.exit (hs : Inv E S gray s)
    (h : Scanned E S gray node s done s' above lowlink) (hlow : lowlink = s'.num node)
    (hall : ∀ y, E node y → y ∈ done) :
    ∀ x ∈ above ++ [node], ∀ y, E x y → y ∈ above ++ [node] ∨ y ∈ s'.components.flatten := by
  intro x hx y hxy
  have hnotBelow : y ∉ s.stack := by
    intro hy
    have hlt := h.around.2 y hy
    have hle := h.lowlink_le_of_edge hall x hx y hy hxy
    omega
  -- what is still being visited is below the node
  have hgray : x ∉ gray := fun hg => h.disjoint x hx (hs.gray_stack x hg)
  have hxstack : x ∈ s'.stack := h.stack_eq ▸ List.mem_append_left _ hx
  have hseen : s'.Seen y := h.black hall x (h.inv.seen x hxstack) hgray y hxy
  by_cases hy : y ∈ s'.stack
  · rw [h.stack_eq] at hy
    exact .inl ((List.mem_append.mp hy).resolve_right hnotBelow)
  · exact .inr ((h.inv.finished y).mpr ⟨hseen, hy⟩)

/-- **A node that reaches nothing lower completes its component**, which is all that is above it
with the node itself. -/
theorem Scanned.isComponent (hs : Inv E S gray s)
    (h : Scanned E S gray node s done s' above lowlink) (hlow : lowlink = s'.num node)
    (hall : ∀ y, E node y → y ∈ done) : IsComponent E (above ++ [node]) := by
  obtain ⟨habove, hbelow⟩ := h.around
  have hmem : ∀ x ∈ above ++ [node], x ∈ s'.stack := fun x hx =>
    h.stack_eq ▸ List.mem_append_left _ hx
  have hge : ∀ x ∈ above ++ [node], s'.num node ≤ s'.num x := by
    intro x hx
    rcases List.mem_append.mp hx with hx | hx
    · exact (habove x hx).le
    · rw [List.mem_singleton.mp hx]
  have hnode : node ∈ s'.stack := hmem node (by simp)
  refine @isComponent_of_exits α E _ (· ∈ s'.components.flatten) node (by simp) ?_ ?_ h.inv.closed
    (h.exit hs hlow hall) ?_
  · exact (h.stack_eq ▸ h.inv.stack_nodup).sublist (List.sublist_append_left _ _)
  · intro x hx
    refine ⟨h.inv.descends node List.mem_cons_self x (hmem x hx) (hge x hx), ?_⟩
    obtain ⟨g, hg, -, hreturn⟩ := h.inv.returns x (hmem x hx)
    rcases List.mem_cons.mp hg with rfl | hg'
    · exact hreturn
    · exact hreturn.trans (h.inv.descends g hg node hnode (hbelow g (hs.gray_stack g hg')).le)
  · intro x hx hfinished
    exact ((h.inv.finished x).mp hfinished).2 (hmem x hx)

/-- A state whose top of the stack has become a component. -/
def popped (s : SccState α) (stack onStack component : List α) : SccState α :=
  { s with stack := stack, onStack := onStack, components := s.components ++ [component] }

/-- The invariant without the component. -/
theorem Scanned.inv_popped (hs : Inv E S gray s)
    (h : Scanned E S gray node s done s' above lowlink) (hlow : lowlink = s'.num node)
    (hall : ∀ y, E node y → y ∈ done) :
    Inv E S gray
      (s'.popped s.stack (s'.onStack.filter fun x => x ∉ above ++ [node]) (above ++ [node])) := by
  have hcomponent := h.isComponent hs hlow hall
  have hstack : ∀ x, x ∈ s'.stack ↔ x ∈ above ++ [node] ∨ x ∈ s.stack := fun x => by
    rw [h.stack_eq, List.mem_append]
  have hbelowStack : ∀ y ∈ s.stack, y ∈ s'.stack := fun y hy => (hstack y).mpr (.inr hy)
  have hflatten : ∀ x, x ∈ (s'.components ++ [above ++ [node]]).flatten
      ↔ x ∈ s'.components.flatten ∨ x ∈ above ++ [node] := fun x => by
    rw [List.flatten_append, List.mem_append, List.flatten_singleton]
  have hseenOf : ∀ x ∈ above ++ [node], s'.Seen x := fun x hx =>
    h.inv.seen x ((hstack x).mpr (.inl hx))
  refine {
    onStack := ?_
    sorted := (h.stack_eq ▸ h.inv.sorted).sublist (List.sublist_append_right _ _)
    seen := fun x hx => h.inv.seen x (hbelowStack x hx)
    below := h.inv.below
    source := h.inv.source
    finished := ?_
    distinct := ?_
    component := ?_
    closed := ?_
    gray_stack := hs.gray_stack
    gray_nodup := hs.gray_nodup
    black := h.black hall
    descends := fun x hx y hy => h.inv.descends x (List.mem_cons_of_mem _ hx) y (hbelowStack y hy)
    returns := ?_ }
  · intro x
    change x ∈ s'.onStack.filter _ ↔ x ∈ s.stack
    rw [List.mem_filter, h.inv.onStack, hstack, decide_eq_true_eq]
    constructor
    · intro hx
      exact hx.1.resolve_left hx.2
    · intro hx
      exact ⟨.inr hx, fun hx' => h.disjoint x hx' hx⟩
  · intro x
    change x ∈ (s'.components ++ [above ++ [node]]).flatten ↔ s'.Seen x ∧ x ∉ s.stack
    rw [hflatten, h.inv.finished, hstack, not_or]
    constructor
    · intro hx
      rcases hx with hx | hx
      · exact ⟨hx.1, hx.2.2⟩
      · exact ⟨hseenOf x hx, h.disjoint x hx⟩
    · intro hx
      by_cases hx' : x ∈ above ++ [node]
      · exact .inr hx'
      · exact .inl ⟨hx.1, hx', hx.2⟩
  · change (s'.components ++ [above ++ [node]]).flatten.Nodup
    rw [List.flatten_append, List.flatten_singleton]
    refine List.nodup_append.mpr ⟨h.inv.distinct, hcomponent.nodup, fun x hx y hy heq => ?_⟩
    exact ((h.inv.finished x).mp hx).2 ((hstack x).mpr (.inl (heq ▸ hy)))
  · intro c hc
    rcases List.mem_append.mp hc with hc | hc
    · exact h.inv.component c hc
    · exact List.mem_singleton.mp hc ▸ hcomponent
  · intro x hx y hxy
    refine (hflatten y).mpr ?_
    rcases (hflatten x).mp hx with hx | hx
    · exact .inl (h.inv.closed x hx y hxy)
    · exact (h.exit hs hlow hall x hx y hxy).symm
  · intro y hy
    obtain ⟨x, hx, hle, hreturn⟩ := h.inv.returns y (hbelowStack y hy)
    rcases List.mem_cons.mp hx with rfl | hx
    · exact absurd hle (not_le.mpr (h.around.2 y hy))
    · exact ⟨x, hx, hle, hreturn⟩

/-- **The component leaves the stack as the visit found it.** -/
theorem Scanned.pops (hs : Inv E S gray s)
    (h : Scanned E S gray node s done s' above lowlink) (hlow : lowlink = s'.num node)
    (hall : ∀ y, E node y → y ∈ done) :
    Visited E S gray node s
      (s'.popped s.stack (s'.onStack.filter fun x => x ∉ above ++ [node]) (above ++ [node]))
      [] lowlink where
  inv := h.inv_popped hs hlow hall
  grows := ⟨h.grows.seen, h.grows.num, h.grows.lowlink, h.grows.index_le, h.grows.fresh⟩
  seen := h.seen_node
  lowlink_eq := h.lowlink_eq
  stack := rfl
  reaches := .inl hlow
  exits := fun _ hx => absurd hx List.not_mem_nil

/-- **What a visit comes to.** -/
theorem finish_spec (hs : Inv E S gray s)
    (h : Scanned E S gray node s done s' above lowlink) (hall : ∀ y, E node y → y ∈ done) :
    ∃ s'' above', s'.finish node = some s'' ∧ Visited E S gray node s s'' above' lowlink := by
  have hindex := seen_iff.mp h.seen_node
  unfold finish
  rw [h.lowlink_eq, Option.bind_some, hindex, Option.bind_some]
  by_cases hlow : lowlink = s'.num node
  · have hnodup : (above ++ [node]).Nodup :=
      (h.stack_eq ▸ h.inv.stack_nodup).sublist (List.sublist_append_left _ _)
    have hnode : node ∉ above := fun hmem => lt_irrefl _ (h.around.1 node hmem)
    have hmem : ∀ x ∈ above ++ [node], x ∈ s'.onStack := fun x hx =>
      (h.inv.onStack x).mpr (h.stack_eq ▸ List.mem_append_left _ hx)
    rw [if_pos hlow, h.stack, popComponent_append hnode hmem hnodup]
    exact ⟨_, [], rfl, h.pops hs hlow hall⟩
  · rw [if_neg hlow]
    exact ⟨s', _, rfl, h.stays hs (lt_of_le_of_ne h.lowlink_le hlow) hall⟩

end Scan

/-! ## Every visit -/

/-- **Visits**, at any depth that the nodes allow. -/
theorem visit_spec {edges : Edges α} {nodes : List α} (hS : Closed (Imports edges) S)
    (hnodes : ∀ x, S x → x ∈ nodes) {depth : Nat} {gray : List α}
    (hdepth : nodes.length ≤ gray.length + depth) :
    VisitSpec (Imports edges) S (visit edges depth) gray := by
  induction depth generalizing gray with
  | zero =>
      -- a path that is as long as there are nodes has no room for another
      intro node s hs hnew hnodeS hpath
      have hnode : node ∉ gray := fun hmem => hnew (hs.seen node (hs.gray_stack node hmem))
      have hsub : node :: gray ⊆ nodes := by
        intro x hx
        rcases List.mem_cons.mp hx with rfl | hx
        · exact hnodes x hnodeS
        · exact hnodes x (hs.source x (hs.seen x (hs.gray_stack x hx)))
      have hlength := (List.subperm_of_subset
        (List.nodup_cons.mpr ⟨hnode, hs.gray_nodup⟩) hsub).length_le
      rw [List.length_cons] at hlength
      omega
  | succ depth ih =>
      intro node s hs hnew hnodeS hpath
      have hnext : VisitSpec (Imports edges) S (visit edges depth) (node :: gray) :=
        ih (by rw [List.length_cons]; omega)
      obtain ⟨s₁, above, lowlink, hscan, hscanned⟩ := scan_spec hnext hS hnew hpath
        (fun y hy => hy) (scanned_enter hs hnew hnodeS hpath)
      obtain ⟨s₂, above', hfinish, hvisited⟩ := finish_spec hs hscanned fun y hy => hy
      exact ⟨s₂, above', lowlink, by rw [visit, hscan, Option.bind_some, hfinish], hvisited⟩

/-! ## The search -/

theorem inv_init : Inv E S [] (init : SccState α) where
  onStack := fun _ => Iff.rfl
  sorted := List.Pairwise.nil
  seen := fun _ hx => absurd hx List.not_mem_nil
  below := fun _ hx => absurd hx (by simp [Seen, isNew, init, Dict.get?])
  source := fun _ hx => absurd hx (by simp [Seen, isNew, init, Dict.get?])
  finished := fun x => by simp [Seen, isNew, init, Dict.get?]
  distinct := List.nodup_nil
  component := fun _ hc => absurd hc List.not_mem_nil
  closed := fun _ hx => absurd hx List.not_mem_nil
  gray_stack := fun _ hx => absurd hx List.not_mem_nil
  gray_nodup := List.nodup_nil
  black := fun _ hx => absurd hx (by simp [Seen, isNew, init, Dict.get?])
  descends := fun _ hx => absurd hx List.not_mem_nil
  returns := fun _ hy => absurd hy List.not_mem_nil

theorem visitModules_spec {edges : Edges α} {depth : Nat}
    (hvisit : VisitSpec (Imports edges) S (visit edges depth) []) {modules : List α}
    (hmodules : ∀ m ∈ modules, S m) (hs : Inv (Imports edges) S [] s) :
    ∃ s', visitModules edges depth modules s = some s' ∧ Inv (Imports edges) S [] s'
      ∧ Extends s s' ∧ ∀ m ∈ modules, s'.Seen m := by
  induction modules generalizing s with
  | nil => exact ⟨s, rfl, hs, Extends.refl s, fun _ hm => absurd hm List.not_mem_nil⟩
  | cons m modules ih =>
      obtain ⟨hm, hrest⟩ := List.forall_mem_cons.mp hmodules
      -- the first module has been seen, or is visited now
      have hfirst : ∃ s₁, (if s.isNew m then visit edges depth m s else some s) = some s₁
          ∧ Inv (Imports edges) S [] s₁ ∧ Extends s s₁ ∧ s₁.Seen m := by
        by_cases hnew : s.isNew m = true
        · obtain ⟨s₁, _, _, heq, hv⟩ := hvisit m s hs (not_seen_iff.mpr hnew) hm
            fun _ hx => absurd hx List.not_mem_nil
          exact ⟨s₁, by rw [if_pos hnew, heq], hv.inv, hv.grows, hv.seen⟩
        · exact ⟨s, if_neg hnew, hs, Extends.refl s, by simpa [Seen] using hnew⟩
      obtain ⟨s₁, heq, hs₁, hgrows₁, hseen₁⟩ := hfirst
      obtain ⟨s₂, heq₂, hs₂, hgrows₂, hseen₂⟩ := ih hrest hs₁
      refine ⟨s₂, by rw [visitModules, heq, Option.bind_some, heq₂], hs₂, hgrows₁.trans hgrows₂, ?_⟩
      exact List.forall_mem_cons.mpr ⟨hgrows₂.seen m hseen₁, hseen₂⟩

/-- A search that is over has found the components of what it has seen. -/
theorem Inv.isPartition (h : Inv E S [] s) : IsPartition E s.Seen s.components where
  component := h.component
  nodup := h.distinct
  covers := by
    -- nothing is left on the stack that could not return to a visit
    have hstack : ∀ x, x ∉ s.stack := by
      intro x hx
      obtain ⟨g, hg, -⟩ := h.returns x hx
      exact absurd hg List.not_mem_nil
    intro x
    rw [h.finished, and_iff_left (hstack x)]

end SccState

open SccState

/-- The nodes of a graph that a search from the modules may come to. -/
def allNodes (edges : Edges α) (modules : List α) : List α :=
  (modules ++ edges.flatMap Prod.snd).dedup

theorem mem_of_imports {edges : Edges α} {x y : α} (h : Imports edges x y) :
    ∃ targets, (x, targets) ∈ edges ∧ y ∈ targets := by
  unfold Imports neighborsOf at h
  cases hget : edges.get? x with
  | none => rw [hget] at h; exact absurd h List.not_mem_nil
  | some targets => exact ⟨targets, Dict.mem_of_get? hget, by rwa [hget] at h⟩

theorem reached_mem_allNodes {edges : Edges α} {modules : List α} {x : α}
    (h : ReachedFrom (Imports edges) modules x) : x ∈ allNodes edges modules := by
  obtain ⟨m, hm, hreach⟩ := h
  rw [allNodes, List.mem_dedup, List.mem_append]
  rcases ReflTransGen.cases_tail hreach with heq | ⟨y, -, hedge⟩
  · exact .inl (heq ▸ hm)
  · obtain ⟨targets, hentry, htarget⟩ := mem_of_imports hedge
    exact .inr (List.mem_flatMap.mpr ⟨_, hentry, htarget⟩)

/--
**The components are found.** For every graph, every set of modules and every order of either, with
as many nested calls of `visit` as there are nodes the search returns, and its lists partition what
the modules reach.
-/
theorem search_spec [LE α] [DecidableLE α] {edges : Edges α} {modules : List α} {depth : Nat}
    (hdepth : (allNodes edges modules).length ≤ depth) :
    ∃ components, findStronglyConnectedComponents edges modules depth = some components
      ∧ IsPartition (Imports edges) (ReachedFrom (Imports edges) modules) components := by
  have hreached := closed_reachedFrom (E := Imports edges) modules
  have hvisit : VisitSpec (Imports edges) (ReachedFrom (Imports edges) modules)
      (visit edges depth) [] :=
    visit_spec hreached (fun x => reached_mem_allNodes) (by simpa using hdepth)
  have hsorted : ∀ m, m ∈ modules.mergeSort (fun a b => decide (a ≤ b)) ↔ m ∈ modules :=
    fun _ => List.mem_mergeSort
  obtain ⟨s, heq, hs, -, hmodules⟩ := visitModules_spec hvisit
    (fun m hm => ⟨m, (hsorted m).mp hm, .refl⟩) inv_init
  have hseen : ∀ x, s.Seen x ↔ ReachedFrom (Imports edges) modules x := by
    intro x
    refine ⟨hs.source x, fun ⟨m, hm, hreach⟩ => ?_⟩
    have hclosed : Closed (Imports edges) s.Seen := fun y hy z hedge =>
      hs.black y hy List.not_mem_nil z hedge
    exact hclosed.reaches hreach (hmodules m ((hsorted m).mpr hm))
  refine ⟨s.components, by rw [findStronglyConnectedComponents, heq]; rfl, ?_⟩
  exact ⟨hs.isPartition.component, hs.isPartition.nodup,
    fun x => (hs.isPartition.covers x).trans (hseen x)⟩

end YapInference.ImportCycles
