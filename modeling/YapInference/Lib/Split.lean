import Mathlib.Data.List.SplitBy
import Mathlib.Data.List.Infix

/-!
# Cutting a list before every marked element

Given a predicate `p`, a list is cut into groups so that a new group starts at every
element satisfying `p` and nowhere else. Only the first group may start with an
unmarked element. Such a cutting is unique, so a loop that maintains the three
clauses of `IsSplit` computes it, and any run of whole groups at the end is again
the cutting of its own elements.
-/

namespace Split

variable {α : Type*} {p : α → Bool}

/-- The groups of `l`, cut before every element satisfying `p`. -/
def splitBefore (p : α → Bool) (l : List α) : List (List α) := l.splitBy (fun _ b => !p b)

/-- `L` is a cutting of `L.flatten` before every element satisfying `p`. -/
structure IsSplit (p : α → Bool) (L : List (List α)) : Prop where
  /-- No group is empty. -/
  ne : ∀ g ∈ L, g ≠ []
  /-- Inside a group nothing is marked. -/
  inner : ∀ g ∈ L, ∀ a ∈ g.tail, p a = false
  /-- Every group but the first starts at a marked element. -/
  heads : ∀ g ∈ L.tail, ∀ a, g.head? = some a → p a = true

theorem isSplit_nil : IsSplit p [] := ⟨by simp, by simp, by simp⟩

theorem isChain_of_tail {g : List α} (h : ∀ a ∈ g.tail, p a = false) :
    g.IsChain (fun _ b => (!p b) = true) := by
  induction g with
  | nil => exact List.isChain_nil
  | cons a g ih =>
      cases g with
      | nil => exact List.isChain_singleton a
      | cons b g =>
          refine List.isChain_cons_cons.mpr ⟨by simp [h b (by simp)], ih ?_⟩
          intro x hx
          exact h x (by simp only [List.tail_cons] at hx ⊢; exact List.mem_cons_of_mem _ hx)

theorem isChain_heads {L : List (List α)} (hne : ∀ g ∈ L, g ≠ [])
    (hh : ∀ g ∈ L.tail, ∀ a, g.head? = some a → p a = true) :
    L.IsChain (fun a b => ∃ (_ : a ≠ []) (hb : b ≠ []), (!p (b.head hb)) = false) := by
  induction L with
  | nil => exact List.isChain_nil
  | cons g L ih =>
      cases L with
      | nil => exact List.isChain_singleton g
      | cons g' L =>
          have hg' : g' ≠ [] := hne g' (by simp)
          refine List.isChain_cons_cons.mpr ⟨⟨hne g (by simp), hg', ?_⟩, ih ?_ ?_⟩
          · have := hh g' (by simp) (g'.head hg') (List.head?_eq_some_head hg')
            simp [this]
          · exact fun x hx => hne x (List.mem_cons_of_mem _ hx)
          · intro x hx
            exact hh x (by simp only [List.tail_cons] at hx ⊢; exact List.mem_cons_of_mem _ hx)

/-- **A cutting is the cutting of its elements.** -/
theorem IsSplit.splitBefore_flatten {L : List (List α)} (h : IsSplit p L) :
    splitBefore p L.flatten = L :=
  List.splitBy_flatten (fun hn => h.ne [] hn rfl) (fun g hg => isChain_of_tail (h.inner g hg))
    (isChain_heads h.ne h.heads)

@[simp] theorem flatten_splitBefore (l : List α) : (splitBefore p l).flatten = l :=
  List.flatten_splitBy _ l

/-- Dropping whole groups from the front leaves a cutting. -/
theorem IsSplit.drop {L : List (List α)} (h : IsSplit p L) (k : Nat) : IsSplit p (L.drop k) where
  ne := fun g hg => h.ne g (List.mem_of_mem_drop hg)
  inner := fun g hg => h.inner g (List.mem_of_mem_drop hg)
  heads := by
    intro g hg
    rw [← List.drop_one, List.drop_drop, Nat.add_comm, ← List.drop_drop] at hg
    exact h.heads g (by rw [← List.drop_one]; exact List.mem_of_mem_drop hg)

/-- A marked element opens a group of its own. -/
theorem IsSplit.snoc_new {L : List (List α)} (h : IsSplit p L) {a : α} (ha : p a = true) :
    IsSplit p (L ++ [[a]]) where
  ne := by
    intro g hg
    rcases List.mem_append.mp hg with hg | hg
    · exact h.ne g hg
    · rw [List.mem_singleton.mp hg]; simp
  inner := by
    intro g hg x hx
    rcases List.mem_append.mp hg with hg | hg
    · exact h.inner g hg x hx
    · rw [List.mem_singleton.mp hg] at hx; simp at hx
  heads := by
    intro g hg x hx
    cases L with
    | nil => simp at hg
    | cons g₀ L =>
        rcases List.mem_append.mp hg with hg | hg
        · exact h.heads g hg x hx
        · rw [List.mem_singleton.mp hg] at hx
          simp only [List.head?_cons, Option.some.injEq] at hx
          exact hx ▸ ha

/-- An unmarked element joins the last group. -/
theorem IsSplit.snoc_last {L : List (List α)} {g : List α} (h : IsSplit p (L ++ [g])) {a : α}
    (ha : p a = false) : IsSplit p (L ++ [g ++ [a]]) where
  ne := by
    intro x hx
    rcases List.mem_append.mp hx with hx | hx
    · exact h.ne x (List.mem_append_left _ hx)
    · rw [List.mem_singleton.mp hx]; simp
  inner := by
    intro x hx y hy
    rcases List.mem_append.mp hx with hx | hx
    · exact h.inner x (List.mem_append_left _ hx) y hy
    · rw [List.mem_singleton.mp hx] at hy
      have hg : g ≠ [] := h.ne g (by simp)
      rw [List.tail_append_of_ne_nil hg] at hy
      rcases List.mem_append.mp hy with hy | hy
      · exact h.inner g (by simp) y hy
      · rw [List.mem_singleton.mp hy]; exact ha
  heads := by
    intro x hx y hy
    cases L with
    | nil => simp at hx
    | cons g₀ L =>
        rcases List.mem_append.mp hx with hx | hx
        · exact h.heads x (List.mem_append_left _ hx) y hy
        · rw [List.mem_singleton.mp hx] at hy
          have hg : g ≠ [] := h.ne g (by simp)
          rw [List.head?_append_of_ne_nil _ hg] at hy
          exact h.heads g (List.mem_append_right _ (by simp)) y hy

/-- A single unmarked element is a cutting: the group that may lead. -/
theorem isSplit_single (a : α) : IsSplit p [[a]] :=
  ⟨by simp, by simp, by simp⟩

/-! ## The last groups -/

/-- `kept` is the last groups of `whole`, all of them or at least one. -/
structure Recent (p : α → Bool) (kept whole : List α) : Prop where
  suffix : kept <:+ whole
  /-- What is left out ends where a group does. -/
  start : kept = whole ∨ ∃ a, kept.head? = some a ∧ p a = true

namespace Recent

variable {kept whole : List α}

theorem refl (l : List α) : Recent p l l := ⟨List.suffix_refl l, Or.inl rfl⟩

theorem trans {l : List α} (h : Recent p kept whole) (h' : Recent p whole l) : Recent p kept l where
  suffix := h.suffix.trans h'.suffix
  start := by
    rcases h.start with rfl | hhead
    · exact h'.start
    · exact Or.inr hhead

theorem eq_nil (h : Recent p [] whole) : whole = [] := by
  rcases h.start with heq | ⟨a, ha, -⟩
  · exact heq.symm
  · cases ha

/-- Both go on by the same element. -/
theorem snoc (h : Recent p kept whole) (a : α) : Recent p (kept ++ [a]) (whole ++ [a]) where
  suffix := by
    obtain ⟨front, hfront⟩ := h.suffix
    exact ⟨front, by rw [← hfront, List.append_assoc]⟩
  start := by
    rcases h.start with rfl | ⟨b, hb, hmark⟩
    · exact Or.inl rfl
    · refine Or.inr ⟨b, ?_, hmark⟩
      cases kept with
      | nil => cases hb
      | cons c kept => exact hb

/-- They end alike. -/
theorem getLast? (h : Recent p kept whole) : kept.getLast? = whole.getLast? := by
  cases hk : kept.getLast? with
  | none =>
      obtain rfl := List.getLast?_eq_none_iff.mp hk
      rw [h.eq_nil]
      rfl
  | some a =>
      obtain ⟨front, hfront⟩ := h.suffix
      rw [← hfront, List.getLast?_append, hk]
      rfl

/-- The last element of both is replaced by one that is marked alike. -/
theorem replace_last {a b : α} (h : Recent p (kept ++ [a]) (whole ++ [a])) (hp : p a = p b) :
    Recent p (kept ++ [b]) (whole ++ [b]) where
  suffix := by
    obtain ⟨front, hfront⟩ := h.suffix
    rw [← List.append_assoc] at hfront
    exact ⟨front, by rw [← List.append_assoc, List.append_inj_left' hfront rfl]⟩
  start := by
    rcases h.start with heq | ⟨c, hc, hmark⟩
    · exact Or.inl (by rw [List.append_inj_left' heq rfl])
    · refine Or.inr ?_
      cases kept with
      | nil =>
          obtain rfl : a = c := by simpa using hc
          exact ⟨b, rfl, hp.symm.trans hmark⟩
      | cons d kept => exact ⟨c, hc, hmark⟩

/-- Whole groups at the end of a cutting, and not none of them. -/
theorem of_drop {L : List (List α)} (h : IsSplit p L) {k : Nat} (hk : k < L.length) :
    Recent p (L.drop k).flatten L.flatten where
  suffix := ⟨(L.take k).flatten, by rw [← List.flatten_append, List.take_append_drop]⟩
  start := by
    cases k with
    | zero => exact Or.inl rfl
    | succ k =>
        obtain ⟨g, rest, hdrop⟩ : ∃ g rest, L.drop (k + 1) = g :: rest :=
          List.exists_cons_of_length_pos (by rw [List.length_drop]; omega)
        have hmem : g ∈ L.drop (k + 1) := by rw [hdrop]; exact List.mem_cons_self
        have htail : g ∈ L.tail := by
          rw [← List.drop_one]
          rw [Nat.add_comm, ← List.drop_drop] at hmem
          exact List.mem_of_mem_drop hmem
        obtain ⟨a, g', rfl⟩ := List.exists_cons_of_ne_nil (h.ne g (List.mem_of_mem_drop hmem))
        refine Or.inr ⟨a, by rw [hdrop]; rfl, h.heads _ htail a rfl⟩

end Recent

/-- A cutting goes on after a list that is to be cut there. -/
theorem splitBefore_append {front l : List α} {a : α} (h : l.head? = some a) (ha : p a = true) :
    splitBefore p (front ++ l) = splitBefore p front ++ splitBefore p l := by
  refine List.splitBy_append fun _ _ y hy => ?_
  obtain rfl : a = y := Option.some.inj (h.symm.trans hy)
  simp [ha]

/-- **The last groups of a list are the last of its groups.** -/
theorem Recent.groups {kept whole : List α} (h : Recent p kept whole) :
    splitBefore p kept <:+ splitBefore p whole := by
  rcases h.start with rfl | ⟨a, hhead, ha⟩
  · exact List.suffix_refl _
  · obtain ⟨front, rfl⟩ := h.suffix
    rw [splitBefore_append hhead ha]
    exact List.suffix_append _ _

end Split
