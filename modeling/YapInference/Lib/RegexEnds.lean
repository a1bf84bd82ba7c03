import YapInference.Lib.RegexLaws

/-!
# Patterns that match the end of a text

A pattern that ends in `$` says what a text must end with, and a search for it finds where the
longest such end begins. When every beginning of a word the pattern reads is itself one, what more
text can do to that is limited: an end that reaches back into the old text was an end of the old
text already, so the place found never moves back.
-/

namespace Regex

/-! ## What such a pattern matches -/

/-- A pattern matches wherever what is left is a word of a language, or one with a newline. -/
def Ends (r : Pattern) (L : Language Char) : Prop :=
  ∀ m, ways r m ≠ [] ↔ ∃ w ∈ L, m.cursor.after = w ∨ m.cursor.after = w ++ ['\n']

theorem ends_finish : Ends .finish 1 := by
  intro m
  simp only [ways, Language.mem_one]
  constructor
  · intro h
    split at h
    · exact ⟨[], rfl, by simpa using ‹m.cursor.after = [] ∨ m.cursor.after = ['\n']›⟩
    · exact absurd rfl h
  · intro h
    obtain ⟨w, rfl, hafter⟩ := h
    rw [if_pos (by simpa using hafter)]
    exact List.cons_ne_nil _ _

section

variable {a b r : Pattern} {A B : Language Char}

/-- A pattern in front of it is read first. -/
theorem Reads.ends (ha : Reads (ways a) A) (hr : Ends r B) : Ends (.seq a r) (A * B) := by
  intro m
  rw [ways, ne_eq, List.flatMap_eq_nil_iff, not_forall]
  constructor
  · intro h
    obtain ⟨m', hm'⟩ := h
    rw [Classical.not_imp] at hm'
    obtain ⟨u, hu, hbefore⟩ := (ha m _).mp ⟨m', hm'.1, rfl⟩
    obtain ⟨v, hv, hafter⟩ := (hr m').mp hm'.2
    refine ⟨u ++ v, Language.append_mem_mul hu hv, ?_⟩
    rw [hbefore, List.append_assoc]
    exact hafter.imp (congrArg (u ++ ·)) (congrArg (u ++ ·))
  · intro h
    obtain ⟨w, hw, hafter⟩ := h
    obtain ⟨u, hu, v, hv, rfl⟩ := Language.mem_mul.mp hw
    have hrest : ∃ t, m.cursor.after = u ++ t ∧ (t = v ∨ t = v ++ ['\n']) := by
      rcases hafter with hafter | hafter
      · exact ⟨v, hafter, Or.inl rfl⟩
      · exact ⟨v ++ ['\n'], by rw [hafter, List.append_assoc], Or.inr rfl⟩
    obtain ⟨t, ht, hv'⟩ := hrest
    obtain ⟨m', hm', hm't⟩ := (ha m t).mpr ⟨u, hu, ht⟩
    refine ⟨m', fun himp => ?_⟩
    exact (hr m').mpr ⟨v, hv, hm't ▸ hv'⟩ (himp hm')

theorem Ends.alt (ha : Ends (.seq a r) A) (hb : Ends (.seq b r) B) :
    Ends (.seq (.alt a b) r) (A + B) := by
  intro m
  have hm := or_congr (ha m) (hb m)
  have hways : ways (.seq (.alt a b) r) m = ways (.seq a r) m ++ ways (.seq b r) m := by
    simp only [ways, List.flatMap_append]
  rw [hways, ne_eq, List.append_eq_nil_iff, not_and_or, ← ne_eq, ← ne_eq, hm]
  simp only [Language.mem_add, or_and_right, exists_or]

theorem Ends.assoc {L : Language Char} (h : Ends (.seq a (.seq b r)) L) :
    Ends (.seq (.seq a b) r) L := by
  intro m
  rw [← h m]
  simp only [ways, List.flatMap_assoc]

/-- At the end of the text nothing is ahead. -/
theorem ends_ahead {p : Char → Bool} (hp : p '\n' = false) :
    Ends (.seq (.ahead false (.set p)) .finish) 1 := by
  intro m
  rw [← ends_finish m]
  by_cases hfinish : m.cursor.after = [] ∨ m.cursor.after = ['\n']
  · rcases hfinish with hafter | hafter <;> simp [ways, Cursor.next, hafter, hp]
  · have hboth := not_or.mp hfinish
    simp only [ways, if_neg hfinish]
    simpa using fun _ => hboth

end

/-- A class, up to some number of times. -/
def upTo (most : Nat) (p : Char → Bool) : Language Char :=
  {w | w.length ≤ most ∧ ∀ c ∈ w, p c = true}

theorem reads_upTo (most : Nat) (p : Char → Bool) :
    Reads (ways (.rep 0 (some most) (.set p))) (upTo most p) := by
  intro m t
  have hways : ways (.rep 0 (some most) (.set p)) m = greedy (ways (.set p)) most m := by
    simp [ways, times]
  rw [hways, (reads_set p).greedy]
  constructor
  · intro h
    obtain ⟨k, hk, w, hw, hafter⟩ := h
    obtain ⟨hlen, hall⟩ := mem_pow_oneOf.mp hw
    exact ⟨w, ⟨hlen ▸ hk, hall⟩, hafter⟩
  · intro h
    obtain ⟨w, ⟨hlen, hall⟩, hafter⟩ := h
    exact ⟨w.length, hlen, w, mem_pow_oneOf.mpr ⟨rfl, hall⟩, hafter⟩

/-! ## Languages that have the beginnings of their words -/

/-- Every beginning of a word is a word, but for the empty one. -/
def Prefixed (L : Language Char) : Prop := ∀ u v, u ++ v ∈ L → u ≠ [] → u ∈ L

theorem prefixed_one : Prefixed 1 := by
  intro u v h hne
  rw [Language.mem_one, List.append_eq_nil_iff] at h
  exact absurd h.1 hne

theorem prefixed_oneOf (p : Char → Bool) : Prefixed (oneOf p) := by
  intro u v h hne
  obtain ⟨c, hc, h⟩ := h
  rcases List.append_eq_singleton_iff.mp h with hnil | hone
  · exact absurd hnil.1 hne
  · exact ⟨c, hc, hone.1⟩

theorem prefixed_runs {least : Nat} (hleast : least ≤ 1) (p : Char → Bool) :
    Prefixed (runs least p) := by
  intro u v h hne
  have hpos := List.length_pos_iff.mpr hne
  exact ⟨by omega, fun c hc => h.2 c (List.mem_append_left v hc)⟩

theorem prefixed_upTo (most : Nat) (p : Char → Bool) : Prefixed (upTo most p) := by
  intro u v h _
  have hlen := h.1
  rw [List.length_append] at hlen
  exact ⟨by omega, fun c hc => h.2 c (List.mem_append_left v hc)⟩

theorem Prefixed.add {A B : Language Char} (ha : Prefixed A) (hb : Prefixed B) :
    Prefixed (A + B) := fun u v h hne => h.imp (ha u v · hne) (hb u v · hne)

theorem Prefixed.mul {A B : Language Char} (ha : Prefixed A) (hb : Prefixed B) (hnil : [] ∈ B) :
    Prefixed (A * B) := by
  intro u v h hne
  obtain ⟨x, hx, y, hy, hxy⟩ := Language.mem_mul.mp h
  rcases List.append_eq_append_iff.mp hxy with ⟨z, rfl, rfl⟩ | ⟨z, rfl, rfl⟩
  · -- the beginning goes on into the second word
    by_cases hz : z = []
    · rw [hz, List.append_nil]
      exact List.append_nil x ▸ Language.append_mem_mul hx hnil
    · exact Language.append_mem_mul hx (hb z v hy hz)
  · exact List.append_nil u ▸ Language.append_mem_mul (ha u z hx hne) hnil

theorem nil_mem_runs (p : Char → Bool) : [] ∈ runs 0 p := ⟨Nat.le_refl 0, by simp⟩

theorem nil_mem_upTo (most : Nat) (p : Char → Bool) : [] ∈ upTo most p :=
  ⟨Nat.zero_le most, by simp⟩

theorem nil_mem_mul {A B : Language Char} (ha : [] ∈ A) (hb : [] ∈ B) : [] ∈ A * B :=
  Language.append_mem_mul ha hb

/-! ## More text -/

/-- An end that begins in the old text was an end of it. -/
theorem Ends.matchAt_append {r : Pattern} {L : Language Char} (hr : Ends r L) (hL : Prefixed L)
    {before after more : List Char} (hne : after ≠ [])
    (h : (matchAt r { before := before, after := after ++ more }).isSome = true) :
    (matchAt r { before := before, after := after }).isSome = true := by
  rw [matchAt, List.isSome_head?, hr] at h ⊢
  dsimp only at h ⊢
  obtain ⟨w, hw, rfl | hafter⟩ := h
  · exact ⟨after, hL after more hw hne, Or.inl rfl⟩
  · -- the old text may end before the newline, or with it
    rcases List.append_eq_append_iff.mp hafter with ⟨z, hz, -⟩ | ⟨z, hz, hnewline⟩
    · exact ⟨after, hL after z (hz ▸ hw) hne, Or.inl rfl⟩
    · rcases List.append_eq_singleton_iff.mp hnewline.symm with hz' | hz'
      · exact ⟨w, hw, Or.inl (by rw [hz, hz'.1, List.append_nil])⟩
      · exact ⟨w, hw, Or.inr (by rw [hz, hz'.1])⟩

theorem le_of_searchFrom {r : Pattern} {before text : List Char} {i : Nat}
    (h : searchFrom r before text = some i) : before.length ≤ i := by
  induction text generalizing before with
  | nil =>
      obtain ⟨_, -, rfl⟩ := Option.map_eq_some_iff.mp h
      exact Nat.le_refl _
  | cons x rest ih =>
      rw [searchFrom] at h
      split at h
      · exact Nat.le_of_eq (Option.some.inj h)
      · have := ih h
        rw [List.length_cons] at this
        omega

theorem Ends.searchFrom_append {r : Pattern} {L : Language Char} (hr : Ends r L)
    (hL : Prefixed L) {before text more : List Char} {i : Nat}
    (h : searchFrom r before (text ++ more) = some i) (hi : i < before.length + text.length) :
    ∃ j ≤ i, searchFrom r before text = some j := by
  induction text generalizing before with
  | nil =>
      have := le_of_searchFrom h
      rw [List.length_nil] at hi
      omega
  | cons x rest ih =>
      rw [List.cons_append, searchFrom] at h
      rw [searchFrom]
      split at h
      · rename_i hmatch
        rw [if_pos (hr.matchAt_append hL (List.cons_ne_nil x rest) hmatch)]
        exact ⟨before.length, Nat.le_of_eq (Option.some.inj h), rfl⟩
      · have hlen : i < (x :: before).length + rest.length := by
          rw [List.length_cons] at hi ⊢
          omega
        split
        · have hle := le_of_searchFrom h
          rw [List.length_cons] at hle
          exact ⟨before.length, by omega, rfl⟩
        · exact ih h hlen

/-- **More text does not move the place found back.** -/
theorem Ends.search_append {r : Pattern} {L : Language Char} (hr : Ends r L) (hL : Prefixed L)
    {text more : List Char} {i : Nat} (h : search r (text ++ more) = some i)
    (hi : i < text.length) : ∃ j ≤ i, search r text = some j :=
  hr.searchFrom_append hL h (by simpa using hi)

/-- Where such a pattern is found the text ends with a word. -/
theorem Ends.searchFrom_eq_some {r : Pattern} {L : Language Char} (hr : Ends r L)
    {before text : List Char} {i : Nat} (h : searchFrom r before text = some i) :
    ∃ w ∈ L, text.drop (i - before.length) = w ∨ text.drop (i - before.length) = w ++ ['\n'] := by
  have hhere : ∀ {c : Cursor}, (matchAt r c).isSome = true →
      ∃ w ∈ L, c.after = w ∨ c.after = w ++ ['\n'] := by
    intro c hmatch
    rw [matchAt, List.isSome_head?] at hmatch
    exact (hr _).mp hmatch
  induction text generalizing before with
  | nil =>
      obtain ⟨m, hmatch, -⟩ := Option.map_eq_some_iff.mp h
      rw [List.drop_nil]
      exact hhere (c := { before := before, after := [] }) (by rw [hmatch]; rfl)
  | cons x rest ih =>
      rw [searchFrom] at h
      split at h
      · rename_i hmatch
        obtain rfl := Option.some.inj h
        rw [Nat.sub_self, List.drop_zero]
        exact hhere hmatch
      · have hle := le_of_searchFrom h
        rw [List.length_cons] at hle
        have hdrop : i - before.length = (i - (x :: before).length) + 1 := by
          rw [List.length_cons]
          omega
        rw [hdrop, List.drop_succ_cons]
        exact ih h

theorem Ends.search_eq_some {r : Pattern} {L : Language Char} (hr : Ends r L) {text : List Char}
    {i : Nat} (h : search r text = some i) :
    ∃ w ∈ L, text.drop i = w ∨ text.drop i = w ++ ['\n'] :=
  hr.searchFrom_eq_some h

/-- A word that the text ends with is found where it begins, or before. -/
theorem Ends.searchFrom_of_mem {r : Pattern} {L : Language Char} (hr : Ends r L) {w : List Char}
    (hw : w ∈ L) (before text : List Char) :
    ∃ i ≤ before.length + text.length, searchFrom r before (text ++ w) = some i := by
  have hhere : ∀ before, (matchAt r { before := before, after := w }).isSome = true := by
    intro before
    rw [matchAt, List.isSome_head?, hr]
    exact ⟨w, hw, .inl rfl⟩
  induction text generalizing before with
  | nil =>
      refine ⟨before.length, Nat.le_refl _, ?_⟩
      have h := hhere before
      cases w with
      | nil =>
          obtain ⟨m, hm⟩ := Option.isSome_iff_exists.mp h
          rw [List.nil_append, searchFrom, hm, Option.map_some]
      | cons x w => rw [List.nil_append, searchFrom, if_pos h]
  | cons x text ih =>
      rw [List.cons_append, searchFrom]
      split
      · exact ⟨before.length, by omega, rfl⟩
      · obtain ⟨i, hi, hfound⟩ := ih (x :: before)
        refine ⟨i, ?_, hfound⟩
        rw [List.length_cons] at hi ⊢
        omega

/-! ## Languages over a class -/

/-- Every word is made of characters of a class. -/
def Over (p : Char → Bool) (L : Language Char) : Prop := ∀ w ∈ L, ∀ c ∈ w, p c = true

section

variable {p q : Char → Bool} {A B : Language Char}

theorem over_one : Over p 1 := by
  intro w hw
  rw [Language.mem_one] at hw
  simp [hw]

theorem over_oneOf (hq : ∀ c, q c = true → p c = true) : Over p (oneOf q) := by
  rintro w ⟨c, hc, rfl⟩ x hx
  rw [List.mem_singleton.mp hx]
  exact hq c hc

theorem over_runs (least : Nat) (hq : ∀ c, q c = true → p c = true) : Over p (runs least q) :=
  fun _ hw c hc => hq c (hw.2 c hc)

theorem over_upTo (most : Nat) (hq : ∀ c, q c = true → p c = true) : Over p (upTo most q) :=
  fun _ hw c hc => hq c (hw.2 c hc)

theorem Over.mul (ha : Over p A) (hb : Over p B) : Over p (A * B) := by
  intro w hw
  obtain ⟨u, hu, v, hv, rfl⟩ := Language.mem_mul.mp hw
  exact List.forall_mem_append.mpr ⟨ha u hu, hb v hv⟩

theorem Over.add (ha : Over p A) (hb : Over p B) : Over p (A + B) :=
  fun w hw => hw.elim (ha w) (hb w)

end

end Regex
