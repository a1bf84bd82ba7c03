import Mathlib.Computability.Language
import YapInference.Lib.Regex

/-!
# Laws of matching and replacing

Three kinds of fact about backtracking patterns, in the order they are needed.

Where characters come from: matching only moves forward, and what it captures it has passed, so a
class that holds of a text holds of everything a match can hand to a replacement.

What is read: a pattern without groups and assertions reads the words of a language, and then
whether it matches at a place is a question about the text there and not about backtracking.

What a replacement leaves: the result of `sub` is the text read from the left, a character kept
where nothing matches and a match replaced where something does. Everything about `sub` is an
induction over that reading.
-/

namespace Regex

@[simp] theorem subCount_nil (count : Nat) (r : Pattern) (f : Match → List Char) :
    subCount count r f [] = [] := rfl

@[simp] theorem sub_nil (r : Pattern) (f : Match → List Char) : sub r f [] = [] := rfl

@[simp] theorem subBy_nil (r : Pattern) (replacement : String) : subBy r replacement [] = [] := rfl

/-! ## The ways of a pattern -/

section

variable {m m' : Progress} {a b : Pattern} {p : Char → Bool}

theorem mem_ways_seq : m' ∈ ways (.seq a b) m ↔ ∃ m₁ ∈ ways a m, m' ∈ ways b m₁ := by
  rw [ways, List.mem_flatMap]

theorem ways_alt (a b : Pattern) (m : Progress) : ways (.alt a b) m = ways a m ++ ways b m := by
  rw [ways]

theorem mem_ways_set : m' ∈ ways (.set p) m ↔
    ∃ x rest, m.cursor.after = x :: rest ∧ p x = true
      ∧ m' = { m with cursor := { before := x :: m.cursor.before, after := rest } } := by
  rw [ways, Cursor.next]
  cases m.cursor.after with
  | nil => simp
  | cons x rest =>
      dsimp only
      by_cases hx : p x = true
      · rw [if_pos hx, Option.toList_some, List.map_singleton, List.mem_singleton]
        constructor
        · exact fun hm => ⟨x, rest, rfl, hx, hm⟩
        · rintro ⟨_, _, heq, -, hm⟩
          obtain ⟨rfl, rfl⟩ := List.cons.inj heq
          exact hm
      · rw [if_neg hx]
        constructor
        · exact fun hm => absurd hm (by simp)
        · rintro ⟨_, _, heq, hx', -⟩
          exact absurd ((List.cons.inj heq).1 ▸ hx') hx

theorem mem_ways_boundary : m' ∈ ways (.boundary p) m ↔
    m' = m ∧ m.cursor.before.head?.any p ≠ m.cursor.after.head?.any p := by
  rw [ways]
  by_cases h : m.cursor.before.head?.any p = m.cursor.after.head?.any p
  · rw [if_pos h]
    exact ⟨fun hm => absurd hm List.not_mem_nil, fun hm => absurd h hm.2⟩
  · rw [if_neg h, List.mem_singleton]
    exact ⟨fun hm => ⟨hm, h⟩, And.left⟩

theorem mem_ways_behind {expected : Bool} : m' ∈ ways (.behind expected p) m ↔
    m' = m ∧ m.cursor.before.head?.any p = expected := by
  rw [ways]
  split <;> simp [*]

theorem mem_ways_ahead : m' ∈ ways (.ahead false (.set p)) m ↔
    m' = m ∧ m.cursor.after.head?.any p = false := by
  rw [ways, ways, Cursor.next]
  cases m.cursor.after with
  | nil => simp
  | cons x rest => by_cases hx : p x = true <;> simp [hx]

theorem matchAt_eq_none {r : Pattern} {c : Cursor}
    (h : ∀ m, m ∉ ways r { cursor := c, groups := [] }) : matchAt r c = none :=
  List.head?_eq_none_iff.mpr (List.eq_nil_iff_forall_not_mem.mpr h)

/-- Where all ways end at one place, so does the match. -/
theorem matchAt_map_after {r : Pattern} {c : Cursor} {s : List Char}
    (hsome : ∃ m ∈ ways r { cursor := c, groups := [] }, m.cursor.after = s)
    (hall : ∀ m ∈ ways r { cursor := c, groups := [] }, m.cursor.after = s) :
    (matchAt r c).map (·.cursor.after) = some s := by
  obtain ⟨m, hm, -⟩ := hsome
  obtain ⟨m', ms, hways⟩ := List.exists_cons_of_ne_nil (List.ne_nil_of_mem hm)
  rw [matchAt, hways, List.head?_cons, Option.map_some, hall m' (by simp [hways])]

end

/-! ## Where the characters of a match come from -/

/-- What is ahead of a match in progress, and all it has captured, is in a class. -/
structure Progress.All (P : Char → Prop) (m : Progress) : Prop where
  after : ∀ c ∈ m.cursor.after, P c
  groups : ∀ g ∈ m.groups, ∀ c ∈ g.2, P c

/-- What each step keeps, every number of steps keeps. -/
theorem times_keeps {I : Progress → Prop} {step : Progress → List Progress}
    (hstep : ∀ {m m'}, m' ∈ step m → I m → I m') (n : Nat) {m m' : Progress}
    (h : m' ∈ times step n m) (hm : I m) : I m' := by
  induction n generalizing m with
  | zero =>
      rw [times, List.mem_singleton] at h
      exact h ▸ hm
  | succ n ih =>
      rw [times, List.mem_flatMap] at h
      obtain ⟨m₁, h₁, h⟩ := h
      exact ih h (hstep h₁ hm)

theorem greedy_keeps {I : Progress → Prop} {step : Progress → List Progress}
    (hstep : ∀ {m m'}, m' ∈ step m → I m → I m') (n : Nat) {m m' : Progress}
    (h : m' ∈ greedy step n m) (hm : I m) : I m' := by
  induction n generalizing m with
  | zero =>
      rw [greedy, List.mem_singleton] at h
      exact h ▸ hm
  | succ n ih =>
      rw [greedy, List.mem_append, List.mem_flatMap, List.mem_singleton] at h
      obtain ⟨m₁, h₁, h⟩ | rfl := h
      · exact ih h (hstep h₁ hm)
      · exact hm

theorem greedy_ne_nil (step : Progress → List Progress) (n : Nat) (m : Progress) :
    greedy step n m ≠ [] := by
  cases n <;> simp [greedy]

/-- A place further on in the same text. -/
def Cursor.Leads (c d : Cursor) : Prop :=
  ∃ w, c.after = w ++ d.after ∧ d.before = w.reverse ++ c.before

theorem Cursor.Leads.refl (c : Cursor) : c.Leads c := ⟨[], rfl, rfl⟩

theorem Cursor.Leads.trans {c d e : Cursor} (h : c.Leads d) (h' : d.Leads e) : c.Leads e := by
  obtain ⟨w, hafter, hbefore⟩ := h
  obtain ⟨w', hafter', hbefore'⟩ := h'
  refine ⟨w ++ w', by rw [hafter, hafter', List.append_assoc], ?_⟩
  rw [hbefore', hbefore, List.reverse_append, List.append_assoc]

/-- Matching only moves forward. -/
theorem ways_leads (r : Pattern) {m m' : Progress} (h : m' ∈ ways r m) :
    m.cursor.Leads m'.cursor := by
  induction r generalizing m m' with
  | eps =>
      rw [ways, List.mem_singleton] at h
      exact h ▸ .refl _
  | set p =>
      obtain ⟨x, rest, hafter, -, rfl⟩ := mem_ways_set.mp h
      exact ⟨[x], hafter, rfl⟩
  | seq a b iha ihb =>
      obtain ⟨m₁, h₁, h⟩ := mem_ways_seq.mp h
      exact (iha h₁).trans (ihb h)
  | alt a b iha ihb =>
      rw [ways, List.mem_append] at h
      exact h.elim iha ihb
  | rep least most r ih =>
      rw [ways, List.mem_flatMap] at h
      obtain ⟨m₁, h₁, h⟩ := h
      have hstep : ∀ {m₂ m₃}, m₃ ∈ ways r m₂ → m.cursor.Leads m₂.cursor →
          m.cursor.Leads m₃.cursor := fun h₃ hm => hm.trans (ih h₃)
      exact greedy_keeps hstep _ h (times_keeps hstep _ h₁ (.refl _))
  | group n r ih =>
      rw [ways, List.mem_map] at h
      obtain ⟨m₁, h₁, rfl⟩ := h
      have hleads := ih h₁
      exact hleads
  | ahead | behind | boundary | start | finish =>
      have hm : m' = m := by
        rw [ways] at h
        split at h <;> simp_all
      exact hm ▸ .refl _

theorem ways_suffix (r : Pattern) {m m' : Progress} (h : m' ∈ ways r m) :
    m'.cursor.after <:+ m.cursor.after := by
  obtain ⟨w, hafter, -⟩ := ways_leads r h
  exact ⟨w, hafter.symm⟩

theorem mem_upTo {c d : Cursor} {x : Char} (h : x ∈ c.upTo d) : x ∈ c.after := List.mem_of_mem_take h

/-- Matching takes nothing from elsewhere. -/
theorem ways_all {P : Char → Prop} (r : Pattern) {m m' : Progress} (h : m' ∈ ways r m)
    (hm : m.All P) : m'.All P := by
  induction r generalizing m m' with
  | eps =>
      rw [ways, List.mem_singleton] at h
      exact h ▸ hm
  | set p =>
      have hsuffix := ways_suffix (.set p) h
      rw [ways, List.mem_map] at h
      obtain ⟨c, -, rfl⟩ := h
      exact ⟨fun x hx => hm.after x (hsuffix.mem hx), hm.groups⟩
  | seq a b iha ihb =>
      rw [ways, List.mem_flatMap] at h
      obtain ⟨m₁, h₁, h⟩ := h
      exact ihb h (iha h₁ hm)
  | alt a b iha ihb =>
      rw [ways, List.mem_append] at h
      exact h.elim (iha · hm) (ihb · hm)
  | rep least most r ih =>
      rw [ways, List.mem_flatMap] at h
      obtain ⟨m₁, h₁, h⟩ := h
      exact greedy_keeps ih _ h (times_keeps ih _ h₁ hm)
  | group n r ih =>
      rw [ways, List.mem_map] at h
      obtain ⟨m₁, h₁, rfl⟩ := h
      have hall := ih h₁ hm
      refine ⟨hall.after, ?_⟩
      intro g hg
      rcases List.mem_cons.mp hg with rfl | hg
      · exact fun c hc => hm.after c (mem_upTo hc)
      · exact hall.groups g hg
  | ahead | behind | boundary | start | finish =>
      rw [ways] at h
      split at h <;> simp_all

/-- All that a replacement can refer to is in a class. -/
structure Match.All (P : Char → Prop) (m : Match) : Prop where
  text : ∀ c ∈ m.text, P c
  groups : ∀ g ∈ m.groups, ∀ c ∈ g.2, P c

theorem Match.All.get {P : Char → Prop} {m : Match} (h : m.All P) (n : Nat) :
    ∀ c ∈ m.get n, P c := by
  intro c hc
  rw [Match.get] at hc
  cases hg : m.groups.lookup n with
  | none => exact absurd hc (by simp [hg])
  | some g =>
      rw [hg] at hc
      have hmem : (n, g) ∈ m.groups := by
        obtain ⟨l₁, l₂, hl, -⟩ := List.lookup_eq_some_iff.mp hg
        simp [hl]
      exact h.groups _ hmem c hc

theorem matchAt_all {P : Char → Prop} {r : Pattern} {c : Cursor} {m : Progress}
    (h : matchAt r c = some m) (hc : ∀ x ∈ c.after, P x) : m.All P :=
  ways_all r (List.mem_of_mem_head? h) ⟨hc, by simp⟩

theorem matchAt_suffix {r : Pattern} {c : Cursor} {m : Progress} (h : matchAt r c = some m) :
    m.cursor.after <:+ c.after :=
  ways_suffix (m := ⟨c, []⟩) r (List.mem_of_mem_head? h)

theorem match_all {P : Char → Prop} {r : Pattern} {c : Cursor} {m : Progress}
    (h : matchAt r c = some m) (hc : ∀ x ∈ c.after, P x) :
    Match.All P { text := c.upTo m.cursor, groups := m.groups } :=
  ⟨fun x hx => hc x (mem_upTo hx), (matchAt_all h hc).groups⟩

theorem all_subFrom {P : Char → Prop} {r : Pattern} {f : Match → List Char}
    (hf : ∀ m : Match, m.All P → ∀ x ∈ f m, P x) (fuel count : Nat) {c : Cursor}
    (hc : ∀ x ∈ c.after, P x) : ∀ x ∈ subFrom r f fuel count c, P x := by
  induction fuel generalizing count c with
  | zero => exact hc
  | succ fuel ih =>
      cases count with
      | zero => exact hc
      | succ count =>
          rw [subFrom]
          split
          · simp
          · rename_i y rest hafter
            have hskip : ∀ x ∈ y :: subFrom r f fuel (count + 1)
                { before := y :: c.before, after := rest }, P x := by
              rw [List.forall_mem_cons]
              refine ⟨hc y (by simp [hafter]), ih (count + 1) ?_⟩
              exact fun x hx => hc x (by simp [hafter, hx])
            split
            · exact hskip
            · rename_i m hm
              split
              · intro x hx
                rcases List.mem_append.mp hx with hx | hx
                · exact hf _ (match_all hm hc) x hx
                · exact ih count (matchAt_all hm hc).after x hx
              · exact hskip

/-- **A class that holds of a text, and of a replacement of what is in the class, holds of the
result**, however many matches are replaced. -/
theorem all_subCount {P : Char → Prop} {count : Nat} {r : Pattern} {f : Match → List Char}
    {s : List Char} (hf : ∀ m : Match, m.All P → ∀ x ∈ f m, P x) (hs : ∀ x ∈ s, P x) :
    ∀ x ∈ subCount count r f s, P x :=
  all_subFrom hf _ _ hs

/-! ## What is read -/

/-- A step reads the words of a language: wherever it can go, it has passed one of them, and it can
go past any of them. -/
def Reads (step : Progress → List Progress) (L : Language Char) : Prop :=
  ∀ m t, (∃ m' ∈ step m, m'.cursor.after = t) ↔ ∃ w ∈ L, m.cursor.after = w ++ t

/-- The words of one character of a class. -/
def oneOf (p : Char → Bool) : Language Char := {w | ∃ c, p c = true ∧ w = [c]}

theorem reads_set (p : Char → Bool) : Reads (ways (.set p)) (oneOf p) := by
  intro m t
  rw [ways, Cursor.next]
  constructor
  · intro h
    obtain ⟨m', hm', rfl⟩ := h
    cases hafter : m.cursor.after with
    | nil => simp [hafter] at hm'
    | cons x rest =>
        cases hx : p x with
        | false => simp [hafter, hx] at hm'
        | true =>
            simp only [hafter, hx, if_true, Option.toList_some, List.map_cons, List.map_nil,
              List.mem_singleton] at hm'
            exact ⟨[x], ⟨x, hx, rfl⟩, by simp [hm']⟩
  · intro h
    obtain ⟨-, ⟨x, hx, rfl⟩, hafter⟩ := h
    simp [hafter, hx]

theorem Reads.andThen {f g : Progress → List Progress} {A B : Language Char} (hf : Reads f A)
    (hg : Reads g B) : Reads (fun m => (f m).flatMap g) (A * B) := by
  intro m t
  constructor
  · intro h
    obtain ⟨m', hm', rfl⟩ := h
    obtain ⟨m₁, h₁, hm'⟩ := List.mem_flatMap.mp hm'
    obtain ⟨u, hu, hafter₁⟩ := (hf m _).mp ⟨m₁, h₁, rfl⟩
    obtain ⟨v, hv, hafter⟩ := (hg m₁ _).mp ⟨m', hm', rfl⟩
    exact ⟨u ++ v, Language.append_mem_mul hu hv, by rw [hafter₁, hafter, List.append_assoc]⟩
  · intro h
    obtain ⟨w, hw, hafter⟩ := h
    obtain ⟨u, hu, v, hv, rfl⟩ := Language.mem_mul.mp hw
    rw [List.append_assoc] at hafter
    obtain ⟨m₁, h₁, hafter₁⟩ := (hf m (v ++ t)).mpr ⟨u, hu, hafter⟩
    obtain ⟨m', hm', ht⟩ := (hg m₁ t).mpr ⟨v, hv, hafter₁⟩
    exact ⟨m', List.mem_flatMap.mpr ⟨m₁, h₁, hm'⟩, ht⟩

theorem Reads.seq {a b : Pattern} {A B : Language Char} (ha : Reads (ways a) A)
    (hb : Reads (ways b) B) : Reads (ways (.seq a b)) (A * B) := ha.andThen hb

theorem Reads.times {step : Progress → List Progress} {L : Language Char} (h : Reads step L)
    (n : Nat) : Reads (times step n) (L ^ n) := by
  induction n with
  | zero =>
      intro m t
      simp [Regex.times, Language.mem_one]
  | succ n ih =>
      rw [pow_succ']
      exact h.andThen ih

theorem Reads.greedy {step : Progress → List Progress} {L : Language Char} (h : Reads step L)
    (n : Nat) (m : Progress) (t : List Char) :
    (∃ m' ∈ greedy step n m, m'.cursor.after = t)
      ↔ ∃ k ≤ n, ∃ w ∈ L ^ k, m.cursor.after = w ++ t := by
  induction n generalizing m with
  | zero => simp [Regex.greedy, Language.mem_one]
  | succ n ih =>
      rw [Regex.greedy]
      constructor
      · intro h
        obtain ⟨m', hm', rfl⟩ := h
        rw [List.mem_append, List.mem_flatMap, List.mem_singleton] at hm'
        obtain ⟨m₁, h₁, hm'⟩ | rfl := hm'
        · obtain ⟨u, hu, hafter₁⟩ := (h m _).mp ⟨m₁, h₁, rfl⟩
          obtain ⟨k, hk, v, hv, hafter⟩ := (ih m₁).mp ⟨m', hm', rfl⟩
          refine ⟨k + 1, by omega, u ++ v, ?_, by rw [hafter₁, hafter, List.append_assoc]⟩
          rw [pow_succ']
          exact Language.append_mem_mul hu hv
        · exact ⟨0, by omega, [], by simp [Language.mem_one], rfl⟩
      · intro h
        obtain ⟨k, hk, w, hw, hafter⟩ := h
        cases k with
        | zero =>
            rw [pow_zero, Language.mem_one] at hw
            subst hw
            exact ⟨m, by simp, hafter⟩
        | succ k =>
            rw [pow_succ'] at hw
            obtain ⟨u, hu, v, hv, rfl⟩ := Language.mem_mul.mp hw
            rw [List.append_assoc] at hafter
            obtain ⟨m₁, h₁, hafter₁⟩ := (h m (v ++ t)).mpr ⟨u, hu, hafter⟩
            obtain ⟨m', hm', ht⟩ := (ih m₁).mpr ⟨k, by omega, v, hv, hafter₁⟩
            refine ⟨m', ?_, ht⟩
            exact List.mem_append_left _ (List.mem_flatMap.mpr ⟨m₁, h₁, hm'⟩)

/-! ### Repetitions -/

/-- The words of at least some number of characters, all of a class. -/
def runs (least : Nat) (p : Char → Bool) : Language Char :=
  {w | least ≤ w.length ∧ ∀ c ∈ w, p c = true}

theorem mem_pow_oneOf {p : Char → Bool} {n : Nat} {w : List Char} :
    w ∈ oneOf p ^ n ↔ w.length = n ∧ ∀ c ∈ w, p c = true := by
  induction n generalizing w with
  | zero =>
      rw [pow_zero, Language.mem_one, List.length_eq_zero_iff]
      exact ⟨fun h => ⟨h, by simp [h]⟩, And.left⟩
  | succ n ih =>
      rw [pow_succ', Language.mem_mul]
      constructor
      · intro h
        obtain ⟨-, ⟨c, hc, rfl⟩, v, hv, rfl⟩ := h
        obtain ⟨hlen, hall⟩ := ih.mp hv
        exact ⟨by simp [hlen], by simpa [hc] using hall⟩
      · intro h
        obtain ⟨hlen, hall⟩ := h
        obtain ⟨c, v, rfl⟩ := List.exists_cons_of_length_eq_add_one hlen
        rw [List.forall_mem_cons] at hall
        exact ⟨[c], ⟨c, hall.1, rfl⟩, v, ih.mpr ⟨by simpa using hlen, hall.2⟩, rfl⟩

/-- A repetition of a class, as often as the text allows, reads the runs of the class. -/
theorem reads_rep_set (least : Nat) (p : Char → Bool) :
    Reads (ways (.rep least none (.set p))) (runs least p) := by
  have hstep := reads_set p
  intro m t
  constructor
  · intro h
    obtain ⟨m', hm', rfl⟩ := h
    rw [ways, List.mem_flatMap] at hm'
    obtain ⟨m₁, h₁, hm'⟩ := hm'
    obtain ⟨u, hu, hafter₁⟩ := (hstep.times least m _).mp ⟨m₁, h₁, rfl⟩
    obtain ⟨k, -, v, hv, hafter⟩ := (hstep.greedy _ m₁ _).mp ⟨m', hm', rfl⟩
    rw [mem_pow_oneOf] at hu hv
    refine ⟨u ++ v, ⟨?_, ?_⟩, by rw [hafter₁, hafter, List.append_assoc]⟩
    · rw [List.length_append]
      omega
    · exact List.forall_mem_append.mpr ⟨hu.2, hv.2⟩
  · intro h
    obtain ⟨w, ⟨hlen, hall⟩, hafter⟩ := h
    have hu : w.take least ∈ oneOf p ^ least :=
      mem_pow_oneOf.mpr ⟨by simp [hlen], fun c hc => hall c (List.mem_of_mem_take hc)⟩
    have hv : w.drop least ∈ oneOf p ^ (w.length - least) :=
      mem_pow_oneOf.mpr ⟨by simp, fun c hc => hall c (List.mem_of_mem_drop hc)⟩
    obtain ⟨m₁, h₁, hafter₁⟩ := (hstep.times least m (w.drop least ++ t)).mpr
      ⟨_, hu, by rw [hafter, ← List.append_assoc, List.take_append_drop]⟩
    have hfuel : w.length - least ≤ m₁.cursor.after.length := by
      rw [hafter₁, List.length_append, List.length_drop]
      omega
    obtain ⟨m', hm', ht⟩ := (hstep.greedy _ m₁ t).mpr ⟨_, hfuel, _, hv, hafter₁⟩
    rw [ways]
    exact ⟨m', List.mem_flatMap.mpr ⟨m₁, h₁, hm'⟩, ht⟩

/-- The preferred way goes on while it can. -/
theorem greedy_set_longest {p : Char → Bool} (n : Nat) {m m' : Progress}
    (hn : m.cursor.after.length ≤ n) (h : (greedy (ways (.set p)) n m).head? = some m') :
    ∀ c, m'.cursor.after.head? = some c → p c = false := by
  induction n generalizing m with
  | zero =>
      have hnil : m.cursor.after = [] := List.eq_nil_of_length_eq_zero (by omega)
      have hm : m = m' := by simpa [greedy] using h
      simp [← hm, hnil]
  | succ n ih =>
      rw [greedy, ways, Cursor.next] at h
      cases hafter : m.cursor.after with
      | nil =>
          have hm : m = m' := by simpa [hafter] using h
          simp [← hm, hafter]
      | cons x rest =>
          cases hx : p x with
          | false =>
              have hm : m = m' := by simpa [hafter, hx] using h
              intro c hc
              rw [← hm, hafter, List.head?_cons, Option.some.injEq] at hc
              exact hc ▸ hx
          | true =>
              have hlen : rest.length ≤ n := by
                rw [hafter, List.length_cons] at hn
                omega
              simp only [hafter, hx, if_true, Option.toList_some, List.map_cons, List.map_nil,
                List.flatMap_cons, List.flatMap_nil, List.append_nil] at h
              generalize hm₁ : ({ m with cursor := _ } : Progress) = m₁ at h
              have hafter₁ : m₁.cursor.after = rest := by simp [← hm₁]
              refine ih (m := m₁) (by rw [hafter₁]; exact hlen) ?_
              rw [List.head?_append] at h
              cases hhead : (greedy (ways (.set p)) n m₁).head? with
              | some m₂ => simpa [hhead] using h
              | none => exact absurd (List.head?_eq_none_iff.mp hhead) (greedy_ne_nil _ n m₁)

/-- The match of such a repetition ends where the run does. -/
theorem matchAt_rep_set_longest {least : Nat} {p : Char → Bool} {c : Cursor} {m : Progress}
    (h : matchAt (.rep least none (.set p)) c = some m) :
    ∀ x, m.cursor.after.head? = some x → p x = false := by
  rw [matchAt, ways, List.head?_flatMap] at h
  obtain ⟨m₁, -, h₁⟩ := List.exists_of_findSome?_eq_some h
  exact greedy_set_longest _ (Nat.le_refl _) h₁

/-! ### Matches and searches -/

/-- A pattern that starts with a class of characters does not match anything else. -/
theorem matchAt_seq_set {p : Char → Bool} {r : Pattern} {c : Cursor}
    (h : ∀ x, c.after.head? = some x → p x = false) : matchAt (.seq (.set p) r) c = none := by
  cases hafter : c.after with
  | nil => simp [matchAt, ways, Cursor.next, hafter]
  | cons x rest => simp [matchAt, ways, Cursor.next, hafter, h x (by simp [hafter])]

section

variable {r : Pattern} {L : Language Char}

theorem Reads.matchAt_eq_none (hr : Reads (ways r) L) {c : Cursor} :
    matchAt r c = none ↔ ∀ w ∈ L, ¬ w <+: c.after := by
  rw [matchAt, List.head?_eq_none_iff]
  constructor
  · intro hnil w hw h
    obtain ⟨t, ht⟩ := h
    obtain ⟨m', hm', -⟩ := (hr ⟨c, []⟩ t).mpr ⟨w, hw, ht.symm⟩
    exact absurd (hnil ▸ hm') List.not_mem_nil
  · intro hnone
    rw [List.eq_nil_iff_forall_not_mem]
    intro m' hm'
    obtain ⟨w, hw, hafter⟩ := (hr ⟨c, []⟩ _).mp ⟨m', hm', rfl⟩
    exact hnone w hw ⟨_, hafter.symm⟩

theorem Reads.matchAt_eq_some (hr : Reads (ways r) L) {c : Cursor} {m : Progress}
    (h : matchAt r c = some m) : ∃ w ∈ L, c.after = w ++ m.cursor.after :=
  (hr ⟨c, []⟩ _).mp ⟨m, List.mem_of_mem_head? h, rfl⟩

/-- A pattern that does not read the empty word does not match where it matches nothing. -/
theorem Reads.matchAt_eq_none_of_le (hr : Reads (ways r) L) (hnil : [] ∉ L) {c : Cursor}
    (h : ∀ m, matchAt r c = some m → c.after.length ≤ m.cursor.after.length) :
    matchAt r c = none := by
  rw [Option.eq_none_iff_forall_ne_some]
  intro m hm
  obtain ⟨w, hw, hafter⟩ := hr.matchAt_eq_some hm
  have hlen := h m hm
  rw [hafter, List.length_append] at hlen
  have hw₀ : w = [] := List.eq_nil_of_length_eq_zero (by omega)
  exact hnil (hw₀ ▸ hw)

theorem Reads.searchFrom_eq_none (hr : Reads (ways r) L) (before : List Char) {s : List Char} :
    searchFrom r before s = none ↔ ∀ w ∈ L, ¬ w <:+: s := by
  induction s generalizing before with
  | nil =>
      rw [searchFrom, Option.map_eq_none_iff, hr.matchAt_eq_none]
      simp
  | cons x rest ih =>
      rw [searchFrom]
      simp only [List.infix_cons_iff, not_or, forall_and, ← ih (x :: before)]
      cases hm : matchAt r { before := before, after := x :: rest } with
      | none =>
          have hnone := hr.matchAt_eq_none.mp hm
          simpa using fun _ w hw => hnone w hw
      | some m =>
          simp only [Option.isSome_some, if_true, reduceCtorEq, false_iff, not_and]
          intro hnone
          rw [hr.matchAt_eq_none.mpr hnone] at hm
          exact absurd hm (by simp)

/-- **Nothing is found exactly if no word of the language stands in the text.** -/
theorem Reads.search_eq_none (hr : Reads (ways r) L) {s : List Char} :
    search r s = none ↔ ∀ w ∈ L, ¬ w <:+: s :=
  hr.searchFrom_eq_none []

end

/-! ### What a match cannot do without -/

/-- Every match of a pattern takes a character of a class. -/
def Asks (p : Char → Bool) : Pattern → Prop
  | .set q => ∀ c, q c = true → p c = true
  | .seq a b => Asks p a ∨ Asks p b
  | .alt a b => Asks p a ∧ Asks p b
  | .rep least _ r => 0 < least ∧ Asks p r
  | .group _ r => Asks p r
  | _ => False

theorem asks_lit {p : Char → Bool} {s : String} (h : s.toList.any p = true) : Asks p (lit s) := by
  unfold lit
  generalize s.toList = cs at h
  induction cs with
  | nil => cases h
  | cons c cs ih =>
      have hc : p c = true → Asks p (.set (· == c)) := fun hp x hx => by rwa [beq_iff_eq.mp hx]
      rw [List.any_cons, Bool.or_eq_true] at h
      cases cs with
      | nil => exact hc (h.resolve_right (by simp))
      | cons _ _ => exact h.imp hc ih

theorem asks_among {p : Char → Bool} {s : String} (h : s.toList.all p = true) :
    Asks p (.set (among s)) := fun c hc =>
  List.all_eq_true.mp h c (List.contains_iff_mem.mp hc)

theorem ways_of_asks {p : Char → Bool} {r : Pattern} (hr : Asks p r) {m : Progress}
    (hm : ∀ x ∈ m.cursor.after, p x = false) : ways r m = [] := by
  induction r generalizing m with
  | eps | ahead | behind | boundary | start | finish => exact hr.elim
  | set q =>
      rw [ways, Cursor.next]
      cases hafter : m.cursor.after with
      | nil => rfl
      | cons x rest =>
          have hx : q x ≠ true := fun hq => by simpa [hr x hq] using hm x (by simp [hafter])
          simp [hx]
  | seq a b iha ihb =>
      rw [ways]
      rcases hr with ha | hb
      · rw [iha ha hm, List.flatMap_nil]
      · rw [List.flatMap_eq_nil_iff]
        exact fun m₁ h₁ => ihb hb fun x hx => hm x ((ways_suffix a h₁).mem hx)
  | alt a b iha ihb => rw [ways, iha hr.1 hm, ihb hr.2 hm, List.nil_append]
  | rep least most r ih =>
      obtain ⟨hleast, hr⟩ := hr
      obtain ⟨n, rfl⟩ := Nat.exists_eq_add_of_lt hleast
      rw [ways, Nat.zero_add, times, ih hr hm, List.flatMap_nil, List.flatMap_nil]
  | group n r ih => rw [ways, ih hr hm, List.map_nil]

/-- **In a text without the class nothing is found.** -/
theorem search_of_asks {p : Char → Bool} {r : Pattern} (hr : Asks p r) {s : List Char}
    (hs : ∀ x ∈ s, p x = false) : search r s = none := by
  have hmatch : ∀ {c : Cursor}, (∀ x ∈ c.after, p x = false) → matchAt r c = none := by
    intro c hc
    rw [matchAt, ways_of_asks hr hc, List.head?_nil]
  have hfrom : ∀ before, searchFrom r before s = none := by
    induction s with
    | nil => exact fun before => by rw [searchFrom, hmatch hs, Option.map_none]
    | cons x rest ih =>
        intro before
        rw [searchFrom, hmatch hs, if_neg (by simp)]
        exact ih (List.forall_mem_cons.mp hs).2 (x :: before)
  exact hfrom []

/-! ## What a replacement leaves -/

/-- A piece of a text that is read from the left: a character that stays, or a match. -/
inductive Piece
  | kept (x : Char)
  | matched (m : Match)

/-- `re.finditer` from a cursor on, without the matches of nothing, and with the characters between
the matches. -/
def piecesFrom (r : Pattern) : (fuel : Nat) → Cursor → List Piece
  | 0, _ => []
  | fuel + 1, c =>
      match c.after with
      | [] => []
      | x :: rest =>
          let skip := fun (_ : Unit) =>
            .kept x :: piecesFrom r fuel { before := x :: c.before, after := rest }
          match matchAt r c with
          | none => skip ()
          | some m =>
              if m.cursor.after.length < c.after.length then
                .matched { text := c.upTo m.cursor, groups := m.groups } :: piecesFrom r fuel m.cursor
              else skip ()

/-- The pieces of a text, as `sub` goes through it. -/
def pieces (r : Pattern) (text : List Char) : List Piece :=
  piecesFrom r text.length { before := [], after := text }

/-- The text that pieces make when a replacement is put for the matches. -/
def rewritten (f : Match → List Char) : List Piece → List Char
  | [] => []
  | .kept x :: ps => x :: rewritten f ps
  | .matched m :: ps => f m ++ rewritten f ps

@[simp] theorem rewritten_nil (f : Match → List Char) : rewritten f [] = [] := rfl

@[simp] theorem rewritten_kept (f : Match → List Char) (x : Char) (ps : List Piece) :
    rewritten f (.kept x :: ps) = x :: rewritten f ps := rfl

@[simp] theorem rewritten_matched (f : Match → List Char) (m : Match) (ps : List Piece) :
    rewritten f (.matched m :: ps) = f m ++ rewritten f ps := rfl

theorem rewritten_append (f : Match → List Char) (ps qs : List Piece) :
    rewritten f (ps ++ qs) = rewritten f ps ++ rewritten f qs := by
  induction ps with
  | nil => rfl
  | cons piece ps ih => cases piece <;> simp [ih]

theorem rewritten_map_kept (f : Match → List Char) (s : List Char) :
    rewritten f (s.map .kept) = s := by
  induction s with
  | nil => rfl
  | cons x s ih => rw [List.map_cons, rewritten_kept, ih]

theorem subFrom_of_none {r : Pattern} {f : Match → List Char} {before s : List Char}
    (h : searchFrom r before s = none) (fuel count : Nat) :
    subFrom r f fuel count { before := before, after := s } = s := by
  induction fuel generalizing before s with
  | zero => rfl
  | succ fuel ih =>
      cases count with
      | zero => rfl
      | succ count =>
          cases s with
          | nil => rfl
          | cons x rest =>
              rw [searchFrom] at h
              split at h
              · exact absurd h (by simp)
              · rename_i hmatch
                rw [Bool.not_eq_true, Option.isSome_eq_false_iff, Option.isNone_iff_eq_none] at hmatch
                rw [subFrom]
                simp [hmatch, ih h]

/-- **Where nothing is found all stays.** -/
theorem subCount_of_none {r : Pattern} {f : Match → List Char} {s : List Char}
    (h : search r s = none) (count : Nat) : subCount count r f s = s :=
  subFrom_of_none h _ _

/-- How a text is read from a cursor on. -/
inductive Reading (r : Pattern) : Cursor → List Piece → Prop
  | done {before : List Char} : Reading r { before := before, after := [] } []
  | kept {before rest : List Char} {x : Char} {ps : List Piece}
      (hnone : ∀ m, matchAt r { before := before, after := x :: rest } = some m →
        (x :: rest).length ≤ m.cursor.after.length)
      (hrest : Reading r { before := x :: before, after := rest } ps) :
      Reading r { before := before, after := x :: rest } (.kept x :: ps)
  | matched {c : Cursor} {m : Progress} {ps : List Piece}
      (hmatch : matchAt r c = some m) (hshort : m.cursor.after.length < c.after.length)
      (hrest : Reading r m.cursor ps) :
      Reading r c (.matched { text := c.upTo m.cursor, groups := m.groups } :: ps)

theorem piecesFrom_reading (r : Pattern) (fuel : Nat) (c : Cursor) (hfuel : c.after.length ≤ fuel) :
    Reading r c (piecesFrom r fuel c) := by
  induction fuel generalizing c with
  | zero =>
      obtain ⟨before, after⟩ := c
      obtain rfl : after = [] := List.eq_nil_of_length_eq_zero (Nat.le_zero.mp hfuel)
      exact .done
  | succ fuel ih =>
      obtain ⟨before, after⟩ := c
      cases after with
      | nil => exact .done
      | cons x rest =>
          simp only [List.length_cons] at hfuel
          have hskip := ih { before := x :: before, after := rest } (by dsimp only; omega)
          rw [piecesFrom]
          dsimp only
          cases hm : matchAt r { before := before, after := x :: rest } with
          | none => exact .kept (by simp [hm]) hskip
          | some m =>
              dsimp only
              by_cases hshort : m.cursor.after.length < (x :: rest).length
              · rw [if_pos hshort]
                rw [List.length_cons] at hshort
                exact .matched hm (by simpa using hshort) (ih m.cursor (by omega))
              · rw [if_neg hshort]
                refine .kept ?_ hskip
                intro m' hm'
                rw [hm, Option.some.injEq] at hm'
                exact hm' ▸ Nat.le_of_not_lt hshort

theorem pieces_reading (r : Pattern) (s : List Char) :
    Reading r { before := [], after := s } (pieces r s) :=
  piecesFrom_reading r _ _ (Nat.le_refl _)

section

variable {r : Pattern} {f : Match → List Char} {c : Cursor} {ps : List Piece}

/-- `sub` goes the same way, as far as its fuel and its count allow. -/
theorem Reading.subFrom_eq (h : Reading r c ps) (fuel count : Nat) (hfuel : c.after.length ≤ fuel)
    (hcount : c.after.length ≤ count) : subFrom r f fuel count c = rewritten f ps := by
  induction h generalizing fuel count with
  | done => cases fuel <;> cases count <;> rfl
  | kept hnone hrest ih =>
      rename_i before rest x ps
      match fuel, count, hfuel, hcount with
      | fuel + 1, count + 1, hfuel, hcount =>
          have hskip := ih fuel (count + 1) (Nat.le_of_succ_le_succ hfuel) (Nat.le_of_succ_le hcount)
          rw [subFrom, rewritten_kept, ← hskip]
          dsimp only
          cases hm : matchAt r { before := before, after := x :: rest } with
          | none => rfl
          | some m => exact if_neg (Nat.not_lt.mpr (hnone m hm))
  | matched hmatch hshort hrest ih =>
      rename_i c m ps
      obtain ⟨before, after⟩ := c
      match after, fuel, count, hfuel, hcount with
      | [], _, _, _, _ => exact absurd hshort (Nat.not_lt_zero _)
      | x :: rest, fuel + 1, count + 1, hfuel, hcount =>
          have hrest : m.cursor.after.length ≤ rest.length := Nat.le_of_lt_succ hshort
          rw [subFrom, rewritten_matched, hmatch]
          dsimp only
          rw [if_pos hshort, ih fuel count (hrest.trans (Nat.le_of_succ_le_succ hfuel))
            (hrest.trans (Nat.le_of_succ_le_succ hcount))]

theorem sub_eq_rewritten (r : Pattern) (f : Match → List Char) (s : List Char) :
    sub r f s = rewritten f (pieces r s) :=
  (pieces_reading r s).subFrom_eq _ _ (Nat.le_refl _) (Nat.le_refl _)

/-- Where nothing matches the first character stays. -/
theorem Reading.head (h : Reading r c ps) (hnone : matchAt r c = none) :
    (rewritten f ps).head? = c.after.head? := by
  cases h with
  | done => rfl
  | kept => rfl
  | matched hmatch => exact absurd hmatch (by simp [hnone])

/-- **In a text without a class of characters they come from the replacements alone.** -/
theorem Reading.free_iff {p : Char → Bool} (h : Reading r c ps)
    (hc : ∀ x ∈ c.after, p x = false) :
    (∀ x ∈ rewritten f ps, p x = false) ↔ ∀ m, .matched m ∈ ps → ∀ x ∈ f m, p x = false := by
  induction h with
  | done => simp
  | kept hnone hrest ih =>
      rw [List.forall_mem_cons] at hc
      rw [rewritten_kept, List.forall_mem_cons, ih hc.2]
      simp [hc.1]
  | matched hmatch hshort hrest ih =>
      rw [rewritten_matched, List.forall_mem_append, ih (matchAt_all hmatch hc).after]
      simp [or_imp, forall_and]

/-- Where nothing can match all stays. -/
theorem Reading.rewritten_eq {P : Char → Prop} (h : Reading r c ps)
    (hr : ∀ c : Cursor, (∀ x ∈ c.after, P x) → matchAt r c = none) (hc : ∀ x ∈ c.after, P x) :
    rewritten f ps = c.after := by
  induction h with
  | done => rfl
  | kept hnone hrest ih => rw [rewritten_kept, ih (List.forall_mem_cons.mp hc).2]
  | matched hmatch => exact absurd hmatch (by simp [hr _ hc])

/-- Replacing each character of a class leaves none of them. -/
theorem Reading.free_set {p : Char → Bool} (h : Reading (.set p) c ps)
    (hf : ∀ m, ∀ x ∈ f m, p x = false) : ∀ x ∈ rewritten f ps, p x = false := by
  induction h with
  | done => simp
  | kept hnone hrest ih =>
      rename_i before rest x ps
      rw [rewritten_kept, List.forall_mem_cons]
      refine ⟨?_, ih⟩
      by_contra hx
      rw [Bool.not_eq_false] at hx
      have hm : matchAt (.set p) { before := before, after := x :: rest }
          = some { cursor := { before := x :: before, after := rest }, groups := [] } := by
        simp [matchAt, ways, Cursor.next, hx]
      exact absurd (hnone _ hm) (by simp)
  | matched hmatch hshort hrest ih =>
      exact List.forall_mem_append.mpr ⟨hf _, ih⟩

end

end Regex
