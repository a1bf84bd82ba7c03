import YapInference.Lib.RegexLaws

/-!
# Patterns for whole words

A text can be read as words with one separator between them. A pattern that never matches within a
word, or across the end of one, replaces words one at a time: the result of `sub` is then a function
of each word, and the text may be cut at any separator.
-/

namespace Regex

/-! ## Word by word -/

/-- What a function makes of the words of a text, when `word` has been read of the first. -/
def eachWord (sep : Char) (f : List Char → List Char) (word : List Char) : List Char → List Char
  | [] => f word
  | c :: s =>
      if c = sep then f word ++ sep :: eachWord sep f [] s else eachWord sep f (word ++ [c]) s

/-- A text that begins with a separator, if with anything. -/
def Gap (sep : Char) (s : List Char) : Prop := ∀ c ∈ s.head?, c = sep

section

variable {sep : Char} {f g : List Char → List Char}

theorem eachWord_word {s : List Char} (hs : sep ∉ s) (word : List Char) :
    eachWord sep f word s = f (word ++ s) := by
  induction s generalizing word with
  | nil => rw [eachWord, List.append_nil]
  | cons c s ih =>
      rw [List.mem_cons, not_or] at hs
      rw [eachWord, if_neg (Ne.symm hs.1), ih hs.2, List.append_assoc, List.singleton_append]

theorem eachWord_append (word s t : List Char) :
    eachWord sep f word (s ++ sep :: t) = eachWord sep f word s ++ sep :: eachWord sep f [] t := by
  induction s generalizing word with
  | nil => rw [List.nil_append, eachWord, eachWord, if_pos rfl]
  | cons c s ih =>
      rw [List.cons_append, eachWord, eachWord, ih, ih]
      split
      · rw [List.append_assoc, List.cons_append]
      · rfl

/-- **Before a separator, or after one, the text may be cut.** -/
theorem eachWord_append_gap (hnil : f [] = []) {s t : List Char}
    (h : Gap sep s.reverse ∨ Gap sep t) :
    eachWord sep f [] (s ++ t) = eachWord sep f [] s ++ eachWord sep f [] t := by
  rcases h with hs | ht
  · cases s using List.reverseRecOn with
    | nil => rw [List.nil_append, eachWord, hnil, List.nil_append]
    | append_singleton s c =>
        obtain rfl := hs c (by simp)
        rw [List.append_assoc, List.singleton_append, eachWord_append, eachWord_append, eachWord,
          hnil, List.append_assoc]
        rfl
  · cases t with
    | nil => rw [List.append_nil, eachWord, hnil, List.append_nil]
    | cons c t =>
        obtain rfl := ht c rfl
        rw [eachWord_append, eachWord, if_pos rfl, hnil, List.nil_append]

theorem eachWord_all {P : Char → Prop} (hf : ∀ word, (∀ c ∈ word, P c) → ∀ c ∈ f word, P c)
    (hsep : P sep) {word s : List Char} (hword : ∀ c ∈ word, P c) (hs : ∀ c ∈ s, P c) :
    ∀ c ∈ eachWord sep f word s, P c := by
  induction s generalizing word with
  | nil => exact hf word hword
  | cons c s ih =>
      rw [List.forall_mem_cons] at hs
      rw [eachWord]
      split
      · exact List.forall_mem_append.mpr
          ⟨hf word hword, List.forall_mem_cons.mpr ⟨hsep, ih (by simp) hs.2⟩⟩
      · exact ih (by simpa [or_imp, forall_and] using ⟨hword, hs.1⟩) hs.2

/-- One function of each word after another. -/
theorem eachWord_eachWord (hg : ∀ word, sep ∉ word → sep ∉ g word) {word : List Char}
    (hword : sep ∉ word) (s : List Char) :
    eachWord sep f [] (eachWord sep g word s) = eachWord sep (f ∘ g) word s := by
  induction s generalizing word with
  | nil => exact eachWord_word (hg word hword) []
  | cons c s ih =>
      rw [eachWord, eachWord]
      split
      · rw [eachWord_append, eachWord_word (hg word hword) [], List.nil_append,
          ih List.not_mem_nil]
        rfl
      · exact ih (by simp_all [eq_comm])

/-- A word begins the text, and a run of a class with it. -/
theorem run_of_word {p : Char → Bool} (hsep : p sep = false) {word after u rest : List Char}
    (hgap : Gap sep after) (hu : ∀ c ∈ u, p c = true) (h : word ++ after = u ++ rest) :
    ∃ z, word = u ++ z ∧ rest = z ++ after := by
  rcases List.append_eq_append_iff.mp h with ⟨z, hz, hafter⟩ | ⟨z, hz, hrest⟩
  · cases z with
    | nil => exact ⟨[], by simpa using hz.symm, by simpa using hafter.symm⟩
    | cons c z =>
        have hc : c = sep := hgap c (by simp [hafter])
        have hp := hu c (by simp [hz])
        rw [hc, hsep] at hp
        exact absurd hp (by simp)
  · exact ⟨z, hz, hrest⟩

end

/-! ## Patterns -/

/-- A text of words, made of characters of a class, and of separators. -/
def Worded (sep : Char) (p : Char → Bool) (s : List Char) : Prop := ∀ c ∈ s, p c = true ∨ c = sep

/-- A pattern that matches certain whole words, and nothing else. -/
structure OnWords (sep : Char) (p : Char → Bool) (hit : List Char → Bool) (r : Pattern) :
    Prop where
  gap : ∀ {before after}, Gap sep after → Worded sep p after →
    matchAt r { before := before, after := after } = none
  inside : ∀ {b before x after}, p b = true → p x = true →
    matchAt r { before := b :: before, after := x :: after } = none
  whole : ∀ {before word after}, Gap sep before → word ≠ [] → (∀ c ∈ word, p c = true) →
    Gap sep after → Worded sep p after →
    (matchAt r { before := before, after := word ++ after }).map (·.cursor.after)
      = if hit word then some after else none

section

variable {sep : Char} {p : Char → Bool} {hit : List Char → Bool} {r : Pattern}
  {f : List Char → List Char}

/-- Within a word all stays. -/
theorem OnWords.reading_inside (hr : OnWords sep p hit r) {b : Char}
    {before word after : List Char} {ps : List Piece} (hb : p b = true)
    (hword : ∀ c ∈ word, p c = true)
    (h : Reading r { before := word.reverse ++ b :: before, after := after } ps) :
    Reading r { before := b :: before, after := word ++ after } (word.map .kept ++ ps) := by
  induction word generalizing b before with
  | nil => exact h
  | cons c word ih =>
      rw [List.forall_mem_cons] at hword
      refine .kept (by simp [hr.inside hb hword.1]) (ih hword.1 hword.2 ?_)
      simpa using h

/-- A word is a match, or it stays. -/
theorem OnWords.reading_word (hr : OnWords sep p hit r) {before word after : List Char}
    {ps : List Piece} (hbefore : Gap sep before) (hne : word ≠ [])
    (hword : ∀ c ∈ word, p c = true) (hafter : Gap sep after) (hall : Worded sep p after)
    (h : Reading r { before := word.reverse ++ before, after := after } ps) :
    ∃ qs, Reading r { before := before, after := word ++ after } qs
      ∧ rewritten (fun m => f m.text) qs
        = (if hit word then f word else word) ++ rewritten (fun m => f m.text) ps := by
  have hwhole := hr.whole hbefore hne hword hafter hall
  cases hhit : hit word with
  | true =>
      rw [hhit, if_pos rfl, Option.map_eq_some_iff] at hwhole
      obtain ⟨m, hm, hend⟩ := hwhole
      obtain ⟨w, hw, hpassed⟩ := ways_leads (m := ⟨_, []⟩) r (List.mem_of_mem_head? hm)
      rw [hend] at hw
      obtain rfl := List.append_cancel_right hw
      have hcursor : m.cursor = { before := word.reverse ++ before, after := after } := by
        rw [← hpassed, ← hend]
      have htext : Cursor.upTo { before := before, after := word ++ after } m.cursor = word := by
        simp [Cursor.upTo, hend]
      have hpos := List.length_pos_iff.mpr hne
      have hmatched := Reading.matched hm (by simp [hend]; omega) (hcursor ▸ h)
      rw [htext] at hmatched
      exact ⟨_, hmatched, by simp⟩
  | false =>
      rw [hhit, if_neg (by simp), Option.map_eq_none_iff] at hwhole
      obtain ⟨c, word, rfl⟩ := List.exists_cons_of_ne_nil hne
      rw [List.forall_mem_cons] at hword
      have hrest : Reading r { before := c :: before, after := word ++ after }
          (word.map .kept ++ ps) := hr.reading_inside hword.1 hword.2 (by simpa using h)
      rw [List.cons_append] at hwhole
      refine ⟨_, .kept (by simp [hwhole]) hrest, ?_⟩
      simp [rewritten_append, rewritten_map_kept]

/-- **Replacing what it finds is a function of each word.** -/
theorem OnWords.sub_eq (hr : OnWords sep p hit r) (hnil : hit [] = false) {s : List Char}
    (hs : Worded sep p s) : sub r (fun m => f m.text) s
      = eachWord sep (fun word => if hit word then f word else word) [] s := by
  have hfrom : ∀ before word s, Gap sep before → (∀ c ∈ word, p c = true) → Worded sep p s →
      ∃ ps, Reading r { before := before, after := word ++ s } ps
        ∧ rewritten (fun m => f m.text) ps
          = eachWord sep (fun word => if hit word then f word else word) word s := by
    intro before word s hbefore hword hs
    induction s generalizing before word with
    | nil =>
        by_cases hne : word = []
        · subst hne
          exact ⟨[], .done, by simp [eachWord, hnil]⟩
        · obtain ⟨qs, hqs, heq⟩ := hr.reading_word (f := f) hbefore hne hword (by simp [Gap]) hs
            .done
          exact ⟨qs, hqs, by simpa [eachWord] using heq⟩
    | cons c s ih =>
        have hall := hs
        rw [Worded, List.forall_mem_cons] at hs
        by_cases hc : c = sep
        · -- the word ends here
          subst hc
          obtain ⟨ps, hps, heq⟩ := ih (c :: (word.reverse ++ before)) [] (by simp [Gap]) (by simp)
            hs.2
          have hkept : Reading r { before := word.reverse ++ before, after := c :: s }
              (.kept c :: ps) := by
            have hgap : matchAt r { before := word.reverse ++ before, after := c :: s } = none :=
              hr.gap (by simp [Gap]) hall
            exact .kept (by simp [hgap]) hps
          by_cases hne : word = []
          · subst hne
            exact ⟨_, hkept, by simp [eachWord, hnil, heq]⟩
          · obtain ⟨qs, hqs, heq'⟩ := hr.reading_word (f := f) hbefore hne hword
              (by simp [Gap]) hall hkept
            exact ⟨qs, hqs, by simp [eachWord, heq', heq]⟩
        · obtain ⟨ps, hps, heq⟩ := ih before (word ++ [c]) hbefore
            (by simpa [or_imp, forall_and] using ⟨hword, hs.1.resolve_right hc⟩) hs.2
          refine ⟨ps, by simpa using hps, ?_⟩
          rw [heq, eachWord, if_neg hc]
  obtain ⟨ps, hps, heq⟩ := hfrom [] [] s (by simp [Gap]) (by simp) hs
  rw [← heq]
  exact hps.subFrom_eq _ _ (Nat.le_refl _) (Nat.le_refl _)

end

/-! ## Words of one class -/

/-- `\b`, a character, a run of others, `\b`. -/
def runPattern (word first more : Char → Bool) : Pattern :=
  all [.boundary word, .set first, plus (.set more), .boundary word]

/-- A word that is one character and a run of others. -/
def isRun (first more : Char → Bool) : List Char → Bool
  | [] => false
  | c :: word => first c && !word.isEmpty && word.all more

section

variable {sep : Char} {p word first more : Char → Bool}

theorem mem_ways_runPattern {m m' : Progress} : m' ∈ ways (runPattern word first more) m ↔
    m.cursor.before.head?.any word ≠ m.cursor.after.head?.any word
      ∧ ∃ x rest, m.cursor.after = x :: rest ∧ first x = true
        ∧ m' ∈ ways (plus (.set more))
          { m with cursor := { before := x :: m.cursor.before, after := rest } }
        ∧ m'.cursor.before.head?.any word ≠ m'.cursor.after.head?.any word := by
  simp only [runPattern, all, mem_ways_seq, mem_ways_boundary, mem_ways_set]
  constructor
  · rintro ⟨_, ⟨rfl, hboundary⟩, _, ⟨x, rest, hafter, hx, rfl⟩, m₃, h₃, rfl, hend⟩
    exact ⟨hboundary, x, rest, hafter, hx, h₃, hend⟩
  · rintro ⟨hboundary, x, rest, hafter, hx, h₃, hend⟩
    exact ⟨_, ⟨rfl, hboundary⟩, _, ⟨x, rest, hafter, hx, rfl⟩, m', h₃, rfl, hend⟩

/-- A run that is read before the end of a word is a part of the word. -/
theorem read_run (hsep : more sep = false) {before tail after : List Char}
    {groups : List (Nat × List Char)} {m : Progress} (hgap : Gap sep after)
    (h : m ∈ ways (plus (.set more))
      { cursor := { before := before, after := tail ++ after }, groups := groups }) :
    ∃ u z, u ≠ [] ∧ u.all more = true ∧ tail = u ++ z
      ∧ m.cursor = { before := u.reverse ++ before, after := z ++ after } := by
  obtain ⟨u, hu, hafter⟩ := (reads_rep_set 1 _ _ _).mp ⟨m, h, rfl⟩
  obtain ⟨z, rfl, hrest⟩ := run_of_word hsep hgap hu.2 hafter
  obtain ⟨u', hu', hpassed⟩ := ways_leads _ h
  rw [hrest] at hu'
  obtain rfl : u = u' := by
    have heq : u ++ z ++ after = u' ++ (z ++ after) := hu'
    rw [List.append_assoc] at heq
    exact List.append_cancel_right heq
  exact ⟨u, z, List.ne_nil_of_length_pos hu.1, List.all_eq_true.mpr hu.2, rfl, by
    rw [← hpassed, ← hrest]⟩

theorem onWords_run (hword : ∀ c, p c = true → word c = true) (hsep : word sep = false)
    (hfirst : first sep = false) (hmore : more sep = false) :
    OnWords sep p (isRun first more) (runPattern word first more) := by
  have hgapEnd : ∀ {s : List Char}, Gap sep s → s.head?.any word = false := by
    intro s hs
    cases s with
    | nil => rfl
    | cons c s => rw [List.head?_cons, hs c rfl, Option.any_some, hsep]
  have hlast : ∀ {u before : List Char}, u ≠ [] → (∀ c ∈ u, p c = true) →
      (u.reverse ++ before).head?.any word = true := by
    intro u before hu hall
    obtain ⟨d, v, hv⟩ := List.exists_cons_of_ne_nil (List.reverse_ne_nil_iff.mpr hu)
    have hd : p d = true := hall d (List.mem_reverse.mp (by simp [hv]))
    simp [hv, hword d hd]
  refine ⟨fun {before after} hgap _ => matchAt_eq_none fun m hm => ?_,
    fun {b before x after} hb hx => matchAt_eq_none fun m hm => ?_,
    fun {before w after} hbefore hne hw hgap _ => ?_⟩
  · obtain ⟨-, x, rest, hafter, hx, -⟩ := mem_ways_runPattern.mp hm
    obtain rfl := hgap x (by rw [show after = x :: rest from hafter]; rfl)
    exact absurd hx (by simp [hfirst])
  · obtain ⟨hboundary, -⟩ := mem_ways_runPattern.mp hm
    exact hboundary (by simp [hword b hb, hword x hx])
  · have hends : ∀ {m}, m ∈ ways (runPattern word first more)
        { cursor := { before := before, after := w ++ after }, groups := [] } →
        isRun first more w = true ∧ m.cursor.after = after := by
      intro m hm
      obtain ⟨-, x, rest, hafter, hx, hm, hend⟩ := mem_ways_runPattern.mp hm
      obtain ⟨c, tail, rfl⟩ := List.exists_cons_of_ne_nil hne
      obtain ⟨rfl, rfl⟩ := List.cons.inj hafter
      rw [List.forall_mem_cons] at hw
      obtain ⟨u, z, hu, hall, rfl, hcursor⟩ := read_run hmore hgap hm
      cases z with
      | nil => exact ⟨by simp [isRun, hx, hall, hu], by rw [hcursor]; rfl⟩
      | cons d z =>
          -- the run would end within the word
          have hd : p d = true := hw.2 d (by simp)
          rw [hcursor, hlast hu fun c hc => hw.2 c (List.mem_append_left _ hc)] at hend
          exact absurd (by simp [hword d hd]) hend
    cases hhit : isRun first more w with
    | false =>
        rw [matchAt_eq_none fun m hm => absurd (hends hm).1 (by simp [hhit]), if_neg (by simp)]
        rfl
    | true =>
        rw [if_pos rfl]
        refine matchAt_map_after ?_ fun m hm => (hends hm).2
        obtain ⟨c, tail, rfl⟩ := List.exists_cons_of_ne_nil hne
        rw [List.forall_mem_cons] at hw
        have hrun : first c = true ∧ tail ≠ [] ∧ tail.all more = true := by
          simpa [isRun, and_assoc] using hhit
        obtain ⟨hc, htail, hall⟩ := hrun
        obtain ⟨m, hm, hend⟩ := (reads_rep_set 1 more
          ⟨⟨c :: before, tail ++ after⟩, []⟩ after).mpr
          ⟨tail, ⟨List.length_pos_iff.mpr htail, List.all_eq_true.mp hall⟩, rfl⟩
        refine ⟨m, mem_ways_runPattern.mpr ⟨?_, c, tail ++ after, rfl, hc, hm, ?_⟩, hend⟩
        · rw [hgapEnd hbefore]
          simp [hword c hw.1]
        · rw [hend, hgapEnd hgap]
          obtain ⟨u, z, hu, -, rfl, hcursor⟩ := read_run hmore hgap hm
          rw [hcursor, hlast hu fun c hc => hw.2 c (List.mem_append_left _ hc)]
          simp

end

end Regex
