import YapInference.Proof.SpokenWords

/-!
# The last word

Of letters, spaces and asterisks the guards count the last word of the raw text. The pipeline keeps
as many characters of it, unless it is a drawn out oh of more than three letters, or XD. When more
text comes a word of more than three letters goes on as it is; a shorter one may become another, and
what stands before it stays.
-/

namespace YapInference

open Py Regex

/-! ## What is left of a word -/

/-- A drawn out oh. -/
def drawnOut (word : Text) : Bool :=
  isOh word && (decide (2 < word.countP (among "oO")) || decide (1 < word.countP (among "hH")))

theorem isOh_cons (c : Char) (word : Text) :
    isOh (c :: word) = (among "oO" c && !word.isEmpty && word.all (among "oOhH")) := rfl

theorem isOh_nil : isOh [] = false := rfl

theorem among_of_isOh {word : Text} (h : isOh word = true) : ∀ c ∈ word, among "oOhH" c = true := by
  cases word with
  | nil => exact absurd h (by simp [isOh_nil])
  | cons c word =>
      rw [isOh_cons, Bool.and_eq_true, Bool.and_eq_true] at h
      refine List.forall_mem_cons.mpr ⟨?_, List.all_eq_true.mp h.2⟩
      exact List.contains_iff_mem.mpr
        ((by decide : "oO".toList ⊆ "oOhH".toList) (List.contains_iff_mem.mp h.1.1))

theorem countP_oh {word : Text} (h : isOh word = true) :
    word.countP (among "oO") + word.countP (among "hH") = word.length := by
  rw [List.length_eq_countP_add_countP (among "oO")]
  congr 1
  refine List.countP_congr fun c hc => ?_
  have hall : "oOhH".toList.all (fun c => among "hH" c == !among "oO" c) = true := by decide
  have hc := List.all_eq_true.mp hall c (List.contains_iff_mem.mp (among_of_isOh h c hc))
  simp [beq_iff_eq.mp hc]

theorem three_le_of_drawnOut {word : Text} (h : drawnOut word = true) : 3 ≤ word.length := by
  obtain ⟨hoh, hmany⟩ := (Bool.and_eq_true _ _).mp h
  have hcount := countP_oh hoh
  rw [Bool.or_eq_true, decide_eq_true_iff, decide_eq_true_iff] at hmany
  have hpos : 0 < word.countP (among "oO") := by
    cases word with
    | nil => exact absurd hoh (by simp [isOh_nil])
    | cons c word =>
        rw [isOh_cons, Bool.and_eq_true, Bool.and_eq_true] at hoh
        rw [List.countP_cons_of_pos hoh.1.1]
        exact Nat.succ_pos _
  omega

theorem length_le_three {word : Text} (hoh : isOh word = true) (h : drawnOut word = false) :
    word.length ≤ 3 := by
  have hcount := countP_oh hoh
  rw [drawnOut, hoh, Bool.true_and, Bool.or_eq_false_iff, decide_eq_false_iff_not,
    decide_eq_false_iff_not] at h
  omega

/-- A word stays, or laughs, or is an oh that is drawn out. -/
theorem spokenWord_cases (word : Text) :
    (drawnOut word = false ∧ isLaugh word = false ∧ spokenWord word = word)
      ∨ (isLaugh word = true ∧ spokenWord word = [' '])
      ∨ (drawnOut word = true
        ∧ (spokenWord word = "Ooh".toList ∨ spokenWord word = "ooh".toList)) := by
  cases hdrawn : drawnOut word with
  | true =>
      obtain ⟨hoh, hmany⟩ := (Bool.and_eq_true _ _).mp hdrawn
      have hword : ohWord word = "Ooh".toList ∨ ohWord word = "ooh".toList := by
        rw [ohWord, if_pos hoh, normalizeExaggeratedOh,
          if_neg (by simpa [Nat.not_le, or_iff_not_imp_left] using hmany)]
        split
        · exact .inl rfl
        · exact .inr rfl
      refine .inr (.inr ⟨rfl, ?_⟩)
      rcases hword with h | h <;> rw [spokenWord, h]
      · exact .inl rfl
      · exact .inr rfl
  | false =>
      have hword : ohWord word = word := by
        rw [ohWord]
        split
        · rename_i hoh
          rw [normalizeExaggeratedOh, if_pos (by simpa [drawnOut, hoh, Nat.not_lt] using hdrawn)]
        · rfl
      cases hlaugh : isLaugh word with
      | true => exact .inr (.inl ⟨rfl, by rw [spokenWord, hword, if_pos hlaugh]⟩)
      | false => exact .inl ⟨rfl, rfl, by rw [spokenWord, hword, hlaugh, if_neg (by simp)]⟩

theorem length_of_isLaugh {word : Text} (h : isLaugh word = true) : word.length = 2 := by
  unfold isLaugh at h
  split at h
  · rfl
  · exact absurd h (by simp)

/-- No word grows. -/
theorem length_spokenWord_le (word : Text) : (spokenWord word).length ≤ word.length := by
  rcases spokenWord_cases word with ⟨-, -, h⟩ | ⟨hlaugh, h⟩ | ⟨hdrawn, h | h⟩ <;> rw [h]
  · rw [length_of_isLaugh hlaugh]
    decide
  · exact three_le_of_drawnOut hdrawn
  · exact three_le_of_drawnOut hdrawn

/-- A word of more than three letters that is not a drawn out oh stays whatever follows it. -/
theorem spokenWord_append {word : Text} (hlong : 3 < word.length) (h : drawnOut word = false)
    (more : Text) : spokenWord (word ++ more) = word ++ more := by
  have hoh : isOh word = false := by
    by_contra hoh
    exact absurd (length_le_three (by simpa using hoh) h) (by omega)
  have hoh' : isOh (word ++ more) = false := by
    by_contra hall
    rw [Bool.not_eq_false] at hall
    cases word with
    | nil => exact absurd hlong (by simp)
    | cons c word =>
        rw [List.length_cons] at hlong
        have hne : word ≠ [] := List.ne_nil_of_length_pos (by omega)
        simp only [List.cons_append, isOh_cons, Bool.and_eq_true, List.all_append] at hall
        simp [isOh_cons, hall, hne] at hoh
  rcases spokenWord_cases (word ++ more) with ⟨-, -, h⟩ | ⟨hlaugh, -⟩ | ⟨hdrawn, -⟩
  · exact h
  · have hlen := length_of_isLaugh hlaugh
    rw [List.length_append] at hlen
    omega
  · rw [drawnOut, hoh', Bool.false_and] at hdrawn
    exact absurd hdrawn (by simp)

/-- How many characters are not spaces. -/
def nonSpaces (s : Text) : Nat := s.countP (· != ' ')

theorem nonSpaces_append (s t : Text) : nonSpaces (s ++ t) = nonSpaces s + nonSpaces t :=
  List.countP_append

theorem nonSpaces_of_letters {s : Text} (hs : ∀ c ∈ s, letter c = true) : nonSpaces s = s.length :=
  List.countP_eq_length.mpr fun c hc => by
    have hne : c ≠ ' ' := fun heq => absurd (hs c hc) (heq ▸ by decide)
    simpa using hne

/-- What the guards count of a word, the pipeline keeps. -/
theorem length_le_nonSpaces {word : Text} (hword : ∀ c ∈ word, letter c = true)
    (hoh : drawnOut word = true → word.length ≤ 3) (hlaugh : isLaugh word = false) :
    word.length ≤ nonSpaces (spokenWord word) := by
  rcases spokenWord_cases word with ⟨-, -, h⟩ | ⟨hlaugh', -⟩ | ⟨hdrawn, h | h⟩
  · rw [h, nonSpaces_of_letters hword]
  · exact absurd hlaugh' (by simp [hlaugh])
  · rw [h]
    exact hoh hdrawn
  · rw [h]
    exact hoh hdrawn

theorem nonSpaces_spokenWord_pos {word : Text} (hword : ∀ c ∈ word, letter c = true)
    (hne : word ≠ []) (hlaugh : isLaugh word = false) : 0 < nonSpaces (spokenWord word) := by
  rcases spokenWord_cases word with ⟨-, -, h⟩ | ⟨hlaugh', -⟩ | ⟨-, h | h⟩
  · rw [h, nonSpaces_of_letters hword]
    exact List.length_pos_iff.mpr hne
  · exact absurd hlaugh' (by simp [hlaugh])
  · rw [h]
    decide
  · rw [h]
    decide

/-! ## The last word -/

theorem spokenPass_append {s t : Text} (h : Gap ' ' s.reverse ∨ Gap ' ' t) :
    spokenPass (s ++ t) = spokenPass s ++ spokenPass t := eachWord_append_gap rfl h

theorem spokenPass_word {word : Text} (h : ∀ c ∈ word, letter c = true) :
    spokenPass word = spokenWord word :=
  eachWord_word (fun hc => absurd (h _ hc) (by decide)) []

theorem spokenPass_blank {s : Text} (hs : ∀ c ∈ s, c = ' ') : spokenPass s = s := by
  induction s with
  | nil => rfl
  | cons c s ih =>
      rw [List.forall_mem_cons] at hs
      have hgap : Gap ' ' (c :: s) := fun d hd => by
        rw [List.head?_cons, Option.mem_some_iff] at hd
        exact hd ▸ hs.1
      unfold spokenPass at ih ⊢
      rw [eachWord, if_pos hs.1, ih hs.2, hs.1]
      rfl

/-- The letters a text ends with. -/
def lastWord (s : Text) : Text := s.rtakeWhile letter

theorem letter_of_mem_lastWord {s : Text} : ∀ c ∈ lastWord s, letter c = true :=
  fun _ hc => List.mem_rtakeWhile_imp hc

theorem lastWord_of_letters {s : Text} (hs : ∀ c ∈ s, letter c = true) : lastWord s = s :=
  List.rtakeWhile_eq_self_iff.mpr hs

theorem lastWord_append {s t : Text} (h : Gap ' ' s.reverse) : lastWord (s ++ t) = lastWord t := by
  induction t using List.reverseRecOn with
  | nil =>
      cases s using List.reverseRecOn with
      | nil => rfl
      | append_singleton s c =>
          obtain rfl := h c (by simp)
          rw [List.append_nil, lastWord, List.rtakeWhile_concat_neg _ _ _ (by decide)]
          rfl
  | append_singleton t c ih =>
      rw [← List.append_assoc]
      unfold lastWord at ih ⊢
      rw [List.rtakeWhile_concat, List.rtakeWhile_concat, ih]

/-- What comes before it ends in a space. -/
theorem Plain.cut {s : Text} (hs : Plain s) :
    ∃ before, s = before ++ lastWord s ∧ Gap ' ' before.reverse := by
  refine ⟨s.rdropWhile letter, List.rdropWhile_append_rtakeWhile.symm, ?_⟩
  intro c hc
  rw [List.head?_reverse, Option.mem_def] at hc
  have hne : s.rdropWhile letter ≠ [] := by
    intro hnil
    rw [hnil] at hc
    exact absurd hc (by simp)
  have hlast := List.rdropWhile_last_not letter s hne
  rw [List.getLast?_eq_some_getLast hne, Option.some.injEq] at hc
  rw [hc] at hlast
  have hmem := (List.rdropWhile_prefix letter s).mem (hc ▸ List.getLast_mem hne)
  exact (hs c hmem).resolve_left hlast

/-- The words before the last are as they are to be. -/
theorem Plain.cutWords {s : Text} (hs : Plain s) : ∃ before, Plain before ∧ Gap ' ' before.reverse
    ∧ (∀ more, s ++ more = before ++ (lastWord s ++ more))
    ∧ spokenPass s = spokenPass before ++ spokenWord (lastWord s)
    ∧ ∀ more, spokenPass (s ++ more) = spokenPass before ++ spokenPass (lastWord s ++ more) := by
  obtain ⟨before, heq, hgap⟩ := hs.cut
  have hmore : ∀ more, s ++ more = before ++ (lastWord s ++ more) := fun more => by
    conv_lhs => rw [heq, List.append_assoc]
  refine ⟨before, fun c hc => hs c (heq ▸ List.mem_append_left _ hc), hgap, hmore, ?_, ?_⟩
  · conv_lhs => rw [heq]
    rw [spokenPass_append (.inl hgap), spokenPass_word letter_of_mem_lastWord]
  · intro more
    rw [hmore, spokenPass_append (.inl hgap)]

/-- **What is counted of the last word is there.** -/
theorem Plain.length_lastWord_le {s : Text} (hs : Plain s)
    (hoh : drawnOut (lastWord s) = true → (lastWord s).length ≤ 3)
    (hlaugh : isLaugh (lastWord s) = false) : (lastWord s).length ≤ nonSpaces (spokenPass s) := by
  obtain ⟨before, -, -, -, hpass, -⟩ := hs.cutWords
  rw [hpass, nonSpaces_append]
  exact (length_le_nonSpaces letter_of_mem_lastWord hoh hlaugh).trans (Nat.le_add_left _ _)

/-- The last word, whether or not more spaces follow. -/
def lastSpoken (s : Text) : Text := lastWord (s.rdropWhile fun c => !letter c)

theorem rdropWhile_append_of_exists {p : Char → Bool} (s : Text) {t : Text}
    (h : ∃ c ∈ t, p c = false) : (s ++ t).rdropWhile p = s ++ t.rdropWhile p := by
  have hne : t.reverse.dropWhile p ≠ [] := by
    obtain ⟨c, hc, hp⟩ := h
    intro hnil
    have hall := List.dropWhile_eq_nil_iff.mp hnil c (List.mem_reverse.mpr hc)
    rw [hp] at hall
    exact absurd hall (by simp)
  unfold List.rdropWhile
  rw [List.reverse_append, List.dropWhile_append, if_neg (by simpa using hne), List.reverse_append,
    List.reverse_reverse]

theorem lastSpoken_append {s t : Text} (hs : Gap ' ' s.reverse) (ht : ∃ c ∈ t, letter c = true) :
    lastSpoken (s ++ t) = lastSpoken t := by
  unfold lastSpoken
  rw [rdropWhile_append_of_exists s (by simpa using ht), lastWord_append hs]

theorem Plain.nonSpaces_pos {s : Text} (hs : Plain s) (hletter : ∃ c ∈ s, letter c = true)
    (hlaugh : isLaugh (lastSpoken s) = false) : 0 < nonSpaces (spokenPass s) := by
  have hsplit : s = (s.rdropWhile fun c => !letter c) ++ s.rtakeWhile fun c => !letter c :=
    List.rdropWhile_append_rtakeWhile.symm
  have hbody : Plain (s.rdropWhile fun c => !letter c) := fun c hc =>
    hs c ((List.rdropWhile_prefix _ s).mem hc)
  have hblanks : Gap ' ' (s.rtakeWhile fun c => !letter c) := fun c hc => by
    have hmem := List.mem_of_mem_head? hc
    have hnot := List.mem_rtakeWhile_imp hmem
    exact (hs c ((List.rtakeWhile_suffix _ s).mem hmem)).resolve_left (by simpa using hnot)
  have hne : lastSpoken s ≠ [] := by
    rw [lastSpoken, lastWord, ne_eq, List.rtakeWhile_eq_nil_iff, not_forall]
    have hbody : (s.rdropWhile fun c => !letter c) ≠ [] := by
      rw [ne_eq, List.rdropWhile_eq_nil_iff]
      obtain ⟨c, hc, hl⟩ := hletter
      exact fun hall => absurd (hall c hc) (by simp [hl])
    exact ⟨hbody, by simpa using List.rdropWhile_last_not _ s hbody⟩
  obtain ⟨before, -, -, -, hpass, -⟩ := hbody.cutWords
  have hpos := nonSpaces_spokenWord_pos letter_of_mem_lastWord hne hlaugh
  rw [hsplit, spokenPass_append (.inr hblanks), nonSpaces_append, hpass, nonSpaces_append]
  omega

theorem lastSpoken_eq {s : Text} (h : lastWord s ≠ []) : lastSpoken s = lastWord s := by
  have hself : (s.rdropWhile fun c => !letter c) = s := by
    rw [List.rdropWhile_eq_self_iff]
    intro hne
    have hlast : ¬ ∀ hl : s ≠ [], ¬ letter (s.getLast hl) = true := fun hall =>
      h (List.rtakeWhile_eq_nil_iff.mpr hall)
    rw [not_forall] at hlast
    obtain ⟨hl, hletter⟩ := hlast
    simpa using hletter
  rw [lastSpoken, hself]

theorem isLaugh_lastWord {s : Text} (h : isLaugh (lastSpoken s) = false) :
    isLaugh (lastWord s) = false := by
  by_cases hne : lastWord s = []
  · rw [hne]
    rfl
  · rwa [← lastSpoken_eq hne]

/-! ## More words -/

section

variable {s more : Text}

/-- What comes after the first word starts with a space. -/
theorem Plain.start (hs : Plain s) :
    ∃ word rest, s = word ++ rest ∧ (∀ c ∈ word, letter c = true) ∧ Gap ' ' rest := by
  induction s with
  | nil => exact ⟨[], [], rfl, by simp, by simp [Gap]⟩
  | cons c s ih =>
      rw [Plain, Worded, List.forall_mem_cons] at hs
      rcases hs.1 with hc | hc
      · obtain ⟨word, rest, rfl, hword, hgap⟩ := ih hs.2
        exact ⟨c :: word, rest, rfl, List.forall_mem_cons.mpr ⟨hc, hword⟩, hgap⟩
      · exact ⟨[], c :: s, rfl, by simp, by simp [Gap, hc]⟩

theorem plain_lastWord_append (hlater : Plain (s ++ more)) : Plain (lastWord s ++ more) :=
  List.forall_mem_append.mpr ⟨fun c hc => .inl (letter_of_mem_lastWord c hc),
    (List.forall_mem_append.mp hlater).2⟩

/-- After a long word, or after none, more text goes on with what there is. -/
theorem spokenPass_goesOn (hs : Plain s) (hlater : Plain (s ++ more))
    (h : lastWord s = [] ∨ 3 < (lastWord s).length ∧ drawnOut (lastWord s) = false)
    (hoh : drawnOut (lastWord (s ++ more)) = true → (lastWord (s ++ more)).length ≤ 3)
    (hlaugh : isLaugh (lastSpoken (s ++ more)) = false) :
    ∃ rest, Plain rest ∧ spokenPass (s ++ more) = spokenPass s ++ rest
      ∧ (lastWord (s ++ more)).length ≤ (lastWord s).length + nonSpaces rest := by
  obtain ⟨before, -, hgap, hmore, hpass, hpasses⟩ := hs.cutWords
  have hplain := plain_lastWord_append hlater
  have hlast : lastWord (s ++ more) = lastWord (lastWord s ++ more) := by
    rw [hmore, lastWord_append hgap]
  have hword : spokenWord (lastWord s) = lastWord s := by
    rcases h with hnil | ⟨hlong, hdrawn⟩
    · rw [hnil]
      rfl
    · simpa using spokenWord_append hlong hdrawn []
  obtain ⟨rest, hrest⟩ : ∃ rest, spokenPass (lastWord s ++ more) = lastWord s ++ rest := by
    rcases h with hnil | ⟨hlong, hdrawn⟩
    · exact ⟨_, by rw [hnil]; rfl⟩
    · -- the word goes on to the next space
      obtain ⟨word, rest, rfl, hletters, hnext⟩ := Plain.start (List.forall_mem_append.mp hlater).2
      refine ⟨word ++ spokenPass rest, ?_⟩
      rw [← List.append_assoc, spokenPass_append (.inr hnext), spokenPass_word
        (List.forall_mem_append.mpr ⟨letter_of_mem_lastWord, hletters⟩),
        spokenWord_append hlong hdrawn, List.append_assoc]
  refine ⟨rest, fun c hc => hplain.pass c (hrest ▸ List.mem_append_right _ hc), ?_, ?_⟩
  · rw [hpasses, hpass, hrest, hword, List.append_assoc]
  · have hle := hplain.length_lastWord_le (hlast ▸ hoh) (hlast ▸ isLaugh_lastWord hlaugh)
    rwa [hrest, nonSpaces_append, nonSpaces_of_letters letter_of_mem_lastWord, ← hlast] at hle

/-- A short word may become another; the guards have held it back. -/
theorem spokenPass_restarts (hs : Plain s) (hlater : Plain (s ++ more)) (hne : lastWord s ≠ [])
    (hoh : drawnOut (lastWord (s ++ more)) = true → (lastWord (s ++ more)).length ≤ 3)
    (hlaugh : isLaugh (lastSpoken (s ++ more)) = false) :
    ∃ kept rest, Plain kept ∧ Plain rest ∧ spokenPass s = kept ++ spokenWord (lastWord s)
      ∧ spokenPass (s ++ more) = kept ++ rest ∧ (lastWord (s ++ more)).length ≤ nonSpaces rest
      ∧ 0 < nonSpaces rest := by
  obtain ⟨before, hbefore, hgap, hmore, hpass, hpasses⟩ := hs.cutWords
  have hplain := plain_lastWord_append hlater
  have hlast : lastWord (s ++ more) = lastWord (lastWord s ++ more) := by
    rw [hmore, lastWord_append hgap]
  have hletter : ∃ c ∈ lastWord s ++ more, letter c = true := by
    obtain ⟨c, hc⟩ := List.exists_mem_of_ne_nil _ hne
    exact ⟨c, List.mem_append_left _ hc, letter_of_mem_lastWord c hc⟩
  have hspoken : lastSpoken (s ++ more) = lastSpoken (lastWord s ++ more) := by
    rw [hmore, lastSpoken_append hgap hletter]
  refine ⟨spokenPass before, spokenPass (lastWord s ++ more), hbefore.pass,
    hplain.pass, hpass, hpasses more, ?_, ?_⟩
  · rw [hlast]
    exact hplain.length_lastWord_le (hlast ▸ hoh) (hlast ▸ isLaugh_lastWord hlaugh)
  · exact hplain.nonSpaces_pos hletter (hspoken ▸ hlaugh)

end

/-! ## What the guards count -/

/-- What is not a space and does not become one. -/
def solid (c : Char) : Bool := !(c == ' ' || c == '*')

theorem solid_of {p : Char → Bool} (hspace : p ' ' = false) (hstar : p '*' = false) (c : Char)
    (hc : p c = true) : solid c = true := by
  by_contra hnot
  have h : c = ' ' ∨ c = '*' := by simpa [solid, or_iff_not_imp_left] using hnot
  rcases h with rfl | rfl
  · exact absurd hc (by simp [hspace])
  · exact absurd hc (by simp [hstar])

theorem over_emailEnds : Over solid emailEnds :=
  (over_runs 1 (solid_of rfl rfl)).mul
    ((over_upTo 1 (solid_of rfl rfl)).mul ((over_runs 0 (solid_of rfl rfl)).mul over_one))

theorem over_emoticonEnds : Over solid emoticonEnds := by
  have hpair : ∀ p q : Char → Bool, p ' ' = false → p '*' = false → q ' ' = false →
      q '*' = false → Over solid (oneOf p * (upTo 1 q * 1)) := fun p q hp hp' hq hq' =>
    (over_oneOf (solid_of hp hp')).mul ((over_upTo 1 (solid_of hq hq')).mul over_one)
  have hsingle : ∀ p : Char → Bool, p ' ' = false → p '*' = false → Over solid (oneOf p * 1) :=
    fun p hp hp' => (over_oneOf (solid_of hp hp')).mul over_one
  exact (hpair _ _ rfl rfl rfl rfl).add ((hsingle _ rfl rfl).add ((hsingle _ rfl rfl).add
    ((hpair _ _ rfl rfl rfl rfl).add (hpair _ _ rfl rfl rfl rfl))))

theorem length_le_lastWord {s t : Text} (hsuffix : t <:+ s) (ht : ∀ c ∈ t, letter c = true) :
    t.length ≤ (lastWord s).length := by
  obtain ⟨u, rfl⟩ := hsuffix
  rw [lastWord, List.rtakeWhile, List.reverse_append,
    List.takeWhile_append_of_pos (by simpa using ht), List.reverse_append, List.length_append,
    List.reverse_reverse]
  exact Nat.le_add_left _ _

section

variable {raw : Text}

/-- What is found is the end of the text. -/
theorem suffixLen_cases (hraw : ∀ c ∈ raw, spoken c = true) {r : Pattern} {L : Language Char}
    (hr : Regex.Ends r L) :
    suffixLen r raw = 0 ∨ ∃ w ∈ L, w <:+ raw ∧ suffixLen r raw = w.length := by
  unfold suffixLen
  cases hfound : search r raw with
  | none => exact .inl rfl
  | some i =>
      obtain ⟨w, hw, hend | hend⟩ := hr.search_eq_some hfound
      · exact .inr ⟨w, hw, hend ▸ List.drop_suffix i raw, by rw [← hend, List.length_drop]⟩
      · have hnewline : '\n' ∈ raw.drop i := by rw [hend]; simp
        exact absurd (hraw _ (List.mem_of_mem_drop hnewline)) (by decide)

/-- A guard whose words are solid counts no more than the last word. -/
theorem suffixLen_le_lastWord (hraw : ∀ c ∈ raw, spoken c = true) {r : Pattern}
    {L : Language Char} (hr : Regex.Ends r L) (hsolid : Over solid L) :
    suffixLen r raw ≤ (lastWord raw).length := by
  rcases suffixLen_cases hraw hr with h | ⟨w, hw, hsuffix, h⟩
  · rw [h]
    exact Nat.zero_le _
  · rw [h]
    refine length_le_lastWord hsuffix fun c hc => ?_
    rcases spoken_iff.mp (hraw c (hsuffix.mem hc)) with hl | rfl | rfl
    · exact hl
    · exact absurd (hsolid w hw _ hc) (by decide)
    · exact absurd (hsolid w hw _ hc) (by decide)

/-- **The guard for emails counts the last word.** -/
theorem emailSuffixLen_spoken (cd : CharData) (hraw : ∀ c ∈ raw, spoken c = true) :
    emailSuffixLen raw = min (lastWord raw).length 256 := by
  have hmail := search_writtenPatterns cd hraw emailPattern (by simp [writtenPatterns])
  rw [emailSuffixLen, hmail]
  refine congrArg (min · 256)
    (Nat.le_antisymm (suffixLen_le_lastWord hraw ends_email over_emailEnds) ?_)
  by_cases hne : lastWord raw = []
  · rw [hne]
    exact Nat.zero_le _
  · have hw : lastWord raw ∈ emailEnds := by
      have hrun : lastWord raw ∈ runs 1 fun c => letter c || digit c || among "._%+-" c :=
        ⟨List.length_pos_iff.mpr hne, fun c hc => by simp [letter_of_mem_lastWord c hc]⟩
      have hrest : [] ∈ upTo 1 (· == '@')
          * (runs 0 (fun c => letter c || digit c || among ".-" c) * 1) :=
        nil_mem_mul (nil_mem_upTo 1 _) (nil_mem_mul (nil_mem_runs _) rfl)
      exact List.append_nil (lastWord raw) ▸ Language.append_mem_mul hrun hrest
    obtain ⟨i, hi, hfound⟩ := ends_email.searchFrom_of_mem hw [] (raw.rdropWhile letter)
    have hsplit : raw.rdropWhile letter ++ lastWord raw = raw := List.rdropWhile_append_rtakeWhile
    rw [hsplit] at hfound
    have hlen := congrArg List.length hsplit
    rw [List.length_append] at hlen
    rw [suffixLen, search, hfound]
    dsimp only
    rw [List.length_nil] at hi
    omega

theorem length_le_of_mem_emoticonEnds {w : Text} (hw : w ∈ emoticonEnds) : w.length ≤ 2 := by
  have hpair : ∀ {p q : Char → Bool} {w : Text}, w ∈ oneOf p * (upTo 1 q * 1) → w.length ≤ 2 := by
    intro p q w hw
    obtain ⟨_, ⟨c, -, rfl⟩, _, hv, rfl⟩ := Language.mem_mul.mp hw
    obtain ⟨v, ⟨hlen, -⟩, _, rfl, rfl⟩ := Language.mem_mul.mp hv
    simp only [List.length_append, List.length_singleton, List.length_nil]
    omega
  have hsingle : ∀ {p : Char → Bool} {w : Text}, w ∈ oneOf p * 1 → w.length ≤ 2 := by
    intro p w hw
    rw [mul_one] at hw
    obtain ⟨c, -, rfl⟩ := hw
    exact Nat.le_succ 1
  rcases hw with hw | hw | hw | hw | hw
  · exact hpair hw
  · exact hsingle hw
  · exact hsingle hw
  · exact hpair hw
  · exact hpair hw

theorem emoticonSuffixLen_spoken (hraw : ∀ c ∈ raw, spoken c = true) :
    emoticonSuffixLen raw ≤ min (lastWord raw).length 256 := by
  refine Nat.le_min.mpr ⟨suffixLen_le_lastWord hraw ends_emoticon over_emoticonEnds, ?_⟩
  rcases suffixLen_cases hraw ends_emoticon with h | ⟨w, hw, -, h⟩
  · rw [emoticonSuffixLen, h]
    exact Nat.zero_le _
  · rw [emoticonSuffixLen, h]
    exact (length_le_of_mem_emoticonEnds hw).trans (by decide)

/-- **In such a text the guards count the last word, and the spaces at the end.** -/
theorem longestGuard_spoken {cd : CharData} (hcd : AsciiLetters cd)
    (hraw : ∀ c ∈ raw, spoken c = true) {sanitized : Text} (hplain : Plain sanitized) :
    longestGuard cd raw sanitized
      = max (unstableSuffixLen sanitized) (min (lastWord raw).length 256) := by
  have htag : htmlTagSuffixLen cd raw = 0 := by
    have hnone : rfind '<' raw = none := by
      have hnot : '<' ∉ raw.reverse := fun h =>
        absurd (hraw _ (List.mem_reverse.mp h)) (by decide)
      rw [rfind, List.idxOf?_eq_none_iff.mpr hnot, Option.map_none]
    rw [htmlTagSuffixLen, hnone]
  have hphone : phoneSuffixLen cd raw = 0 := by
    have hasks : Asks (fun c => c == '+' || cd.isDecimal c)
        (all [.set fun c => c == '+' || cd.isDecimal c,
          star (.set fun c => cd.isDecimal c || among " -()" c), .finish]) := .inl fun _ hc => hc
    have hnone := search_of_asks hasks (s := raw) fun c hc => by
      have hplus : c ≠ '+' := fun heq => absurd (hraw c hc) (heq ▸ by decide)
      simp [hplus, hcd.decimal c (hraw c hc)]
    rw [phoneSuffixLen, suffixLen, hnone]
    rfl
  have hentity : htmlEntitySuffixLen sanitized = 0 := by
    have hasks : Asks unspoken (all [lit "&", .rep 0 (some 10) (.set letter), .finish]) :=
      .inl (asks_lit rfl)
    have hnone := search_of_asks hasks (s := sanitized) fun c hc => by
      simp [unspoken, hplain.spoken c hc]
    rw [htmlEntitySuffixLen, suffixLen, hnone]
  have hemoticon := emoticonSuffixLen_spoken hraw
  simp only [longestGuard, List.foldl_cons, List.foldl_nil, htag, hphone, hentity,
    emailSuffixLen_spoken cd hraw]
  omega

end

end YapInference
