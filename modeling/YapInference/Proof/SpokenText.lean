import YapInference.Proof.LastWord

/-!
# Where letters, spaces and asterisks may be cut

What a guard counts is there to be held back at every boundary that does not come after a drawn out
oh of more than three letters, or after XD; and nothing that was let through changes when more text
comes, unless a prefix or an emote is completed. So such a text may be cut anywhere but there. Where
else it may be cut depends on how much has been let through, and on nothing but its words.
-/

namespace YapInference

open Py Regex

/-! ## The form of a text -/

theorem nonSpaces_squeeze (afterSpace : Bool) (s : Text) :
    nonSpaces (squeeze afterSpace s) = nonSpaces s := by
  unfold nonSpaces
  induction s generalizing afterSpace with
  | nil => rfl
  | cons c s ih =>
      rw [squeeze]
      by_cases hc : c = ' '
      · rw [if_pos hc, List.countP_cons_of_neg (by simp [hc])]
        cases afterSpace
        · rw [if_neg (by simp), List.countP_cons_of_neg (by simp [hc]), ih]
        · rw [if_pos rfl, ih]
      · rw [if_neg hc, List.countP_cons_of_pos (by simp [hc]),
          List.countP_cons_of_pos (by simp [hc]), ih]

theorem nonSpaces_le (s : Text) : nonSpaces s ≤ s.length := List.countP_le_length

section

variable {cd : CharData}

/-- Raising the first letter changes no length. -/
theorem Plain.raised {s : Text} (hs : Plain s) (hcd : AsciiLetters cd) (hcase : LetterCase cd) :
    Plain (ensureLeadingCapitalStream cd s true).1
      ∧ (ensureLeadingCapitalStream cd s true).1.length = s.length
      ∧ nonSpaces (ensureLeadingCapitalStream cd s true).1 = nonSpaces s := by
  induction s with
  | nil => exact ⟨hs, rfl, rfl⟩
  | cons c s ih =>
      rw [Plain, Worded, List.forall_mem_cons] at hs
      obtain ⟨hplain, hlen, hcount⟩ := ih hs.2
      cases halpha : cd.isAlpha c with
      | false =>
          rw [ensureLeadingCapitalStream_other halpha]
          refine ⟨List.forall_mem_cons.mpr ⟨hs.1, hplain⟩, by simp [hlen], ?_⟩
          unfold nonSpaces at hcount ⊢
          rw [List.countP_cons, List.countP_cons, hcount]
      | true =>
          rw [ensureLeadingCapitalStream_letter halpha]
          split
          · rename_i hlower
            have hc : letter c = true := hs.1.resolve_right fun hspace => by
              have hplain := (hcase.plain c halpha hlower c (by simp)).2
              rw [hspace] at hplain
              exact absurd hplain (by decide)
            obtain ⟨d, hd, hupper⟩ := hcd.upper c hc
            rw [hupper]
            refine ⟨List.forall_mem_cons.mpr ⟨.inl hd, hs.2⟩, rfl, ?_⟩
            have hne : ∀ {x}, letter x = true → x ≠ ' ' := fun hx heq => absurd hx (heq ▸ by decide)
            unfold nonSpaces
            rw [List.singleton_append, List.countP_cons_of_pos (by simpa using hne hd),
              List.countP_cons_of_pos (by simpa using hne hc)]
          · exact ⟨List.forall_mem_cons.mpr hs, rfl, rfl⟩

theorem Plain.form {s : Text} (hs : Plain s) (hcd : AsciiLetters cd) (hcase : LetterCase cd) :
    Plain (spokenForm cd s) := fun c hc =>
  ((hs.squeezed false).raised hcd hcase).1 c ((lstrip_suffix _).mem hc)

/-- More text is added to the form, unless that is blank. -/
theorem spokenForm_append (hcd : AsciiLetters cd) (hcase : LetterCase cd) {s more : Text}
    (hs : Plain s) (hmore : Plain more) :
    (spokenForm cd s = [] ∧ (spokenForm cd (s ++ more)).length ≤ more.length)
      ∨ ∃ added, spokenForm cd (s ++ more) = spokenForm cd s ++ added
        ∧ added.length ≤ more.length ∧ nonSpaces added = nonSpaces more := by
  obtain ⟨flag, hsqueezed⟩ := squeeze_append false s more
  obtain ⟨added, hadded, -⟩ := ensureLeadingCapitalStream_append hcase (squeeze false s)
    (squeeze flag more)
  obtain ⟨-, hlen, hcount⟩ := (hs.squeezed false).raised hcd hcase
  have hboth : Plain (squeeze false s ++ squeeze flag more) :=
    List.forall_mem_append.mpr ⟨hs.squeezed false, hmore.squeezed flag⟩
  obtain ⟨-, hlen', hcount'⟩ := hboth.raised hcd hcase
  rw [hadded, List.length_append, List.length_append] at hlen'
  rw [hadded, nonSpaces_append, nonSpaces_append, nonSpaces_squeeze flag] at hcount'
  have hle : added.length ≤ more.length := by
    have := (squeeze_sublist flag more).length_le
    omega
  unfold spokenForm
  rw [hsqueezed, hadded]
  by_cases hnil : lstrip (ensureLeadingCapitalStream cd (squeeze false s) true).1 = []
  · refine .inl ⟨hnil, ?_⟩
    unfold lstrip at hnil ⊢
    rw [List.dropWhile_append, if_pos (by rw [hnil]; rfl)]
    exact (List.dropWhile_suffix _).length_le.trans hle
  · exact .inr ⟨added, lstrip_append hnil added, hle, by omega⟩

theorem spokenForm_blank (hcd : AsciiLetters cd) (hcase : LetterCase cd) {s : Text} (hs : Plain s)
    (h : nonSpaces s = 0) : spokenForm cd s = [] := by
  obtain ⟨-, -, hcount⟩ := (hs.squeezed false).raised hcd hcase
  rw [nonSpaces_squeeze, h] at hcount
  refine List.dropWhile_eq_nil_iff.mpr fun c hc => ?_
  have hspace := List.countP_eq_zero.mp hcount c hc
  obtain rfl : c = ' ' := by simpa using hspace
  decide

end

/-! ## The spaces at the ends -/

/-- The spaces a text ends with. -/
def lastSpaces (s : Text) : Text := s.rtakeWhile (· == ' ')

theorem length_lastSpaces (s : Text) :
    (s.rdropWhile (· == ' ')).length + (lastSpaces s).length = s.length := by
  have hsplit : s.rdropWhile (· == ' ') ++ lastSpaces s = s := List.rdropWhile_append_rtakeWhile
  rw [← List.length_append, hsplit]

theorem lastSpaces_append (s t : Text) :
    (lastSpaces (s ++ t)).length ≤ (lastSpaces s).length + t.length := by
  rw [lastSpaces, lastSpaces, List.rtakeWhile, List.rtakeWhile, List.length_reverse,
    List.length_reverse, List.reverse_append, List.takeWhile_append]
  split
  · rw [List.length_append, List.length_reverse, Nat.add_comm]
  · exact ((List.takeWhile_prefix _).length_le.trans (List.length_reverse).le).trans
      (Nat.le_add_left _ _)

theorem lastSpaces_append_le (s : Text) {t : Text} (h : 0 < nonSpaces t) :
    (lastSpaces (s ++ t)).length ≤ t.length := by
  obtain ⟨c, hc, hspace⟩ := List.countP_pos_iff.mp h
  have hdrop := rdropWhile_append_of_exists (p := (· == ' ')) s ⟨c, hc, by simpa using hspace⟩
  have hlen := length_lastSpaces (s ++ t)
  rw [hdrop, List.length_append, List.length_append] at hlen
  omega

theorem Plain.rdropWhile_eq {s : Text} (hs : Plain s) {p : Char → Bool} (hspace : p ' ' = true)
    (hletter : ∀ c, letter c = true → p c = false) : s.rdropWhile p = s.rdropWhile (· == ' ') := by
  induction s using List.reverseRecOn with
  | nil => rfl
  | append_singleton s c ih =>
      rw [Plain, Worded, List.forall_mem_append, List.forall_mem_singleton] at hs
      rcases hs.2 with hc | rfl
      · have hne : ¬ (c == ' ') = true := fun heq =>
          absurd (beq_iff_eq.mp heq ▸ hc : letter ' ' = true) (by decide)
        rw [List.rdropWhile_concat_neg (· == ' ') _ _ hne,
          List.rdropWhile_concat_neg p _ _ (by simp [hletter c hc])]
      · rw [List.rdropWhile_concat_pos p _ _ hspace, List.rdropWhile_concat_pos (· == ' ') _ _ rfl,
          ih hs.1]

theorem among_of_letter {chars : String} (h : chars.toList.all (fun c => !letter c) = true)
    {c : Char} (hc : letter c = true) : among chars c = false := by
  rw [← Bool.not_eq_true]
  intro hmem
  have hnot := List.all_eq_true.mp h c (List.contains_iff_mem.mp hmem)
  simp [hc] at hnot

/-- The guard for the end of the text counts the spaces. -/
theorem Plain.unstableSuffixLen_eq {s : Text} (hs : Plain s) :
    unstableSuffixLen s = (lastSpaces s).length := by
  have hspaces : s.rdropWhile trailingStreamUnstableChars = s.rdropWhile (· == ' ') :=
    hs.rdropWhile_eq (by rfl) fun _ hc => among_of_letter (by decide) hc
  have hdots : (s.rdropWhile (· == ' ')).rdropWhile (· == '.') = s.rdropWhile (· == ' ') := by
    rw [List.rdropWhile_eq_self_iff]
    intro hne hdot
    have hplain : Plain (s.rdropWhile (· == ' ')) := fun c hc =>
      hs c ((List.rdropWhile_prefix _ s).mem hc)
    have hlast := hplain _ (List.getLast_mem hne)
    rw [beq_iff_eq.mp hdot] at hlast
    exact absurd hlast (by decide)
  rw [unstableSuffixLen, hspaces, hdots, ← length_lastSpaces s, Nat.add_sub_cancel_left]

theorem isSpace_of_letter {c : Char} (h : letter c = true) : isSpace c = false := by
  have hcode := letter_toNat h
  rw [← Bool.not_eq_true]
  intro hspace
  simp only [isSpace, Bool.or_eq_true, Bool.and_eq_true, decide_eq_true_eq, beq_iff_eq] at hspace
  omega

theorem Plain.blanks {s : Text} (hs : Plain s) :
    ∃ blanks, s = blanks ++ lstrip s ∧ ∀ c ∈ blanks, c = ' ' := by
  refine ⟨s.takeWhile isSpace, List.takeWhile_append_dropWhile.symm, fun c hc => ?_⟩
  refine (hs c ((List.takeWhile_prefix isSpace).mem hc)).resolve_left fun hl => ?_
  have hspace := List.mem_takeWhile_imp hc
  rw [isSpace_of_letter hl] at hspace
  exact absurd hspace (by simp)

theorem gap_of_blanks {blanks : Text} (h : ∀ c ∈ blanks, c = ' ') : Gap ' ' blanks.reverse :=
  fun c hc => h c (List.mem_reverse.mp (List.mem_of_mem_head? hc))

theorem nonSpaces_blanks {blanks : Text} (h : ∀ c ∈ blanks, c = ' ') : nonSpaces blanks = 0 :=
  List.countP_eq_zero.mpr fun c hc => by simp [h c hc]

/-! ## A boundary -/

/-- What letters, spaces and asterisks are made into. -/
def spokenText (cd : CharData) (raw : Text) : Text := spokenForm cd (spokenPass (bareText raw))

/-- How many characters at its end are held back: the spaces there, or as many as the last word of
the raw text has. -/
def spokenHeld (cd : CharData) (raw : Text) : Nat :=
  min (min (spokenText cd raw).length (max (lastSpaces (spokenText cd raw)).length
    (lastWord raw).length)) StreamingSanitizer.maxTail

/-- What is known of the environment: its letters are those of Unicode, and no phone number is
found where there is no digit. -/
structure SpokenEnv (env : TextEnv) : Prop where
  letters : AsciiLetters env.chars
  case : LetterCase env.chars
  phones : ∀ s, (∀ c ∈ s, spoken c = true) → env.matchPhones s = []

/-- No more than a first word has come. -/
def FirstWord (raw : Text) : Prop :=
  lstrip (bareText raw) = lastWord raw ∧ (lastWord raw).length ≤ StreamingSanitizer.maxTail

instance (raw : Text) : Decidable (FirstWord raw) := inferInstanceAs (Decidable (_ ∧ _))

/-- The last word is not joined to one before it by what has been taken out between them. It is not
a drawn out oh of more than three letters, nor XD, with or without spaces after it. -/
structure SettledWord (raw : Text) : Prop where
  word : (∃ c ∈ bareText raw, letter c = true) → lastWord (bareText raw) = lastWord raw
  oh : drawnOut (lastWord (bareText raw)) = true → (lastWord (bareText raw)).length ≤ 3
  laugh : isLaugh (lastSpoken (bareText raw)) = false

instance (raw : Text) : Decidable (SettledWord raw) :=
  decidable_of_iff (((bareText raw).any letter = true → lastWord (bareText raw) = lastWord raw)
      ∧ (drawnOut (lastWord (bareText raw)) = true → (lastWord (bareText raw)).length ≤ 3)
      ∧ isLaugh (lastSpoken (bareText raw)) = false)
    ⟨fun h => ⟨fun hletter => h.1 (List.any_eq_true.mpr hletter), h.2.1, h.2.2⟩,
      fun h => ⟨fun hletter => h.word (List.any_eq_true.mp hletter), h.oh, h.laugh⟩⟩

theorem stripAsterisks_append (s t : Text) :
    stripAsterisks (s ++ t) = stripAsterisks s ++ stripAsterisks t := List.flatMap_append

section

variable {env : TextEnv} {raw later : Text}

theorem bareText_isPrefix (h : shorn raw <+: shorn later) : bareText raw <+: bareText later := by
  obtain ⟨more, hmore⟩ := h
  exact ⟨stripAsterisks more, by rw [bareText, bareText, ← hmore, stripAsterisks_append]⟩

theorem SpokenEnv.sanitizedText_eq (henv : SpokenEnv env) (hraw : ∀ c ∈ raw, spoken c = true) :
    sanitizedText env raw = spokenText env.chars raw :=
  sanitizedText_spoken henv.letters henv.phones hraw

theorem SpokenEnv.heldBack_eq (henv : SpokenEnv env) (hraw : ∀ c ∈ raw, spoken c = true) :
    heldBack env raw = spokenHeld env.chars raw := by
  have hplain : Plain (spokenText env.chars raw) :=
    (plain_bareText hraw).pass.form henv.letters henv.case
  rw [heldBack, henv.sanitizedText_eq hraw, spokenHeld]
  by_cases hnil : spokenText env.chars raw = []
  · rw [hnil]
    simp [computeStableAndTailLengths]
  · have hmax : StreamingSanitizer.maxTail = 64 := rfl
    rw [tailLen_eq _ _ hnil, longestGuard_spoken henv.letters hraw hplain,
      hplain.unstableSuffixLen_eq]
    omega

theorem SpokenEnv.letThrough_eq (henv : SpokenEnv env) (hraw : ∀ c ∈ raw, spoken c = true) :
    letThrough env raw = (sanitizedText env raw).length - spokenHeld env.chars raw := by
  rw [letThrough, henv.heldBack_eq hraw]

theorem SpokenEnv.stablePart_blank (henv : SpokenEnv env) (hraw : ∀ c ∈ raw, spoken c = true)
    (h : ∀ c ∈ bareText raw, letter c = false) : stablePart env raw = [] := by
  have hplain := plain_bareText hraw
  have hspaces : ∀ c ∈ bareText raw, c = ' ' := fun c hc =>
    (hplain c hc).resolve_left (by simp [h c hc])
  have hnil : sanitizedText env raw = [] := by
    rw [henv.sanitizedText_eq hraw]
    refine spokenForm_blank henv.letters henv.case hplain.pass ?_
    rw [spokenPass_blank hspaces]
    exact nonSpaces_blanks hspaces
  exact List.prefix_nil.mp (hnil ▸ stablePart_isPrefix env raw)

/-- A first word is held back. -/
theorem FirstWord.stablePart_eq_nil (henv : SpokenEnv env) (hraw : ∀ c ∈ raw, spoken c = true)
    (h : FirstWord raw) : stablePart env raw = [] := by
  have hplain := plain_bareText hraw
  obtain ⟨hword, hshort⟩ := h
  obtain ⟨blanks, heq, hblanks⟩ := hplain.blanks
  rw [hword] at heq
  have hspaces : Plain blanks := fun c hc => .inr (hblanks c hc)
  have hpass : spokenPass (bareText raw) = blanks ++ spokenWord (lastWord raw) := by
    rw [heq, spokenPass_append (.inl (gap_of_blanks hblanks)), spokenPass_blank hblanks,
      spokenPass_word letter_of_mem_lastWord]
  have hplainWord : Plain (spokenWord (lastWord raw)) := fun c hc =>
    hplain.pass c (hpass ▸ List.mem_append_right blanks hc)
  have hnil := spokenForm_blank henv.letters henv.case hspaces (nonSpaces_blanks hblanks)
  have hlen : (sanitizedText env raw).length ≤ (lastWord raw).length := by
    refine Nat.le_trans ?_ (length_spokenWord_le _)
    rw [henv.sanitizedText_eq hraw, spokenText, hpass]
    rcases spokenForm_append henv.letters henv.case hspaces hplainWord with
      ⟨-, hle⟩ | ⟨added, hadded, hle, -⟩
    · exact hle
    · rwa [hadded, hnil, List.nil_append]
  rw [stablePart_eq_nil_iff, henv.letThrough_eq hraw, spokenHeld, ← henv.sanitizedText_eq hraw]
  omega

/-- Before a first word there was none, or the beginning of it. -/
theorem SettledWord.stablePart_eq_nil (henv : SpokenEnv env) (hraw : ∀ c ∈ raw, spoken c = true)
    (h : SettledWord raw) (hstarts : shorn raw <+: shorn later) (hlater : FirstWord later) :
    stablePart env raw = [] := by
  by_cases hletter : ∃ c ∈ bareText raw, letter c = true
  · obtain ⟨more, hmore⟩ := bareText_isPrefix hstarts
    obtain ⟨blanks, heq, hblanks⟩ := (plain_bareText hraw).blanks
    have hne : lstrip (bareText raw) ≠ [] := fun hnil => by
      obtain ⟨c, hc, hl⟩ := hletter
      have hspace := List.dropWhile_eq_nil_iff.mp hnil c hc
      rw [isSpace_of_letter hl] at hspace
      exact absurd hspace (by simp)
    have hstart : lstrip (bareText raw) ++ more = lastWord later := by
      rw [← lstrip_append hne, hmore, hlater.1]
    have hword : lastWord (bareText raw) = lstrip (bareText raw) := by
      conv_lhs => rw [heq]
      rw [lastWord_append (gap_of_blanks hblanks), lastWord_of_letters fun c hc =>
        letter_of_mem_lastWord c (hstart ▸ List.mem_append_left more hc)]
    have hle := congrArg List.length hstart
    rw [List.length_append] at hle
    have hmax := hlater.2
    refine FirstWord.stablePart_eq_nil henv hraw ⟨?_, ?_⟩
    · rw [← hword, h.word hletter]
    · rw [← h.word hletter, hword]
      omega
  · exact henv.stablePart_blank hraw fun c hc => by simpa using fun hl => hletter ⟨c, hc, hl⟩

/-- What is made of more text. -/
theorem SpokenEnv.sanitizedText_append (henv : SpokenEnv env) {more : Text}
    (hlater : ∀ c ∈ later, spoken c = true) (hmore : bareText raw ++ more = bareText later) :
    sanitizedText env later = spokenForm env.chars (spokenPass (bareText raw ++ more)) := by
  rw [henv.sanitizedText_eq hlater, spokenText, hmore]

theorem length_lastWord_of_prefix {more : Text} (h' : SettledWord later)
    (hletter : ∃ c ∈ bareText raw, letter c = true)
    (hmore : bareText raw ++ more = bareText later) :
    (lastWord later).length = (lastWord (bareText raw ++ more)).length := by
  obtain ⟨c, hc, hl⟩ := hletter
  rw [hmore, h'.word ⟨c, hmore ▸ List.mem_append_left more hc, hl⟩]

/-- A long last word goes on as it is. -/
theorem SettledWord.keeps_long (henv : SpokenEnv env) (hraw : ∀ c ∈ raw, spoken c = true)
    (hlater : ∀ c ∈ later, spoken c = true) (h : SettledWord raw) (h' : SettledWord later)
    (hstarts : shorn raw <+: shorn later) (hletter : ∃ c ∈ bareText raw, letter c = true)
    (hlong : lastWord (bareText raw) = [] ∨ 3 < (lastWord (bareText raw)).length) :
    stablePart env raw <+: stablePart env later := by
  obtain ⟨more, hmore⟩ := bareText_isPrefix hstarts
  have hplain := plain_bareText hraw
  have hplain' := hmore ▸ plain_bareText hlater
  have hword := congrArg List.length (h.word hletter)
  have hword' := length_lastWord_of_prefix h' hletter hmore
  have hform' := henv.sanitizedText_append hlater hmore
  have hdrawn : lastWord (bareText raw) = [] ∨ 3 < (lastWord (bareText raw)).length
      ∧ drawnOut (lastWord (bareText raw)) = false :=
    hlong.imp_right fun hlong => ⟨hlong, by
      by_contra hoh
      exact absurd (h.oh (by simpa using hoh)) (by omega)⟩
  obtain ⟨rest, hrest, hpass, hle⟩ :=
    spokenPass_goesOn hplain hplain' hdrawn (hmore ▸ h'.oh) (hmore ▸ h'.laugh)
  rw [hpass] at hform'
  rcases spokenForm_append henv.letters henv.case hplain.pass hrest with
    ⟨hnil, -⟩ | ⟨added, hadded, -, hcount⟩
  · have hnil : sanitizedText env raw = [] := (henv.sanitizedText_eq hraw).trans hnil
    exact List.prefix_nil.mp (hnil ▸ stablePart_isPrefix env raw) ▸ List.nil_prefix
  · rw [← hform'] at hadded
    have hgrown : sanitizedText env later = sanitizedText env raw ++ added :=
      hadded.trans (congrArg (· ++ added) (henv.sanitizedText_eq hraw).symm)
    refine stablePart_isPrefix_of_le (hgrown ▸ List.prefix_append _ _) ?_
    have hspaces := lastSpaces_append (sanitizedText env raw) added
    have hsolid := nonSpaces_le added
    rw [henv.letThrough_eq hraw, henv.letThrough_eq hlater, spokenHeld, spokenHeld,
      ← henv.sanitizedText_eq hraw, ← henv.sanitizedText_eq hlater, hgrown, List.length_append]
    omega

/-- What stands before a short last word is all that is let through. -/
theorem SettledWord.stablePart_isPrefix_kept (henv : SpokenEnv env)
    (hraw : ∀ c ∈ raw, spoken c = true) (h : SettledWord raw)
    (hletter : ∃ c ∈ bareText raw, letter c = true) (hshort : (lastWord (bareText raw)).length ≤ 3)
    {kept : Text} (hkept : Plain kept)
    (hpass : spokenPass (bareText raw) = kept ++ spokenWord (lastWord (bareText raw))) :
    stablePart env raw <+: spokenForm env.chars kept := by
  have hword := congrArg List.length (h.word hletter)
  have hmax : StreamingSanitizer.maxTail = 64 := rfl
  have hplainWord : Plain (spokenWord (lastWord (bareText raw))) := fun c hc =>
    (plain_bareText hraw).pass c (hpass ▸ List.mem_append_right kept hc)
  have hshorter := length_spokenWord_le (lastWord (bareText raw))
  have hstart : spokenForm env.chars kept <+: spokenText env.chars raw
      ∧ (spokenText env.chars raw).length
        ≤ (spokenForm env.chars kept).length + (lastWord (bareText raw)).length := by
    rw [spokenText, hpass]
    rcases spokenForm_append henv.letters henv.case hkept hplainWord with
      ⟨hnil, hlen⟩ | ⟨added, hadded, hlen, -⟩
    · exact ⟨hnil ▸ List.nil_prefix, by omega⟩
    · rw [hadded, List.length_append]
      exact ⟨List.prefix_append _ _, by omega⟩
  have hlow : letThrough env raw ≤ (spokenForm env.chars kept).length := by
    rw [henv.letThrough_eq hraw, spokenHeld, henv.sanitizedText_eq hraw]
    omega
  exact List.prefix_of_prefix_length_le (stablePart_isPrefix env raw)
    (henv.sanitizedText_eq hraw ▸ hstart.1) (length_stablePart env raw ▸ hlow)

/-- So a short one may change. -/
theorem SettledWord.keeps_short (henv : SpokenEnv env) (hraw : ∀ c ∈ raw, spoken c = true)
    (hlater : ∀ c ∈ later, spoken c = true) (h : SettledWord raw) (h' : SettledWord later)
    (hstarts : shorn raw <+: shorn later) (hne : lastWord (bareText raw) ≠ [])
    (hshort : (lastWord (bareText raw)).length ≤ 3) :
    stablePart env raw <+: stablePart env later := by
  obtain ⟨more, hmore⟩ := bareText_isPrefix hstarts
  have hplain' := hmore ▸ plain_bareText hlater
  obtain ⟨c, hc⟩ := List.exists_mem_of_ne_nil _ hne
  have hletter : ∃ c ∈ bareText raw, letter c = true :=
    ⟨c, (List.rtakeWhile_suffix _ _).mem hc, letter_of_mem_lastWord c hc⟩
  have hword' := length_lastWord_of_prefix h' hletter hmore
  obtain ⟨kept, rest, hkept, hrest, hpass, hpass', hle, hpos⟩ :=
    spokenPass_restarts (plain_bareText hraw) hplain' hne (hmore ▸ h'.oh) (hmore ▸ h'.laugh)
  have hkeeps := h.stablePart_isPrefix_kept henv hraw hletter hshort hkept hpass
  rcases spokenForm_append henv.letters henv.case hkept hrest with
    ⟨hnil, -⟩ | ⟨added, hadded, -, hcount⟩
  · exact List.prefix_nil.mp (hnil ▸ hkeeps) ▸ List.nil_prefix
  · have hgrown : sanitizedText env later = spokenForm env.chars kept ++ added := by
      rw [henv.sanitizedText_append hlater hmore, hpass', hadded]
    have hlow := hkeeps.length_le
    have hsolid := nonSpaces_le added
    have hspaces := lastSpaces_append_le (spokenForm env.chars kept) (t := added) (by omega)
    refine List.prefix_of_prefix_length_le (hkeeps.trans (hgrown ▸ List.prefix_append _ _))
      (stablePart_isPrefix env later) ?_
    rw [length_stablePart env later, henv.letThrough_eq hlater, spokenHeld,
      ← henv.sanitizedText_eq hlater, hgrown, List.length_append]
    omega

/-- **What has been let through stays**, where nothing is completed and the word is settled. -/
theorem SpokenEnv.stablePart_isPrefix (henv : SpokenEnv env) (hraw : ∀ c ∈ raw, spoken c = true)
    (hlater : ∀ c ∈ later, spoken c = true) (hstarts : FirstWord raw ∨ shorn raw <+: shorn later)
    (h : FirstWord raw ∨ SettledWord raw) (h' : FirstWord later ∨ SettledWord later) :
    stablePart env raw <+: stablePart env later := by
  by_cases hfirst : FirstWord raw
  · exact hfirst.stablePart_eq_nil henv hraw ▸ List.nil_prefix
  · replace hstarts := hstarts.resolve_left hfirst
    replace h := h.resolve_left hfirst
    by_cases hfirst' : FirstWord later
    · exact h.stablePart_eq_nil henv hraw hstarts hfirst' ▸ List.nil_prefix
    · replace h' := h'.resolve_left hfirst'
      by_cases hletter : ∃ c ∈ bareText raw, letter c = true
      · by_cases hshort : lastWord (bareText raw) ≠ [] ∧ (lastWord (bareText raw)).length ≤ 3
        · exact h.keeps_short henv hraw hlater h' hstarts hshort.1 hshort.2
        · refine h.keeps_long henv hraw hlater h' hstarts hletter ?_
          rw [not_and_or, not_not, Nat.not_le] at hshort
          exact hshort
      · have hblank : ∀ c ∈ bareText raw, letter c = false := fun c hc => by
          simpa using fun hl => hletter ⟨c, hc, hl⟩
        exact henv.stablePart_blank hraw hblank ▸ List.nil_prefix

end

/-! ## Any way of cutting -/

theorem mem_rawTexts {raw later : Text} {chunks : List Text} (h : later ∈ rawTexts raw chunks) :
    later <+: raw ++ chunks.flatten := by
  induction chunks generalizing raw with
  | nil => exact absurd h List.not_mem_nil
  | cons chunk chunks ih =>
      rw [rawTexts] at h
      rw [List.flatten_cons, ← List.append_assoc]
      split at h
      · rename_i hchunk
        rw [hchunk, List.append_nil]
        exact ih h
      · rcases List.mem_cons.mp h with rfl | hmem
        · exact List.prefix_append _ _
        · exact ih hmem

/--
**How a text is cut does not show exactly when enough is held back.** For every text and every way
of cutting it, whatever the phone number matcher reports: the guards cover what more text changes.

For letters, spaces and asterisks this is a matter of their words alone. There it does not show
where after the first word no cut comes before the rest of a prefix or an emote, after a drawn out
oh of more than three letters, or after XD. In any text it does not show where text is only added,
so not where the passes find nothing to do.
-/
theorem streamed_iff_allGuarded (env : TextEnv) (chunks : List Text) :
    (streamed env chunks = streamed env [chunks.flatten]
        ↔ AllGuarded (sanitizedText env) (heldBack env) chunks)
      ∧ (SpokenEnv env → (∀ c ∈ chunks.flatten, spoken c = true) →
        (streamed env chunks = streamed env [chunks.flatten]
          ↔ AllGuarded (spokenText env.chars) (spokenHeld env.chars) chunks)
        ∧ ((rawTexts [] chunks).IsChain
            (fun raw later => FirstWord raw ∨ shorn raw <+: shorn later) →
          (∀ raw ∈ rawTexts [] chunks, FirstWord raw ∨ SettledWord raw) →
          streamed env chunks = streamed env [chunks.flatten]))
      ∧ ((rawTexts [] chunks).IsChain (Adds env) →
        streamed env chunks = streamed env [chunks.flatten])
      ∧ (LetterCase env.chars → (∀ raw ∈ rawTexts [] chunks, Untouched env raw) →
        streamed env chunks = streamed env [chunks.flatten]) := by
  have hstable := (streamed_iff_chunkStable env chunks).mpr
  have hraw := (rawTexts_isChain [] chunks).tail
  have hguarded := (streamed_iff_chunkStable env chunks).trans (chunkStable_iff env chunks)
  have hadds : (rawTexts [] chunks).IsChain (Adds env) →
      streamed env chunks = streamed env [chunks.flatten] := fun h =>
    hstable (chunkStable_of_adds env h)
  refine ⟨hguarded, fun henv hspoken => ?_, hadds, ?_⟩
  · have hall : ∀ raw ∈ chunks.flatten :: rawTexts [] chunks, ∀ c ∈ raw, spoken c = true := by
      refine List.forall_mem_cons.mpr ⟨hspoken, fun raw hmem c hc => ?_⟩
      exact hspoken c ((mem_rawTexts hmem).mem hc)
    refine ⟨hguarded.trans (allGuarded_congr (fun raw hmem => henv.sanitizedText_eq (hall raw hmem))
      fun raw hmem => henv.heldBack_eq (hall raw hmem)), fun hcompleted hsettled => ?_⟩
    replace hall := (List.forall_mem_cons.mp hall).2
    refine hstable (chunkStable_of_isChain env (List.isChain_iff_getElem.mpr fun i hi => ?_))
    exact henv.stablePart_isPrefix (hall _ (List.getElem_mem _)) (hall _ (List.getElem_mem _))
      (hcompleted.getElem i hi) (hsettled _ (List.getElem_mem _)) (hsettled _ (List.getElem_mem _))
  · intro hcd h
    refine hadds (List.isChain_iff_getElem.mpr fun i hi => ?_)
    exact (h _ (List.getElem_mem _)).adds hcd (h _ (List.getElem_mem _)) (hraw.getElem i hi)

/-- Each of the four shows somewhere: it ends where the rest of it has been let through. -/
example : [["freestyle ", "mode on"], ["hi *smirk", "*"], ["hello ", "oooooooo", " "],
    ["hi x", "D", " "]].all (fun chunks =>
      let chunks := chunks.map String.toList
      streamed plainTextEnv chunks != streamed plainTextEnv [chunks.flatten]) = true := by
  decide +kernel

/-- A first word in two pieces, an emote, a drawn out oh and XD, none of them cut after. -/
theorem streamed_words :
    let chunks := ["He".toList, "y *hm* oo".toList, "oh xD y".toList, "ou".toList]
    streamed plainTextEnv chunks = streamed plainTextEnv [chunks.flatten]
      ∧ AllGuarded (spokenText plainTextEnv.chars) (spokenHeld plainTextEnv.chars) chunks := by
  intro chunks
  have henv : SpokenEnv plainTextEnv :=
    ⟨asciiLetters_asciiData, letterCase_asciiData, fun _ _ => rfl⟩
  have hspoken : ∀ c ∈ chunks.flatten, spoken c = true := List.all_eq_true.mp (by decide)
  have hcompleted : (rawTexts [] chunks).IsChain
      fun raw later => FirstWord raw ∨ shorn raw <+: shorn later := by decide +kernel
  have hsettled : ∀ raw ∈ rawTexts [] chunks, FirstWord raw ∨ SettledWord raw := by
    decide +kernel
  obtain ⟨hexact, henough⟩ := (streamed_iff_allGuarded plainTextEnv chunks).2.1 henv hspoken
  have hsame := henough hcompleted hsettled
  exact ⟨hsame, hexact.mp hsame⟩

/-- **A text of letters and spaces that comes out garbled.** The guard for emails counts the eight
raw characters of the second chunk, of which the pipeline keeps three; so the stable part shrinks
from `Hello` to `H`, and the rest of the word is emitted twice. -/
theorem streamed_garbled :
    let chunks := ["hello ".toList, "oooooooo".toList, " ".toList]
    streamed plainTextEnv chunks = "Helloello ooh".toList
      ∧ streamed plainTextEnv [chunks.flatten] = "Hello ooh".toList
      ∧ streamed plainTextEnv chunks ≠ streamed plainTextEnv [chunks.flatten] := by
  intro chunks
  have hcut : streamed plainTextEnv chunks = "Helloello ooh".toList := by decide +kernel
  have hwhole : streamed plainTextEnv [chunks.flatten] = "Hello ooh".toList := by decide +kernel
  refine ⟨hcut, hwhole, ?_⟩
  rw [hcut, hwhole]
  decide

end YapInference
