import YapInference.Proof.SuffixGuards

/-!
# Text that comes through as it is

In a text where none of the passes finds anything to do the sanitizer raises the first letter and
takes off leading white space. Such a text is only added to, so it may be cut anywhere.
-/

namespace YapInference

open Py Regex

/-- The patterns that letters, spaces and asterisks can make. -/
def spokenPatterns (cd : CharData) : List Pattern :=
  [freestylePrefixPattern, actionEmotePattern, exaggeratedOhPattern cd, emoticonPattern cd,
    collapseSpacesPattern]

/-- The others. -/
def writtenPatterns (cd : CharData) : List Pattern :=
  [leadingNewlineTokensPattern, emailPattern, ellipsisPattern, newlineTokenPattern,
    doubleDotSpacePattern, ellipsisTrailingDotPattern, ellipsisTrailingSpacePattern, dotRunPattern,
    spacedDotRunPattern, standalonePeriod, tempFahrenheitPattern cd, tempCelsiusPattern cd,
    tempKelvinPattern cd, degreeSymbolPattern, percentPattern, subtractionPattern cd,
    negativeNumberPattern cd, singleLetterSuffixPattern cd, wordHyphenPattern, emdashPattern,
    spaceBeforePunctPattern, escapedQuotePattern, emojiPattern, htmlTagPattern, Html.charref]

/-- The patterns the passes look for. -/
def passPatterns (cd : CharData) : List Pattern := spokenPatterns cd ++ writtenPatterns cd

/-- None of the passes finds anything in a text. -/
structure Untouched (env : TextEnv) (raw : Text) : Prop where
  patterns : ∀ r ∈ passPatterns env.chars, search r raw = none
  asterisks : '*' ∉ raw
  phones : env.matchPhones raw = []

theorem replaceChar_of_notMem {old : Char} {new : String} {s : Text} (h : old ∉ s) :
    replaceChar old new s = s := by
  induction s with
  | nil => rfl
  | cons c s ih =>
      rw [List.mem_cons, not_or] at h
      rw [replaceChar, List.flatMap_cons, if_neg (Ne.symm h.1)]
      exact congrArg (c :: ·) (ih h.2)

/-- The apostrophe is replaced by itself. -/
theorem replaceChar_apostrophe (s : Text) : replaceChar (Char.ofNat 39) "'" s = s := by
  induction s with
  | nil => rfl
  | cons c s ih =>
      rw [replaceChar, List.flatMap_cons]
      split
      · rename_i hc
        rw [hc]
        exact congrArg (Char.ofNat 39 :: ·) ih
      · exact congrArg (c :: ·) ih

/-! ## The first letter -/

theorem ensureLeadingCapitalStream_other {cd : CharData} {c : Char} (h : cd.isAlpha c = false)
    (s : Text) : (ensureLeadingCapitalStream cd (c :: s) true).1
      = c :: (ensureLeadingCapitalStream cd s true).1 := by
  simp only [ensureLeadingCapitalStream, Bool.not_true, Bool.false_eq_true, if_false,
    List.span_eq_takeWhile_dropWhile, List.takeWhile_cons, List.dropWhile_cons, h, Bool.not_false,
    if_true]
  split <;> rename_i hsplit <;> obtain ⟨rfl, hdrop⟩ := Prod.mk.inj hsplit
  · simp [hdrop]
  · rw [hdrop]
    dsimp only
    split <;> rfl

theorem ensureLeadingCapitalStream_letter {cd : CharData} {c : Char} (h : cd.isAlpha c = true)
    (s : Text) : (ensureLeadingCapitalStream cd (c :: s) true).1
      = (if cd.isLower c then cd.upper c else [c]) ++ s := by
  simp only [ensureLeadingCapitalStream, Bool.not_true, Bool.false_eq_true, if_false,
    List.span_eq_takeWhile_dropWhile, List.takeWhile_cons, List.dropWhile_cons, h]
  split <;> rfl

/-- It is raised in what has come, or in what comes. -/
theorem ensureLeadingCapitalStream_append {cd : CharData} (hcd : LetterCase cd) (s more : Text) :
    ∃ added, (ensureLeadingCapitalStream cd (s ++ more) true).1
        = (ensureLeadingCapitalStream cd s true).1 ++ added ∧ more.length ≤ added.length := by
  induction s with
  | nil =>
      refine ⟨(ensureLeadingCapitalStream cd more true).1, rfl, ?_⟩
      rcases ensureLeadingCapitalStream_cases cd more with h | ⟨before, c, rest, ha, hl, hs, h⟩
      · rw [h]
      · have hpos := List.length_pos_of_ne_nil (hcd.ne c ha hl)
        rw [h, hs]
        simp only [List.length_append, List.length_cons]
        omega
  | cons c s ih =>
      cases halpha : cd.isAlpha c with
      | false =>
          obtain ⟨added, hadded, hlonger⟩ := ih
          rw [List.cons_append, ensureLeadingCapitalStream_other halpha, hadded,
            ensureLeadingCapitalStream_other halpha]
          exact ⟨added, rfl, hlonger⟩
      | true =>
          rw [List.cons_append, ensureLeadingCapitalStream_letter halpha,
            ensureLeadingCapitalStream_letter halpha, ← List.append_assoc]
          exact ⟨more, rfl, Nat.le_refl _⟩

theorem lstrip_append {s : Text} (h : lstrip s ≠ []) (more : Text) :
    lstrip (s ++ more) = lstrip s ++ more := by
  unfold lstrip at h ⊢
  rw [List.dropWhile_append, if_neg (by simpa using h)]

/-! ## Nothing to do -/

namespace Untouched

variable {env : TextEnv} {raw later : Text}

theorem strippedText_eq (h : Untouched env raw) : strippedText env raw = raw := by
  have hsub : ∀ r ∈ passPatterns env.chars, ∀ f count, subCount count r f raw = raw :=
    fun r hr f count => subCount_of_none (h.patterns r hr) count
  simp only [passPatterns, spokenPatterns, writtenPatterns, List.cons_append, List.nil_append,
    List.forall_mem_cons, List.not_mem_nil, false_implies, implies_true, and_true] at hsub
  have hphones : verbalizePhoneNumbers env.matchPhones raw = raw := by
    simp [verbalizePhoneNumbers, h.phones]
  simp only [strippedText, openingPasses, dotPasses, degreePasses, dashPasses, quotePasses,
    stripLeadingNewlineTokens, verbalizeEmails, stripAsterisks, stripEscapedQuotes,
    stripEmojiLikeTokens, collapseSpaces, subBy, sub, hsub, hphones, ne_eq, not_true_eq_false,
    if_false, replaceChar_of_notMem h.asterisks, replaceChar_apostrophe]

theorem sanitizedText_eq (h : Untouched env raw) :
    sanitizedText env raw = lstrip (ensureLeadingCapitalStream env.chars raw true).1 := by
  have hcollapse : collapseSpaces raw = raw :=
    subCount_of_none (h.patterns _ (by simp [passPatterns, spokenPatterns, writtenPatterns])) _
  have hunescape : Html.unescape env.html5 raw = raw := by
    have hnone := h.patterns Html.charref (by simp [passPatterns, spokenPatterns, writtenPatterns])
    simp [Html.unescape, sub, subCount_of_none hnone]
  rw [YapInference.sanitizedText_eq, finishedText, h.strippedText_eq, hunescape, hcollapse]

/-- **It is only added to.** -/
theorem adds (hcd : LetterCase env.chars) (h : Untouched env raw) (hlater : Untouched env later)
    (hraw : raw <+: later) : Adds env raw later := by
  obtain ⟨more, rfl⟩ := hraw
  obtain ⟨added, hadded, hlonger⟩ := ensureLeadingCapitalStream_append hcd raw more
  have hemail : emailPattern ∈ passPatterns env.chars := by
    simp [passPatterns, spokenPatterns, writtenPatterns]
  by_cases hblank : sanitizedText env raw = []
  · exact .inl (Nat.le_zero.mp (List.length_nil ▸ hblank ▸ letThrough_le env raw))
  · have hgrown : sanitizedText env (raw ++ more) = sanitizedText env raw ++ added := by
      rw [h.sanitizedText_eq] at hblank ⊢
      rw [hlater.sanitizedText_eq, hadded, lstrip_append hblank]
    refine .inr ⟨hgrown ▸ List.prefix_append _ _, ?_, ?_⟩
    · rw [hgrown, List.length_append, List.length_append]
      omega
    · rw [h.patterns _ hemail, hlater.patterns _ hemail]

end Untouched

end YapInference
