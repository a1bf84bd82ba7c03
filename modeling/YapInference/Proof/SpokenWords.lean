import YapInference.Lib.RegexWords
import YapInference.Proof.Untouched

/-!
# Letters, spaces and asterisks

What the passes make of such a text. An opening prefix and the action emotes are taken out, and the
asterisks that are left become spaces. A word that is a drawn out oh is shortened, XD becomes a
space, every other word stays. Of spaces that stand together one is left. None of the other passes
finds anything.
-/

namespace YapInference

open Py Regex

/-- A letter, a space or an asterisk. -/
def spoken (c : Char) : Bool := letter c || c == ' ' || c == '*'

theorem spoken_iff {c : Char} : spoken c = true ↔ letter c = true ∨ c = ' ' ∨ c = '*' := by
  simp [spoken, or_assoc]

/-- Anything else. -/
def unspoken (c : Char) : Bool := !spoken c

/-- What Unicode says of the letters of ASCII, and of space and asterisk. -/
structure AsciiLetters (cd : CharData) : Prop where
  word : ∀ c, letter c = true → cd.isWord c = true
  space : cd.isWord ' ' = false
  decimal : ∀ c, spoken c = true → cd.isDecimal c = false
  upper : ∀ c, letter c = true → ∃ d, letter d = true ∧ cd.upper c = [d]

theorem asciiLetters_asciiData : AsciiLetters asciiData where
  word c hc := by simp [asciiData, hc]
  space := by decide
  decimal c hc := by
    show c.isDigit = false
    rcases spoken_iff.mp hc with h | rfl | rfl
    · have hcode := letter_toNat h
      rw [← Bool.not_eq_true, Char.isDigit, Bool.and_eq_true, decide_eq_true_iff,
        decide_eq_true_iff]
      rintro ⟨-, hle⟩
      have hnine : c.toNat ≤ 0x39 := UInt32.le_iff_toNat_le.mp hle
      omega
    · rfl
    · rfl
  upper c hc := by
    have hlower : ∀ n < 26, letter (Char.ofNat (0x61 + n)).toUpper = true := by decide
    have hupper : ∀ n < 26, letter (Char.ofNat (0x41 + n)).toUpper = true := by decide
    refine ⟨c.toUpper, ?_, rfl⟩
    rcases letter_toNat hc with ⟨hmin, hmax⟩ | ⟨hmin, hmax⟩
    · have h := hlower (c.toNat - 0x61) (by omega)
      rwa [Nat.add_sub_cancel' hmin, Char.ofNat_toNat] at h
    · have h := hupper (c.toNat - 0x41) (by omega)
      rwa [Nat.add_sub_cancel' hmin, Char.ofNat_toNat] at h

/-- Letters and spaces. -/
def Plain (s : Text) : Prop := Worded ' ' letter s

theorem Plain.spoken {s : Text} (hs : Plain s) : ∀ c ∈ s, spoken c = true := fun c hc =>
  spoken_iff.mpr ((hs c hc).imp_right .inl)

/-! ## The patterns that are not found -/

theorem asks_emojiPattern : Asks unspoken emojiPattern := by
  rw [emojiPattern_eq]
  intro c hc
  by_contra hspoken
  have hcode : c.toNat < 0x2600 := by
    rcases spoken_iff.mp (by simpa [unspoken] using hspoken) with h | rfl | rfl
    · have := letter_toNat h
      omega
    · decide
    · decide
  exact absurd hc (by simp [not_emoji hcode])

theorem asks_spaceBeforePunctPattern : Asks unspoken spaceBeforePunctPattern := by
  refine .inr fun c hc => ?_
  have h : c = ',' ∨ c = '?' ∨ c = '!' := by simpa [among] using hc
  rcases h with rfl | rfl | rfl <;> decide

theorem asks_writtenPatterns (cd : CharData) : ∀ r ∈ writtenPatterns cd, Asks unspoken r := by
  intro r hr
  have hbreaks : Asks unspoken newlineTokens :=
    ⟨Nat.one_pos, asks_lit rfl, asks_lit rfl, .inr (asks_lit rfl)⟩
  simp only [writtenPatterns, List.mem_cons, List.not_mem_nil, or_false] at hr
  -- each names the part that no such text has
  rcases hr with rfl | rfl | rfl | rfl | rfl | rfl | rfl | rfl | rfl | rfl | rfl | rfl | rfl | rfl
    | rfl | rfl | rfl | rfl | rfl | rfl | rfl | rfl | rfl | rfl | rfl
  · exact .inr (.inr (.inl hbreaks))
  · exact .inr (.inl (asks_lit rfl))
  · exact .inl (asks_lit rfl)
  · exact .inr (.inl hbreaks)
  · exact .inl (asks_lit rfl)
  · exact .inl (asks_lit rfl)
  · exact .inl (asks_lit rfl)
  · exact ⟨by decide, asks_lit rfl⟩
  · exact .inr (asks_lit rfl)
  · exact .inr (.inl (asks_lit rfl))
  · exact .inl (asks_lit rfl)
  · exact .inl (asks_lit rfl)
  · exact .inl (asks_lit rfl)
  · exact .inl (asks_lit rfl)
  · exact asks_lit rfl
  · exact .inr (.inr (.inl (asks_lit rfl)))
  · exact .inr (.inl (asks_lit rfl))
  · exact .inr (.inl (asks_lit rfl))
  · exact .inr (.inl (asks_lit rfl))
  · exact ⟨.inl (asks_lit rfl), asks_lit rfl, asks_lit rfl⟩
  · exact asks_spaceBeforePunctPattern
  · exact .inl ⟨Nat.one_pos, asks_lit rfl⟩
  · exact asks_emojiPattern
  · exact .inl (asks_lit rfl)
  · exact .inl (asks_lit rfl)

/-- None of them is found. -/
theorem search_writtenPatterns (cd : CharData) {s : Text} (hs : ∀ c ∈ s, spoken c = true) :
    ∀ r ∈ writtenPatterns cd, search r s = none := fun r hr =>
  search_of_asks (asks_writtenPatterns cd r hr) fun c hc => by simp [unspoken, hs c hc]

/-! ## One space for many -/

/-- A space is left out where one has been. -/
def squeeze : (afterSpace : Bool) → Text → Text
  | _, [] => []
  | afterSpace, c :: s =>
      if c = ' ' then (if afterSpace then squeeze true s else c :: squeeze true s)
      else c :: squeeze false s

theorem squeeze_sublist (afterSpace : Bool) (s : Text) : (squeeze afterSpace s).Sublist s := by
  induction s generalizing afterSpace with
  | nil => exact List.Sublist.refl []
  | cons c s ih =>
      rw [squeeze]
      split
      · split
        · exact (ih true).cons c
        · exact (ih true).cons_cons c
      · exact (ih false).cons_cons c

theorem squeeze_append (afterSpace : Bool) (s t : Text) :
    ∃ flag, squeeze afterSpace (s ++ t) = squeeze afterSpace s ++ squeeze flag t := by
  induction s generalizing afterSpace with
  | nil => exact ⟨afterSpace, rfl⟩
  | cons c s ih =>
      obtain ⟨spaced, hspaced⟩ := ih true
      obtain ⟨plain, hplain⟩ := ih false
      rw [List.cons_append, squeeze, squeeze, hspaced, hplain]
      split
      · exact ⟨spaced, by cases afterSpace <;> rfl⟩
      · exact ⟨plain, rfl⟩

theorem squeeze_squeeze (afterSpace : Bool) (s : Text) :
    squeeze afterSpace (squeeze afterSpace s) = squeeze afterSpace s := by
  induction s generalizing afterSpace with
  | nil => rfl
  | cons c s ih =>
      rw [squeeze]
      by_cases hc : c = ' '
      · cases afterSpace
        · simp [squeeze, hc, ih true]
        · simp [hc, ih true]
      · simp [squeeze, hc, ih false]

/-- What went before matters to a space only. -/
theorem squeeze_of_head {s : Text} (h : s.head? ≠ some ' ') (afterSpace : Bool) :
    squeeze afterSpace s = squeeze false s := by
  cases s with
  | nil => cases afterSpace <;> rfl
  | cons c s =>
      have hc : c ≠ ' ' := fun heq => h (by rw [heq]; rfl)
      rw [squeeze, squeeze, if_neg hc, if_neg hc]

theorem squeeze_spaces {w : Text} (hw : ∀ c ∈ w, c = ' ') (t : Text) :
    squeeze true (w ++ t) = squeeze true t := by
  induction w with
  | nil => rfl
  | cons c w ih =>
      rw [List.forall_mem_cons] at hw
      rw [List.cons_append, squeeze, if_pos hw.1, if_pos rfl, ih hw.2]

/-- **That is what collapsing does**, where there are no tabs. -/
theorem collapseSpaces_squeeze {s : Text} (hs : ∀ c ∈ s, c ≠ '\t') :
    collapseSpaces s = squeeze false s := by
  have hblank : ∀ {c}, c ≠ '\t' → blank c = true → c = ' ' := by
    intro c htab hc
    have h : c = ' ' ∨ c = '\t' := by simpa [blank, among] using hc
    exact h.resolve_right htab
  have hreading : ∀ {c : Cursor} {ps : List Piece}, Reading collapseSpacesPattern c ps →
      (∀ x ∈ c.after, x ≠ '\t') → collapsed ps = squeeze false c.after := by
    intro c ps h
    induction h with
    | done => exact fun _ => rfl
    | @kept before rest x ps hnone hrest ih =>
        intro htabs
        rw [List.forall_mem_cons] at htabs
        have hrest := ih htabs.2
        have hmatch := reads_collapseSpacesPattern.matchAt_eq_none_of_le nil_notMem_runs hnone
        rw [collapsed, rewritten_kept, ← collapsed, hrest, squeeze]
        split
        · -- a space that stands alone
          rename_i hx
          have hhead : rest.head? ≠ some ' ' := fun hy =>
            matchAt_collapseSpacesPattern.mp hmatch ' ' hy ⟨by simp [hx, blank, among], by decide⟩
          rw [if_neg (by simp), squeeze_of_head hhead true]
        · rfl
    | @matched c m ps hmatch hshort hrest ih =>
        intro htabs
        obtain ⟨w, ⟨hlen, hw⟩, hafter⟩ := reads_collapseSpacesPattern.matchAt_eq_some hmatch
        rw [hafter] at htabs ⊢
        have hspaces : ∀ c ∈ w, c = ' ' := fun c hc =>
          hblank (htabs c (List.mem_append_left _ hc)) (hw c hc)
        have hhead : m.cursor.after.head? ≠ some ' ' := fun hx =>
          absurd (matchAt_rep_set_longest hmatch ' ' hx) (by decide)
        obtain ⟨c₁, w, rfl⟩ := List.exists_cons_of_ne_nil
          (List.ne_nil_of_length_pos (Nat.lt_of_lt_of_le Nat.zero_lt_two hlen))
        rw [List.forall_mem_cons] at hspaces
        rw [collapsed, rewritten_matched, ← collapsed,
          ih fun x hx => htabs x (List.mem_append_right _ hx), List.cons_append, squeeze,
          if_pos hspaces.1, if_neg (by simp), squeeze_spaces hspaces.2, squeeze_of_head hhead true,
          hspaces.1]
        rfl
  rw [collapseSpaces_eq]
  exact hreading (pieces_reading _ s) hs

theorem Plain.squeezed {s : Text} (hs : Plain s) (afterSpace : Bool) :
    Plain (squeeze afterSpace s) := fun c hc => hs c ((squeeze_sublist afterSpace s).mem hc)

theorem Plain.collapse {s : Text} (hs : Plain s) : collapseSpaces s = squeeze false s :=
  collapseSpaces_squeeze fun c hc heq => absurd (hs c hc) (heq ▸ by decide)

/-! ## Ohs and laughs -/

/-- An o, and more of o and h. -/
def isOh : Text → Bool := isRun (among "oO") (among "oOhH")

/-- XD. -/
def isLaugh : Text → Bool
  | [x, d] => foldCase x == 'x' && foldCase d == 'd'
  | _ => false

theorem onWords_oh {cd : CharData} (hcd : AsciiLetters cd) :
    OnWords ' ' letter isOh (exaggeratedOhPattern cd) :=
  onWords_run hcd.word hcd.space (by decide) (by decide)

theorem foldCase_of_letter {c : Char} (h : letter c = true) : letter (foldCase c) = true := by
  unfold foldCase
  split
  · rename_i hupper
    have hcode := isUpper_toNat hupper
    have hlower : ∀ n < 26, letter (Char.ofNat (0x41 + n)).toLower = true := by decide
    have hc := hlower (c.toNat - 0x41) (by omega)
    rwa [Nat.add_sub_cancel' hcode.1, Char.ofNat_toNat] at hc
  · have hcode := letter_toNat h
    rw [if_neg (by omega), if_neg (by omega), if_neg (by omega)]
    exact h

theorem spoken_foldCase {c : Char} (hc : spoken c = true) : spoken (foldCase c) = true := by
  rcases spoken_iff.mp hc with h | rfl | rfl
  · exact spoken_iff.mpr (.inl (foldCase_of_letter h))
  · decide
  · decide

theorem mem_ways_laugh {m m' : Progress} :
    m' ∈ ways (all [ilit "xd", .ahead false (.set (icase letter))]) m ↔
      ∃ x d rest, m.cursor.after = x :: d :: rest ∧ foldCase x = 'x' ∧ foldCase d = 'd'
        ∧ rest.head?.any (icase letter) = false
        ∧ m' = { m with cursor := { before := d :: x :: m.cursor.before, after := rest } } := by
  change m' ∈ ways (.seq (.seq (.set (foldCase · == 'x')) (.set (foldCase · == 'd')))
    (.ahead false (.set (icase letter)))) m ↔ _
  simp only [mem_ways_seq, mem_ways_set, mem_ways_ahead, beq_iff_eq]
  constructor
  · rintro ⟨_, ⟨_, ⟨x, _, hafter, hx, rfl⟩, d, rest, rfl, hd, rfl⟩, rfl, hend⟩
    exact ⟨x, d, rest, hafter, hx, hd, hend, rfl⟩
  · rintro ⟨x, d, rest, hafter, hx, hd, hend, rfl⟩
    exact ⟨_, ⟨_, ⟨x, d :: rest, hafter, hx, rfl⟩, d, rest, rfl, hd, rfl⟩, rfl, hend⟩

/-- Of the emoticons only one is made of letters. -/
theorem mem_ways_emoticon {cd : CharData} {m m' : Progress} (hm : Plain m.cursor.after) :
    m' ∈ ways (emoticonPattern cd) m ↔
      m.cursor.before.head?.any (icase fun c => letter c || digit c) = false
        ∧ ∃ x d rest, m.cursor.after = x :: d :: rest ∧ foldCase x = 'x' ∧ foldCase d = 'd'
          ∧ rest.head?.any (icase letter) = false
          ∧ m' = { m with cursor := { before := d :: x :: m.cursor.before, after := rest } } := by
  have hnone : ∀ {r : Pattern}, Asks unspoken r → ways r m = [] := fun hr =>
    ways_of_asks hr fun c hc => by simp [unspoken, hm.spoken c hc]
  have hface := hnone (r := all [.set (among ":=;8"), opt (.set (among "-^")),
    .set (icase (among ")dp(/\\o"))]) (.inl (asks_among (by decide)))
  have htears := hnone (r := lit ":'(") (asks_lit rfl)
  have hheart := hnone (r := lit "<3") (asks_lit rfl)
  have hneutral := hnone (r := all [lit ":", opt (lit "-"), lit "|"]) (.inl (asks_lit rfl))
  have hunsure := hnone (r := all [lit ":", opt (lit "-"), lit "/"]) (.inl (asks_lit rfl))
  have hcat := hnone (r := all [lit ":3", .ahead false (.set cd.isDecimal)]) (.inl (asks_lit rfl))
  have hwink := hnone (r := all [lit ";", opt (lit "-"), .set (icase (among ")pd"))])
    (.inl (asks_lit rfl))
  have hhappy := hnone (r := lit "^_^") (asks_lit rfl)
  have hcrying := hnone (r := ilit "t_t") (.inr (.inl fun c hc => by
    by_contra hspoken
    have hfold := spoken_foldCase (by simpa [unspoken] using hspoken)
    exact absurd hfold (beq_iff_eq.mp hc ▸ by decide)))
  have hflip := hnone (r := all [opt (lit "("), lit "╯°□°", opt (lit ")"), lit "╯︵", star space,
    lit "┻━┻"]) (.inr (.inl (asks_lit rfl)))
  rw [← mem_ways_laugh]
  change m' ∈ ways (.seq (.behind false _) (any _)) m ↔ _
  simp only [mem_ways_seq, mem_ways_behind, and_assoc, exists_eq_left]
  simp only [any, ways_alt, hface, htears, hheart, hneutral, hunsure, hcat, hwink, hhappy, hcrying,
    hflip, List.nil_append, List.append_nil]

theorem onWords_emoticon (cd : CharData) : OnWords ' ' letter isLaugh (emoticonPattern cd) := by
  refine ⟨fun {before after} hgap hall => matchAt_eq_none fun m hm => ?_,
    fun {b before x after} hb hx => matchAt_eq_none fun m hm => ?_,
    fun {before word after} hbefore hne hword hgap hall => ?_⟩
  · have hplain : Plain (Progress.cursor ⟨⟨before, after⟩, []⟩).after := hall
    obtain ⟨-, x, d, rest, hafter, hx, -⟩ := (mem_ways_emoticon hplain).mp hm
    obtain rfl := hgap x (by rw [show after = x :: d :: rest from hafter]; rfl)
    exact absurd hx (by decide)
  · -- the lookbehind refuses
    have hbehind : icase (fun c => letter c || digit c) b = true := by
      rw [icase, foldCase_of_letter hb, Bool.true_or]
    change m ∈ ways (.seq (.behind false _) (any _)) _ at hm
    obtain ⟨m₁, h₁, -⟩ := mem_ways_seq.mp hm
    have hclear := (mem_ways_behind.mp h₁).2
    rw [List.head?_cons, Option.any_some, hbehind] at hclear
    exact absurd hclear (by simp)
  · have hplain : Plain (word ++ after) :=
      List.forall_mem_append.mpr ⟨fun c hc => .inl (hword c hc), hall⟩
    have hbehind : before.head?.any (icase fun c => letter c || digit c) = false := by
      cases before with
      | nil => rfl
      | cons b before =>
          obtain rfl := hbefore b rfl
          show icase (fun c => letter c || digit c) ' ' = false
          decide
    have hends : ∀ {m}, m ∈ ways (emoticonPattern cd)
        { cursor := { before := before, after := word ++ after }, groups := [] } →
        isLaugh word = true ∧ m.cursor.after = after := by
      intro m hm
      obtain ⟨-, x, d, rest, hafter, hx, hd, hend, rfl⟩ := (mem_ways_emoticon hplain).mp hm
      obtain ⟨z, rfl, rfl⟩ : ∃ z, word = [x, d] ++ z ∧ rest = z ++ after := by
        refine run_of_word (p := fun c => foldCase c == 'x' || foldCase c == 'd') (by decide) hgap
          ?_ hafter
        simp [hx, hd]
      cases z with
      | nil => exact ⟨by simp [isLaugh, hx, hd], rfl⟩
      | cons c z =>
          have hc : letter c = true := hword c (by simp)
          simp [icase, foldCase_of_letter hc] at hend
    cases hhit : isLaugh word with
    | false =>
        rw [matchAt_eq_none fun m hm => absurd (hends hm).1 (by simp [hhit]), if_neg (by simp)]
        rfl
    | true =>
        rw [if_pos rfl]
        refine matchAt_map_after ?_ fun m hm => (hends hm).2
        unfold isLaugh at hhit
        split at hhit
        · rename_i x d
          obtain ⟨hx, hd⟩ := (Bool.and_eq_true _ _).mp hhit
          refine ⟨_, (mem_ways_emoticon hplain).mpr ⟨hbehind, x, d, after, rfl,
            beq_iff_eq.mp hx, beq_iff_eq.mp hd, ?_, rfl⟩, rfl⟩
          cases after with
          | nil => rfl
          | cons c after =>
              obtain rfl := hgap c rfl
              show icase letter ' ' = false
              decide
        · exact absurd hhit (by simp)

/-! ## What becomes of the words -/

/-- A word after the pass for ohs. -/
def ohWord (word : Text) : Text := if isOh word then normalizeExaggeratedOh word else word

/-- And after the one for emoticons. -/
def spokenWord (word : Text) : Text := if isLaugh (ohWord word) then [' '] else ohWord word

theorem normalizeExaggeratedOh_cases (word : Text) : normalizeExaggeratedOh word = word
    ∨ normalizeExaggeratedOh word = "Ooh".toList ∨ normalizeExaggeratedOh word = "ooh".toList := by
  unfold normalizeExaggeratedOh
  dsimp only
  split
  · exact .inl rfl
  · split
    · exact .inr (.inl rfl)
    · exact .inr (.inr rfl)

theorem mem_ohWord {word : Text} {c : Char} (hc : c ∈ ohWord word) :
    c ∈ word ∨ letter c = true := by
  unfold ohWord at hc
  split at hc
  · rcases normalizeExaggeratedOh_cases word with h | h | h <;> rw [h] at hc
    · exact .inl hc
    · exact .inr (List.all_eq_true.mp (by decide) c hc)
    · exact .inr (List.all_eq_true.mp (by decide) c hc)
  · exact .inl hc

theorem mem_spokenWord {word : Text} {c : Char} (hc : c ∈ spokenWord word) :
    c ∈ word ∨ letter c = true ∨ c = ' ' := by
  unfold spokenWord at hc
  split at hc
  · exact .inr (.inr (by simpa using hc))
  · exact (mem_ohWord hc).imp_right .inl

/-- What becomes of a text, but for its spaces and its first letter. -/
def spokenPass (s : Text) : Text := eachWord ' ' spokenWord [] s

theorem Plain.pass {s : Text} (hs : Plain s) : Plain (spokenPass s) :=
  eachWord_all (P := fun c => letter c = true ∨ c = ' ')
    (fun _ hword c hc => (mem_spokenWord hc).elim (hword c) id) (.inr rfl) (by simp) hs

theorem Plain.ohs {s : Text} (hs : Plain s) : Plain (eachWord ' ' ohWord [] s) :=
  eachWord_all (P := fun c => letter c = true ∨ c = ' ')
    (fun _ hword c hc => (mem_ohWord hc).elim (hword c) .inl) (.inr rfl) (by simp) hs

theorem Plain.subOh {cd : CharData} {s : Text} (hs : Plain s) (hcd : AsciiLetters cd) :
    sub (exaggeratedOhPattern cd) (fun m => normalizeExaggeratedOh m.text) s
      = eachWord ' ' ohWord [] s := (onWords_oh hcd).sub_eq rfl hs

theorem Plain.subEmoticon {s : Text} (hs : Plain s) (cd : CharData) :
    subBy (emoticonPattern cd) " " (eachWord ' ' ohWord [] s) = spokenPass s := by
  have h := (onWords_emoticon cd).sub_eq (f := fun _ => [' ']) rfl hs.ohs
  have hoh : ∀ word : Text, ' ' ∉ word → ' ' ∉ ohWord word := fun word hword hc =>
    (mem_ohWord hc).elim hword (by decide)
  exact h.trans (eachWord_eachWord hoh List.not_mem_nil s)

/-! ## What the passes make of a text -/

/-- Without a prefix it opens with. -/
def opened (raw : Text) : Text :=
  let cleaned := subCount 1 freestylePrefixPattern (fun _ => []) raw
  if cleaned ≠ raw then lstrip cleaned else cleaned

/-- Without action emotes as well. -/
def shorn (raw : Text) : Text := subBy actionEmotePattern "" (opened raw)

/-- And without asterisks. -/
def bareText (raw : Text) : Text := stripAsterisks (shorn raw)

theorem mem_opened {raw : Text} {c : Char} (hc : c ∈ opened raw) : c ∈ raw := by
  have hprefix : ∀ c ∈ subCount 1 freestylePrefixPattern (fun _ => []) raw, c ∈ raw :=
    all_subCount (by simp) fun _ h => h
  unfold opened at hc
  dsimp only at hc
  split at hc
  · exact hprefix c ((lstrip_suffix _).mem hc)
  · exact hprefix c hc

theorem plain_bareText {raw : Text} (hraw : ∀ c ∈ raw, spoken c = true) :
    Plain (bareText raw) := by
  have hshorn : ∀ c ∈ shorn raw, c ∈ raw :=
    all_subCount (by simp) fun _ hc => mem_opened hc
  intro c hc
  rw [bareText, stripAsterisks, replaceChar, List.mem_flatMap] at hc
  obtain ⟨d, hd, hc⟩ := hc
  split at hc
  · exact .inr (by simpa using hc)
  · rename_i hstar
    rw [List.mem_singleton.mp hc]
    rcases spoken_iff.mp (hraw d (hshorn d hd)) with h | h | h
    · exact .inl h
    · exact .inr h
    · exact absurd h hstar

/-- The form of a text whose words are as they are to be. -/
def spokenForm (cd : CharData) (s : Text) : Text :=
  lstrip (ensureLeadingCapitalStream cd (squeeze false s) true).1

section

variable {env : TextEnv} {raw : Text}

/-- A pass whose pattern is not found does nothing. -/
theorem subCount_writtenPatterns (env : TextEnv) {s : Text} (hs : ∀ c ∈ s, spoken c = true) :
    ∀ r ∈ writtenPatterns env.chars, ∀ f count, subCount count r f s = s :=
  fun r hr _ count => subCount_of_none (search_writtenPatterns env.chars hs r hr) count

theorem openingPasses_eq (hphones : ∀ s, (∀ c ∈ s, spoken c = true) → env.matchPhones s = [])
    (hraw : ∀ c ∈ raw, spoken c = true) : openingPasses env raw = shorn raw := by
  have hopened : ∀ c ∈ opened raw, spoken c = true := fun c hc => hraw c (mem_opened hc)
  have hsub := subCount_writtenPatterns env hopened
  have hphone := hphones (opened raw) hopened
  simp only [writtenPatterns, List.forall_mem_cons] at hsub
  have hstart : openingPasses env raw = subBy actionEmotePattern ""
      (verbalizePhoneNumbers env.matchPhones
        (verbalizeEmails (stripLeadingNewlineTokens (opened raw)))) := rfl
  rw [hstart]
  simp only [stripLeadingNewlineTokens, verbalizeEmails, subBy, sub, hsub, verbalizePhoneNumbers,
    hphone, shorn]
  simp

theorem strippedText_spoken (hcd : AsciiLetters env.chars)
    (hphones : ∀ s, (∀ c ∈ s, spoken c = true) → env.matchPhones s = [])
    (hraw : ∀ c ∈ raw, spoken c = true) :
    strippedText env raw = squeeze false (spokenPass (bareText raw)) := by
  have hplain := plain_bareText hraw
  have hbare := subCount_writtenPatterns env hplain.spoken
  have hohs := subCount_writtenPatterns env hplain.ohs.spoken
  have hsqueezed := subCount_writtenPatterns env (hplain.pass.squeezed false).spoken
  have hsubOh := hplain.subOh hcd
  have hsubEmoticon := hplain.subEmoticon env.chars
  simp only [writtenPatterns, List.forall_mem_cons, List.not_mem_nil, false_implies, implies_true,
    and_true] at hbare hohs hsqueezed
  have hopening : stripAsterisks (openingPasses env raw) = bareText raw :=
    congrArg stripAsterisks (openingPasses_eq hphones hraw)
  simp only [subBy, sub] at hsubOh hsubEmoticon
  simp only [strippedText, hopening, dotPasses, degreePasses, dashPasses, quotePasses,
    stripEscapedQuotes, stripEmojiLikeTokens, subBy, sub, hbare, hsubOh, hohs, hsubEmoticon,
    replaceChar_apostrophe, hplain.pass.collapse, hsqueezed]

/-- **What the sanitizer makes of letters, spaces and asterisks.** -/
theorem sanitizedText_spoken (hcd : AsciiLetters env.chars)
    (hphones : ∀ s, (∀ c ∈ s, spoken c = true) → env.matchPhones s = [])
    (hraw : ∀ c ∈ raw, spoken c = true) :
    sanitizedText env raw = spokenForm env.chars (spokenPass (bareText raw)) := by
  have hplain := (plain_bareText hraw).pass.squeezed false
  have hunescape : Html.unescape env.html5 (squeeze false (spokenPass (bareText raw)))
      = squeeze false (spokenPass (bareText raw)) := by
    have hnone := search_writtenPatterns env.chars hplain.spoken Html.charref
      (by simp [writtenPatterns])
    simp [Html.unescape, sub, subCount_of_none hnone]
  rw [sanitizedText_eq, finishedText, strippedText_spoken hcd hphones hraw, hunescape,
    hplain.collapse, squeeze_squeeze, spokenForm]

end

end YapInference
