import YapInference.Lib.RegexLaws
import YapInference.Proof.ChunkStability

/-!
# What the sanitizer leaves

Every pass that removes something removes all of it: the asterisks, the percent signs, the emoji,
the tags. None of the passes after it puts any of it back, except one. `html.unescape` runs when
all of that is done, so a character reference brings in what the passes before would have removed.
The two passes after it make no difference: collapsing spaces and raising the first letter neither
make nor break a tag.

So the output is clean exactly when the references that are left by then spell none of it, where a
tag is spelled as soon as one of its brackets is, and in particular when the text has no ampersand.
-/

namespace YapInference

open Py Regex

/-! ## The pipeline up to the references -/

/-- The passes up to the action emotes. -/
def openingPasses (env : TextEnv) (text : Text) : Text :=
  let cleaned := subCount 1 freestylePrefixPattern (fun _ => []) text
  let cleaned := stripLeadingNewlineTokens (if cleaned ≠ text then lstrip cleaned else cleaned)
  subBy actionEmotePattern "" (verbalizePhoneNumbers env.matchPhones (verbalizeEmails cleaned))

/-- Those for ellipses, line breaks and periods. -/
def dotPasses (cleaned : Text) : Text :=
  let cleaned := subBy newlineTokenPattern " " (subBy ellipsisPattern "..." cleaned)
  let cleaned := subBy ellipsisTrailingDotPattern "..." (subBy doubleDotSpacePattern "..." cleaned)
  let cleaned := subBy dotRunPattern "..." (subBy ellipsisTrailingSpacePattern "..." cleaned)
  subBy standalonePeriod ". " (subBy spacedDotRunPattern "." cleaned)

/-- Those for temperatures. -/
def degreePasses (cd : CharData) (cleaned : Text) : Text :=
  let cleaned := subBy (tempFahrenheitPattern cd) " degrees Fahrenheit" cleaned
  let cleaned := subBy (tempCelsiusPattern cd) " degrees Celsius" cleaned
  subBy degreeSymbolPattern " degrees" (subBy (tempKelvinPattern cd) " degrees Kelvin" cleaned)

/-- Those for dashes. -/
def dashPasses (cd : CharData) (cleaned : Text) : Text :=
  let cleaned := sub (subtractionPattern cd)
    (fun m => m.get 1 ++ " minus ".toList ++ m.get 2) cleaned
  let cleaned := sub (negativeNumberPattern cd) (fun m => " minus ".toList ++ m.get 1) cleaned
  let cleaned := sub (singleLetterSuffixPattern cd) (fun m => m.get 1 ++ m.get 2) cleaned
  subBy emdashPattern " " (sub wordHyphenPattern (fun m => m.get 1 ++ [' '] ++ m.get 2) cleaned)

/-- Those for quotes, spaces before punctuation and drawn out exclamations. -/
def quotePasses (cd : CharData) (cleaned : Text) : Text :=
  let cleaned := sub spaceBeforePunctPattern (fun m => m.get 1)
    (replaceChar (Char.ofNat 39) "'" cleaned)
  sub (exaggeratedOhPattern cd) (fun m => normalizeExaggeratedOh m.text) (stripEscapedQuotes cleaned)

/-- The text without its tags: what `html.unescape` gets. -/
def strippedText (env : TextEnv) (text : Text) : Text :=
  let cleaned := degreePasses env.chars (dotPasses (stripAsterisks (openingPasses env text)))
  let cleaned := dashPasses env.chars (subBy percentPattern " percent" cleaned)
  subBy htmlTagPattern "" (stripEmojiLikeTokens env.chars (quotePasses env.chars cleaned))

/-- What the passes after the removal of the tags make of a text. -/
def finishedText (env : TextEnv) (cleaned : Text) : Text :=
  let cleaned := collapseSpaces (Html.unescape env.html5 cleaned)
  lstrip (ensureLeadingCapitalStream env.chars cleaned true).1

theorem strippedText_nil (env : TextEnv) : strippedText env [] = [] := by
  simp [strippedText, stripEmojiLikeTokens, collapseSpaces, quotePasses, stripEscapedQuotes,
    replaceChar, dashPasses, degreePasses, dotPasses, stripAsterisks, openingPasses,
    stripLeadingNewlineTokens, verbalizePhoneNumbers, verbalizeEmails]

theorem sanitizedText_eq (env : TextEnv) (text : Text) :
    sanitizedText env text = finishedText env (strippedText env text) := by
  cases text with
  | nil =>
      rw [strippedText_nil, sanitizedText_nil]
      rfl
  | cons c text =>
      simp only [sanitizedText, sanitizeStreamChunk, List.isEmpty_cons, Bool.false_eq_true, if_false,
        if_true]
      simp only [finishedText, strippedText, quotePasses, dashPasses, degreePasses, dotPasses,
        openingPasses]

/-! ## What the passes do not write -/

/-- No character of a class. -/
def Free (p : Char → Bool) (s : Text) : Prop := ∀ c ∈ s, p c = false

/-- What the replacement texts of the passes are made of. -/
def written (c : Char) : Bool := letter c || among " .'" c

/-- A class that no replacement text has a character of. -/
def Foreign (p : Char → Bool) : Prop := ∀ c, written c = true → p c = false

section

variable {p : Char → Bool} {s t : Text}

theorem Foreign.free (hp : Foreign p) (hs : s.all written = true) : Free p s :=
  fun c hc => hp c (List.all_eq_true.mp hs c hc)

theorem Free.append (hs : Free p s) (ht : Free p t) : Free p (s ++ t) :=
  List.forall_mem_append.mpr ⟨hs, ht⟩

theorem Free.of_suffix (hs : Free p s) (h : t <:+ s) : Free p t := fun c hc => hs c (h.mem hc)

theorem Free.sub {r : Pattern} {f : Match → Text} (hs : Free p s)
    (hf : ∀ m : Match, m.All (p · = false) → Free p (f m)) : Free p (sub r f s) :=
  all_subCount hf hs

theorem Free.subBy {r : Pattern} {replacement : String} (hs : Free p s)
    (hr : Free p replacement.toList) : Free p (subBy r replacement s) :=
  hs.sub fun _ _ => hr

/-- A pass that writes a fixed text. -/
theorem Free.write {r : Pattern} {replacement : String} (hp : Foreign p) (hs : Free p s)
    (hr : replacement.toList.all written = true) : Free p (Regex.subBy r replacement s) :=
  hs.subBy (hp.free hr)

theorem Free.replaceChar {old : Char} {new : String} (hs : Free p s) (hn : Free p new.toList) :
    Free p (replaceChar old new s) := by
  intro c hc
  obtain ⟨x, hx, hc⟩ := List.mem_flatMap.mp hc
  split at hc
  · exact hn c hc
  · rw [List.mem_singleton.mp hc]
    exact hs x hx

/-- Replacing a character leaves none of it. -/
theorem free_replaceChar {old : Char} {new : String} (hn : Free (· == old) new.toList) (s : Text) :
    Free (· == old) (YapInference.replaceChar old new s) := by
  intro c hc
  obtain ⟨x, -, hc⟩ := List.mem_flatMap.mp hc
  split at hc
  · exact hn c hc
  · rename_i hne
    rw [List.mem_singleton.mp hc]
    simpa using hne

theorem free_openingPasses {env : TextEnv} (hphones : ∀ t, env.matchPhones t = [])
    (hp : Foreign p) (hs : Free p s) : Free p (openingPasses env s) := by
  have hfirst : Free p (subCount 1 freestylePrefixPattern (fun _ => []) s) :=
    all_subCount (by simp) hs
  have hemail : ∀ m : Match, m.All (p · = false) → Free p (verbalizeEmail m.text) := by
    intro m hm
    have hat : Free p (YapInference.replaceChar '@' " at " m.text) :=
      Free.replaceChar hm.text (hp.free (by decide))
    exact hat.replaceChar (hp.free (by decide))
  rw [openingPasses]
  simp only [verbalizePhoneNumbers, hphones, List.mergeSort_nil, List.foldl_nil, ite_self]
  refine Free.subBy (Free.sub (Free.subBy ?_ (by simp [Free])) hemail) (by simp [Free])
  split
  · exact hfirst.of_suffix (lstrip_suffix _)
  · exact hfirst

theorem free_dotPasses (hp : Foreign p) (hs : Free p s) : Free p (dotPasses s) := by
  rw [dotPasses]
  iterate 8 refine Free.write hp ?_ (by decide)
  exact hs

theorem free_degreePasses (cd : CharData) (hp : Foreign p) (hs : Free p s) :
    Free p (degreePasses cd s) := by
  rw [degreePasses]
  iterate 4 refine Free.write hp ?_ (by decide)
  exact hs

theorem free_dashPasses (cd : CharData) (hp : Foreign p) (hs : Free p s) :
    Free p (dashPasses cd s) := by
  have hminus : Free p " minus ".toList := hp.free (by decide)
  have hspace : Free p [' '] := hp.free (by decide)
  rw [dashPasses]
  refine Free.write hp (Free.sub (Free.sub (Free.sub (Free.sub hs ?_) ?_) ?_) ?_) (by decide)
  · exact fun m hm => (Free.append (hm.get 1) hminus).append (hm.get 2)
  · exact fun m hm => hminus.append (hm.get 1)
  · exact fun m hm => Free.append (hm.get 1) (hm.get 2)
  · exact fun m hm => (Free.append (hm.get 1) hspace).append (hm.get 2)

theorem free_quotePasses (cd : CharData) (hp : Foreign p) (hs : Free p s) :
    Free p (quotePasses cd s) := by
  rw [quotePasses]
  refine Free.sub (Free.write hp (Free.sub (hs.replaceChar (hp.free (by decide))) ?_) (by decide)) ?_
  · exact fun m hm => hm.get 1
  · intro m hm
    rw [normalizeExaggeratedOh]
    split
    · exact hm.text
    · split <;> exact hp.free (by decide)

theorem free_stripEmojiLikeTokens (cd : CharData) (hp : Foreign p) (hs : Free p s) :
    Free p (stripEmojiLikeTokens cd s) := by
  rw [stripEmojiLikeTokens, collapseSpaces]
  iterate 3 refine Free.write hp ?_ (by decide)
  exact hs

/-- What is not there after the asterisks are gone does not come back before the references. -/
theorem free_strippedText_of {env : TextEnv} (hp : Foreign p)
    (hs : Free p (stripAsterisks (openingPasses env s))) : Free p (strippedText env s) := by
  rw [strippedText]
  refine Free.write hp (free_stripEmojiLikeTokens _ hp (free_quotePasses _ hp ?_)) (by decide)
  exact free_dashPasses _ hp
    (Free.write hp (free_degreePasses _ hp (free_dotPasses hp hs)) (by decide))

/-- Nothing a text does not have is there before the references are resolved. -/
theorem free_strippedText {env : TextEnv} (hphones : ∀ t, env.matchPhones t = []) (hp : Foreign p)
    (hs : Free p s) : Free p (strippedText env s) :=
  free_strippedText_of hp
    ((free_openingPasses hphones hp hs).replaceChar (hp.free (by decide)))

end

/-! ## What is removed -/

/-- The class of the emoji pattern. -/
def emojiChars : Char → Bool :=
  match emojiPattern with
  | .set p => p
  | _ => fun _ => false

theorem emojiPattern_eq : emojiPattern = .set emojiChars := rfl

theorem percentPattern_eq : percentPattern = .set (· == '%') := rfl

/-- The characters of which no pass up to the references leaves one. -/
def removedChars (c : Char) : Bool := c == '*' || c == '%' || emojiChars c

theorem isLower_toNat {c : Char} (h : c.isLower = true) : 0x61 ≤ c.toNat ∧ c.toNat ≤ 0x7A := by
  have hrange : (decide ('a'.val ≤ c.val) && decide (c.val ≤ 'z'.val)) = true := h
  simpa [UInt32.le_iff_toNat_le] using hrange

theorem isUpper_toNat {c : Char} (h : c.isUpper = true) : 0x41 ≤ c.toNat ∧ c.toNat ≤ 0x5A := by
  have hrange : decide ('A'.val ≤ c.val ∧ c.val ≤ 'Z'.val) = true := h
  simpa [UInt32.le_iff_toNat_le] using hrange

theorem letter_toNat {c : Char} (h : letter c = true) :
    (0x61 ≤ c.toNat ∧ c.toNat ≤ 0x7A) ∨ (0x41 ≤ c.toNat ∧ c.toNat ≤ 0x5A) :=
  ((Bool.or_eq_true _ _).mp h).imp isLower_toNat isUpper_toNat

theorem written_toNat {c : Char} (h : written c = true) :
    (0x61 ≤ c.toNat ∧ c.toNat ≤ 0x7A) ∨ (0x41 ≤ c.toNat ∧ c.toNat ≤ 0x5A)
      ∨ c.toNat = 0x20 ∨ c.toNat = 0x2E ∨ c.toNat = 0x27 := by
  rw [written, Bool.or_eq_true] at h
  rcases h with h | h
  · have := letter_toNat h
    omega
  · have hmem : c = ' ' ∨ c = '.' ∨ c = Char.ofNat 39 := by simpa [among] using h
    rcases hmem with rfl | rfl | rfl <;> decide

theorem not_emoji {c : Char} (h : c.toNat < 0x2600) : emojiChars c = false := by
  simp only [emojiChars, emojiPattern, within, List.any_cons, List.any_nil, Bool.or_false,
    Bool.or_eq_false_iff, Bool.and_eq_false_iff, decide_eq_false_iff_not]
  omega

theorem removedChars_eq_false {c : Char} :
    removedChars c = false ↔ c ≠ '*' ∧ c ≠ '%' ∧ emojiChars c = false := by
  simp [removedChars, and_assoc]

/-- No pass writes any of them. -/
theorem foreign_removedChars : Foreign removedChars := by
  intro c hc
  have hcode := written_toNat hc
  rw [removedChars_eq_false]
  refine ⟨?_, ?_, not_emoji (by omega)⟩ <;>
  · intro heq
    obtain rfl := heq
    revert hcode
    decide

theorem foreign_asterisk : Foreign (· == '*') := fun _ hc =>
  beq_false_of_ne (removedChars_eq_false.mp (foreign_removedChars _ hc)).1

theorem foreign_percent : Foreign (· == '%') := fun _ hc =>
  beq_false_of_ne (removedChars_eq_false.mp (foreign_removedChars _ hc)).2.1

theorem foreign_emoji : Foreign emojiChars := fun _ hc =>
  (removedChars_eq_false.mp (foreign_removedChars _ hc)).2.2

/-- **The removal passes leave nothing of what they remove.** -/
theorem free_removed (env : TextEnv) (text : Text) : Free removedChars (strippedText env text) := by
  have hasterisk : Free (· == '*') (strippedText env text) := by
    have hp := foreign_asterisk
    exact free_strippedText_of hp (free_replaceChar (hp.free (by decide)) _)
  have hpercent : Free (· == '%') (strippedText env text) := by
    have hp := foreign_percent
    rw [strippedText]
    refine Free.write hp (free_stripEmojiLikeTokens _ hp (free_quotePasses _ hp
      (free_dashPasses _ hp ?_))) (by decide)
    rw [subBy, percentPattern_eq, sub_eq_rewritten]
    exact (pieces_reading _ _).free_set fun _ => hp.free (by decide)
  have hemoji : Free emojiChars (strippedText env text) := by
    have hp := foreign_emoji
    rw [strippedText, stripEmojiLikeTokens, collapseSpaces]
    iterate 3 refine Free.write hp ?_ (by decide)
    rw [subBy, emojiPattern_eq, sub_eq_rewritten]
    exact (pieces_reading _ _).free_set fun _ => hp.free (by decide)
  intro c hc
  rw [removedChars_eq_false]
  exact ⟨by simpa using hasterisk c hc, by simpa using hpercent c hc, hemoji c hc⟩

/-! ## Tags -/

/-- The words of the tag pattern. -/
def tags : Language Char := oneOf (· == '<') * (runs 1 (· != '>') * oneOf (· == '>'))

theorem reads_htmlTagPattern : Reads (ways htmlTagPattern) tags :=
  (reads_set _).seq ((reads_rep_set 1 _).seq (reads_set _))

/-- Some tag stands in a text: after a `<` that is not closed at once there is a `>`. -/
def HasTag : Text → Prop
  | [] => False
  | c :: rest => (c = '<' ∧ rest.head? ≠ some '>' ∧ '>' ∈ rest) ∨ HasTag rest

/-- A tag starts here. -/
theorem tag_isPrefix_iff {c : Char} {rest : Text} :
    (∃ w ∈ tags, w <+: c :: rest) ↔ c = '<' ∧ rest.head? ≠ some '>' ∧ '>' ∈ rest := by
  constructor
  · intro h
    obtain ⟨-, ⟨-, ⟨x, hx, rfl⟩, -, ⟨w, ⟨hlen, hw⟩, -, ⟨y, hy, rfl⟩, rfl⟩, rfl⟩, t, ht⟩ := h
    obtain rfl : x = '<' := by simpa using hx
    obtain rfl : y = '>' := by simpa using hy
    simp only [List.cons_append, List.nil_append, List.append_assoc, List.cons.injEq] at ht
    obtain ⟨rfl, rfl⟩ := ht
    refine ⟨rfl, ?_, by simp⟩
    cases w with
    | nil => exact absurd hlen (by simp)
    | cons z w => simpa using hw z List.mem_cons_self
  · intro h
    obtain ⟨rfl, hhead, hmem⟩ := h
    obtain ⟨w, t, rfl, hw⟩ := List.eq_append_cons_of_mem hmem
    have hlen : 1 ≤ w.length := by
      cases w with
      | nil => exact absurd rfl hhead
      | cons z w => simp
    have hrun : ∀ z ∈ w, (z != '>') = true := by
      intro z hz
      rw [bne_iff_ne]
      exact fun h => hw (h ▸ hz)
    refine ⟨['<'] ++ (w ++ ['>']), ?_, t, by simp⟩
    exact Language.append_mem_mul ⟨'<', rfl, rfl⟩
      (Language.append_mem_mul ⟨hlen, hrun⟩ ⟨'>', rfl, rfl⟩)

theorem nil_notMem_tags : [] ∉ tags := by
  intro h'
  obtain ⟨-, ⟨x, hx, rfl⟩, v, -, h⟩ := h'
  exact absurd h (by simp)

theorem hasTag_iff {s : Text} : HasTag s ↔ ∃ w ∈ tags, w <:+: s := by
  induction s with
  | nil =>
      simp only [HasTag, List.infix_nil, exists_eq_right, false_iff]
      exact nil_notMem_tags
  | cons c rest ih =>
      simp only [HasTag, ih, ← tag_isPrefix_iff, List.infix_cons_iff, and_or_left, exists_or]

theorem search_htmlTagPattern {s : Text} : search htmlTagPattern s = none ↔ ¬ HasTag s := by
  rw [reads_htmlTagPattern.search_eq_none, hasTag_iff]
  simp

/-- **Removing the tags leaves none.** A `<` that stays had no tag behind it, either because no `>`
came after it, and then none does now, or because it was closed at once, and then it still is. -/
theorem not_hasTag_of_reading {c : Cursor} {ps : List Piece} (h : Reading htmlTagPattern c ps) :
    ¬ HasTag (rewritten (fun _ => []) ps) := by
  induction h with
  | done => exact id
  | kept hnone hrest ih =>
      rename_i before rest x ps
      have hstay := reads_htmlTagPattern.matchAt_eq_none.mp
        (reads_htmlTagPattern.matchAt_eq_none_of_le nil_notMem_tags hnone)
      rw [rewritten_kept, HasTag, not_or]
      refine ⟨?_, ih⟩
      intro h
      obtain ⟨rfl, hhead, hmem⟩ := h
      have hclosed : '>' ∈ rest := by
        by_contra hrest'
        have hfree := (hrest.free_iff (f := fun _ => []) (p := (· == '>')) ?_).mpr (by simp)
        · exact absurd (hfree _ hmem) (by simp)
        · intro y hy
          rw [beq_eq_false_iff_ne]
          exact fun h => hrest' (h ▸ hy)
      have hatOnce : rest.head? = some '>' := by
        by_contra hne
        obtain ⟨w, hw, hp⟩ := tag_isPrefix_iff.mpr ⟨rfl, hne, hclosed⟩
        exact hstay w hw hp
      refine hhead ((hrest.head ?_).trans hatOnce)
      obtain ⟨rest, rfl⟩ : ∃ rest', rest = '>' :: rest' := List.head?_eq_some_iff.mp hatOnce
      rw [reads_htmlTagPattern.matchAt_eq_none]
      intro w hw hp
      exact absurd (tag_isPrefix_iff.mp ⟨w, hw, hp⟩).1 (by decide)
  | matched hmatch hshort hrest ih => exact ih

theorem not_hasTag_strippedText (env : TextEnv) (text : Text) :
    ¬ HasTag (strippedText env text) := by
  rw [strippedText, subBy, sub_eq_rewritten]
  exact not_hasTag_of_reading (pieces_reading _ _)

/-! ## What the last passes keep -/

/-- A character that something to be removed is made of. -/
def marked (c : Char) : Bool := removedChars c || among "<>" c

theorem marked_eq_false {c : Char} :
    marked c = false ↔ removedChars c = false ∧ c ≠ '<' ∧ c ≠ '>' := by
  simp [marked, among]

theorem HasTag.append_left {a s : Text} (ha : Free marked a) : HasTag (a ++ s) ↔ HasTag s := by
  induction a with
  | nil => rfl
  | cons c a ih =>
      rw [Free, List.forall_mem_cons] at ha
      rw [List.cons_append, HasTag, ih ha.2]
      exact or_iff_right fun h => (marked_eq_false.mp ha.1).2.1 h.1

theorem HasTag.append_right {a s : Text} (ha : Free marked a) : HasTag (s ++ a) ↔ HasTag s := by
  have hcloses : '>' ∉ a := fun h => (marked_eq_false.mp (ha _ h)).2.2 rfl
  induction s with
  | nil =>
      have h := HasTag.append_left (s := []) ha
      rwa [List.append_nil] at h
  | cons c s ih =>
      simp only [List.cons_append, HasTag, ih]
      cases s <;> simp [hcloses]

theorem free_append_left {a s : Text} (ha : Free marked a) :
    Free removedChars (a ++ s) ↔ Free removedChars s := by
  rw [Free, List.forall_mem_append]
  exact and_iff_right fun c hc => (marked_eq_false.mp (ha c hc)).1

theorem free_append_right {a s : Text} (ha : Free marked a) :
    Free removedChars (s ++ a) ↔ Free removedChars s := by
  rw [Free, List.forall_mem_append]
  exact and_iff_left fun c hc => (marked_eq_false.mp (ha c hc)).1

/-- Two texts that have the same tags and removed characters, whatever is before them. -/
structure SameMarks (s t : Text) : Prop where
  tags : HasTag s ↔ HasTag t
  chars : Free removedChars s ↔ Free removedChars t
  closes : '>' ∈ s ↔ '>' ∈ t
  head : s.head? = some '>' ↔ t.head? = some '>'

theorem SameMarks.refl (s : Text) : SameMarks s s := ⟨Iff.rfl, Iff.rfl, Iff.rfl, Iff.rfl⟩

theorem SameMarks.cons {s t : Text} (h : SameMarks s t) (c : Char) :
    SameMarks (c :: s) (c :: t) := by
  refine ⟨?_, ?_, ?_, by simp⟩
  · rw [HasTag, HasTag, h.tags, h.closes, ne_eq, h.head]
  · rw [Free, Free, List.forall_mem_cons, List.forall_mem_cons]
    exact and_congr_right fun _ => h.chars
  · rw [List.mem_cons, List.mem_cons, h.closes]

theorem SameMarks.append {s t : Text} (h : SameMarks s t) (a : Text) :
    SameMarks (a ++ s) (a ++ t) := by
  induction a with
  | nil => exact h
  | cons c a ih => exact ih.cons c

/-- A stretch without marks can stand for another. -/
theorem SameMarks.replace {s t a b : Text} (h : SameMarks s t) (ha : Free marked a)
    (hb : Free marked b) (hane : a ≠ []) (hbne : b ≠ []) : SameMarks (a ++ s) (b ++ t) := by
  have hcloses : ∀ {a s : Text}, Free marked a → ('>' ∈ a ++ s ↔ '>' ∈ s) := by
    intro a s ha
    rw [List.mem_append]
    exact or_iff_right fun h => (marked_eq_false.mp (ha _ h)).2.2 rfl
  have hhead : ∀ {a s : Text}, Free marked a → a ≠ [] → (a ++ s).head? ≠ some '>' := by
    intro a s ha hne
    obtain ⟨c, a, rfl⟩ := List.exists_cons_of_ne_nil hne
    have hc := (marked_eq_false.mp (ha c List.mem_cons_self)).2.2
    simpa using hc
  refine ⟨?_, ?_, ?_, iff_of_false (hhead ha hane) (hhead hb hbne)⟩
  · rw [HasTag.append_left ha, HasTag.append_left hb, h.tags]
  · rw [free_append_left ha, free_append_left hb, h.chars]
  · rw [hcloses ha, hcloses hb, h.closes]

/-- Spaces and tabs, as the last pass collapses them. -/
def blank : Char → Bool := among " \t"

theorem reads_collapseSpacesPattern : Reads (ways collapseSpacesPattern) (runs 2 blank) :=
  reads_rep_set 2 blank

theorem free_marked_of_blank {w : Text} (hw : ∀ c ∈ w, blank c = true) : Free marked w := by
  intro c hc
  have hblank : c = ' ' ∨ c = '\t' := by simpa [blank, among] using hw c hc
  rcases hblank with rfl | rfl <;> decide

/-- What collapsing makes of the pieces of a text. -/
def collapsed (ps : List Piece) : Text := rewritten (fun _ => " ".toList) ps

theorem collapseSpaces_eq (s : Text) : collapseSpaces s = collapsed (pieces collapseSpacesPattern s) :=
  sub_eq_rewritten _ _ s

theorem sameMarks_of_reading {c : Cursor} {ps : List Piece} (h : Reading collapseSpacesPattern c ps) :
    SameMarks c.after (collapsed ps) := by
  induction h with
  | done => exact .refl []
  | kept hnone hrest ih => exact ih.cons _
  | matched hmatch hshort hrest ih =>
      obtain ⟨w, ⟨hlen, hw⟩, hafter⟩ := reads_collapseSpacesPattern.matchAt_eq_some hmatch
      rw [hafter]
      have hspace : Free marked " ".toList := free_marked_of_blank (by simp [blank, among])
      refine ih.replace (free_marked_of_blank hw) hspace ?_ (by simp)
      intro heq
      obtain rfl := heq
      exact absurd hlen (by simp)

theorem sameMarks_collapseSpaces (s : Text) : SameMarks s (collapseSpaces s) :=
  collapseSpaces_eq s ▸ sameMarks_of_reading (pieces_reading _ s)

/-- Not both blank. -/
def Apart (a b : Char) : Prop := ¬ (blank a = true ∧ blank b = true)

theorem Apart.left {a b : Char} (h : blank a = false) : Apart a b := by simp [Apart, h]

theorem Apart.right {a b : Char} (h : blank b = false) : Apart a b := by simp [Apart, h]

theorem search_collapseSpacesPattern {s : Text} :
    search collapseSpacesPattern s = none ↔ s.IsChain Apart := by
  rw [reads_collapseSpacesPattern.search_eq_none]
  constructor
  · intro h
    refine (List.isChain_isInfix s).imp ?_
    intro a b hab h
    obtain ⟨ha, hb⟩ := h
    exact h [a, b] ⟨by simp, by simp [ha, hb]⟩ hab
  · intro h w h' hin
    obtain ⟨hlen, hw⟩ := h'
    obtain ⟨a, b, w, rfl⟩ : ∃ a b w', w = a :: b :: w' := by
      match w, hlen with
      | a :: b :: w, _ => exact ⟨a, b, w, rfl⟩
    have hchain := h.infix hin
    exact (List.isChain_cons_cons.mp hchain).1 ⟨hw a (by simp), hw b (by simp)⟩

theorem nil_notMem_runs : [] ∉ runs 2 blank := fun h => absurd h.1 (by simp)

/-- What follows a place where the pattern does not match. -/
theorem matchAt_collapseSpacesPattern {before rest : Text} {x : Char} :
    matchAt collapseSpacesPattern { before := before, after := x :: rest } = none
      ↔ ∀ y, rest.head? = some y → Apart x y := by
  rw [reads_collapseSpacesPattern.matchAt_eq_none]
  constructor
  · intro h y hy h'
    obtain ⟨hx, hy'⟩ := h'
    obtain ⟨rest, rfl⟩ : ∃ rest', rest = y :: rest' := List.head?_eq_some_iff.mp hy
    exact h [x, y] ⟨by simp, by simp [hx, hy']⟩ ⟨rest, rfl⟩
  · intro h w h' h''
    obtain ⟨hlen, hw⟩ := h'
    obtain ⟨t, ht⟩ := h''
    match w, hlen with
    | a :: b :: w, _ =>
        simp only [List.cons_append, List.cons.injEq] at ht
        obtain ⟨rfl, rfl⟩ := ht
        exact h b rfl ⟨hw a (by simp), hw b (by simp)⟩

/-- What is not blank at the start stays at the start. -/
theorem notBlank_of_reading {c : Cursor} {ps : List Piece} (h : Reading collapseSpacesPattern c ps)
    (hc : ∀ y, c.after.head? = some y → blank y = false) :
    ∀ y, (collapsed ps).head? = some y → blank y = false := by
  rw [collapsed, h.head]
  · exact hc
  · rw [reads_collapseSpacesPattern.matchAt_eq_none]
    intro w h h'
    obtain ⟨hlen, hw⟩ := h
    obtain ⟨t, ht⟩ := h'
    match w, hlen with
    | a :: w, _ =>
        have ha := hc a (by rw [← ht]; rfl)
        exact absurd (hw a List.mem_cons_self) (by simp [ha])

/-- **Collapsing leaves no two blanks together.** A blank that was kept had none after it, and a run
that was replaced went as far as it could. -/
theorem isChain_of_reading {c : Cursor} {ps : List Piece} (h : Reading collapseSpacesPattern c ps) :
    (collapsed ps).IsChain Apart := by
  induction h with
  | done => exact .nil
  | kept hnone hrest ih =>
      rename_i before rest x ps
      have hstay := matchAt_collapseSpacesPattern.mp
        (reads_collapseSpacesPattern.matchAt_eq_none_of_le nil_notMem_runs hnone)
      rw [collapsed, rewritten_kept, List.isChain_cons]
      refine ⟨fun y hy => ?_, ih⟩
      cases hx : blank x with
      | false => exact .left hx
      | true =>
          have hnext := notBlank_of_reading hrest fun z hz => by simpa [Apart, hx] using hstay z hz
          exact .right (hnext y hy)
  | matched hmatch hshort hrest ih =>
      rename_i c m ps
      have hnext := notBlank_of_reading hrest (matchAt_rep_set_longest hmatch)
      show (' ' :: collapsed ps).IsChain Apart
      rw [List.isChain_cons]
      exact ⟨fun y hy => .right (hnext y hy), ih⟩

theorem isChain_collapseSpaces (s : Text) : (collapseSpaces s).IsChain Apart :=
  collapseSpaces_eq s ▸ isChain_of_reading (pieces_reading _ s)

/-! ### The first letter -/

/-- What the character database says of the case of letters, as far as the sanitizer relies on it:
a lower-case letter has an upper case, and neither has a symbol or a blank in it. -/
structure LetterCase (cd : CharData) : Prop where
  ne : ∀ c, cd.isAlpha c = true → cd.isLower c = true → cd.upper c ≠ []
  plain : ∀ c, cd.isAlpha c = true → cd.isLower c = true →
    ∀ d ∈ c :: cd.upper c, marked d = false ∧ blank d = false

theorem plain_of_toNat {c : Char} (hl : 0x41 ≤ c.toNat) (hu : c.toNat < 0x2600) :
    marked c = false ∧ blank c = false := by
  have hne : ∀ d : Char, d.toNat < 0x41 → c ≠ d := by
    intro d hd heq
    obtain rfl := heq
    omega
  have hremoved := removedChars_eq_false.mpr
    ⟨hne '*' (by decide), hne '%' (by decide), not_emoji hu⟩
  refine ⟨marked_eq_false.mpr ⟨hremoved, hne '<' (by decide), hne '>' (by decide)⟩, ?_⟩
  simp [blank, among, hne ' ' (by decide), hne '\t' (by decide)]

theorem letterCase_asciiData : LetterCase asciiData := by
  refine ⟨fun c _ _ => List.cons_ne_nil _ _, ?_⟩
  intro c _ hl d hd
  have hlower := isLower_toNat hl
  have hupper : ∀ n < 26, 0x41 ≤ (Char.ofNat (0x61 + n)).toUpper.toNat
      ∧ (Char.ofNat (0x61 + n)).toUpper.toNat ≤ 0x5A := by decide
  have hc := hupper (c.toNat - 0x61) (by omega)
  rw [Nat.add_sub_cancel' hlower.1, Char.ofNat_toNat] at hc
  have hd : d = c ∨ d = c.toUpper := by simpa [asciiData] using hd
  rcases hd with rfl | rfl
  · exact plain_of_toNat (by omega) (by omega)
  · exact plain_of_toNat (by omega) (by omega)

/-- Either nothing changes, or one letter is replaced by its upper case. -/
theorem ensureLeadingCapitalStream_cases (cd : CharData) (s : Text) :
    (ensureLeadingCapitalStream cd s true).1 = s
      ∨ ∃ before c rest, cd.isAlpha c = true ∧ cd.isLower c = true ∧ s = before ++ c :: rest
        ∧ (ensureLeadingCapitalStream cd s true).1 = before ++ cd.upper c ++ rest := by
  have hsplit := List.takeWhile_append_dropWhile (p := fun c => !cd.isAlpha c) (l := s)
  have hhead := List.head?_dropWhile_not (fun c => !cd.isAlpha c) s
  simp only [ensureLeadingCapitalStream, Bool.not_true, Bool.false_eq_true, if_false,
    List.span_eq_takeWhile_dropWhile]
  generalize s.takeWhile (fun c => !cd.isAlpha c) = before at hsplit ⊢
  cases hdrop : s.dropWhile (fun c => !cd.isAlpha c) with
  | nil => exact .inl rfl
  | cons c rest =>
      rw [hdrop] at hsplit hhead
      have halpha : cd.isAlpha c = true := by simpa using hhead
      dsimp only
      cases hlower : cd.isLower c with
      | false => exact .inl rfl
      | true => exact .inr ⟨before, c, rest, halpha, hlower, hsplit.symm, rfl⟩

theorem sameMarks_ensureLeadingCapitalStream {cd : CharData} (hcd : LetterCase cd) (s : Text) :
    SameMarks s (ensureLeadingCapitalStream cd s true).1 := by
  rcases ensureLeadingCapitalStream_cases cd s with h | ⟨before, c, rest, ha, hl, hs, h⟩
  · rw [h]
    exact .refl s
  · have hplain := List.forall_mem_cons.mp (hcd.plain c ha hl)
    rw [h, hs, List.append_assoc]
    refine SameMarks.append ?_ before
    refine SameMarks.replace (.refl rest) (a := [c]) ?_ ?_ (List.cons_ne_nil _ _) (hcd.ne c ha hl)
    · exact fun d hd => List.mem_singleton.mp hd ▸ hplain.1.1
    · exact fun d hd => (hplain.2 d hd).1

theorem isChain_ensureLeadingCapitalStream {cd : CharData} (hcd : LetterCase cd) {s : Text}
    (hs : s.IsChain Apart) : (ensureLeadingCapitalStream cd s true).1.IsChain Apart := by
  rcases ensureLeadingCapitalStream_cases cd s with h | ⟨before, c, rest, ha, hl, rfl, h⟩
  · rw [h]
    exact hs
  · have hplain := (List.forall_mem_cons.mp (hcd.plain c ha hl)).2
    have hupper : (cd.upper c).IsChain Apart :=
      (List.isChain_isInfix _).imp fun x y hxy => .left (hplain x (hxy.subset (by simp))).2
    have hrest : (cd.upper c ++ rest).IsChain Apart :=
      hupper.append hs.right_of_append.tail fun x hx y _ =>
        .left (hplain x (List.mem_of_mem_getLast? hx)).2
    rw [h, List.append_assoc]
    refine hs.left_of_append.append hrest fun x _ y hy => ?_
    rw [List.head?_append_of_ne_nil _ (hcd.ne c ha hl)] at hy
    exact .right (hplain y (List.mem_of_mem_head? hy)).2

/-! ### White space at the ends -/

theorem marked_of_isSpace {c : Char} (h : isSpace c = true) : marked c = false := by
  have hne : ∀ d, isSpace d = false → c ≠ d := by
    intro d hd heq
    obtain rfl := heq
    exact absurd h (by simp [hd])
  have hemoji : emojiChars c = false := by
    simp only [isSpace, Bool.or_eq_true, Bool.and_eq_true, decide_eq_true_eq, beq_iff_eq] at h
    simp only [emojiChars, emojiPattern, within, List.any_cons, List.any_nil, Bool.or_false,
      Bool.or_eq_false_iff, Bool.and_eq_false_iff, decide_eq_false_iff_not]
    omega
  exact marked_eq_false.mpr ⟨removedChars_eq_false.mpr
    ⟨hne '*' (by decide), hne '%' (by decide), hemoji⟩, hne '<' (by decide), hne '>' (by decide)⟩

theorem lstrip_marks (s : Text) :
    (HasTag (lstrip s) ↔ HasTag s) ∧ (Free removedChars (lstrip s) ↔ Free removedChars s) := by
  have hspaces : Free marked (s.takeWhile isSpace) := fun c hc =>
    marked_of_isSpace (List.mem_takeWhile_imp hc)
  have hsplit : s.takeWhile isSpace ++ lstrip s = s := List.takeWhile_append_dropWhile
  have htags := HasTag.append_left (s := lstrip s) hspaces
  have hchars := free_append_left (s := lstrip s) hspaces
  rw [hsplit] at htags hchars
  exact ⟨htags.symm, hchars.symm⟩

/-- What a client gets of a text in one chunk is all of it, but for white space at the end. -/
theorem streamed_one (env : TextEnv) (text : Text) :
    rstrip (sanitizedText env text) <+: streamed env [text]
      ∧ streamed env [text] <+: sanitizedText env text := by
  have hone : ([text] : List Text).flatten = text := by simp
  have hwhole := chunkStable_one env text
  have hrstrip := rstrip_isPrefix (sanitizedText env text)
  by_cases hstable : stablePart env text = []
  · rw [← streamed_iff_unstable env (by rwa [hone]), hone] at hwhole
    rw [hwhole]
    exact ⟨List.prefix_refl _, hrstrip⟩
  · rw [← streamed_iff_stable env (by rwa [hone]), hone] at hwhole
    have hpart : stablePart env text <+: sanitizedText env text := List.take_prefix _ _
    rw [hwhole]
    rcases Nat.le_total (stablePart env text).length (rstrip (sanitizedText env text)).length
      with hle | hle
    · have hp := List.prefix_of_prefix_length_le hpart hrstrip hle
      rw [List.prefix_iff_eq_append.mp hp]
      exact ⟨List.prefix_refl _, hrstrip⟩
    · rw [List.drop_eq_nil_of_le hle, List.append_nil]
      exact ⟨List.prefix_of_prefix_length_le hrstrip hpart hle, hpart⟩

theorem marks_of_prefix {s t : Text} (hleft : rstrip t <+: s) (hright : s <+: t) :
    (HasTag s ↔ HasTag t) ∧ (Free removedChars s ↔ Free removedChars t) := by
  obtain ⟨v, rfl⟩ := hright
  obtain ⟨w, hw⟩ := hleft
  have hsplit : rstrip (s ++ v) ++ (s ++ v).rtakeWhile isSpace = s ++ v :=
    List.rdropWhile_append_rtakeWhile
  have htail : (s ++ v).rtakeWhile isSpace = w ++ v :=
    List.append_cancel_left (hsplit.trans (by rw [← List.append_assoc, hw]))
  have hspaces : Free marked v := by
    intro c hc
    have hmem : c ∈ (s ++ v).rtakeWhile isSpace := htail ▸ List.mem_append_right w hc
    exact marked_of_isSpace (List.mem_rtakeWhile_imp hmem)
  exact ⟨(HasTag.append_right hspaces).symm, (free_append_right hspaces).symm⟩

/-! ## The references -/

/-- What a reference stands for. -/
def resolved (html5 : Text → Option Text) (m : Match) : Text :=
  Html.replaceCharref html5 (m.get 1)

theorem matchAt_charref {c : Cursor} (h : ∀ x, c.after.head? = some x → x ≠ '&') :
    matchAt Html.charref c = none :=
  matchAt_seq_set fun x hx => beq_false_of_ne (h x hx)

theorem unescape_eq (html5 : Text → Option Text) (s : Text) :
    Html.unescape html5 s = rewritten (resolved html5) (pieces Html.charref s) := by
  rw [Html.unescape]
  split
  · rename_i hnone
    refine ((pieces_reading Html.charref s).rewritten_eq (P := (· ≠ '&')) ?_ ?_).symm
    · exact fun c hc => matchAt_charref fun x hx => hc x (List.mem_of_mem_head? hx)
    · intro x hx heq
      obtain rfl := heq
      simp [hx] at hnone
  · exact sub_eq_rewritten _ _ s

/-- The characters that the pieces of a text stand for, each with whether a reference spells it. -/
def spelled (html5 : Text → Option Text) : List Piece → List (Char × Bool)
  | [] => []
  | .kept c :: ps => (c, false) :: spelled html5 ps
  | .matched m :: ps => (resolved html5 m).map (·, true) ++ spelled html5 ps

/-- A tag of which a reference spells a bracket: after a `<` that is not closed at once there is a
`>`, and one of the two is spelled. -/
def HasSpelledTag : List (Char × Bool) → Prop
  | [] => False
  | (c, opens) :: rest =>
      (c = '<' ∧ (rest.head?.map Prod.fst) ≠ some '>'
          ∧ ∃ closes, ('>', closes) ∈ rest ∧ (opens || closes) = true)
        ∨ HasSpelledTag rest

/-- **The references in a text spell nothing that is removed**: no asterisk, percent sign or emoji,
and no bracket of a tag. -/
structure SpellsNothing (html5 : Text → Option Text) (cleaned : Text) : Prop where
  chars : ∀ m, .matched m ∈ pieces Html.charref cleaned → Free removedChars (resolved html5 m)
  brackets : ¬ HasSpelledTag (spelled html5 (pieces Html.charref cleaned))

section

variable {html5 : Text → Option Text} {c : Cursor} {ps : List Piece}

theorem map_spelled : (spelled html5 ps).map Prod.fst = rewritten (resolved html5) ps := by
  induction ps with
  | nil => rfl
  | cons p ps ih =>
      cases p with
      | kept c => rw [spelled, List.map_cons, ih, rewritten_kept]
      | matched m =>
          have hsame : (Prod.fst ∘ fun x : Char => (x, true)) = id := rfl
          rw [spelled, List.map_append, List.map_map, hsame, List.map_id, ih, rewritten_matched]

/-- `html.unescape` of a text brings in what the references in it spell, and nothing else. -/
theorem free_unescape_iff {s : Text} (hs : Free removedChars s) :
    Free removedChars (Html.unescape html5 s)
      ↔ ∀ m, .matched m ∈ pieces Html.charref s → Free removedChars (resolved html5 m) := by
  rw [unescape_eq]
  exact (pieces_reading Html.charref s).free_iff hs

theorem HasSpelledTag.hasTag {chars : List (Char × Bool)} (h : HasSpelledTag chars) :
    HasTag (chars.map Prod.fst) := by
  induction chars with
  | nil => exact h
  | cons x chars ih =>
      rcases h with ⟨hopen, hhead, closes, hmem, -⟩ | h
      · exact .inl ⟨hopen, by rwa [List.head?_map], List.mem_map_of_mem hmem⟩
      · exact .inr (ih h)

/-- A tag that begins in what a reference spells has its first bracket from there. -/
theorem HasSpelledTag.append {s : Text} {chars : List (Char × Bool)}
    (h : HasTag (chars.map Prod.fst) → HasSpelledTag chars)
    (htag : HasTag ((s.map (·, true) ++ chars).map Prod.fst)) :
    HasSpelledTag (s.map (·, true) ++ chars) := by
  induction s with
  | nil => exact h htag
  | cons x s ih =>
      rcases htag with ⟨hopen, hhead, hmem⟩ | htag
      · obtain ⟨⟨y, closes⟩, hmem, rfl⟩ := List.mem_map.mp hmem
        exact .inl ⟨hopen, by rwa [← List.head?_map], closes, hmem, rfl⟩
      · exact .inr (ih htag)

/-- What no reference spells is in the text. -/
theorem mem_of_unspelled (h : Reading Html.charref c ps) {x : Char}
    (hx : (x, false) ∈ spelled html5 ps) : x ∈ c.after := by
  induction h with
  | done => exact absurd hx (by simp [spelled])
  | kept hnone hrest ih =>
      rw [spelled, List.mem_cons] at hx
      rcases hx with hx | hx
      · exact List.mem_cons.mpr (.inl (congrArg Prod.fst hx))
      · exact List.mem_cons_of_mem _ (ih hx)
  | matched hmatch hshort hrest ih =>
      rw [spelled, List.mem_append] at hx
      rcases hx with hx | hx
      · exact absurd hx (by simp)
      · exact (matchAt_suffix hmatch).mem (ih hx)

theorem HasTag.of_suffix {s t : Text} (h : HasTag s) (hs : s <:+ t) : HasTag t := by
  obtain ⟨w, hw, hin⟩ := hasTag_iff.mp h
  exact hasTag_iff.mpr ⟨w, hw, hin.trans hs.isInfix⟩

/-- **Where the text itself has no tag, a reference spells a bracket of each.** -/
theorem hasSpelledTag_of (h : Reading Html.charref c ps) (hc : ¬ HasTag c.after)
    (htag : HasTag ((spelled html5 ps).map Prod.fst)) : HasSpelledTag (spelled html5 ps) := by
  induction h with
  | done => exact htag
  | kept hnone hrest ih =>
      rename_i before rest x ps
      rw [HasTag, not_or] at hc
      rcases htag with ⟨hopen, hhead, hmem⟩ | htag
      · left
        obtain ⟨⟨y, closes⟩, hmem, rfl⟩ := List.mem_map.mp hmem
        refine ⟨hopen, by rwa [← List.head?_map], closes, hmem, ?_⟩
        -- two brackets of the text would be a tag of the text
        cases closes with
        | true => rfl
        | false =>
            refine absurd ⟨hopen, ?_, mem_of_unspelled hrest hmem⟩ hc.1
            intro hatOnce
            refine hhead ?_
            rw [map_spelled, hrest.head (matchAt_charref ?_)]
            · exact hatOnce
            · intro z hz
              rw [Option.some.inj (hz.symm.trans hatOnce)]
              decide
      · exact .inr (ih hc.2 htag)
  | matched hmatch hshort hrest ih =>
      exact .append (ih fun h => hc (h.of_suffix (matchAt_suffix hmatch))) htag

end

/-- What the output of a sanitizer should be free of. -/
structure CleanOutput (out : Text) : Prop where
  tags : search htmlTagPattern out = none
  emoji : search emojiPattern out = none
  asterisk : '*' ∉ out
  percent : '%' ∉ out
  blanks : search collapseSpacesPattern out = none

theorem search_emojiPattern {s : Text} : search emojiPattern s = none ↔ Free emojiChars s := by
  rw [emojiPattern_eq, (reads_set emojiChars).search_eq_none]
  constructor
  · intro h c hc
    by_contra hemoji
    obtain ⟨a, b, rfl⟩ := List.append_of_mem hc
    exact h [c] ⟨c, by simpa using hemoji, rfl⟩ ⟨a, b, by simp⟩
  · intro h _ h' hin
    obtain ⟨c, hc, rfl⟩ := h'
    exact absurd hc (by simp [h c (hin.subset (by simp))])

theorem cleanOutput_iff {out : Text} :
    CleanOutput out ↔ ¬ HasTag out ∧ Free removedChars out ∧ out.IsChain Apart := by
  constructor
  · intro h
    obtain ⟨htags, hemoji, hasterisk, hpercent, hblanks⟩ := h
    refine ⟨search_htmlTagPattern.mp htags, ?_, search_collapseSpacesPattern.mp hblanks⟩
    intro c hc
    rw [removedChars_eq_false]
    exact ⟨fun h => hasterisk (h ▸ hc), fun h => hpercent (h ▸ hc), search_emojiPattern.mp hemoji c hc⟩
  · intro h
    obtain ⟨htags, hfree, hchain⟩ := h
    have hchars := fun c hc => removedChars_eq_false.mp (hfree c hc)
    exact ⟨search_htmlTagPattern.mpr htags, search_emojiPattern.mpr fun c hc => (hchars c hc).2.2,
      fun h => (hchars _ h).1 rfl, fun h => (hchars _ h).2.1 rfl,
      search_collapseSpacesPattern.mpr hchain⟩

theorem spellsNothing_iff {html5 : Text → Option Text} {s : Text} (hs : Free removedChars s)
    (htags : ¬ HasTag s) :
    SpellsNothing html5 s
      ↔ ¬ HasTag (Html.unescape html5 s) ∧ Free removedChars (Html.unescape html5 s) := by
  rw [free_unescape_iff hs, unescape_eq, ← map_spelled]
  have hbrackets : HasTag ((spelled html5 (pieces Html.charref s)).map Prod.fst) →
      HasSpelledTag (spelled html5 (pieces Html.charref s)) :=
    hasSpelledTag_of (pieces_reading Html.charref s) htags
  exact ⟨fun h => ⟨fun htag => h.brackets (hbrackets htag), h.chars⟩,
    fun h => ⟨h.2, fun hspelled => h.1 hspelled.hasTag⟩⟩

/-- Only the references bring anything in. -/
theorem cleanOutput_streamed_iff {env : TextEnv} (hcd : LetterCase env.chars) (text : Text) :
    CleanOutput (streamed env [text]) ↔ SpellsNothing env.html5 (strippedText env text) := by
  obtain ⟨hleft, hright⟩ := streamed_one env text
  have hends := marks_of_prefix hleft hright
  have htags := not_hasTag_strippedText env text
  rw [spellsNothing_iff (free_removed env text) htags, cleanOutput_iff, hends.1, hends.2]
  rw [sanitizedText_eq, finishedText] at hright ⊢
  generalize Html.unescape env.html5 (strippedText env text) = unescaped at hright ⊢
  -- collapsing and capitalizing change nothing that counts
  have hcollapse := sameMarks_collapseSpaces unescaped
  have hcapital := sameMarks_ensureLeadingCapitalStream hcd (collapseSpaces unescaped)
  have hstart := lstrip_marks (ensureLeadingCapitalStream env.chars (collapseSpaces unescaped) true).1
  rw [hstart.1, hstart.2, ← hcapital.tags, ← hcapital.chars, ← hcollapse.tags, ← hcollapse.chars]
  -- and no blanks come together after the one or the other
  have hchain := isChain_ensureLeadingCapitalStream hcd (isChain_collapseSpaces unescaped)
  have hstripped := hchain.suffix (lstrip_suffix _)
  have hout := hstripped.prefix hright
  rw [and_iff_left hout]

/-- A text without an ampersand comes out clean. -/
theorem streamed_clean_of_plain {env : TextEnv} (hcd : LetterCase env.chars)
    {text : Text} (hphones : ∀ t, env.matchPhones t = []) (htext : '&' ∉ text) :
    CleanOutput (streamed env [text]) := by
  have hp : Foreign (· == '&') := by
    intro c hc
    have hcode := written_toNat hc
    rw [beq_eq_false_iff_ne]
    intro heq
    obtain rfl := heq
    revert hcode
    decide
  have hfree : Free (· == '&') (strippedText env text) :=
    free_strippedText hphones hp fun c hc => beq_false_of_ne fun h => htext (h ▸ hc)
  have hnone : '&' ∉ strippedText env text := fun h => absurd (hfree _ h) (by simp)
  have hsame : Html.unescape env.html5 (strippedText env text) = strippedText env text := by
    simp [Html.unescape, hnone]
  have htags := not_hasTag_strippedText env text
  rw [cleanOutput_streamed_iff hcd, spellsNothing_iff (free_removed env text) htags, hsame]
  exact ⟨htags, free_removed env text⟩

/--
**The output is clean exactly when the references left in the text spell nothing that is removed.**
For every text, whatever the phone number matcher reports, and whatever the named references are;
so it is clean for every text without an ampersand and without a phone number.
-/
theorem streamed_clean_iff {env : TextEnv} (hcd : LetterCase env.chars) (text : Text) :
    (CleanOutput (streamed env [text]) ↔ SpellsNothing env.html5 (strippedText env text))
      ∧ ((∀ t, env.matchPhones t = []) → '&' ∉ text → CleanOutput (streamed env [text])) :=
  ⟨cleanOutput_streamed_iff hcd text, streamed_clean_of_plain hcd⟩

/-- A reference to an ampersand is resolved, and the output is clean. -/
theorem streamed_clean_ampersand :
    SpellsNothing plainTextEnv.html5 (strippedText plainTextEnv "1 &#38; 2".toList)
      ∧ CleanOutput (streamed plainTextEnv ["1 &#38; 2".toList]) := by
  have hfree := free_removed plainTextEnv "1 &#38; 2".toList
  have hclean := @streamed_clean_iff plainTextEnv letterCase_asciiData "1 &#38; 2".toList
  have hstripped : strippedText plainTextEnv "1 &#38; 2".toList = "1 &#38; 2".toList := by
    decide +kernel
  rw [hstripped] at hfree hclean ⊢
  have hspelled : spelled plainTextEnv.html5 (pieces Html.charref "1 &#38; 2".toList)
      = [('1', false), (' ', false), ('&', true), (' ', false), ('2', false)] := by decide +kernel
  have hspells : SpellsNothing plainTextEnv.html5 "1 &#38; 2".toList := by
    refine ⟨(free_unescape_iff hfree).mp ?_, ?_⟩
    · rw [unescape_eq, ← map_spelled, hspelled]
      have hplain : ("1 & 2".toList.all fun c => !removedChars c) = true := by decide
      intro c hc
      simpa using List.all_eq_true.mp hplain c hc
    · rw [hspelled]
      simp [HasSpelledTag]
  exact ⟨hspells, hclean.1.mpr hspells⟩

/-- **A tag, an asterisk, a percent sign and an emoji that all come out**, since each is written as
references. -/
theorem streamed_not_clean :
    let out := streamed plainTextEnv ["&#60;b&#62; &#42; 5&#37; &#128512;".toList]
    out = "<B> * 5% 😀".toList ∧ ¬ CleanOutput out ∧ search htmlTagPattern out = some 0
      ∧ (search emojiPattern out).isSome ∧ '*' ∈ out ∧ '%' ∈ out := by
  intro out
  have hout : out = "<B> * 5% 😀".toList := by decide +kernel
  rw [hout]
  refine ⟨rfl, fun h => absurd h.asterisk (by decide), by decide +kernel, by decide +kernel,
    by decide, by decide⟩

end YapInference
