import YapInference.Lib.RegexEnds
import YapInference.Proof.CleanOutput

/-!
# What the suffix guards hold back

However a text goes on, a guard never reaches further back than it did: it grows at most by what
has come. That is so of each of the six, but for the one for emails when the first email is
completed. So a guard only reaches into what has been let through when the pipeline makes less of
the new text than it has characters: four of the guards count these, and all six are taken off the
sanitized text.
-/

namespace YapInference

open Py Regex Emission

/-! ## One guard -/

section

variable (text more : Text)

theorem suffixLen_append {r : Pattern} {L : Language Char} (hr : Regex.Ends r L) (hL : Prefixed L) :
    suffixLen r (text ++ more) ≤ suffixLen r text + more.length := by
  unfold suffixLen
  cases hfound : search r (text ++ more) with
  | none => exact Nat.zero_le _
  | some i =>
      rw [List.length_append]
      rcases Nat.lt_or_ge i text.length with hlt | hge
      · obtain ⟨j, hj, hfound'⟩ := hr.search_append hL hfound hlt
        rw [hfound']
        dsimp only
        omega
      · dsimp only
        omega

theorem htmlEntitySuffixLen_append :
    htmlEntitySuffixLen (text ++ more) ≤ htmlEntitySuffixLen text + more.length := by
  have hends := (reads_set (· == '&')).ends ((reads_upTo 10 letter).ends ends_finish)
  exact suffixLen_append _ _ hends ((prefixed_oneOf _).mul
    ((prefixed_upTo 10 letter).mul prefixed_one rfl) (nil_mem_mul (nil_mem_upTo 10 letter) rfl))

/-- A guard that is capped grows no faster. -/
theorem min_le_min_add {a b c n : Nat} (h : a ≤ b + n) : min a c ≤ min b c + n := by omega

theorem phoneSuffixLen_append (cd : CharData) :
    phoneSuffixLen cd (text ++ more) ≤ phoneSuffixLen cd text + more.length := by
  have hends := (reads_set fun c => c == '+' || cd.isDecimal c).ends
    ((reads_rep_set 0 fun c => cd.isDecimal c || among " -()" c).ends ends_finish)
  exact min_le_min_add (suffixLen_append _ _ hends ((prefixed_oneOf _).mul
    ((prefixed_runs (Nat.zero_le 1) _).mul prefixed_one rfl) (nil_mem_mul (nil_mem_runs _) rfl)))

/-- What may be the beginning of an email. -/
def emailEnds : Language Char :=
  runs 1 (fun c => letter c || digit c || among "._%+-" c)
    * (upTo 1 (· == '@') * (runs 0 (fun c => letter c || digit c || among ".-" c) * 1))

theorem ends_email : Regex.Ends (all [plus (.set fun c => letter c || digit c || among "._%+-" c),
    opt (lit "@"), star (.set fun c => letter c || digit c || among ".-" c), .finish]) emailEnds :=
  (reads_rep_set 1 _).ends ((reads_upTo 1 _).ends ((reads_rep_set 0 _).ends ends_finish))

theorem prefixed_emailEnds : Prefixed emailEnds := by
  have hrest := (prefixed_upTo 1 (· == '@')).mul
    ((prefixed_runs (Nat.zero_le 1) fun c => letter c || digit c || among ".-" c).mul
      prefixed_one rfl) (nil_mem_mul (nil_mem_runs _) rfl)
  exact (prefixed_runs (Nat.le_refl 1) _).mul hrest
    (nil_mem_mul (nil_mem_upTo 1 _) (nil_mem_mul (nil_mem_runs _) rfl))

/-- The first email that is completed makes this guard a fixed one. -/
theorem emailSuffixLen_append
    (hemail : (search emailPattern (text ++ more)).isSome = (search emailPattern text).isSome) :
    emailSuffixLen (text ++ more) ≤ emailSuffixLen text + more.length := by
  unfold emailSuffixLen
  rw [hemail]
  split
  · rw [List.length_append]
    omega
  · exact min_le_min_add (suffixLen_append _ _ ends_email prefixed_emailEnds)

/-- What may be the beginning of an emoticon. -/
def emoticonEnds : Language Char :=
  oneOf (among ":=;8") * (upTo 1 (among "-^") * 1)
    + (oneOf (· == '<') * 1 + (oneOf (among "xX") * 1
      + (oneOf (· == '^') * (upTo 1 (· == '_') * 1)
        + oneOf (among "tT") * (upTo 1 (· == '_') * 1))))

theorem ends_emoticon : Regex.Ends (all [any [
    all [.set (among ":=;8"), opt (.set (among "-^"))], lit "<",
    all [.set (among "xX"), .ahead false (.set letter)], all [lit "^", opt (lit "_")],
    all [.set (among "tT"), opt (lit "_")]], .finish]) emoticonEnds := by
  have heyes := ((reads_set (among ":=;8")).ends
    ((reads_upTo 1 (among "-^")).ends ends_finish)).assoc
  have hheart := (reads_set (· == '<')).ends ends_finish
  have hlaugh := ((reads_set (among "xX")).ends (ends_ahead (p := letter) (by decide))).assoc
  have hhappy := ((reads_set (· == '^')).ends ((reads_upTo 1 (· == '_')).ends ends_finish)).assoc
  have hcrying := ((reads_set (among "tT")).ends ((reads_upTo 1 (· == '_')).ends ends_finish)).assoc
  exact heyes.alt (hheart.alt (hlaugh.alt (hhappy.alt hcrying)))

theorem prefixed_emoticonEnds : Prefixed emoticonEnds := by
  have hpair : ∀ p q : Char → Bool, Prefixed (oneOf p * (upTo 1 q * 1)) := fun p q =>
    (prefixed_oneOf p).mul ((prefixed_upTo 1 q).mul prefixed_one rfl)
      (nil_mem_mul (nil_mem_upTo 1 q) rfl)
  have hsingle : ∀ p : Char → Bool, Prefixed (oneOf p * 1) := fun p =>
    (prefixed_oneOf p).mul prefixed_one rfl
  exact (hpair _ _).add ((hsingle _).add ((hsingle _).add ((hpair _ _).add (hpair _ _))))

theorem emoticonSuffixLen_append :
    emoticonSuffixLen (text ++ more) ≤ emoticonSuffixLen text + more.length :=
  suffixLen_append _ _ ends_emoticon prefixed_emoticonEnds

/-- Where a character was last is where it is last, unless it has come again. -/
theorem rfind_append (c : Char) :
    (∃ i, rfind c (text ++ more) = some i ∧ text.length ≤ i)
      ∨ rfind c (text ++ more) = rfind c text := by
  unfold rfind List.idxOf?
  rw [List.reverse_append, List.findIdx?_append]
  cases hnew : more.reverse.findIdx? (· == c) with
  | some i =>
      have hlt := (List.findIdx?_eq_some_iff_findIdx_eq.mp hnew).1
      rw [List.length_reverse] at hlt
      refine Or.inl ⟨_, rfl, ?_⟩
      show text.length ≤ (text ++ more).length - 1 - i
      rw [List.length_append]
      omega
  | none =>
      refine Or.inr ?_
      cases text.reverse.findIdx? (· == c) with
      | none => rfl
      | some i =>
          simp only [Option.none_or, Option.map_some, List.length_append, List.length_reverse,
            Option.some.injEq]
          omega

theorem rfind_lt {text : Text} {c : Char} {i : Nat} (h : rfind c text = some i) :
    i < text.length := by
  unfold rfind List.idxOf? at h
  obtain ⟨j, hj, rfl⟩ := Option.map_eq_some_iff.mp h
  have hlt := (List.findIdx?_eq_some_iff_findIdx_eq.mp hj).1
  rw [List.length_reverse] at hlt
  omega

theorem htmlTagSuffixLen_append (cd : CharData) :
    htmlTagSuffixLen cd (text ++ more) ≤ htmlTagSuffixLen cd text + more.length := by
  unfold htmlTagSuffixLen
  rcases rfind_append text more '<' with ⟨i, hlast, hi⟩ | hlast
  · -- a bracket that has just come
    rw [hlast, List.length_append]
    dsimp only
    split
    · exact Nat.zero_le _
    · split
      · exact Nat.zero_le _
      · omega
  · rw [hlast]
    cases hfound : rfind '<' text with
    | none => exact Nat.zero_le _
    | some i =>
        have hi := rfind_lt hfound
        dsimp only
        split
        · exact Nat.zero_le _
        · rename_i hopen
          split
          · exact Nat.zero_le _
          · rename_i hletter
            -- what is open now was open before
            have hopen' : ¬ (rfind '>' text).any (i < ·) = true := by
              rcases rfind_append text more '>' with ⟨j, hj, hle⟩ | hsame
              · rw [hj] at hopen
                exact absurd (show decide (i < j) = true by simpa using by omega) hopen
              · rwa [hsame] at hopen
            have hletter' : ¬ text[i + 1]?.any cd.isDigit = true := by
              rcases Nat.lt_or_ge (i + 1) text.length with hlt | hge
              · rwa [List.getElem?_append_left hlt] at hletter
              · rw [List.getElem?_eq_none hge]
                simp
            rw [if_neg hopen', if_neg hletter', List.length_append]
            omega

theorem length_rdropWhile_append (p : Char → Bool) :
    (text.rdropWhile p).length ≤ ((text ++ more).rdropWhile p).length := by
  induction more using List.reverseRecOn with
  | nil => rw [List.append_nil]
  | append_singleton more c ih =>
      rw [← List.append_assoc]
      by_cases hc : p c = true
      · rwa [List.rdropWhile_concat_pos _ _ _ hc]
      · rw [List.rdropWhile_concat_neg _ _ _ hc]
        have hle := (List.rdropWhile_prefix p text).length_le
        simp only [List.length_append]
        omega

theorem unstableSuffixLen_append :
    unstableSuffixLen (text ++ more) ≤ unstableSuffixLen text + more.length := by
  have hkept : ((text.rdropWhile trailingStreamUnstableChars).rdropWhile (· == '.')).length
      ≤ (((text ++ more).rdropWhile trailingStreamUnstableChars).rdropWhile (· == '.')).length := by
    induction more using List.reverseRecOn with
    | nil => rw [List.append_nil]
    | append_singleton more c ih =>
        rw [← List.append_assoc]
        by_cases hc : trailingStreamUnstableChars c = true
        · rwa [List.rdropWhile_concat_pos _ _ _ hc]
        · -- a character that stays ends the run before it, and a dot goes on with one
          rw [List.rdropWhile_concat_neg _ _ _ hc]
          obtain ⟨rest, hrest⟩ := List.rdropWhile_prefix trailingStreamUnstableChars text
          have hdots := length_rdropWhile_append (text.rdropWhile trailingStreamUnstableChars)
            (rest ++ (more ++ [c])) (· == '.')
          rwa [← List.append_assoc, hrest, ← List.append_assoc] at hdots
  unfold unstableSuffixLen
  rw [List.length_append]
  omega

end

/-! ## All of them -/

/-- The longest of the six. -/
def longestGuard (cd : CharData) (raw sanitized : Text) : Nat :=
  [unstableSuffixLen sanitized, htmlEntitySuffixLen sanitized, htmlTagSuffixLen cd raw,
    emailSuffixLen raw, phoneSuffixLen cd raw, emoticonSuffixLen raw].foldl max 0

theorem tailLen_eq (cd : CharData) (raw : Text) {sanitized : Text} (hne : sanitized ≠ [])
    (maxTail : Nat) : (computeStableAndTailLengths cd raw sanitized maxTail).2
      = min (min sanitized.length (longestGuard cd raw sanitized)) maxTail := by
  unfold computeStableAndTailLengths
  rw [if_neg (by simpa using hne)]
  change (if maxTail < min sanitized.length (longestGuard cd raw sanitized) then
      (sanitized.length - maxTail, maxTail)
    else (sanitized.length - min sanitized.length (longestGuard cd raw sanitized),
      min sanitized.length (longestGuard cd raw sanitized))).2 = _
  split
  · exact (Nat.min_eq_right (Nat.le_of_lt ‹_›)).symm
  · exact (Nat.min_eq_left (Nat.not_lt.mp ‹_›)).symm

/-- What is added to both texts, no less to the sanitized one, is as much as it can grow by. -/
theorem longestGuard_append (cd : CharData) {raw more : Text} (sanitized : Text) {added : Text}
    (hlonger : more.length ≤ added.length)
    (hemails : (search emailPattern (raw ++ more)).isSome = (search emailPattern raw).isSome) :
    longestGuard cd (raw ++ more) (sanitized ++ added)
      ≤ longestGuard cd raw sanitized + added.length := by
  have hunstable := unstableSuffixLen_append sanitized added
  have hentity := htmlEntitySuffixLen_append sanitized added
  have htag := htmlTagSuffixLen_append raw more cd
  have hemail := emailSuffixLen_append raw more hemails
  have hphone := phoneSuffixLen_append raw more cd
  have hemoticon := emoticonSuffixLen_append raw more
  simp only [longestGuard, List.foldl_cons, List.foldl_nil]
  omega

/-- How many characters at the end of the sanitized text the guards hold back. -/
def heldBack (env : TextEnv) (raw : Text) : Nat :=
  (computeStableAndTailLengths env.chars raw (sanitizedText env raw) StreamingSanitizer.maxTail).2

/-- How many at its start they let through. -/
def letThrough (env : TextEnv) (raw : Text) : Nat :=
  (sanitizedText env raw).length - heldBack env raw

theorem stablePart_eq (env : TextEnv) (raw : Text) :
    stablePart env raw = (sanitizedText env raw).take (letThrough env raw) := by
  unfold stablePart letThrough heldBack computeStableAndTailLengths
  split
  · rename_i hnil
    rw [List.isEmpty_iff.mp hnil]
    rfl
  · dsimp only
    split <;> rfl

theorem stablePart_isPrefix (env : TextEnv) (raw : Text) :
    stablePart env raw <+: sanitizedText env raw := List.take_prefix _ _

theorem letThrough_le (env : TextEnv) (raw : Text) :
    letThrough env raw ≤ (sanitizedText env raw).length := Nat.sub_le _ _

theorem length_stablePart (env : TextEnv) (raw : Text) :
    (stablePart env raw).length = letThrough env raw := by
  rw [stablePart_eq, List.length_take, Nat.min_eq_left (letThrough_le env raw)]

theorem stablePart_eq_nil_iff {env : TextEnv} {raw : Text} :
    stablePart env raw = [] ↔ letThrough env raw = 0 := by
  rw [← List.length_eq_zero_iff, length_stablePart]

/-! ## When nothing is taken back -/

section

variable (made : Text → Text) (held : Text → Nat)

/-- How many characters at the end of what is made of a text more text changes. -/
def changedBack (raw later : Text) : Nat :=
  (made raw).length - commonPrefixLen (made raw) (made later)

/-- What is held back at a boundary covers all that the text up to the next one changes, and at the
next one it does not reach back in front of that. -/
def Guarded (raw later : Text) : Prop :=
  changedBack made raw later ≤ held raw
    ∧ (made raw).length - held raw ≤ (made later).length - held later

/-- The texts up to the boundaries where something is let through. -/
def openTexts (chunks : List Text) : List Text :=
  (rawTexts [] chunks).filter fun raw => 0 < (made raw).length - held raw

/-- Enough is held back at every boundary; and at the end of the text, where white space is all that
is held back. -/
def AllGuarded (chunks : List Text) : Prop :=
  (openTexts made held chunks).IsChain (Guarded made held)
    ∧ ((made chunks.flatten).length - held chunks.flatten = 0 →
        ∀ raw ∈ (openTexts made held chunks).getLast?,
          changedBack made raw chunks.flatten ≤ held raw
            ∧ (made raw).length - held raw ≤ (rstrip (made chunks.flatten)).length)

end

/-- Only what is made of the texts up to the boundaries matters, and of the whole one. -/
theorem allGuarded_congr {made made' : Text → Text} {held held' : Text → Nat} {chunks : List Text}
    (hmade : ∀ raw ∈ chunks.flatten :: rawTexts [] chunks, made raw = made' raw)
    (hheld : ∀ raw ∈ chunks.flatten :: rawTexts [] chunks, held raw = held' raw) :
    AllGuarded made held chunks ↔ AllGuarded made' held' chunks := by
  have hopen : openTexts made held chunks = openTexts made' held' chunks :=
    List.filter_congr fun raw hraw => by
      rw [hmade raw (List.mem_cons_of_mem _ hraw), hheld raw (List.mem_cons_of_mem _ hraw)]
  have hmem : ∀ raw ∈ openTexts made' held' chunks, raw ∈ chunks.flatten :: rawTexts [] chunks :=
    fun raw hraw => List.mem_cons_of_mem _ (List.mem_filter.mp hraw).1
  have hself : chunks.flatten ∈ chunks.flatten :: rawTexts [] chunks := List.mem_cons_self
  have hguarded : ∀ raw ∈ openTexts made' held' chunks, ∀ later ∈ openTexts made' held' chunks,
      Guarded made held raw later ↔ Guarded made' held' raw later := fun raw hraw later hlater => by
    rw [Guarded, Guarded, changedBack, changedBack, hmade raw (hmem raw hraw),
      hmade later (hmem later hlater), hheld raw (hmem raw hraw), hheld later (hmem later hlater)]
  rw [AllGuarded, AllGuarded, hopen, hmade _ hself, hheld _ hself]
  refine and_congr ?_ (imp_congr_right fun _ => forall₂_congr fun raw hraw => ?_)
  · rw [List.isChain_iff_getElem, List.isChain_iff_getElem]
    exact forall₂_congr fun i hi => hguarded _ (List.getElem_mem _) _ (List.getElem_mem _)
  · have hin := hmem raw (List.mem_of_getLast? hraw)
    rw [changedBack, changedBack, hmade raw hin, hmade _ hself, hheld raw hin]

theorem stablePart_prefix_iff {env : TextEnv} {raw later target : Text}
    (htarget : target <+: sanitizedText env later) :
    stablePart env raw <+: target
      ↔ changedBack (sanitizedText env) raw later ≤ heldBack env raw
        ∧ letThrough env raw ≤ target.length := by
  have hcommon : letThrough env raw ≤ common (sanitizedText env raw) (sanitizedText env later)
      ↔ changedBack (sanitizedText env) raw later ≤ heldBack env raw := by
    unfold changedBack commonPrefixLen letThrough
    omega
  rw [← hcommon, ← take_isPrefix_iff (letThrough_le env raw), ← stablePart_eq]
  constructor
  · exact fun h => ⟨h.trans htarget, length_stablePart env raw ▸ h.length_le⟩
  · intro h
    obtain ⟨hstarts, hle⟩ := h
    exact List.prefix_of_prefix_length_le hstarts htarget (length_stablePart env raw ▸ hle)

theorem guarded_iff {env : TextEnv} {raw later : Text} :
    Guarded (sanitizedText env) (heldBack env) raw later
      ↔ stablePart env raw <+: stablePart env later := by
  rw [Guarded, stablePart_prefix_iff (stablePart_isPrefix env later), length_stablePart, letThrough,
    letThrough]

theorem stableParts_eq (env : TextEnv) (chunks : List Text) :
    stableParts env [] chunks
      = (openTexts (sanitizedText env) (heldBack env) chunks).map (stablePart env) := by
  rw [stableParts, openTexts, List.filter_map]
  congr 2
  funext raw
  rw [Function.comp_apply, Bool.eq_iff_iff, Bool.not_eq_true', List.isEmpty_eq_false_iff, ne_eq,
    stablePart_eq_nil_iff, decide_eq_true_eq, Nat.pos_iff_ne_zero, letThrough]

/-- **Nothing is taken back exactly when the guards do what they are for.** -/
theorem chunkStable_iff (env : TextEnv) (chunks : List Text) :
    ChunkStable env chunks ↔ AllGuarded (sanitizedText env) (heldBack env) chunks := by
  have hchain : ((openTexts (sanitizedText env) (heldBack env) chunks).map
        (stablePart env)).IsChain (· <+: ·)
      ↔ (openTexts (sanitizedText env) (heldBack env) chunks).IsChain
        (Guarded (sanitizedText env) (heldBack env)) := by
    rw [List.isChain_map]
    exact List.IsChain.iff fun _ _ => guarded_iff.symm
  rw [ChunkStable, isChain_snoc, emitAll_last, AllGuarded, stableParts_eq, hchain, settledText]
  refine and_congr_right fun _ => ?_
  by_cases hstable : stablePart env chunks.flatten = []
  · have hzero : (sanitizedText env chunks.flatten).length - heldBack env chunks.flatten = 0 :=
      stablePart_eq_nil_iff.mp hstable
    rw [if_pos hstable, List.getLast?_map]
    simp only [hzero, true_implies]
    cases (openTexts (sanitizedText env) (heldBack env) chunks).getLast? with
    | none => simp
    | some raw =>
        simp only [Option.map_some, Option.getD_some, Option.mem_some_iff, forall_eq']
        exact stablePart_prefix_iff (rstrip_isPrefix _)
  · -- the last text is the whole one
    have hne : chunks.flatten ≠ [] := by
      intro hnil
      rw [hnil] at hstable
      exact hstable rfl
    have hlast := stableParts_last env [] hne (by simpa using hstable)
    rw [stableParts_eq] at hlast
    rw [if_neg hstable, hlast]
    exact iff_of_true (List.prefix_refl _) fun hzero =>
      absurd (stablePart_eq_nil_iff.mpr hzero) hstable

/-! ## Text that is only added to -/

/-- What is let through stays so when no guard grows by more than the sanitized text. -/
theorem letThrough_le_of_grows {env : TextEnv} {raw later added : Text}
    (hgrown : sanitizedText env later = sanitizedText env raw ++ added)
    (hguards : longestGuard env.chars later (sanitizedText env raw ++ added)
      ≤ longestGuard env.chars raw (sanitizedText env raw) + added.length) :
    letThrough env raw ≤ letThrough env later := by
  unfold letThrough heldBack
  rw [hgrown]
  by_cases hnil : sanitizedText env raw = []
  · simp [hnil]
  · rw [tailLen_eq _ _ hnil, tailLen_eq _ _ (List.append_ne_nil_of_left_ne_nil hnil added),
      List.length_append]
    omega

theorem stablePart_isPrefix_of_le {env : TextEnv} {raw later : Text}
    (hkept : sanitizedText env raw <+: sanitizedText env later)
    (hle : letThrough env raw ≤ letThrough env later) :
    stablePart env raw <+: stablePart env later := by
  refine List.prefix_of_prefix_length_le ((stablePart_isPrefix env raw).trans hkept)
    (stablePart_isPrefix env later) ?_
  rwa [length_stablePart, length_stablePart]

/-- The pipeline only adds to what it has made, and no less than has come, and no first email is
completed. -/
structure OnlyAdds (env : TextEnv) (raw later : Text) : Prop where
  kept : sanitizedText env raw <+: sanitizedText env later
  longer : (sanitizedText env raw).length + later.length
    ≤ (sanitizedText env later).length + raw.length
  emails : (search emailPattern later).isSome = (search emailPattern raw).isSome

/-- **Then no guard reaches back.** -/
theorem OnlyAdds.letThrough_le {env : TextEnv} {raw later : Text} (h : OnlyAdds env raw later)
    (hraw : raw <+: later) : letThrough env raw ≤ letThrough env later := by
  obtain ⟨more, rfl⟩ := hraw
  obtain ⟨⟨added, hadded⟩, hlonger, hemails⟩ := h
  rw [← hadded, List.length_append, List.length_append] at hlonger
  exact letThrough_le_of_grows hadded.symm
    (longestGuard_append env.chars _ (show more.length ≤ added.length by omega) hemails)

theorem rawTexts_isChain (raw : Text) (chunks : List Text) :
    (raw :: rawTexts raw chunks).IsChain (· <+: ·) := by
  induction chunks generalizing raw with
  | nil => exact List.isChain_singleton raw
  | cons chunk chunks ih =>
      rw [rawTexts]
      split
      · exact ih raw
      · exact List.isChain_cons_cons.mpr ⟨List.prefix_append raw chunk, ih (raw ++ chunk)⟩

/-- A boundary where nothing is let through, or after which text is only added. -/
def Adds (env : TextEnv) (raw later : Text) : Prop :=
  letThrough env raw = 0 ∨ OnlyAdds env raw later

theorem Adds.stablePart_isPrefix {env : TextEnv} {raw later : Text} (h : Adds env raw later)
    (hraw : raw <+: later) : stablePart env raw <+: stablePart env later := by
  rcases h with hzero | hadds
  · rw [stablePart_eq_nil_iff.mpr hzero]
    exact List.nil_prefix
  · exact stablePart_isPrefix_of_le hadds.kept (hadds.letThrough_le hraw)

/-- **Where each boundary keeps what the one before let through nothing is taken back.** -/
theorem chunkStable_of_isChain (env : TextEnv) {chunks : List Text}
    (h : (rawTexts [] chunks).IsChain fun raw later =>
      stablePart env raw <+: stablePart env later) : ChunkStable env chunks := by
  -- every stable part begins with the one before it, and so with all before it
  have hparts : ((rawTexts [] chunks).map (stablePart env)).IsChain (· <+: ·) :=
    (List.isChain_map _).mpr h
  rw [ChunkStable, isChain_snoc]
  refine ⟨hparts.sublist List.filter_sublist, ?_⟩
  rw [emitAll_last, settledText]
  by_cases hne : chunks.flatten = []
  · rw [stableParts, rawTexts_nil hne]
    exact List.nil_prefix
  by_cases hstable : stablePart env chunks.flatten = []
  · -- the whole text has no stable part, and then none before it had one
    obtain ⟨front, hfront⟩ := List.getLast?_eq_some_iff.mp (rawTexts_last [] hne)
    have hnone : stableParts env [] chunks = [] := by
      rw [hfront, List.map_append, List.map_singleton, List.nil_append, hstable] at hparts
      rw [stableParts, hfront, List.map_append, List.map_singleton, List.nil_append, hstable,
        List.filter_eq_nil_iff]
      intro part hpart
      rcases List.mem_append.mp hpart with hmem | hmem
      · have hnil := (List.pairwise_append.mp hparts.pairwise).2.2 part hmem [] (by simp)
        simp [List.prefix_nil.mp hnil]
      · simp [List.mem_singleton.mp hmem]
    rw [hnone]
    exact List.nil_prefix
  · rw [stableParts_last env [] hne hstable, if_neg hstable]
    exact List.prefix_refl _

theorem chunkStable_of_adds (env : TextEnv) {chunks : List Text}
    (h : (rawTexts [] chunks).IsChain (Adds env)) : ChunkStable env chunks := by
  have hraw := (rawTexts_isChain [] chunks).tail
  refine chunkStable_of_isChain env (List.isChain_iff_getElem.mpr fun i hi => ?_)
  exact (h.getElem i hi).stablePart_isPrefix (hraw.getElem i hi)

end YapInference
