import YapInference.Lib.Halving
import YapInference.Tokens
import Mathlib.Tactic.IntervalCases

/-!
# Clipping a tool text

`trim_tool_text_to_budget` looks for the longest trim that is not empty and fits. It
bisects, and takes an empty trim for one that is too long. With a tokenizer that decodes
its last ids to nothing the short trims are the empty ones, and then a trim that fits can
be missed: what decides is the halving path to the longest trim that fits.
-/

namespace YapInference

open Py

section

variable (text : Text) (budget : Int) (tok : Option HfTokenizer) (keep : Keep) (special : Bool)

/-- How many trims of the stripped text there are. -/
def trimSizes : Nat := countToolTokens (strip text) tok false

/-- The trim of the stripped text to `n` tokens. -/
def trimAt (n : Nat) : Text := trimTextByTokenCount (strip text) n tok keep

/-- Does a text fit the budget? -/
def FitsBudget (t : Text) : Prop := (countToolTokens t tok special : Int) ≤ budget

instance : DecidablePred (FitsBudget budget tok special) := fun _ => inferInstanceAs (Decidable (_ ≤ _))

/-- The trim to `n` tokens, if it is not empty and fits. -/
def usableTrim (n : Nat) : Option Text :=
  if trimAt text tok keep n ≠ [] ∧ FitsBudget budget tok special (trimAt text tok keep n) then
    some (trimAt text tok keep n)
  else none

/-- What a scan over all the sizes gives: the whole text if it fits, else the longest
trim that is not empty and fits, else nothing. -/
def linearTrim : Text :=
  if FitsBudget budget tok special (strip text) then strip text
  else (Search.scan (usableTrim text budget tok keep special) (trimSizes text tok)).getD []

/-- The count of a trim does not decrease with its size. -/
def TrimCountsMonotone : Prop :=
  ∀ m n, m ≤ n → n ≤ trimSizes text tok →
    countToolTokens (trimAt text tok keep m) tok special
      ≤ countToolTokens (trimAt text tok keep n) tok special

/-- No empty trim lies on the halving path to the longest usable one, below it. -/
def NoEmptyTrimBelow (target : Nat) : Prop :=
  ∀ m ∈ Search.path target (trimSizes text tok), m < target → trimAt text tok keep m ≠ []

/-- Halving settles on a shorter trim that is the same text. -/
def SameTrimBelow (target : Nat) : Prop :=
  ∃ k < target,
    Search.SettlesOn (usableTrim text budget tok keep special) (trimSizes text tok) k
      ∧ usableTrim text budget tok keep special k = some (trimAt text tok keep target)

end

section

variable {text : Text} {budget : Int} {tok : Option HfTokenizer} {keep : Keep} {special : Bool}

theorem usableTrim_eq_some {n : Nat} {t : Text} :
    usableTrim text budget tok keep special n = some t
      ↔ t = trimAt text tok keep n ∧ t ≠ [] ∧ FitsBudget budget tok special t := by
  unfold usableTrim
  constructor
  · intro h
    split at h
    · injection h with h
      subst h
      exact ⟨rfl, ‹_›⟩
    · cases h
  · intro h
    obtain ⟨rfl, hne, hfits⟩ := h
    exact if_pos ⟨hne, hfits⟩

/-- The code's own search, in these terms. -/
theorem trimToolTextToBudget_eq (hbudget : 0 < budget)
    (hover : ¬ FitsBudget budget tok special (strip text)) :
    trimToolTextToBudget text budget tok keep special
      = (Search.searchPure (usableTrim text budget tok keep special) (trimSizes text tok)).getD [] := by
  have hfits : ∀ t, countToolTokens t tok special ≤ budget.toNat ↔ FitsBudget budget tok special t := by
    intro t
    unfold FitsBudget
    omega
  have hne : (strip text).isEmpty = false := by
    rcases hempty : strip text with _ | ⟨c, rest⟩
    · rw [hempty] at hover
      exact absurd (Int.le_of_lt hbudget) hover
    · rfl
  have hpos : budget.toNat ≠ 0 := by omega
  unfold trimToolTextToBudget
  simp only [hpos, hne, decide_false, Bool.or_self, Bool.false_eq_true, if_false, hfits, hover]
  congr 2
  funext mid
  unfold usableTrim trimAt
  simp only [Bool.and_eq_true, Bool.not_eq_true', List.isEmpty_eq_false_iff, decide_eq_true_eq]

theorem trimToolTextToBudget_of_fits (hbudget : 0 < budget)
    (hfits : FitsBudget budget tok special (strip text)) :
    trimToolTextToBudget text budget tok keep special = strip text := by
  have hfits' : countToolTokens (strip text) tok special ≤ budget.toNat := by
    unfold FitsBudget at hfits
    omega
  unfold trimToolTextToBudget
  dsimp only
  split
  · rename_i hempty
    have hnil : strip text = [] := by
      rcases (Bool.or_eq_true _ _).mp hempty with h | h
      · have : budget.toNat = 0 := by simpa using h
        omega
      · exact List.isEmpty_iff.mp h
    rw [hnil]
  · rfl

theorem trimToolTextToBudget_of_nonpos (hbudget : budget ≤ 0) :
    trimToolTextToBudget text budget tok keep special = [] := by
  have hzero : budget.toNat = 0 := by omega
  unfold trimToolTextToBudget
  simp [hzero]

theorem usableTrim_ne_nil {n : Nat} {t : Text}
    (h : usableTrim text budget tok keep special n = some t) : t ≠ [] :=
  (usableTrim_eq_some.mp h).2.1

/-- An answer that is never empty can be told from none. -/
theorem getD_inj {a b : Option Text} (ha : ∀ t, a = some t → t ≠ []) (hb : ∀ t, b = some t → t ≠ []) :
    a.getD [] = b.getD [] ↔ a = b := by
  constructor
  · intro h
    rcases a with _ | s <;> rcases b with _ | t
    · rfl
    · exact absurd h.symm (hb t rfl)
    · exact absurd h (ha s rfl)
    · exact congrArg some h
  · exact congrArg (Option.getD · [])

/-- With monotone counts a trim below a usable one is usable unless it is empty. -/
theorem usableTrim_below (hmono : TrimCountsMonotone text tok keep special) {m target : Nat}
    (hle : target ≤ trimSizes text tok)
    (htarget : (usableTrim text budget tok keep special target).isSome = true) (hm : m < target) :
    (usableTrim text budget tok keep special m).isSome = true ↔ trimAt text tok keep m ≠ [] := by
  obtain ⟨t, ht⟩ := Option.isSome_iff_exists.mp htarget
  obtain ⟨rfl, -, hfits⟩ := usableTrim_eq_some.mp ht
  constructor
  · intro h
    obtain ⟨s, hs⟩ := Option.isSome_iff_exists.mp h
    obtain ⟨rfl, hne, -⟩ := usableTrim_eq_some.mp hs
    exact hne
  · intro hne
    have hcount := hmono m target (Nat.le_of_lt hm) hle
    have hfits' : FitsBudget budget tok special (trimAt text tok keep m) := by
      unfold FitsBudget at hfits ⊢
      omega
    rw [usableTrim_eq_some.mpr ⟨rfl, hne, hfits'⟩]
    rfl

/-- **The bisection gives the scan's answer exactly when it meets no empty trim on its way
to it**, or settles on a shorter trim that is the same text. -/
theorem trimToolTextToBudget_search_iff (hbudget : 0 < budget)
    (hover : ¬ FitsBudget budget tok special (strip text))
    (hmono : TrimCountsMonotone text tok keep special) :
    trimToolTextToBudget text budget tok keep special = linearTrim text budget tok keep special
      ↔ ∀ target, Search.IsLongest (usableTrim text budget tok keep special) (trimSizes text tok)
            target →
          NoEmptyTrimBelow text tok keep target ∨ SameTrimBelow text budget tok keep special target := by
  have hsearch : ∀ t, Search.searchPure (usableTrim text budget tok keep special)
      (trimSizes text tok) = some t → t ≠ [] := fun t =>
    Search.searchPure_accepted (P := (· ≠ [])) fun _ _ => usableTrim_ne_nil
  have hscan : ∀ t, Search.scan (usableTrim text budget tok keep special)
      (trimSizes text tok) = some t → t ≠ [] := by
    intro t ht
    rcases Search.scan_cases (usableTrim text budget tok keep special) (trimSizes text tok) with
      ⟨hnone, -⟩ | ⟨target, -, htarget⟩
    · rw [hnone] at ht
      cases ht
    · exact usableTrim_ne_nil (htarget.symm.trans ht)
  rw [trimToolTextToBudget_eq hbudget hover, linearTrim, if_neg hover, getD_inj hsearch hscan,
    Search.searchPure_eq_scan_iff]
  refine forall_congr' fun target => forall_congr' fun hlong => or_congr ?_ ?_
  · refine forall_congr' fun m => forall_congr' fun _ => forall_congr' fun hm => ?_
    exact usableTrim_below hmono hlong.le hlong.accepted hm
  · obtain ⟨t, ht⟩ := Option.isSome_iff_exists.mp hlong.accepted
    have htrim := (usableTrim_eq_some.mp ht).1
    rw [SameTrimBelow, ht, htrim]

end

/-! ## Without a tokenizer -/

section

variable {text : Text} {keep : Keep} {special : Bool}

theorem fallbackCountTokens_words {words : List Text}
    (h : ∀ w ∈ words, w ≠ [] ∧ ∀ c ∈ w, isSpace c = false) :
    fallbackCountTokens (join [' '] words) special
      = if words.length ≠ 0 && special then words.length + 2 else words.length := by
  unfold fallbackCountTokens
  rcases words with _ | ⟨w, rest⟩
  · rfl
  · have hne : (join [' '] (w :: rest)).isEmpty = false := by
      rcases hempty : join [' '] (w :: rest) with _ | ⟨c, t⟩
      · have hwords := splitWords_join h
        rw [hempty] at hwords
        cases hwords
      · rfl
    rw [hne, splitWords_join h]
    rfl

/-- Every word of a text is one. -/
theorem splitWords_spec {t w : Text} (h : w ∈ splitWords t) : w ≠ [] ∧ ∀ c ∈ w, isSpace c = false :=
  ⟨(clean_of_mem_splitWords h).ne, fun _ hc => isSpace_of_mem_word h hc⟩

theorem countToolTokens_none (t : Text) :
    countToolTokens t none special = fallbackCountTokens t special := by
  rcases t with _ | ⟨c, rest⟩
  · rfl
  · rfl

theorem trimSizes_none : trimSizes text none = (splitWords (strip text)).length := by
  rw [trimSizes, countToolTokens_none, fallbackCountTokens]
  rcases strip text with _ | ⟨c, rest⟩
  · rfl
  · simp

/-- A text with something to trim is not empty. -/
theorem isEmpty_of_trimSizes {tok : Option HfTokenizer} (h : 0 < trimSizes text tok) :
    (strip text).isEmpty = false := by
  rcases hempty : strip text with _ | ⟨c, rest⟩
  · rw [trimSizes, hempty] at h
    exact absurd h (Nat.lt_irrefl 0)
  · rfl

/-- A trim to some of the words is those words, single spaces between them. -/
theorem trimAt_none {n : Nat} (hpos : n ≠ 0) (hn : n < trimSizes text none) :
    ∃ words : List Text, words.length = n ∧ (∀ w ∈ words, w ∈ splitWords (strip text))
      ∧ trimAt text none keep n = join [' '] words := by
  have hne := isEmpty_of_trimSizes (Nat.zero_lt_of_lt hn)
  rw [trimSizes_none] at hn
  cases keep with
  | start =>
      refine ⟨(splitWords (strip text)).take n, ?_, fun w hw => List.mem_of_mem_take hw, ?_⟩
      · rw [List.length_take]
        omega
      · unfold trimAt trimTextByTokenCount
        rw [if_neg (by simp [hpos, hne])]
        exact if_neg (by omega)
  | tail =>
      refine ⟨(splitWords (strip text)).drop ((splitWords (strip text)).length - n), ?_,
        fun w hw => List.mem_of_mem_drop hw, ?_⟩
      · rw [List.length_drop]
        omega
      · unfold trimAt trimTextByTokenCount
        rw [if_neg (by simp [hpos, hne])]
        exact if_neg (by omega)

/-- A trim to `n` words counts `n` words. -/
theorem count_trimAt_none {n : Nat} (hn : n ≤ trimSizes text none) :
    countToolTokens (trimAt text none keep n) none special
      = if n ≠ 0 && special then n + 2 else n := by
  rw [countToolTokens_none]
  by_cases hzero : n = 0
  · subst hzero
    rfl
  rcases Nat.lt_or_eq_of_le hn with hlt | heq
  · obtain ⟨words, hlen, hwords, htrim⟩ := @trimAt_none text keep n hzero hlt
    rw [htrim, fallbackCountTokens_words fun w hw => splitWords_spec (hwords w hw), hlen]
  · -- the whole text
    have hne := @isEmpty_of_trimSizes text none (by omega)
    have hsize := heq
    rw [trimSizes_none] at hsize
    have htrim : trimAt text none keep n = strip text := by
      unfold trimAt trimTextByTokenCount
      rw [if_neg (by simp [hzero, hne])]
      exact if_pos (by omega)
    rw [htrim, fallbackCountTokens, hne, ← hsize]
    rfl

theorem trimCountsMonotone_none : TrimCountsMonotone text none keep special := by
  intro m n hmn hn
  rw [count_trimAt_none hn, count_trimAt_none (Nat.le_trans hmn hn)]
  cases special
  · simpa using hmn
  · simp only [Bool.and_true, decide_not, Bool.not_eq_true', decide_eq_false_iff_not]
    split <;> split <;> omega

theorem trimAt_none_ne_nil {m : Nat} (hpos : 1 ≤ m) (hm : m ≤ trimSizes text none) :
    trimAt text none keep m ≠ [] := by
  intro hnil
  have hcount := @count_trimAt_none text keep false m hm
  rw [hnil] at hcount
  simp only [Bool.and_false, Bool.false_eq_true, if_false] at hcount
  have hzero : countToolTokens [] none false = 0 := rfl
  omega

/-- No text that is not blank fits a budget of no words. -/
theorem not_fits_none {budget : Int} (hbudget : budget ≤ 0) (hne : strip text ≠ []) :
    ¬ FitsBudget budget none special (strip text) := by
  intro hfits
  have hwords := splitWords_ne_nil (clean_strip hne)
  have hpos : 0 < (splitWords (strip text)).length := List.length_pos_iff.mpr hwords
  have hempty : (strip text).isEmpty = false := by simpa using hne
  unfold FitsBudget at hfits
  rw [countToolTokens_none, fallbackCountTokens, hempty] at hfits
  simp only [Bool.false_eq_true, if_false] at hfits
  split at hfits <;> omega

theorem usableTrim_none_nonpos {budget : Int} (hbudget : budget ≤ 0) {n : Nat} (hpos : 1 ≤ n)
    (hn : n ≤ trimSizes text none) : usableTrim text budget none keep special n = none := by
  refine if_neg fun h => ?_
  have hfits := h.2
  unfold FitsBudget at hfits
  rw [count_trimAt_none hn] at hfits
  split at hfits <;> omega

end

/-! ## The whole function -/

/-- Nothing that is not empty fits, neither the text nor a trim of it. -/
def NothingFits (text : Text) (budget : Int) (tok : Option HfTokenizer) (keep : Keep)
    (special : Bool) : Prop :=
  (strip text ≠ [] → ¬ FitsBudget budget tok special (strip text))
    ∧ ∀ n, 1 ≤ n → n ≤ trimSizes text tok → usableTrim text budget tok keep special n = none

/-- Where the bisection gives the answer of the scan. -/
def BisectionFinds (text : Text) (budget : Int) (tok : Option HfTokenizer) (keep : Keep)
    (special : Bool) : Prop :=
  (budget ≤ 0 ∧ NothingFits text budget tok keep special)
    ∨ 0 < budget ∧ (FitsBudget budget tok special (strip text)
        ∨ ∀ target, Search.IsLongest (usableTrim text budget tok keep special) (trimSizes text tok)
              target →
            NoEmptyTrimBelow text tok keep target
              ∨ SameTrimBelow text budget tok keep special target)

section

variable {text : Text} {budget : Int} {tok : Option HfTokenizer} {keep : Keep} {special : Bool}

/-- Nothing fits exactly when the scan gives nothing. -/
theorem linearTrim_eq_nil_iff :
    linearTrim text budget tok keep special = [] ↔ NothingFits text budget tok keep special := by
  have hblank : strip text = [] → trimSizes text tok = 0 := fun h => by rw [trimSizes, h]; rfl
  have hscan := Search.scan_cases (usableTrim text budget tok keep special) (trimSizes text tok)
  unfold linearTrim NothingFits
  constructor
  · intro hnil
    split at hnil
    · have hzero := hblank hnil
      exact ⟨fun hne => absurd hnil hne, fun n hpos hn => by omega⟩
    · rcases hscan with ⟨-, hall⟩ | ⟨target, hlong, htarget⟩
      · exact ⟨fun _ => ‹_›, hall⟩
      · obtain ⟨t, ht⟩ := Option.isSome_iff_exists.mp hlong.accepted
        rw [htarget, ht] at hnil
        exact absurd hnil (usableTrim_ne_nil ht)
  · intro h
    obtain ⟨hwhole, hall⟩ := h
    split
    · by_contra hne
      exact hwhole hne ‹_›
    · rcases hscan with ⟨hnone, -⟩ | ⟨target, hlong, -⟩
      · rw [hnone]
        rfl
      · have := hlong.accepted
        rw [hall target hlong.pos hlong.le] at this
        cases this

theorem trimToolTextToBudget_eq_linear_iff (hmono : TrimCountsMonotone text tok keep special) :
    trimToolTextToBudget text budget tok keep special = linearTrim text budget tok keep special
      ↔ BisectionFinds text budget tok keep special := by
  unfold BisectionFinds
  rcases Int.lt_or_le 0 budget with hbudget | hbudget
  · have hnot : ¬ budget ≤ 0 := by omega
    simp only [hbudget, hnot, true_and, false_and, false_or]
    by_cases hfits : FitsBudget budget tok special (strip text)
    · rw [trimToolTextToBudget_of_fits hbudget hfits, linearTrim, if_pos hfits]
      simp only [hfits, true_or]
    · rw [trimToolTextToBudget_search_iff hbudget hfits hmono]
      simp only [hfits, false_or]
  · have hnot : ¬ 0 < budget := by omega
    rw [trimToolTextToBudget_of_nonpos hbudget, eq_comm, linearTrim_eq_nil_iff]
    simp only [hbudget, hnot, true_and, false_and, or_false]

theorem bisectionFinds_none : BisectionFinds text budget none keep special := by
  rcases Int.lt_or_le 0 budget with hbudget | hbudget
  · refine Or.inr ⟨hbudget, Or.inr fun target hlong => Or.inl fun m hm hmt => ?_⟩
    have hpath := Search.mem_pathFrom hm
    exact trimAt_none_ne_nil hpath.1 hpath.2
  · exact Or.inl ⟨hbudget, not_fits_none hbudget, fun n hpos hn =>
      usableTrim_none_nonpos hbudget hpos hn⟩

end

/--
**What `trim_tool_text_to_budget` returns.** For every tokenizer or none, and all texts and
budgets, at either end and with either count:

* it is empty or within the budget, and the loop ends by itself;
* if the counts of the trims do not decrease, it is the answer of the scan exactly when
  the bisection finds that;
* without a tokenizer it is always the answer of the scan.
-/
theorem trimToolTextToBudget_scan (text : Text) (budget : Int) (tok : Option HfTokenizer)
    (keep : Keep) (special : Bool) :
    let clipped := trimToolTextToBudget text budget tok keep special
    let rounds := fun fuel => Search.bisect (ε := Empty)
      (fun mid => .ok (usableTrim text budget tok keep special mid)) fuel 1 (trimSizes text tok) none
    (clipped = [] ∨ FitsBudget budget tok special clipped)
      ∧ (∀ extra, rounds (trimSizes text tok + extra) = rounds (trimSizes text tok))
      ∧ (TrimCountsMonotone text tok keep special →
          (clipped = linearTrim text budget tok keep special
            ↔ BisectionFinds text budget tok keep special))
      ∧ (tok = none → clipped = linearTrim text budget tok keep special) := by
  intro clipped rounds
  refine ⟨?_, fun extra => Search.bisect_fuel (Nat.le_refl 1) (by omega) extra,
    trimToolTextToBudget_eq_linear_iff, ?_⟩
  · by_cases hne : clipped = []
    · exact Or.inl hne
    · refine Or.inr ?_
      have hspec : countToolTokens clipped tok special ≤ budget.toNat :=
        (trimToolTextToBudget_spec hne).2
      have hpos : 0 < budget := by
        by_contra hle
        exact hne (trimToolTextToBudget_of_nonpos (by omega))
      show (countToolTokens clipped tok special : Int) ≤ budget
      omega
  · intro heq
    obtain rfl := heq
    exact (trimToolTextToBudget_eq_linear_iff trimCountsMonotone_none).mpr bisectionFinds_none

theorem trimCountsMonotone_marked :
    TrimCountsMonotone "ab##".toList (some markTokenizer) .tail true := by
  intro m n hmn hn
  have hsize : trimSizes "ab##".toList (some markTokenizer) = 4 := by decide
  rw [hsize] at hn
  interval_cases n <;> interval_cases m <;> decide

/-- With the whole text within the budget, special tokens do no harm. -/
theorem trimToolTextToBudget_scan_whole :
    trimToolTextToBudget "ab##".toList 6 (some markTokenizer) .tail true
      = linearTrim "ab##".toList 6 (some markTokenizer) .tail true :=
  ((trimToolTextToBudget_scan "ab##".toList 6 (some markTokenizer) .tail true).2.2.1
    trimCountsMonotone_marked).mpr (Or.inr ⟨by decide, Or.inl (by decide)⟩)

/-- Two special tokens at the end: the trims to one and to two tokens are empty, the trim to
three is `b`, and nothing is returned. -/
theorem trimToolTextToBudget_lost :
    ¬ ∀ (text : Text) (budget : Int) (tok : Option HfTokenizer),
      TrimCountsMonotone text tok .tail true →
        trimToolTextToBudget text budget tok .tail true = linearTrim text budget tok .tail true := by
  intro h
  have hsame := h "ab##".toList 3 (some markTokenizer) trimCountsMonotone_marked
  exact absurd hsame (by decide)

end YapInference
