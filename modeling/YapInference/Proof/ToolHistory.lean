import YapInference.History.Controller

/-!
# The tool-history transcript

`build_tool_history` walks the texts from the newest to the oldest and keeps a text
while the join of everything kept still fits. Nothing relates the counts of two joins,
so the first one that does not fit ends the walk, whatever the longer ones would count:
what is kept is the longest suffix that fits together with every shorter one.
-/

namespace YapInference

open Py

/-- The stripped texts that are not blank, oldest first. -/
def nonBlankTexts (userTexts : List Text) : List Text :=
  (userTexts.map strip).filter fun text => !text.isEmpty

/-- Do these lines, joined, fit the budget? -/
def LinesFit (budget : Nat) (tok : Option HfTokenizer) (texts : List Text) : Prop :=
  countToolTokens (join ['\n'] texts) tok true ≤ budget

/-- Every non-empty suffix of the lines from the `k`-th on fits. -/
def SuffixesFit (budget : Nat) (tok : Option HfTokenizer) (texts : List Text) (k : Nat) : Prop :=
  ∀ j, k ≤ j → j < texts.length → LinesFit budget tok (texts.drop j)

/-- The end-clipped form of a text, as the lines that are joined: none when it is empty. -/
def clippedLines (budget : Nat) (tok : Option HfTokenizer) (text : Text) : List Text :=
  let clipped := trimToolTextToBudget text budget tok .tail true
  if clipped.isEmpty then [] else [clipped]

section Walk

variable {budget : Nat} {tok : Option HfTokenizer}

theorem nonBlankTexts_append (a b : List Text) :
    nonBlankTexts (a ++ b) = nonBlankTexts a ++ nonBlankTexts b := by
  simp [nonBlankTexts]

theorem nonBlankTexts_blank {text : Text} (h : (strip text).isEmpty = true) :
    nonBlankTexts [text] = [] := by
  simp [nonBlankTexts, h]

theorem nonBlankTexts_single {text : Text} (h : ¬(strip text).isEmpty = true) :
    nonBlankTexts [text] = [strip text] := by
  simp [nonBlankTexts, h]

/-- **What the walk selects.** With `older` still to be looked at and `selected` kept, the
result is the longest suffix of both that fits with all its suffixes down to `selected`.
The exception is a newest text that does not fit on its own, which is clipped. -/
theorem selectToolLines_cases (budget : Nat) (tok : Option HfTokenizer)
    (older selected : List Text) :
    let before := nonBlankTexts older.reverse
    let all := before ++ selected
    let kept := selectToolLines budget tok .trimLatestTail older selected
    (∃ k, kept = all.drop k ∧ k ≤ before.length
        ∧ (selected = [] → before ≠ [] → k < before.length)
        ∧ (∀ j, k ≤ j → j < before.length → LinesFit budget tok (all.drop j))
        ∧ (k = 0 ∨ ¬ LinesFit budget tok (all.drop (k - 1))))
      ∨ selected = [] ∧ ∃ newest, before.getLast? = some newest
          ∧ ¬ LinesFit budget tok [newest] ∧ kept = clippedLines budget tok newest := by
  induction older generalizing selected with
  | nil =>
      refine Or.inl ⟨0, rfl, Nat.le_refl _, fun _ h => absurd rfl h, ?_, Or.inl rfl⟩
      intro j _ hj
      exact absurd hj (Nat.not_lt_zero j)
  | cons text older ih =>
      intro before all kept
      have hbefore : before = nonBlankTexts older.reverse ++ nonBlankTexts [text] := by
        simp only [before, List.reverse_cons, nonBlankTexts_append]
      by_cases hblank : (strip text).isEmpty = true
      · -- a blank text is passed over
        have hsame : before = nonBlankTexts older.reverse := by
          rw [hbefore, nonBlankTexts_blank hblank, List.append_nil]
        have hkept : kept = selectToolLines budget tok .trimLatestTail older selected := by
          simp only [kept, selectToolLines, hblank, if_true]
        simp only [all, hsame, hkept]
        exact ih selected
      have hsnoc : before = nonBlankTexts older.reverse ++ [strip text] := by
        rw [hbefore, nonBlankTexts_single hblank]
      have hlen : before.length = (nonBlankTexts older.reverse).length + 1 := by simp [hsnoc]
      have hall : all = nonBlankTexts older.reverse ++ (strip text :: selected) := by
        simp [all, hsnoc]
      have hat : all.drop (nonBlankTexts older.reverse).length = strip text :: selected := by
        rw [hall, List.drop_left]
      by_cases hfits : LinesFit budget tok (strip text :: selected)
      · -- it is kept, and the walk goes on
        have hkept : kept
            = selectToolLines budget tok .trimLatestTail older (strip text :: selected) := by
          simp only [kept, selectToolLines, hblank]
          exact if_pos hfits
        rcases ih (strip text :: selected) with ⟨k, hk, hle, -, hbelow, hmax⟩ | ⟨hnil, -⟩
        · rw [← hall] at hk hbelow hmax
          refine Or.inl ⟨k, hkept.trans hk, by omega, fun _ _ => by omega, ?_, hmax⟩
          intro j hkj hj
          rcases Nat.lt_or_ge j (nonBlankTexts older.reverse).length with hlt | hge
          · exact hbelow j hkj hlt
          · rw [show j = (nonBlankTexts older.reverse).length by omega, hat]
            exact hfits
        · exact absurd hnil (by simp)
      · by_cases hsel : selected = []
        · -- the newest text of all does not fit
          refine Or.inr ⟨hsel, strip text, by simp [hsnoc], by rwa [hsel] at hfits, ?_⟩
          subst hsel
          simp only [kept, selectToolLines, hblank, clippedLines]
          rw [if_neg (by simp)]
          exact (if_neg hfits).trans (if_pos rfl)
        · -- the walk ends here
          have hkept : kept = selected := by
            simp only [kept, selectToolLines, hblank]
            rw [if_neg (by simp), if_neg (by exact hfits),
              if_neg (by simpa using hsel)]
          refine Or.inl ⟨before.length, ?_, Nat.le_refl _, fun h => absurd h hsel, ?_, Or.inr ?_⟩
          · rw [hkept]
            simp only [all, List.drop_left]
          · intro j hkj hj
            omega
          · rw [hlen, Nat.add_sub_cancel, hat]
            exact hfits

/-- The longest suffix that fits with all its suffixes: nothing starts earlier. -/
theorem suffixesFit_longest {texts : List Text} {k : Nat}
    (hmax : k = 0 ∨ ¬ LinesFit budget tok (texts.drop (k - 1))) (hk : k ≤ texts.length)
    {k' : Nat} (h : SuffixesFit budget tok texts k') : k ≤ k' := by
  rcases hmax with rfl | hmax
  · exact Nat.zero_le k'
  · by_contra hlt
    exact hmax (h (k - 1) (by omega) (by omega))

theorem countToolTokens_clippedLines (text : Text) :
    countToolTokens (join ['\n'] (clippedLines budget tok text)) tok true ≤ budget := by
  unfold clippedLines
  dsimp only
  split
  · exact Nat.zero_le _
  · rename_i hne
    have hspec := @trimToolTextToBudget_spec text budget tok .tail true (by simpa using hne)
    simpa [join] using hspec.2

end Walk

/-- **`build_tool_history` keeps the longest suffix of the non-blank texts that fits together
with all its own suffixes**; only when the newest text alone does not fit is the result
that text, clipped at its start. Either way it fits the budget. -/
theorem buildToolHistory_cases (userTexts : List Text) (budget : Int) (tok : Option HfTokenizer) :
    let texts := nonBlankTexts userTexts
    let limit := (max 1 budget).toNat
    let text := buildToolHistory userTexts budget tok .trimLatestTail
    countToolTokens text tok true ≤ limit
      ∧ ((∃ k, text = join ['\n'] (texts.drop k) ∧ (texts ≠ [] → k < texts.length)
            ∧ SuffixesFit limit tok texts k
            ∧ ∀ k', SuffixesFit limit tok texts k' → k ≤ k')
          ∨ ∃ newest, texts.getLast? = some newest ∧ ¬ LinesFit limit tok [newest]
              ∧ text = trimToolTextToBudget newest limit tok .tail true) := by
  intro texts limit text
  have hcases := selectToolLines_cases limit tok userTexts.reverse []
  simp only [List.reverse_reverse, List.append_nil, true_and] at hcases
  rcases hcases with ⟨k, hkept, hle, hlt, hfit, hmax⟩ | ⟨newest, hlast, hover, hclip⟩
  · have htext : text = join ['\n'] (texts.drop k) := congrArg (join ['\n']) hkept
    refine ⟨?_, Or.inl ⟨k, htext, hlt trivial, hfit, fun k' => suffixesFit_longest hmax hle⟩⟩
    rw [htext]
    by_cases hnil : texts = []
    · simp [hnil, join, countToolTokens]
    · exact hfit k (Nat.le_refl k) (hlt trivial hnil)
  · have htext : text = join ['\n'] (clippedLines limit tok newest) :=
      congrArg (join ['\n']) hclip
    refine ⟨htext ▸ countToolTokens_clippedLines newest, Or.inr ⟨newest, hlast, hover, ?_⟩⟩
    rw [htext, clippedLines]
    split
    · rename_i hempty
      rw [List.isEmpty_iff.mp hempty]
      rfl
    · simp [join]

/-- What the tool model is given fits the limit it asks for. -/
theorem getToolHistoryText_fits (h : HistoryController) (state : SessionState) (limit : Int) :
    countToolTokens (h.getToolHistoryText state (some limit)).2 h.toolTokenizer true
      ≤ (max 1 limit).toNat := by
  unfold HistoryController.getToolHistoryText
  dsimp only
  split
  · split
    · exact Nat.zero_le _
    · have hbuilt := (buildToolHistory_cases (getUserTexts (HistoryController.toolTurns
        (h.syncModeStorage state))) (max 1 limit) h.toolTokenizer).1
      rwa [show max 1 (max 1 limit) = max 1 limit by omega] at hbuilt
  · rename_i hdeploy
    rw [renderToolHistoryText, if_pos (by simpa using hdeploy)]
    exact Nat.zero_le _

end YapInference
