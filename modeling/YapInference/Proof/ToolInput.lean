import YapInference.Execution.PromptBudget
import YapInference.Tool.Adapter

/-!
# What is counted is what is classified

The fitter counts a text that it joins itself; the adapter joins another one from what the fitter
returned, and the backend cuts that down to its maximum length. The loops of the fitter are read
backwards: whatever they return was counted in that form.
-/

namespace YapInference

open Py

/-- The two joiners agree. -/
theorem formatInput_join (historyLines : List Text) (toolUserUtt : Text) :
    formatInput toolUserUtt (join ['\n'] historyLines) = joinToolInput historyLines toolUserUtt :=
  rfl

/-- The loop over the history keeps the last lines, and all of them go before it gives up. -/
theorem dropLinesToFit_spec (rawUser : Text) (tok : Option HfTokenizer) (maxInputTokens : Int)
    (lines : List Text) :
    let kept := dropLinesToFit rawUser tok maxInputTokens lines
    kept <:+ lines ∧ (kept = [] ∨ (countInputTokens kept rawUser tok : Int) ≤ maxInputTokens) := by
  fun_induction dropLinesToFit rawUser tok maxInputTokens lines with
  | case1 => exact ⟨List.suffix_rfl, Or.inl rfl⟩
  | case2 line rest _ ih => exact ⟨ih.1.trans (List.suffix_cons line rest), ih.2⟩
  | case3 line rest hunder => exact ⟨List.suffix_rfl, Or.inr (not_lt.mp hunder)⟩

/-- What the search over the user text returns was counted with the lines that were left. -/
theorem fitCurrentUserToBudget_spec {utt : Text} {lines : List Text} {tok : Option HfTokenizer}
    {maxInputTokens : Int} {user : Text} {inputTokens : Nat}
    (h : fitCurrentUserToBudget utt lines tok maxInputTokens = .ok (user, inputTokens)) :
    inputTokens = countInputTokens lines user tok ∧ ∃ n, user = trimToolUser utt n tok := by
  unfold fitCurrentUserToBudget at h
  dsimp only at h
  split at h
  · rename_i hblank
    cases h
    exact ⟨rfl, 0, by simp [trimToolUser]⟩
  · split at h
    · rename_i best hsearch
      injection h with h
      subst h
      refine Search.searchPure_accepted (P := fun best : Text × Nat =>
        best.2 = countInputTokens lines best.1 tok ∧ ∃ n, best.1 = trimToolUser utt n tok) ?_ hsearch
      intro mid best hprobe
      split at hprobe
      · injection hprobe with hprobe
        subst hprobe
        exact ⟨rfl, mid, by simp [trimToolUser]⟩
      · cases hprobe
    · cases h

/-- How the fit came by what it returns. -/
theorem fitToolInputToBudget_counted {priorUserTexts : List Text} {toolUserUtt : Text}
    {toolTokenizer : Option HfTokenizer} {maxInputTokens : Int} {fit : ToolFitResult}
    (h : fitToolInputToBudget priorUserTexts toolUserUtt toolTokenizer maxInputTokens = .ok fit) :
    ∃ lines, lines <:+ normalizeUserTexts priorUserTexts
      ∧ fit.toolUserHistory = join ['\n'] lines
      ∧ fit.inputTokens = countInputTokens lines fit.toolUserUtt toolTokenizer
      ∧ (fit.inputTokens : Int) ≤ maxInputTokens
      ∧ (fit.toolUserUtt = strip toolUserUtt
        ∨ lines = [] ∧ ∃ n, fit.toolUserUtt = trimToolUser (strip toolUserUtt) n toolTokenizer) := by
  unfold fitToolInputToBudget at h
  split at h
  · cases h
  · dsimp only at h
    have hkept := dropLinesToFit_spec (strip toolUserUtt) toolTokenizer maxInputTokens
      (normalizeUserTexts priorUserTexts)
    revert h hkept
    generalize dropLinesToFit (strip toolUserUtt) toolTokenizer maxInputTokens
      (normalizeUserTexts priorUserTexts) = lines
    intro h h'
    obtain ⟨hsuffix, hdropped⟩ := h'
    split at h
    · cases h
    · rename_i user inputTokens hfitted
      split at h
      · cases h
      · rename_i hunder
        cases h
        refine ⟨lines, hsuffix, rfl, ?_, not_lt.mp hunder, ?_⟩
        · split at hfitted
          · exact (fitCurrentUserToBudget_spec hfitted).1
          · cases hfitted
            rfl
        · split at hfitted
          · -- over the limit, so the loop went on to the end
            rename_i hover
            have hnil : lines = [] := hdropped.resolve_right (not_le.mpr hover)
            exact Or.inr ⟨hnil, (fitCurrentUserToBudget_spec hfitted).2⟩
          · cases hfitted
            exact Or.inl rfl

/-- A text whose count, special tokens included, fits is not cut by the backend. -/
theorem inputIds_of_fits {backend : TorchToolBackend} {text : Text}
    (h : (countToolTokens text (some backend.tokenizer) true : Int) ≤ backend.maxLength) :
    backend.inputIds text = backend.tokenizer.encodeIds text := by
  rw [TorchToolBackend.inputIds, backend.truncated_left]
  by_cases hempty : text = []
  · simp [hempty, HfTokenizer.encodeIds]
  · have hcount : countToolTokens text (some backend.tokenizer) true
        = (backend.tokenizer.encode text true).length := by
      simp [countToolTokens, HfTokenizer.count, hempty]
    rw [hcount] at h
    rw [show ((backend.tokenizer.encode text true).length - backend.maxLength).toNat = 0 by omega,
      List.drop_zero]

/--
**What is counted is what is classified.** For every tokenizer or none, and all texts and limits:
when the fit returns, the text the adapter formats from it

* is the text that was counted: the kept lines and the user text, joined;
* has `input_tokens` tokens, special tokens included, and no more than the limit;
* is shown to the model whole, by a backend with that tokenizer and that maximum length.

The lines are the last of the prior texts, blank ones aside, and the user text is shortened only
when there are none.
-/
theorem fitToolInputToBudget_spec {priorUserTexts : List Text} {toolUserUtt : Text}
    {toolTokenizer : Option HfTokenizer} {maxInputTokens : Int} {fit : ToolFitResult}
    (h : fitToolInputToBudget priorUserTexts toolUserUtt toolTokenizer maxInputTokens = .ok fit) :
    let text := formatInput fit.toolUserUtt fit.toolUserHistory
    (∃ lines, lines <:+ normalizeUserTexts priorUserTexts
        ∧ fit.toolUserHistory = join ['\n'] lines
        ∧ text = joinToolInput lines fit.toolUserUtt
        ∧ (fit.toolUserUtt ≠ strip toolUserUtt → lines = []
          ∧ ∃ n, fit.toolUserUtt = trimToolUser toolUserUtt n toolTokenizer))
      ∧ countToolTokens text toolTokenizer true = fit.inputTokens
      ∧ (fit.inputTokens : Int) ≤ maxInputTokens
      ∧ ∀ backend : TorchToolBackend, toolTokenizer = some backend.tokenizer →
          backend.maxLength = maxInputTokens →
          backend.inputIds text = backend.tokenizer.encodeIds text := by
  obtain ⟨lines, hsuffix, hhistory, hcount, hfits, huser⟩ := fitToolInputToBudget_counted h
  have htext : formatInput fit.toolUserUtt fit.toolUserHistory
      = joinToolInput lines fit.toolUserUtt := by
    rw [hhistory, formatInput_join]
  have htokens : countToolTokens (formatInput fit.toolUserUtt fit.toolUserHistory) toolTokenizer true
      = fit.inputTokens := by
    rw [htext, hcount]
    rfl
  refine ⟨⟨lines, hsuffix, hhistory, htext, fun hcut => ?_⟩, htokens, hfits, ?_⟩
  · obtain ⟨hnil, n, hn⟩ := huser.resolve_left hcut
    exact ⟨hnil, n, by rw [hn]; simp [trimToolUser]⟩
  · intro backend heq hlength
    obtain rfl := heq
    exact inputIds_of_fits (by rw [htokens, hlength]; exact hfits)

/-- A backend that takes six characters. -/
def charBackend : TorchToolBackend where
  tokenizer := charTokenizer
  maxLength := 6
  truncated := fun text n => (text.map Char.toNat).drop (text.length - n).toNat
  truncated_left := by
    intro text n
    cases text <;> simp [charTokenizer, HfTokenizer.encodeIds]

/-- Too much for it: the history goes, and the words are cut at the front. -/
theorem fitToolInputToBudget_spec_cut :
    let text := formatInput "er now".toList []
    countToolTokens text (some charTokenizer) true = 6
      ∧ charBackend.inputIds text = charTokenizer.encodeIds text := by
  have hfit : fitToolInputToBudget ["hello".toList] "look over now".toList (some charTokenizer) 6
      = .ok ⟨[], "er now".toList, 6⟩ := by decide
  have h := fitToolInputToBudget_spec hfit
  exact ⟨h.2.1, h.2.2.2 charBackend rfl rfl⟩

end YapInference
