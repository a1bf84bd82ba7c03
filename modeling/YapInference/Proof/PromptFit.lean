import YapInference.Execution.Runner
import YapInference.Execution.PromptBudget

/-!
# What a fitted prompt is

`fit_chat_prompt_to_budget` builds the prompt over and over: once per history it tries, once per
length of the user text it tries. What it returns has to come from one and the same build. The
loops are therefore read backwards here: whatever a loop returns, there is a build that gave it.

What it raises is a `ValueError` of its own, or whatever the tokenizer's chat template raised;
the prompt builder handles only the two kinds that mean there is no template.
-/

namespace YapInference

open Py

/-- A fit that is consistent with itself and with what was to be fitted. -/
structure FittedPrompt (staticPrefix runtimeText : Text) (historyMessages : List ChatMessage)
    (chatUserUtt : Text) (chatTokenizer : HfTokenizer) (maxPromptTokens : Int)
    (fit : PromptFitResult) : Prop where
  /-- The prompt is that of the returned history and user text. -/
  prompt : buildChatPromptWithPrefix staticPrefix runtimeText fit.historyMessages fit.chatUserUtt
    chatTokenizer = .ok fit.prompt
  promptTokens : fit.promptTokens = (chatTokenizer.encodeIds fit.prompt).length
  fits : (fit.promptTokens : Int) ≤ maxPromptTokens
  /-- The history is the last of the turns, whole. -/
  history : ∃ k, fit.historyMessages
    = ((groupChatTurns (copyChatMessages historyMessages)).drop k).flatten
  /-- The user text is a start of what was given, stripped. -/
  user : ∃ n, fit.chatUserUtt = trimRawUser chatUserUtt n chatTokenizer

/-- What the fit may raise. -/
inductive FitRaises (chatTokenizer : HfTokenizer) : Exc → Prop where
  | valueError (message : Text) : FitRaises chatTokenizer (.valueError message)
  /-- The template raised it, and it does not mean that there is none. -/
  | template {e : Exc} (messages : List TemplateMessage)
      (h : chatTokenizer.applyChatTemplate messages true = .error e)
      (hruntime : ∀ message, e ≠ .runtimeError message)
      (hvalue : ∀ message, e ≠ .valueError message) : FitRaises chatTokenizer e

/-- The builder raises what the template raises, unless it falls back. -/
theorem buildPrompt_error {staticPrefix runtimeText : Text} {turns : List (List ChatMessage)}
    {chatUserUtt : Text} {tok : HfTokenizer} {e : Exc}
    (h : buildPrompt staticPrefix runtimeText turns chatUserUtt tok = .error e) :
    FitRaises tok e := by
  unfold buildPrompt buildChatPromptWithPrefix applyChatTemplate at h
  split at h
  · cases h
  · rename_i raised hraised
    split at hraised
    · cases hraised
    · cases hraised
    · cases hraised
    · rename_i hnotRuntime hnotValue htemplate
      cases h
      cases hraised
      exact .template _ htemplate hnotRuntime hnotValue

/-- What it builds is counted as it stands. -/
theorem buildPrompt_ok {staticPrefix runtimeText : Text} {turns : List (List ChatMessage)}
    {chatUserUtt : Text} {tok : HfTokenizer} {prompt : Text} {promptTokens : Nat}
    (h : buildPrompt staticPrefix runtimeText turns chatUserUtt tok = .ok (prompt, promptTokens)) :
    buildChatPromptWithPrefix staticPrefix runtimeText (flattenChatTurns turns) chatUserUtt tok
        = .ok prompt
      ∧ promptTokens = (tok.encodeIds prompt).length := by
  unfold buildPrompt at h
  split at h
  · rename_i hbuilt
    cases h
    exact ⟨hbuilt, rfl⟩
  · cases h

theorem checkPromptTokens_ok {cfg : ServerConfig} {tok : HfTokenizer} {prompt : Text}
    {promptTokenCount : Option Nat}
    (h : promptTokenCount.getD (tok.encodeIds prompt).length ≤ cfg.chatMaxLen) :
    checkPromptTokens cfg tok prompt promptTokenCount = .ok () := by
  unfold checkPromptTokens
  exact if_neg (Nat.not_lt.mpr h)

/-- What the loop over the history keeps is the last turns, or the builder raised. -/
theorem dropTurnsToFit_spec (staticPrefix runtimeText maxCandidate : Text) (tok : HfTokenizer)
    (maxPromptTokens : Int) (turns : List (List ChatMessage)) :
    match dropTurnsToFit staticPrefix runtimeText maxCandidate tok maxPromptTokens turns with
    | .ok kept => ∃ k, kept = turns.drop k
    | .error e => FitRaises tok e := by
  induction turns with
  | nil =>
      unfold dropTurnsToFit
      cases hbuild : buildPrompt staticPrefix runtimeText [] maxCandidate tok with
      | ok built => exact ⟨0, rfl⟩
      | error e => exact buildPrompt_error hbuild
  | cons turn rest ih =>
      unfold dropTurnsToFit
      cases hbuild : buildPrompt staticPrefix runtimeText (turn :: rest) maxCandidate tok with
      | error e => exact buildPrompt_error hbuild
      | ok built =>
          dsimp only
          split
          · rename_i hover
            split at hover
            · -- this turn is dropped
              rw [hover] at ih
              obtain ⟨k, hk⟩ := ih
              exact ⟨k + 1, by simpa using hk⟩
            · cases hover
              exact ⟨0, rfl⟩
          · rename_i hover
            split at hover
            · rw [hover] at ih
              exact ih
            · cases hover

/-- What the search over the user text returns is one build, and the search accepted it. -/
theorem fitUserFromRaw_spec (staticPrefix runtimeText : Text) (turns : List (List ChatMessage))
    (utt : Text) (tok : HfTokenizer) (maxPromptTokens : Int) (maxUserTokens : Option Int) :
    match fitUserFromRaw staticPrefix runtimeText turns utt tok maxPromptTokens maxUserTokens with
    | .ok (user, prompt, promptTokens) =>
        buildPrompt staticPrefix runtimeText turns user tok = .ok (prompt, promptTokens)
          ∧ ∃ n, user = trimRawUser utt n tok
    | .error e => FitRaises tok e := by
  unfold fitUserFromRaw
  dsimp only
  by_cases hblank : strip utt = []
  · -- a blank text stays empty
    rw [if_pos (by simp [hblank])]
    cases hbuild : buildPrompt staticPrefix runtimeText turns [] tok with
    | ok built => exact ⟨hbuild, 0, by simp [trimRawUser]⟩
    | error e => exact buildPrompt_error hbuild
  · rw [if_neg (by simp [hblank])]
    generalize hsearch : Search.search _ _ = found
    match found with
    | .ok (some best) =>
        refine Search.search_accepted (P := fun best =>
          buildPrompt staticPrefix runtimeText turns best.1 tok = .ok best.2
            ∧ ∃ n, best.1 = trimRawUser utt n tok) ?_ hsearch
        intro mid best hprobe
        split at hprobe
        · rename_i hbuild
          injection hprobe with hprobe
          split at hprobe
          · injection hprobe with hprobe
            subst hprobe
            exact ⟨hbuild, mid, by simp [trimRawUser]⟩
          · cases hprobe
        · cases hprobe
    | .ok none => exact .valueError _
    | .error e =>
        obtain ⟨mid, hmid⟩ := Search.bisect_error hsearch
        split at hmid
        · cases hmid
        · rename_i hbuild
          cases hmid
          exact buildPrompt_error hbuild

/-- With the count it came with or with a new one, it passes the check before the engine. -/
theorem FittedPrompt.check {staticPrefix runtimeText : Text} {historyMessages : List ChatMessage}
    {chatUserUtt : Text} {chatTokenizer : HfTokenizer} {maxPromptTokens : Int}
    {fit : PromptFitResult} {cfg : ServerConfig}
    (h : FittedPrompt staticPrefix runtimeText historyMessages chatUserUtt chatTokenizer
      maxPromptTokens fit) (hlimit : maxPromptTokens ≤ cfg.chatMaxLen) :
    checkPromptTokens cfg chatTokenizer fit.prompt (some fit.promptTokens) = .ok ()
      ∧ checkPromptTokens cfg chatTokenizer fit.prompt none = .ok () := by
  have hfits : fit.promptTokens ≤ cfg.chatMaxLen := by
    have := h.fits.trans hlimit
    omega
  exact ⟨checkPromptTokens_ok hfits, checkPromptTokens_ok (h.promptTokens ▸ hfits)⟩

/-- The fit returns a prompt that is fitted, or it raises. -/
theorem fitChatPromptToBudget_cases (staticPrefix runtimeText : Text)
    (historyMessages : List ChatMessage) (chatUserUtt : Text) (chatTokenizer : HfTokenizer)
    (maxPromptTokens : Int) (maxUserTokens : Option Int) :
    match fitChatPromptToBudget staticPrefix runtimeText historyMessages chatUserUtt chatTokenizer
      maxPromptTokens maxUserTokens with
    | .ok fit => FittedPrompt staticPrefix runtimeText historyMessages chatUserUtt chatTokenizer
        maxPromptTokens fit
    | .error e => FitRaises chatTokenizer e := by
  unfold fitChatPromptToBudget
  dsimp only
  have hdrop := dropTurnsToFit_spec staticPrefix runtimeText
    (maxCandidateUser chatUserUtt chatTokenizer maxUserTokens) chatTokenizer maxPromptTokens
    (groupChatTurns (copyChatMessages historyMessages))
  revert hdrop
  generalize dropTurnsToFit staticPrefix runtimeText _ chatTokenizer maxPromptTokens _ = kept
  cases kept with
  | error e => exact id
  | ok turns =>
      intro h
      obtain ⟨k, rfl⟩ := h
      have hfit := fitUserFromRaw_spec staticPrefix runtimeText
        ((groupChatTurns (copyChatMessages historyMessages)).drop k) chatUserUtt chatTokenizer
        maxPromptTokens maxUserTokens
      revert hfit
      dsimp only
      generalize fitUserFromRaw staticPrefix runtimeText _ chatUserUtt chatTokenizer
        maxPromptTokens maxUserTokens = fitted
      cases fitted with
      | error e => exact id
      | ok fitted =>
          obtain ⟨user, prompt, promptTokens⟩ := fitted
          intro h
          obtain ⟨hbuild, huser⟩ := h
          obtain ⟨hprompt, htokens⟩ := buildPrompt_ok hbuild
          by_cases hover : (promptTokens : Int) > maxPromptTokens
          · simp only [hover, if_true]
            exact .valueError _
          · simp only [hover, if_false]
            exact ⟨hprompt, htokens, not_lt.mp hover, ⟨k, flattenChatTurns_drop _ k⟩, huser⟩

theorem fittedPrompt_of_fit {staticPrefix runtimeText : Text} {historyMessages : List ChatMessage}
    {chatUserUtt : Text} {chatTokenizer : HfTokenizer} {maxPromptTokens : Int}
    {maxUserTokens : Option Int} {fit : PromptFitResult}
    (h : fitChatPromptToBudget staticPrefix runtimeText historyMessages chatUserUtt chatTokenizer
      maxPromptTokens maxUserTokens = .ok fit) :
    FittedPrompt staticPrefix runtimeText historyMessages chatUserUtt chatTokenizer maxPromptTokens
      fit := by
  have hcases := fitChatPromptToBudget_cases staticPrefix runtimeText historyMessages chatUserUtt
    chatTokenizer maxPromptTokens maxUserTokens
  rwa [h] at hcases

/--
**Whatever is fitted is consistent, and whatever else happens is a refusal.** For every template,
tokenizer, history, user text and pair of limits the fit either returns a prompt that is that of
the history and the user text returned with it, counted, and within the limit, or raises a
`ValueError`, or passes on what the template raised. What it returns for a limit of at most
`CHAT_MAX_LEN` passes the check before the engine call, with its own count and with a new one.
-/
theorem fitChatPromptToBudget_spec (cfg : ServerConfig) (staticPrefix runtimeText : Text)
    (historyMessages : List ChatMessage) (chatUserUtt : Text) (chatTokenizer : HfTokenizer)
    (maxPromptTokens : Int) (maxUserTokens : Option Int) :
    match fitChatPromptToBudget staticPrefix runtimeText historyMessages chatUserUtt chatTokenizer
      maxPromptTokens maxUserTokens with
    | .ok fit =>
        FittedPrompt staticPrefix runtimeText historyMessages chatUserUtt chatTokenizer
            maxPromptTokens fit
          ∧ (maxPromptTokens ≤ cfg.chatMaxLen →
            checkPromptTokens cfg chatTokenizer fit.prompt (some fit.promptTokens) = .ok ()
              ∧ checkPromptTokens cfg chatTokenizer fit.prompt none = .ok ())
    | .error e => FitRaises chatTokenizer e := by
  have hcases := fitChatPromptToBudget_cases staticPrefix runtimeText historyMessages chatUserUtt
    chatTokenizer maxPromptTokens maxUserTokens
  revert hcases
  generalize fitChatPromptToBudget staticPrefix runtimeText historyMessages chatUserUtt
    chatTokenizer maxPromptTokens maxUserTokens = fitted
  cases fitted with
  | error e => exact id
  | ok fit => exact fun hfit => ⟨hfit, hfit.check⟩

/-- The turn in the history goes, and the user text is kept whole. -/
theorem fitChatPromptToBudget_spec_fits :
    let hello : List ChatMessage := [{ role := .user, content := "a".toList },
      { role := .assistant, content := "b".toList }]
    let prompt := "<|im_start|>user\nhi\n<|im_end|>\n<|im_start|>assistant".toList
    fitChatPromptToBudget [] [] hello "hi".toList charTokenizer 52 none
        = .ok ⟨[], "hi".toList, prompt, 52⟩
      ∧ checkPromptTokens .shipped charTokenizer prompt none = .ok () := by
  intro hello prompt
  have hfit : fitChatPromptToBudget [] [] hello "hi".toList charTokenizer 52 none
      = .ok ⟨[], "hi".toList, prompt, 52⟩ := by decide +kernel
  refine ⟨hfit, ?_⟩
  -- nothing of the tokenizer is needed from here on
  generalize charTokenizer = tok at hfit ⊢
  have h := fitChatPromptToBudget_spec .shipped [] [] hello "hi".toList tok 52 none
  rw [hfit] at h
  exact (h.2 (by decide)).2

/-- A template that refuses what it is given, as templates do that demand alternating roles. -/
def refusingTokenizer : HfTokenizer :=
  { charTokenizer with
    applyChatTemplate := fun _ _ => .error (.other "jinja2.exceptions.TemplateError".toList) }

/-- Its refusal is neither handled nor a `ValueError`. -/
theorem fitChatPromptToBudget_refused :
    let fitted := fitChatPromptToBudget [] [] [] "hi".toList refusingTokenizer 100 none
    (∀ fit, fitted ≠ .ok fit) ∧ ∀ message, fitted ≠ .error (.valueError message) := by
  have hraised : fitChatPromptToBudget [] [] [] "hi".toList refusingTokenizer 100 none
      = .error (.other "jinja2.exceptions.TemplateError".toList) := rfl
  dsimp only
  rw [hraised]
  exact ⟨by simp, by simp⟩

end YapInference
