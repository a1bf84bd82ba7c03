import YapInference.Execution.Template
import YapInference.History.Turns

/-!
# Exact budgets for chat prompts and tool input

`src/execution/chat/prompt_budget.py` and `src/execution/tool/prompt_budget.py`. A
chat prompt drops whole oldest turns first, then bisects for the longest user text
that still fits, keeping its start. Tool input drops oldest lines first, then
bisects keeping the end.
-/

namespace YapInference

open Py

/-! ## Chat prompts -/

/-- `PromptFitResult`. -/
structure PromptFitResult where
  historyMessages : List ChatMessage
  chatUserUtt : Text
  prompt : Text
  promptTokens : Nat
  deriving DecidableEq

/-- `_build_prompt`. -/
def buildPrompt (staticPrefix runtimeText : Text) (historyTurns : List (List ChatMessage))
    (chatUserUtt : Text) (chatTokenizer : HfTokenizer) : Except Exc (Text × Nat) :=
  match buildChatPromptWithPrefix staticPrefix runtimeText (flattenChatTurns historyTurns)
      chatUserUtt chatTokenizer with
  | .ok prompt => .ok (prompt, (chatTokenizer.encodeIds prompt).length)
  | .error e => .error e

/-- `_trim_raw_user`. -/
def trimRawUser (rawChatUserUtt : Text) (remainingTokens : Nat) (chatTokenizer : HfTokenizer) :
    Text :=
  let candidate := strip rawChatUserUtt
  if remainingTokens = 0 || candidate.isEmpty then []
  else strip (chatTokenizer.trim candidate remainingTokens .start)

/-- The cap both candidate helpers compute. -/
def cappedUserTokens (candidate : Text) (chatTokenizer : HfTokenizer)
    (maxUserTokens : Option Int) : Nat :=
  let tokenCount := (chatTokenizer.encodeIds candidate).length
  match maxUserTokens with
  | none => tokenCount
  | some m => min tokenCount (max 1 m).toNat

/-- `_max_candidate_user`. -/
def maxCandidateUser (rawChatUserUtt : Text) (chatTokenizer : HfTokenizer)
    (maxUserTokens : Option Int) : Text :=
  let candidate := strip rawChatUserUtt
  if candidate.isEmpty then []
  else trimRawUser candidate (cappedUserTokens candidate chatTokenizer maxUserTokens) chatTokenizer

/-- `_fit_user_from_raw`. -/
def fitUserFromRaw (staticPrefix runtimeText : Text) (historyTurns : List (List ChatMessage))
    (rawChatUserUtt : Text) (chatTokenizer : HfTokenizer) (maxPromptTokens : Int)
    (maxUserTokens : Option Int) : Except Exc (Text × Text × Nat) :=
  let candidate := strip rawChatUserUtt
  if candidate.isEmpty then
    match buildPrompt staticPrefix runtimeText historyTurns [] chatTokenizer with
    | .ok (prompt, promptTokens) => .ok ([], prompt, promptTokens)
    | .error e => .error e
  else
    let probe := fun remaining =>
      let trimmed := trimRawUser candidate remaining chatTokenizer
      match buildPrompt staticPrefix runtimeText historyTurns trimmed chatTokenizer with
      | .ok (prompt, promptTokens) =>
          .ok (if promptTokens ≤ maxPromptTokens then some (trimmed, prompt, promptTokens) else none)
      | .error e => .error e
    match Search.search probe (cappedUserTokens candidate chatTokenizer maxUserTokens) with
    | .ok (some bestFit) => .ok bestFit
    | .ok none => .error (.valueError
        "prompt exceeds exact context budget even after removing all history and trimming the user turn".toList)
    | .error e => .error e

/-- The loop of `fit_chat_prompt_to_budget` that drops oldest turns while the prompt
is too large. -/
def dropTurnsToFit (staticPrefix runtimeText : Text) (maxCandidate : Text)
    (chatTokenizer : HfTokenizer) (maxPromptTokens : Int) :
    List (List ChatMessage) → Except Exc (List (List ChatMessage))
  | [] =>
      -- nothing is left to drop; the user text is what remains to be shortened
      match buildPrompt staticPrefix runtimeText [] maxCandidate chatTokenizer with
      | .ok _ => .ok []
      | .error e => .error e
  | turn :: rest =>
      match buildPrompt staticPrefix runtimeText (turn :: rest) maxCandidate chatTokenizer with
      | .ok (_, promptTokens) =>
          if promptTokens > maxPromptTokens then
            dropTurnsToFit staticPrefix runtimeText maxCandidate chatTokenizer maxPromptTokens rest
          else .ok (turn :: rest)
      | .error e => .error e

/-- `fit_chat_prompt_to_budget`. -/
def fitChatPromptToBudget (staticPrefix runtimeText : Text) (historyMessages : List ChatMessage)
    (chatUserUtt : Text) (chatTokenizer : HfTokenizer) (maxPromptTokens : Int)
    (maxUserTokens : Option Int) : Except Exc PromptFitResult :=
  let turns := groupChatTurns (copyChatMessages historyMessages)
  let maxCandidate := maxCandidateUser chatUserUtt chatTokenizer maxUserTokens
  match dropTurnsToFit staticPrefix runtimeText maxCandidate chatTokenizer maxPromptTokens turns with
  | .error e => .error e
  | .ok effectiveHistory =>
      match fitUserFromRaw staticPrefix runtimeText effectiveHistory chatUserUtt chatTokenizer
          maxPromptTokens maxUserTokens with
      | .error e => .error e
      | .ok (effectiveUser, prompt, promptTokens) =>
          if promptTokens > maxPromptTokens then
            .error (.valueError "prompt exceeds exact context budget before engine call".toList)
          else
            .ok {
              historyMessages := flattenChatTurns effectiveHistory
              chatUserUtt := effectiveUser
              prompt := prompt
              promptTokens := promptTokens }

/-- `ToolFitResult`. -/
structure ToolFitResult where
  toolUserHistory : Text
  toolUserUtt : Text
  inputTokens : Nat
  deriving DecidableEq

/-- `_normalize_user_texts`. -/
def normalizeUserTexts (userTexts : List Text) : List Text :=
  (userTexts.map strip).filter fun s => !s.isEmpty

/-- `_join_tool_input`. -/
def joinToolInput (historyLines : List Text) (toolUserUtt : Text) : Text :=
  let historyText := strip (join ['\n'] historyLines)
  let userText := strip toolUserUtt
  join ['\n'] (([historyText, userText]).filter fun s => !s.isEmpty)

/-- `_count_input_tokens`. -/
def countInputTokens (historyLines : List Text) (toolUserUtt : Text)
    (toolTokenizer : Option HfTokenizer) : Nat :=
  countToolTokens (joinToolInput historyLines toolUserUtt) toolTokenizer true

/-- `_trim_tool_user`. -/
def trimToolUser (toolUserUtt : Text) (remainingTokens : Nat)
    (toolTokenizer : Option HfTokenizer) : Text :=
  let user := strip toolUserUtt
  if remainingTokens = 0 || user.isEmpty then []
  else
    match toolTokenizer with
    | some tok => strip (tok.trim user remainingTokens .tail)
    | none =>
        let tokens := splitWords user
        if tokens.length ≤ remainingTokens then user
        else join [' '] (tokens.drop (tokens.length - remainingTokens))

/-- `_fit_current_user_to_budget`. -/
def fitCurrentUserToBudget (rawToolUserUtt : Text) (historyLines : List Text)
    (toolTokenizer : Option HfTokenizer) (maxInputTokens : Int) : Except Exc (Text × Nat) :=
  let candidate := strip rawToolUserUtt
  if candidate.isEmpty then .ok ([], countInputTokens historyLines [] toolTokenizer)
  else
    let probe := fun remaining =>
      let trimmed := trimToolUser candidate remaining toolTokenizer
      let inputTokens := countInputTokens historyLines trimmed toolTokenizer
      if inputTokens ≤ maxInputTokens then some (trimmed, inputTokens) else none
    match Search.searchPure probe (countToolTokens candidate toolTokenizer false) with
    | some bestFit => .ok bestFit
    | none => .error (.valueError
        "tool input exceeds exact budget even after removing all history and trimming the user turn".toList)

/-- The loop of `fit_tool_input_to_budget` that drops oldest lines. -/
def dropLinesToFit (rawUser : Text) (toolTokenizer : Option HfTokenizer) (maxInputTokens : Int) :
    List Text → List Text
  | [] => []
  | line :: rest =>
      if countInputTokens (line :: rest) rawUser toolTokenizer > maxInputTokens then
        dropLinesToFit rawUser toolTokenizer maxInputTokens rest
      else line :: rest

/-- `fit_tool_input_to_budget`. -/
def fitToolInputToBudget (priorUserTexts : List Text) (toolUserUtt : Text)
    (toolTokenizer : Option HfTokenizer) (maxInputTokens : Int) : Except Exc ToolFitResult :=
  if maxInputTokens ≤ 0 then
    .error (.valueError "tool input exceeds exact budget before backend call".toList)
  else
    let rawUser := strip toolUserUtt
    let effectiveHistory := dropLinesToFit rawUser toolTokenizer maxInputTokens
      (normalizeUserTexts priorUserTexts)
    let inputTokens := countInputTokens effectiveHistory rawUser toolTokenizer
    let fitted :=
      if inputTokens > maxInputTokens then
        fitCurrentUserToBudget rawUser effectiveHistory toolTokenizer maxInputTokens
      else .ok (rawUser, inputTokens)
    match fitted with
    | .error e => .error e
    | .ok (effectiveUser, inputTokens) =>
        if inputTokens > maxInputTokens then
          .error (.valueError "tool input exceeds exact budget before backend call".toList)
        else
          .ok {
            toolUserHistory := join ['\n'] effectiveHistory
            toolUserUtt := effectiveUser
            inputTokens := inputTokens }

end YapInference
