import YapInference.Config
import YapInference.Text.Prompt
import YapInference.Tokens

/-!
# Validators of a start message

`src/messages/validators.py`. A validator returns the normalised value or a
`ValidationError` with its code and text. Lower-casing comes from the character database,
so it is a parameter.
-/

namespace YapInference

open Py

/-- `PERSONALITY_MAX_LEN`. -/
def personalityMaxLen : Nat := 20

/-- `SCREEN_PREFIX_MAX_CHARS`. -/
def screenPrefixMaxChars : Nat := 30

/-- `normalize_gender`. -/
def normalizeGender (lower : Lower) (val : Option Text) : Option Text :=
  val.bind fun v =>
    let v := lower (strip v)
    if v = "female".toList then some "female".toList
    else if v = "male".toList then some "male".toList
    else none

/-- A character of `LETTERS_ONLY_PATTERN`. -/
def isAsciiLetter (c : Char) : Bool :=
  ('A' ≤ c && c ≤ 'Z') || ('a' ≤ c && c ≤ 'z')

/-- `normalize_personality`. -/
def normalizePersonality (lower : Lower) (val : Option Text) : Option Text :=
  val.bind fun v =>
    let v := strip v
    if v.isEmpty then none
    else if personalityMaxLen < v.length then none
    else if !v.all isAsciiLetter then none
    else some (lower v)

/-- `is_gender_empty_or_null`, which is also `is_personality_empty_or_null`. -/
def isEmptyOrNull (val : Option Text) : Bool := (strip (val.getD [])).isEmpty

/-- The shape of `validate_required_gender` and `validate_required_personality`. -/
def validateRequired (normalize : Option Text → Option Text) (raw : Option Text)
    (missing missingMessage invalid invalidMessage : Text) : Except Exc Text :=
  if isEmptyOrNull raw then .error (.validationError missing missingMessage)
  else
    match normalize raw with
    | none => .error (.validationError invalid invalidMessage)
    | some v => .ok v

/-- `validate_required_gender`. -/
def validateRequiredGender (lower : Lower) (rawGender : Option Text) : Except Exc Text :=
  validateRequired (normalizeGender lower) rawGender
    "missing_gender".toList "gender is required and cannot be empty".toList
    "invalid_gender".toList "gender must be 'female' or 'male'".toList

/-- `validate_required_personality`. -/
def validateRequiredPersonality (lower : Lower) (rawPersonality : Option Text) :
    Except Exc Text :=
  validateRequired (normalizePersonality lower) rawPersonality
    "missing_personality".toList "personality is required and cannot be empty".toList
    "invalid_personality".toList
    "personality must be letters-only and lower than or equal to 20 characters".toList

/-- `require_prompt`. -/
def requirePrompt (rawPrompt : Option Text) (errorCode message : Text) : Except Exc Text :=
  match rawPrompt with
  | some (c :: cs) => .ok (c :: cs)
  | _ => .error (.validationError errorCode message)

/-- `sanitize_prompt_with_limit`. -/
def sanitizePromptWithLimit (pt : PromptText) (rawPrompt fieldLabel invalidErrorCode
    tooLongErrorCode : Text) (maxTokens : Nat) (countTokens : Text → Except Exc Nat) :
    Except Exc Text :=
  match sanitizePrompt pt rawPrompt none with
  | .error message => .error (.validationError invalidErrorCode message)
  | .ok value =>
      match countTokens value with
      | .error e => .error e
      | .ok n =>
          if maxTokens < n then
            .error (.validationError tooLongErrorCode
              (fieldLabel ++ " exceeds token limit (".toList ++ (Nat.repr maxTokens).toList
                ++ ")".toList))
          else .ok value

/-- `validate_optional_prefix`. -/
def validateOptionalPrefix (pt : PromptText) (value : Option Text) (invalidErrorCode : Text) :
    Except Exc (Option Text) :=
  match value with
  | none => .ok none
  | some v =>
      if (strip v).isEmpty then .ok none
      else
        match sanitizePrompt pt v (some screenPrefixMaxChars) with
        | .error message => .error (.validationError invalidErrorCode message)
        | .ok sanitized => .ok (some sanitized)

end YapInference
