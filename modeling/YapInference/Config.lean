import YapInference.State

/-!
# Server configuration

The constants of `src/config` that the modelled code reads. Each is loaded from the
environment when the server starts, so they are the fields of a record; `shipped` is
the record an empty environment gives.
-/

namespace YapInference

open Py

/-- The environment-derived constants. -/
structure ServerConfig where
  /-- `CHAT_MAX_LEN`, in tokens. -/
  chatMaxLen : Nat
  /-- `USER_UTT_MAX_TOKENS`. -/
  userUttMaxTokens : Nat
  /-- `CHAT_PROMPT_MAX_TOKENS`. -/
  chatPromptMaxTokens : Nat
  /-- `DEFAULT_CHECK_SCREEN_PREFIX`. -/
  defaultCheckScreenPrefix : Text
  /-- `DEFAULT_SCREEN_CHECKED_PREFIX`. -/
  defaultScreenCheckedPrefix : Text
  /-- `STREAM_FLUSH_MS`; zero or less turns micro-buffering off. -/
  streamFlushMs : ℚ
  /-- `WS_MAX_MESSAGES_PER_WINDOW`. -/
  maxMessagesPerWindow : Int
  /-- `WS_MAX_CANCELS_PER_WINDOW`. -/
  maxCancelsPerWindow : Int
  /-- `WS_RATE_LIMIT_WINDOW`, in seconds. -/
  rateLimitWindow : ℚ
  /-- `CHAT_TEMPERATURE` and its siblings; `sanitize_output` defaults to true. -/
  samplingDefault : SamplingField → SamplingValue
  samplingDefault_fits : ∀ field, (samplingDefault field).fits field = true

/-- The configuration of an empty environment. -/
def ServerConfig.shipped : ServerConfig where
  chatMaxLen := 5025
  userUttMaxTokens := 500
  chatPromptMaxTokens := 1500
  defaultCheckScreenPrefix := "MUST CHECK SCREEN:".toList
  defaultScreenCheckedPrefix := "ON THE SCREEN NOW:".toList
  streamFlushMs := 0
  maxMessagesPerWindow := 20
  maxCancelsPerWindow := 20
  rateLimitWindow := 60
  samplingDefault := fun
    | .temperature => .float (.finite (3602879701896397 / 2 ^ 52))
    | .topP => .float (.finite (8556839292003942 / 2 ^ 53))
    | .topK => .int 30
    | .minP => .float (.finite 0)
    | .repetitionPenalty => .float (.finite 1)
    | .presencePenalty => .float (.finite 0)
    | .frequencyPenalty => .float (.finite 0)
    | .sanitizeOutput => .bool true
  samplingDefault_fits := by intro field; cases field <;> rfl

end YapInference
