import YapInference.Config

/-!
# Session configuration

`src/handlers/session/config.py`: the persona fields a start message sets, and the
screen prefix in force.
-/

namespace YapInference

open Py

/-- `value or None`, for a string. -/
def textOrNone (value : Text) : Option Text := if value.isEmpty then none else some value

/-- The keyword arguments of `update_session_config`; `none` leaves a field alone. -/
structure SessionConfigUpdate where
  chatGender : Option Text
  chatPersonality : Option Text
  chatPrompt : Option Text
  chatSampling : Option SamplingOverrides
  checkScreenPrefix : Option Text
  screenCheckedPrefix : Option Text

/-- `update_session_config`. A field given as an empty value is cleared. -/
def updateSessionConfig (cfg : ServerConfig) (countPrefixTokens : Text → Nat)
    (state : SessionState) (u : SessionConfigUpdate) : SessionState :=
  let checkPrefix := u.checkScreenPrefix.map fun p => textOrNone (strip p)
  let checkedPrefix := u.screenCheckedPrefix.map fun p => textOrNone (strip p)
  { state with
    metadata :=
      { state.metadata with
        chatGender := (u.chatGender.map some).getD state.metadata.chatGender
        chatPersonality := (u.chatPersonality.map textOrNone).getD state.metadata.chatPersonality
        chatPrompt := (u.chatPrompt.map textOrNone).getD state.metadata.chatPrompt
        chatSampling :=
          (u.chatSampling.map fun s => if s.isEmpty then none else some s).getD
            state.metadata.chatSampling
        checkScreenPrefix := checkPrefix.getD state.metadata.checkScreenPrefix
        screenCheckedPrefix := checkedPrefix.getD state.metadata.screenCheckedPrefix }
    checkScreenPrefixTokens :=
      (checkPrefix.map fun p => countPrefixTokens (p.getD cfg.defaultCheckScreenPrefix)).getD
        state.checkScreenPrefixTokens
    screenCheckedPrefixTokens :=
      (checkedPrefix.map fun p => countPrefixTokens (p.getD cfg.defaultScreenCheckedPrefix)).getD
        state.screenCheckedPrefixTokens }

/-- `resolve_screen_prefix` of a session. -/
def resolveScreenPrefix (state : SessionState) (default : Text) (isChecked : Bool) : Text :=
  let resolvedDefault := strip default
  let stored := if isChecked then state.metadata.screenCheckedPrefix
    else state.metadata.checkScreenPrefix
  let value := strip (stored.getD [])
  if value.isEmpty then resolvedDefault else value

end YapInference
