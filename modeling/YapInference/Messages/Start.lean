import YapInference.Messages.Message
import YapInference.Messages.Validators
import YapInference.Session.Parsing

/-!
# Starting a session

`src/messages/start.py` and `resolve_history` of `src/messages/history.py`. A start
resets the session before it validates anything, so a rejected one still leaves the
session changed; the result therefore always carries the session.
-/

namespace YapInference

open Py

/-- `_TOOL_ONLY_FORBIDDEN_START_FIELDS`. -/
def toolOnlyForbiddenStartFields : List Text :=
  ["gender", "personality", "chat_prompt", "sampling", "sampling_params", "temperature", "top_p",
    "top_k", "min_p", "repetition_penalty", "presence_penalty", "frequency_penalty",
    "sanitize_output"].map String.toList

/-- The codes `_close_with_validation_error` answers with `invalid_settings`. -/
def settingsErrors : List Text :=
  ["missing_chat_prompt", "invalid_chat_prompt", "chat_prompt_too_long",
    "invalid_check_screen_prefix", "invalid_screen_checked_prefix",
    "tool_only_forbids_chat_settings"].map String.toList

/-- `_validate_tool_only_start_fields`. -/
def validateToolOnlyStartFields (msg : Dict Text Json) (deployChat : Bool) : Except Exc Unit :=
  if deployChat then .ok ()
  else
    let offending := toolOnlyForbiddenStartFields.filter fun f => (Dict.get? msg f).isSome
    if offending.isEmpty then .ok ()
    else
      .error (.validationError "tool_only_forbids_chat_settings".toList
        ("tool-only deployment does not accept chat-only start fields: ".toList
          ++ join ", ".toList offending))

/-- `_validate_persona`. -/
def validatePersona (lower : Lower) (msg : Dict Text Json) (deployChat : Bool) :
    Except Exc (Option Text × Option Text) :=
  let gender := Json.getText msg "gender".toList
  let personality := Json.getText msg "personality".toList
  if deployChat then
    match validateRequiredGender lower gender with
    | .error e => .error e
    | .ok g =>
        match validateRequiredPersonality lower personality with
        | .error e => .error e
        | .ok p => .ok (some g, some p)
  else .ok (normalizeGender lower gender, normalizePersonality lower personality)

/-- `_extract_chat_prompt`. -/
def extractChatPrompt (sh : SessionHandler) (pt : PromptText) (msg : Dict Text Json)
    (deployChat : Bool) : Except Exc (Option Text) :=
  if !deployChat then .ok none
  else
    match requirePrompt (Json.getText msg "chat_prompt".toList) "missing_chat_prompt".toList
        "chat_prompt is required".toList with
    | .error e => .error e
    | .ok raw =>
        (sanitizePromptWithLimit pt raw "chat_prompt".toList "invalid_chat_prompt".toList
          "chat_prompt_too_long".toList sh.server.chatPromptMaxTokens sh.countChatTokens).map some

/-- `_extract_screen_prefixes`. -/
def extractScreenPrefixes (pt : PromptText) (msg : Dict Text Json) :
    Except Exc (Option Text × Option Text) :=
  match validateOptionalPrefix pt (Json.getText msg "check_screen_prefix".toList)
      "invalid_check_screen_prefix".toList with
  | .error e => .error e
  | .ok check =>
      match validateOptionalPrefix pt (Json.getText msg "screen_checked_prefix".toList)
          "invalid_screen_checked_prefix".toList with
      | .error e => .error e
      | .ok checked => .ok (check, checked)

/-- `_resolve_start_inputs`, with what `bootstrap_start_turn` makes of the overrides. -/
def resolveStartInputs (sh : SessionHandler) (parsing : NumberParsing) (pt : PromptText)
    (msg : Dict Text Json) : Except Exc SessionConfigUpdate :=
  let deployChat := sh.historyConfig.deployChat
  match validateToolOnlyStartFields msg deployChat with
  | .error e => .error e
  | .ok () =>
    match validatePersona sh.lower msg deployChat with
    | .error e => .error e
    | .ok (gender, personality) =>
      match extractChatPrompt sh pt msg deployChat with
      | .error e => .error e
      | .ok chatPrompt =>
        match extractSamplingOverrides parsing msg deployChat with
        | .error e => .error e
        | .ok samplingOverrides =>
          match extractScreenPrefixes pt msg with
          | .error e => .error e
          | .ok (check, checked) =>
              .ok {
                chatGender := gender
                chatPersonality := personality
                chatPrompt := chatPrompt
                chatSampling := if deployChat then some samplingOverrides else none
                checkScreenPrefix := check
                screenCheckedPrefix := checked }

/-- `_history_turn_count`. -/
def historyTurnCount (state : SessionState) : Nat :=
  match state.chatHistoryMessages, state.toolHistoryTurns with
  | some messages, _ => messages.length
  | none, some turns => turns.length
  | none, none => 0

/-- `resolve_history`: a history is imported only into an empty session. -/
def resolveHistory (sh : SessionHandler) (freshId : Nat → TurnId) (state : SessionState)
    (msg : Dict Text Json) : SessionState :=
  if 0 < historyTurnCount state then (sh.getChatMessages state).1
  else
    match Json.get? msg "history".toList with
    | some (.list items) =>
        let chat := (parseHistoryForChat sh.lower items).map ChatMessage.toImported
        let tool := parseHistoryForTool sh.lower freshId items
        let deployChat := sh.historyConfig.deployChat
        let deployTool := sh.historyConfig.deployTool
        let state :=
          if deployChat && deployTool then
            sh.setModeHistories freshId state (some chat) (some tool)
          else if deployTool && !deployChat then
            sh.setModeHistories freshId state none (some tool)
          else sh.setModeHistories freshId state (some chat) none
        (sh.getChatMessages state).1
    | _ => (sh.getChatMessages state).1

/-- What a start comes to, and the session it leaves. -/
inductive StartResult where
  /-- An error frame, a close, and `False`. -/
  | rejected (state : SessionState) (error : TurnError)
  /-- An exception leaves `bootstrap_start_turn`. -/
  | escaped (state : SessionState) (e : Exc)
  /-- The `done` frame is sent next, and then `True` is returned. -/
  | accepted (state : SessionState)

/-- `_close_with_validation_error`. -/
def startValidationError (errorCode message : Text) : TurnError where
  code := if settingsErrors.contains errorCode then "invalid_settings".toList
    else "invalid_payload".toList
  message := message
  close := true

/-- `bootstrap_start_turn`, up to its first send. -/
def bootstrapStartTurn (sh : SessionHandler) (parsing : NumberParsing) (pt : PromptText)
    (freshId : Nat → TurnId) (state : SessionState) (msg : Dict Text Json) : StartResult :=
  let state := sh.initializeSession state
  match resolveStartInputs sh parsing pt msg with
  | .error (.validationError errorCode message) =>
      .rejected state (startValidationError errorCode message)
  | .error e => .escaped state e
  | .ok update =>
      let state := updateSessionConfig sh.server sh.countPrefixTokens state update
      let state := resolveHistory sh freshId state msg
      if !sh.historyConfig.deployChat then .accepted state
      else
        match sh.fitStartChatHistory state (update.chatPrompt.getD []) [] with
        | .error (.valueError message) =>
            .rejected state { code := "text_too_long".toList, message := message, close := true }
        | .error e => .escaped state e
        | .ok state => .accepted state

/-- A start message with these extra fields. -/
def sampleStart (extra : Dict Text Json) : Dict Text Json :=
  [("gender".toList, .str "female".toList), ("personality".toList, .str "friendly".toList),
    ("chat_prompt".toList, .str "Be kind.".toList)] ++ extra

end YapInference
