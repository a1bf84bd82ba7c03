import YapInference.Execution.PromptBudget
import YapInference.History.Controller
import YapInference.Session.Config

/-!
# The session handler

`src/handlers/session/manager.py`: the synchronous operations a turn performs on its
session. Request tracking is in `Session.Requests`, and the coroutines that wrap it
are steps of the connection model.
-/

namespace YapInference

open Py

/-- `SessionHandler`, by its constructor arguments and the constants it reads. -/
structure SessionHandler where
  server : ServerConfig
  lower : Lower
  historyConfig : HistoryRuntimeConfig
  toolHistoryBudget : Option Int
  toolInputBudget : Option Int
  chatTokenizer : Option HfTokenizer
  toolTokenizer : Option HfTokenizer

namespace SessionHandler

/-- The `HistoryController` the handler builds for itself. -/
def history (sh : SessionHandler) : HistoryController where
  config := sh.historyConfig
  toolBudget := sh.toolHistoryBudget
  chatTokenizer := sh.chatTokenizer
  toolTokenizer := sh.toolTokenizer

@[simp] theorem history_config (sh : SessionHandler) : sh.history.config = sh.historyConfig := rfl

@[simp] theorem history_chatTokenizer (sh : SessionHandler) :
    sh.history.chatTokenizer = sh.chatTokenizer := rfl

/-- `count_prefix_tokens`. -/
def countPrefixTokens (sh : SessionHandler) (value : Text) : Nat :=
  if value.isEmpty || !sh.historyConfig.deployChat then 0
  else
    match sh.chatTokenizer with
    | none => 0
    | some tok => tok.count (strip value ++ [' ']) false

/-- `count_chat_tokens`. -/
def countChatTokens (sh : SessionHandler) (text : Text) : Except Exc Nat :=
  match sh.chatTokenizer with
  | none => .error (.runtimeError "Chat tokenizer is not configured".toList)
  | some tok => .ok (tok.count text false)

/-- `initialize_session`. -/
def initializeSession (sh : SessionHandler) (state : SessionState) : SessionState :=
  let state := sh.history.initializeModeState state
  { state with
    metadata :=
      { state.metadata with
        chatGender := none
        chatPersonality := none
        chatPrompt := none
        chatSampling := none
        checkScreenPrefix := none
        screenCheckedPrefix := none }
    checkScreenPrefixTokens := sh.countPrefixTokens sh.server.defaultCheckScreenPrefix
    screenCheckedPrefixTokens := sh.countPrefixTokens sh.server.defaultScreenCheckedPrefix
    screenFollowupPending := false }

/-- `set_screen_followup_pending`. -/
def setScreenFollowupPending (state : SessionState) (pending : Bool) : SessionState :=
  { state with screenFollowupPending := pending }

/-- `strip_screen_prefix` with the two prefixes in force. -/
def stripScreenPrefixes (sh : SessionHandler) (state : SessionState) (text : Text) : Text :=
  stripScreenPrefix sh.lower text
    (resolveScreenPrefix state sh.server.defaultCheckScreenPrefix false)
    (resolveScreenPrefix state sh.server.defaultScreenCheckedPrefix true)

/-- `normalize_user_utterances`. -/
def normalizeUserUtterances (sh : SessionHandler) (state : SessionState) (chatUserUtt : Text)
    (toolUserUtt : Option Text) : Text × Option Text :=
  (sh.stripScreenPrefixes state chatUserUtt, toolUserUtt.map (sh.stripScreenPrefixes state))

/-- `reserve_history_turn_id`. -/
def reserveHistoryTurnId (sh : SessionHandler) (freshId : TurnId) (state : SessionState)
    (chatUserUtt : Text) (toolUserUtt : Option Text) : Option TurnId :=
  let (normalizedChat, normalizedTool) := sh.normalizeUserUtterances state chatUserUtt toolUserUtt
  sh.history.reserveTurnId freshId normalizedChat normalizedTool

/-- `_resolve_tool_input_budget`. -/
def resolveToolInputBudget (sh : SessionHandler) : Nat :=
  match sh.toolInputBudget, sh.toolHistoryBudget with
  | some budget, _ => (max 1 budget).toNat
  | none, some budget => (max 1 budget).toNat
  | none, none => 1

/-- `prepare_tool_turn`: the fitted user text and history. -/
def prepareToolTurn (sh : SessionHandler) (freshId : TurnId) (state : SessionState)
    (toolUserUtt : Text) (turnId : Option TurnId) : Except Exc (SessionState × Text × Text) :=
  let toolUser := sh.stripScreenPrefixes state toolUserUtt
  let (state, priorUserTexts) := sh.history.getToolUserTexts state
  match fitToolInputToBudget priorUserTexts toolUser sh.toolTokenizer sh.resolveToolInputBudget with
  | .error e => .error e
  | .ok promptFit =>
      let state :=
        if promptFit.toolUserUtt.isEmpty then state
        else sh.history.appendToolTurn freshId state promptFit.toolUserUtt turnId
      .ok (state, promptFit.toolUserUtt, promptFit.toolUserHistory)

/-- `append_chat_turn`. -/
def appendChatTurn (sh : SessionHandler) (state : SessionState) (chatUserUtt assistantText : Text) :
    SessionState :=
  sh.history.appendChatResponse state (sh.normalizeUserUtterances state chatUserUtt none).1
    assistantText

/-- `get_chat_messages`. -/
def getChatMessages (sh : SessionHandler) (state : SessionState) :
    SessionState × List ChatMessage :=
  sh.history.getChatMessages state

/-- `set_mode_histories`. -/
def setModeHistories (sh : SessionHandler) (freshId : Nat → TurnId) (state : SessionState)
    (chatMessages : Option (List ImportedMessage)) (toolTurns : Option (List HistoryTurn)) :
    SessionState :=
  sh.history.setModeHistories freshId state chatMessages toolTurns

/-- `fit_start_chat_history`. -/
def fitStartChatHistory (sh : SessionHandler) (state : SessionState)
    (staticPrefix runtimeText : Text) : Except Exc SessionState :=
  if !sh.historyConfig.deployChat then .ok state
  else
    match sh.chatTokenizer with
    | none => .error (.runtimeError "Chat tokenizer is not configured".toList)
    | some tok =>
        let (state, originalHistory) := sh.getChatMessages state
        if originalHistory.isEmpty then .ok state
        else
          match fitChatPromptToBudget staticPrefix runtimeText originalHistory [] tok
              sh.server.chatMaxLen none with
          | .error e => .error e
          | .ok promptFit =>
              if promptFit.historyMessages.isEmpty then
                .error (.valueError
                  "seed history exceeds exact context budget at session start".toList)
              else .ok (sh.history.setExactChatMessages state promptFit.historyMessages)

/-- A handler as a deployment configures it, with tokenizers simple enough to run. -/
def sample (deployChat deployTool : Bool) : SessionHandler where
  server := .shipped
  lower := List.map Char.toLower
  historyConfig := {
    deployChat := deployChat
    deployTool := deployTool
    chatTriggerTokens := 3000
    chatTargetTokens := 1980
    defaultToolHistoryTokens := some 1536 }
  toolHistoryBudget := some 1536
  toolInputBudget := none
  chatTokenizer := some charTokenizer
  toolTokenizer := none

end SessionHandler

end YapInference
