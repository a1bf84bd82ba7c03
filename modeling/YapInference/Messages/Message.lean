import YapInference.Messages.Sampling
import YapInference.Session.Manager

/-!
# Planning a message turn

`src/messages/message.py` and `resolve_user_utterances` of `src/messages/history.py`.
Planning is synchronous up to the error frame of a rejected message, so it is a
function; sending that frame is a step of the message loop.
-/

namespace YapInference

open Py

/-- `resolve_user_utterances`: the chat and the tool variant of what the client said. -/
def resolveUserUtterances (sh : SessionHandler) (state : SessionState) (incomingUserUtt : Text) :
    Text × Text :=
  let toolArg := if sh.historyConfig.deployTool then some incomingUserUtt else none
  let (chatUser, toolUser) := sh.normalizeUserUtterances state incomingUserUtt toolArg
  let resolvedChatUser := if sh.historyConfig.deployChat then chatUser else incomingUserUtt
  (resolvedChatUser, toolUser.getD resolvedChatUser)

/-- The ids a plan draws. -/
structure PlanIds where
  requestId : RequestId
  turnId : TurnId

/-- `_build_message_turn_plan`, from the metadata copied before this message touched it. -/
def buildMessageTurnPlan (sh : SessionHandler) (ids : PlanIds) (state : SessionState)
    (cfg : SessionMeta) (incomingUserUtt : Text) (samplingOverrides : SamplingOverrides) :
    SessionState × TurnPlan :=
  let applyScreenCheckedPrefix := state.screenFollowupPending
  let (chatUserUtt, toolUserUtt) := resolveUserUtterances sh state incomingUserUtt
  let historyTurnId := sh.reserveHistoryTurnId ids.turnId state chatUserUtt (some toolUserUtt)
  let (state, historyMessages) := sh.getChatMessages state
  let deployChat := sh.historyConfig.deployChat
  let deployTool := sh.historyConfig.deployTool
  (state, {
    requestId := ids.requestId
    staticPrefix := cfg.chatPrompt.getD []
    runtimeText := []
    historyMessages := historyMessages
    deployChat := deployChat
    deployTool := deployTool
    chatUserUtt := if deployChat then some chatUserUtt else none
    toolUserUtt := if deployTool then some toolUserUtt else none
    historyTurnId := historyTurnId
    samplingOverrides :=
      if deployChat then (if samplingOverrides.isEmpty then none else some samplingOverrides)
      else none
    applyScreenCheckedPrefix := applyScreenCheckedPrefix })

/-- The arguments of `_send_turn_error`. -/
structure TurnError where
  code : Text
  message : Text
  close : Bool
  deriving DecidableEq

/-- What planning comes to. -/
inductive PlanResult where
  /-- `_send_turn_error`, then `None`. -/
  | rejected (error : TurnError)
  /-- An exception leaves `plan_message_turn`. -/
  | escaped (e : Exc)
  | planned (state : SessionState) (plan : TurnPlan)

/-- The update `plan_message_turn` makes when a message carries overrides. -/
def samplingUpdate (samplingOverrides : SamplingOverrides) : SessionConfigUpdate where
  chatGender := none
  chatPersonality := none
  chatPrompt := none
  chatSampling := some samplingOverrides
  checkScreenPrefix := none
  screenCheckedPrefix := none

/-- A message that says only this. -/
def utterance (text : Text) : Dict Text Json := [("user_utterance".toList, .str text)]

/-- `plan_message_turn`. -/
def planMessageTurn (sh : SessionHandler) (parsing : NumberParsing) (ids : PlanIds)
    (state : SessionState) (msg : Dict Text Json) : PlanResult :=
  let incomingUserUtt := strip ((Json.getText msg "user_utterance".toList).getD [])
  if incomingUserUtt.isEmpty then
    .rejected {
      code := "invalid_payload".toList
      message := "user_utterance is required".toList
      close := false }
  else
    -- a copy: the plan reads the prompt in force before this message
    let cfg := state.metadata
    if cfg.isEmpty then
      .rejected {
        code := "invalid_message".toList
        message := "no active session; send 'start' first".toList
        close := false }
    else
      match extractSamplingOverrides parsing msg sh.historyConfig.deployChat with
      | .error (.validationError _ message) =>
          .rejected { code := "invalid_payload".toList, message := message, close := true }
      | .error e => .escaped e
      | .ok samplingOverrides =>
          let state :=
            if samplingOverrides.isEmpty then state
            else
              updateSessionConfig sh.server sh.countPrefixTokens state
                (samplingUpdate samplingOverrides)
          let (state, plan) :=
            buildMessageTurnPlan sh ids state cfg incomingUserUtt samplingOverrides
          .planned state plan

end YapInference
