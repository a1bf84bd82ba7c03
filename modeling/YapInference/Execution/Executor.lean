import YapInference.Execution.PromptBudget
import YapInference.Session.Manager
import YapInference.WebSocket.Stream

/-!
# The executor

The synchronous pieces of `src/execution/executor.py` and `_run_chat_only` of
`src/messages/dispatch.py`: which text the model is sent, and the call that streams
the reply.
-/

namespace YapInference

open Py

/-- `_prepare_tool_turn`. -/
def prepareToolTurnForExecution (sh : SessionHandler) (freshId : TurnId) (state : SessionState)
    (chatUserUtt : Text) (toolUserUtt : Option Text) (historyTurnId : Option TurnId) :
    Except Exc (SessionState × Text × Text) :=
  let toolUser := toolUserUtt.getD []
  let effectiveToolUserUtt := strip (if toolUser.isEmpty then chatUserUtt else toolUser)
  sh.prepareToolTurn freshId state effectiveToolUserUtt historyTurnId

/-- The prefix `_resolve_user_utterance_for_chat` puts before the utterance, if any. -/
def screenPrefixForChat (sh : SessionHandler) (state : SessionState)
    (isTool applyScreenCheckedPrefix : Bool) : Option Text :=
  if isTool then some (resolveScreenPrefix state sh.server.defaultCheckScreenPrefix false)
  else if applyScreenCheckedPrefix then
    some (resolveScreenPrefix state sh.server.defaultScreenCheckedPrefix true)
  else none

/-- `_resolve_user_utterance_for_chat`. -/
def resolveUserUtteranceForChat (sh : SessionHandler) (state : SessionState) (chatUserUtt : Text)
    (isTool applyScreenCheckedPrefix : Bool) : SessionState × Text :=
  let state :=
    if isTool then SessionHandler.setScreenFollowupPending state true
    else if applyScreenCheckedPrefix then SessionHandler.setScreenFollowupPending state false
    else state
  match screenPrefixForChat sh state isTool applyScreenCheckedPrefix with
  | some screenPrefix => (state, strip (screenPrefix ++ [' '] ++ chatUserUtt))
  | none => (state, chatUserUtt)

/-- The `fit_chat_prompt_to_budget` call both executors make. -/
def fitPlanPrompt (sh : SessionHandler) (chatTokenizer : HfTokenizer) (plan : TurnPlan)
    (chatUserUtt : Text) : Except Exc PromptFitResult :=
  fitChatPromptToBudget plan.staticPrefix plan.runtimeText plan.historyMessages chatUserUtt
    chatTokenizer sh.server.chatMaxLen (some (sh.server.userUttMaxTokens : Int))

/-- The text `_run_sequential` or `_run_chat_only` hands to the prompt fit. Only the
former has a tool decision to react to. -/
def chatUserUttForPlan (sh : SessionHandler) (state : SessionState) (plan : TurnPlan)
    (isTool : Bool) : SessionState × Text :=
  let chatUserUtt := plan.chatUserUtt.getD []
  if plan.deployTool then
    resolveUserUtteranceForChat sh state chatUserUtt isTool plan.applyScreenCheckedPrefix
  else (state, chatUserUtt)

/-- `_stream_chat_turn`, and the same call in `_run_chat_only`: the streamed response of
a fitted prompt, about to pull its first chunk. -/
def streamChatTurn (sh : SessionHandler) (state : SessionState) (promptFit : PromptFitResult) :
    StreamRun :=
  .init (sh.normalizeUserUtterances state promptFit.chatUserUtt none).1

end YapInference
