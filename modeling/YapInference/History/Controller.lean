import YapInference.Execution.Template
import YapInference.History.Ops

/-!
# The history controller

`src/handlers/session/history/controller.py`. Chat messages and tool turns are two
stores of the same session, each present only when its model is deployed. Ids drawn
with `uuid4` come from a supply that the caller passes in.
-/

namespace YapInference

open Py

/-- A message handed to an import, its role not yet checked. -/
structure ImportedMessage where
  role : Text
  content : Text
  deriving DecidableEq

/-- `_normalize_chat_role`. -/
def normalizeChatRole (role : Text) : Option Role :=
  if role = "user".toList then some .user
  else if role = "assistant".toList then some .assistant
  else none

@[simp] theorem normalizeChatRole_name (r : Role) : normalizeChatRole r.name = some r := by
  cases r <;> decide

/-- Append a normalised message to a list: a user message after a user message is
merged into it. -/
def pushChatMessage (messages : List ChatMessage) (message : ChatMessage) : List ChatMessage :=
  match message.role, messages.getLast? with
  | .user, some last =>
      if last.role = .user then
        messages.dropLast
          ++ [{ last with content := last.content ++ "\n\n".toList ++ message.content }]
      else messages ++ [message]
  | _, _ => messages ++ [message]

/-- `HistoryController`, by its constructor arguments. -/
structure HistoryController where
  config : HistoryRuntimeConfig
  toolBudget : Option Int
  chatTokenizer : Option HfTokenizer
  toolTokenizer : Option HfTokenizer

namespace HistoryController

/-- `_sync_mode_storage`. -/
def syncModeStorage (h : HistoryController) (state : SessionState) : SessionState :=
  { state with
    chatHistoryMessages :=
      if h.config.deployChat then some (state.chatHistoryMessages.getD []) else none
    toolHistoryTurns :=
      if h.config.deployTool then some (state.toolHistoryTurns.getD []) else none }

/-- `initialize_mode_state`. -/
def initializeModeState (h : HistoryController) (state : SessionState) : SessionState :=
  h.syncModeStorage state

/-- `_chat_messages`. -/
def chatMessages (state : SessionState) : List ChatMessage := state.chatHistoryMessages.getD []

/-- `_tool_turns`. -/
def toolTurns (state : SessionState) : List HistoryTurn := state.toolHistoryTurns.getD []

/-- `_trim_chat_store_eager`. An import trims as soon as the target is exceeded. -/
def trimChatStoreEager (h : HistoryController) (state : SessionState) (importMode : Bool) :
    SessionState :=
  if !h.config.deployChat then state
  else if importMode then
    trimChatHistory state h.config h.chatTokenizer (some h.config.chatTargetTokens) none
  else trimChatHistory state h.config h.chatTokenizer none none

/-- `_trim_tool_store_eager`. -/
def trimToolStoreEager (h : HistoryController) (state : SessionState) : SessionState :=
  match h.toolBudget with
  | none => state
  | some budget =>
      if !h.config.deployTool || budget == 0 then state
      else trimToolHistory state budget h.toolTokenizer

/-- `_append_chat_message_to_list`. -/
def appendChatMessageToList (h : HistoryController) (messages : List ChatMessage)
    (role content : Text) : List ChatMessage :=
  let normalizedContent := strip content
  match normalizeChatRole role with
  | none => messages
  | some normalizedRole =>
      if normalizedContent.isEmpty || !h.config.deployChat then messages
      else pushChatMessage messages { role := normalizedRole, content := normalizedContent }

/-- `_append_chat_message`. -/
def appendChatMessage (h : HistoryController) (state : SessionState) (role content : Text) :
    SessionState :=
  { state with
    chatHistoryMessages :=
      state.chatHistoryMessages.map (h.appendChatMessageToList · role content) }

/-- `_build_imported_chat_messages`. -/
def buildImportedChatMessages (h : HistoryController) (chatMessages : List ImportedMessage) :
    List ChatMessage :=
  chatMessages.foldl (fun acc msg => h.appendChatMessageToList acc msg.role msg.content) []

/-- `_set_chat_history_store`. -/
def setChatHistoryStore (h : HistoryController) (state : SessionState)
    (chatMessages : List ChatMessage) : SessionState :=
  h.trimChatStoreEager
    { state with chatHistoryMessages := if h.config.deployChat then some chatMessages else none } true

/-- `set_exact_chat_messages`. -/
def setExactChatMessages (h : HistoryController) (state : SessionState)
    (chatMessages : List ChatMessage) : SessionState :=
  { state with chatHistoryMessages := if h.config.deployChat then some chatMessages else none }

/-- `_build_imported_tool_turns`: without tool turns, one is made for every user message. -/
def buildImportedToolTurns (freshId : Nat → TurnId) (normalizedChatMessages : List ChatMessage)
    (toolTurns : Option (List HistoryTurn)) : List HistoryTurn :=
  let sourceTurns := toolTurns.getD
    ((normalizedChatMessages.filter (·.role = .user)).mapIdx fun i msg =>
      { turnId := freshId i, user := msg.content, assistant := [] })
  (sourceTurns.filter fun turn => !(strip turn.user).isEmpty).map fun turn =>
    { turnId := turn.turnId, user := turn.user, assistant := [] }

/-- `_set_tool_history_store`. -/
def setToolHistoryStore (h : HistoryController) (freshId : Nat → TurnId) (state : SessionState)
    (normalizedChatMessages : List ChatMessage) (toolTurns : Option (List HistoryTurn)) :
    SessionState :=
  if !h.config.deployTool then state
  else
    h.trimToolStoreEager
      { state with
        toolHistoryTurns := some (buildImportedToolTurns freshId normalizedChatMessages toolTurns) }

/-- `get_chat_messages`: a copy of the store, and the store brought in step with the
deployment. -/
def getChatMessages (h : HistoryController) (state : SessionState) :
    SessionState × List ChatMessage :=
  let state := h.syncModeStorage state
  (state, chatMessages state)

/-- `get_tool_user_texts`. -/
def getToolUserTexts (h : HistoryController) (state : SessionState) : SessionState × List Text :=
  let state := h.syncModeStorage state
  (state, getUserTexts (toolTurns state))

/-- `get_tool_history_text`. Without a limit the stored texts are joined as they are. -/
def getToolHistoryText (h : HistoryController) (state : SessionState) (maxTokens : Option Int) :
    SessionState × Text :=
  let state := h.syncModeStorage state
  let text :=
    if h.config.deployTool then
      let userTexts := getUserTexts (toolTurns state)
      if userTexts.isEmpty then []
      else
        match maxTokens with
        | none => join ['\n'] userTexts
        | some limit => buildToolHistory userTexts (max 1 limit) h.toolTokenizer .trimLatestTail
    else renderToolHistoryText (toolTurns state) h.config maxTokens h.toolTokenizer
  (state, text)

/-- `set_mode_histories`, without the transcript it returns. -/
def setModeHistories (h : HistoryController) (freshId : Nat → TurnId) (state : SessionState)
    (chatMessages : Option (List ImportedMessage)) (toolTurns : Option (List HistoryTurn)) :
    SessionState :=
  let state := h.syncModeStorage state
  let normalizedChatMessages := h.buildImportedChatMessages (chatMessages.getD [])
  let state := h.setChatHistoryStore state normalizedChatMessages
  h.setToolHistoryStore freshId state normalizedChatMessages toolTurns

/-- `reserve_turn_id`. -/
def reserveTurnId (h : HistoryController) (freshId : TurnId) (chatUserUtt : Text)
    (toolUserUtt : Option Text) : Option TurnId :=
  let toolUser := strip (toolUserUtt.getD chatUserUtt)
  if h.config.deployTool && !toolUser.isEmpty then some freshId else none

/-- `append_tool_turn`: the entry with this id is overwritten, else one is added. -/
def appendToolTurn (h : HistoryController) (freshId : TurnId) (state : SessionState)
    (toolUserUtt : Text) (turnId : Option TurnId) : SessionState :=
  let state := h.syncModeStorage state
  let user := strip toolUserUtt
  if !h.config.deployTool || user.isEmpty then state
  else
    let turns := toolTurns state
    match turns.findIdx? (fun t => some t.turnId = turnId) with
    | some i =>
        -- the entry of a turn that was stored before is overwritten
        h.trimToolStoreEager
          { state with toolHistoryTurns := some (turns.modify i ({ · with user := user })) }
    | none =>
        let newTurnId := turnId.getD freshId
        h.trimToolStoreEager
          { state with
            toolHistoryTurns :=
              some (turns ++ [{ turnId := newTurnId, user := user, assistant := [] }]) }

/-- `append_chat_response`, without the transcript it returns. A blank user text
leaves the store alone. -/
def appendChatResponse (h : HistoryController) (state : SessionState)
    (chatUserUtt assistantText : Text) : SessionState :=
  let state := h.syncModeStorage state
  let user := strip chatUserUtt
  let assistant := strip assistantText
  if user.isEmpty then state
  else
    let state := h.appendChatMessage state Role.user.name user
    let state :=
      if assistant.isEmpty then state else h.appendChatMessage state Role.assistant.name assistant
    h.trimChatStoreEager state false

end HistoryController

end YapInference
