import YapInference.Lib.Value

/-!
# Session state and the values that travel with it

The dataclasses of `src/state`, and the exceptions the serving path distinguishes.

Identifiers minted with `uuid4` are natural numbers: only their equality is ever
observed, and a run draws fresh ones from a counter. `request_lock` is not a
field. Every critical section it guards is free of suspension points, so the lock
is never held at a switch; what it adds is a possible switch *before* each section,
and that is a step of its own in the connection model.
-/

namespace YapInference

open Py

/-! ## Exceptions -/

/-- The exceptions that reach a handler of the serving path, by the class it tests. -/
inductive Exc where
  /-- Starlette's signal that the peer is gone. -/
  | webSocketDisconnect
  /-- `websockets.exceptions.ConnectionClosed`. -/
  | connectionClosed
  | connectionResetError
  | brokenPipeError
  | eofError
  | brokenResourceError
  | closedResourceError
  | endOfStream
  | runtimeError (message : Text)
  | valueError (message : Text)
  | typeError (message : Text)
  | overflowError
  | timeoutError
  /-- `StreamCancelledError`: the cooperative cancel check said stop. -/
  | streamCancelledError
  /-- `ValidationError(error_code, message)`. -/
  | validationError (errorCode message : Text)
  /-- Anything else that derives from `Exception`. -/
  | other (name : Text)
  deriving DecidableEq

/-- What unwinds a coroutine: `asyncio.CancelledError` is not an `Exception`. -/
inductive Raised where
  | cancelledError
  | exc (e : Exc)
  deriving DecidableEq

/-! ## Messages and turns -/

inductive Role where
  | user
  | assistant
  deriving DecidableEq

/-- One stored chat-history message. -/
structure ChatMessage where
  role : Role
  content : Text
  deriving DecidableEq

abbrev TurnId := Nat
abbrev RequestId := Nat
abbrev TaskId := Nat

/-- One stored tool-history entry. -/
structure HistoryTurn where
  turnId : TurnId
  user : Text
  assistant : Text
  deriving DecidableEq

/-! ## Sampling values -/

/-- The keys of a sampling-override dictionary. -/
inductive SamplingField where
  | temperature
  | topP
  | topK
  | minP
  | repetitionPenalty
  | presencePenalty
  | frequencyPenalty
  | sanitizeOutput
  deriving DecidableEq

inductive SamplingValue where
  | float (x : PyFloat)
  | int (n : Int)
  | bool (b : Bool)
  deriving DecidableEq

abbrev SamplingOverrides := Dict SamplingField SamplingValue

/-- Has the value the type of the field? `top_k` is an `int`, `sanitize_output` a `bool`, the
others are floats. -/
def SamplingValue.fits : SamplingValue → SamplingField → Bool
  | .float _, field => field != .topK && field != .sanitizeOutput
  | .int _, field => field == .topK
  | .bool _, field => field == .sanitizeOutput

/-! ## The session -/

inductive LifecycleState where
  | idle
  | running
  | cancelling
  | closed
  deriving DecidableEq

/--
`SessionState.meta`, with the keys some modelled function reads. The dictionary is
created with `client_id` in it, so it is never empty; every other key starts absent
and is read with `.get`, which does not tell an absent key from a stored `None`.
-/
structure SessionMeta where
  clientId : Text
  chatGender : Option Text
  chatPersonality : Option Text
  chatPrompt : Option Text
  chatSampling : Option SamplingOverrides
  checkScreenPrefix : Option Text
  screenCheckedPrefix : Option Text
  deriving DecidableEq

/-- `not state.meta`. -/
def SessionMeta.isEmpty (_ : SessionMeta) : Bool := false

/-- All mutable data of one connection's session. -/
structure SessionState where
  metadata : SessionMeta
  chatHistoryMessages : Option (List ChatMessage)
  toolHistoryTurns : Option (List HistoryTurn)
  activeRequestTask : Option TaskId
  activeRequestId : Option RequestId
  lifecycleState : LifecycleState
  cancelRequested : Bool
  checkScreenPrefixTokens : Nat
  screenCheckedPrefixTokens : Nat
  screenFollowupPending : Bool
  deriving DecidableEq

/-- `SessionState(meta={"client_id": client_id})`. -/
def SessionState.fresh (clientId : Text) : SessionState where
  metadata := {
    clientId := clientId
    chatGender := none
    chatPersonality := none
    chatPrompt := none
    chatSampling := none
    checkScreenPrefix := none
    screenCheckedPrefix := none }
  chatHistoryMessages := none
  toolHistoryTurns := none
  activeRequestTask := none
  activeRequestId := none
  lifecycleState := .idle
  cancelRequested := false
  checkScreenPrefixTokens := 0
  screenCheckedPrefixTokens := 0
  screenFollowupPending := false

/-- A validated plan for one message turn. The session it carries in the source is
the connection's own and is passed separately here. -/
structure TurnPlan where
  requestId : RequestId
  staticPrefix : Text
  runtimeText : Text
  historyMessages : List ChatMessage
  deployChat : Bool
  deployTool : Bool
  chatUserUtt : Option Text
  toolUserUtt : Option Text
  historyTurnId : Option TurnId
  samplingOverrides : Option SamplingOverrides
  applyScreenCheckedPrefix : Bool
  deriving DecidableEq

/-- `_ChatStreamState`. -/
structure ChatStreamState where
  finalText : Text
  textVisible : Bool
  interrupted : Bool
  deriving DecidableEq

/-! ## Frames -/

/-- The flat messages the server sends. -/
inductive Frame where
  | token (text : Text)
  | final (status : Nat) (text : Text)
  | done (status : Nat)
  | error (status : Nat) (code message : Text)
  | tool (status : Nat) (isTool : Bool)
  | cancelled
  | pong
  deriving DecidableEq

/-- How `ws.send_text` ends. -/
inductive SendResult where
  /-- The frame was handed to the transport. -/
  | ack
  /-- `WebSocketDisconnect`, which `safe_send_text` turns into `False`. -/
  | gone
  /-- Any other exception. -/
  | failed (e : Exc)
  /-- `CancelledError` delivered at the await. -/
  | cancelled
  deriving DecidableEq

end YapInference
