import YapInference.Execution.Executor
import YapInference.Execution.Runner
import YapInference.Messages.Start
import YapInference.Session.Requests
import YapInference.WebSocket.Limits
import YapInference.WebSocket.Supervision

/-!
# One connection

The message loop of `src/handlers/websocket/message_loop.py` inside
`handle_websocket_connection`, and the background tasks its messages spawn. The event
loop runs one of them at a time and switches only at an await, so the connection is a
transition system whose states are the places where everything is suspended: a
`LoopPhase` for the handler, a `TaskPhase` for each task. A label says which await came
back and with what; the step runs the code from there to the next await.

Acquiring the request lock is a step of its own, so that every interleaving around a
critical section is there, and what happens inside it is one of the functions of
`Session.Requests`.
-/

namespace YapInference

open Py

/-! ## What surrounds the code -/

/-- The dependencies of a connection: its session handler, the third-party functions, and
which engines the deployment has. -/
structure Deps where
  sh : SessionHandler
  parsing : NumberParsing
  promptText : PromptText
  sanitizer : Sanitizer
  hasChatEngine : Bool
  hasToolAdapter : Bool

/-- A deployment simple enough to run. -/
def Deps.sample (deployChat deployTool : Bool) : Deps where
  sh := .sample deployChat deployTool
  parsing := noNumbers
  promptText := ⟨id, id⟩
  sanitizer := plainSanitizer
  hasChatEngine := deployChat
  hasToolAdapter := deployTool

/-- A chat deployment that does not limit message rates. -/
def Deps.unlimited : Deps :=
  { Deps.sample true false with
    sh := { SessionHandler.sample true false with
      server := { ServerConfig.shipped with maxMessagesPerWindow := 0 } } }

/-- A client message that passed `parse_client_message`. -/
inductive ClientMessage where
  | start (msg : Dict Text Json)
  | message (msg : Dict Text Json)
  | cancel
  | ping
  | pong
  | endSession

/-! ## Tasks -/

/-- The awaits of a background task. -/
inductive TaskPhase (S : Sanitizer) where
  /-- Created, not yet run. -/
  | created
  /-- In the tool request. -/
  | routing
  /-- Sending the tool frame. -/
  | sendingTool (isTool : Bool)
  /-- Tool-only: sending the `final` frame, then the `done` frame. -/
  | sendingToolFinal
  | sendingToolDone
  /-- Sending `text_too_long`. -/
  | sendingFitError
  /-- In `stream_chat_response`. -/
  | streaming (turn : ChatTurn S)
  /-- The supervisor is sending its error frame. -/
  | replying
  /-- About to enter `complete_request`. -/
  | completing
  | finished

/-- A spawned session task. -/
structure Task (S : Sanitizer) where
  plan : TurnPlan
  phase : TaskPhase S
  /-- `cancel` was called on it at some time. -/
  cancelAsked : Bool
  /-- `cancel` was called and `CancelledError` has not been delivered yet. -/
  cancelPending : Bool
  /-- The streamed response as it was left by its last step, once it has made one. -/
  response : Option StreamRun

namespace Task

variable {S : Sanitizer}

/-- `task.done()`. -/
def isDone (t : Task S) : Bool :=
  match t.phase with
  | .finished => true
  | _ => false

/-- `task.cancel()` of a task that is not done. -/
def cancel (t : Task S) : Task S := { t with cancelAsked := true, cancelPending := true }

/-- Neither finished nor asked to cancel. -/
def isLive (t : Task S) : Bool := !t.isDone && !t.cancelAsked

/-- A task as `create_task` makes it. -/
def create (plan : TurnPlan) : Task S where
  plan := plan
  phase := .created
  cancelAsked := false
  cancelPending := false
  response := none

end Task

/-- What an await of a task comes back with. The clock is read when a stream starts. -/
inductive TaskEvent where
  /-- The event loop runs the task for the first time. -/
  | run (now : ℚ)
  /-- The tool request decided, or timed out. -/
  | toolDecision (isTool : Bool)
  | toolFailed (e : Exc)
  /-- An await of the streaming chain, or of any other send. -/
  | chain (event : ChainEvent) (now : ℚ)
  /-- The lock of `complete_request` is acquired. -/
  | complete

/-! ## The handler -/

/-- What the loop does when the reply it is sending has been sent. -/
inductive AfterReply where
  /-- `continue`. -/
  | continue
  /-- Return this as the new `started` flag. -/
  | setStarted (started : Bool)
  /-- A start returns `True`. -/
  | startAccepted
  /-- Close with 1008 and return this. -/
  | closeThenSet (started : Bool)
  /-- `end`: close, suppressing exceptions, and leave the loop. -/
  | endSession
  deriving DecidableEq

/-- What follows `abort_session_requests`. -/
inductive AfterAbort where
  /-- A message is planned. -/
  | plan (msg : Dict Text Json)
  /-- `handle_cancel_message` confirms. -/
  | confirmCancel
  /-- `_cleanup_session` marks the session closed. -/
  | markClosed

/-- The awaits of `handle_websocket_connection`. -/
inductive LoopPhase where
  /-- In `ws.receive_text`. -/
  | receiving
  /-- In the send of a reply. -/
  | replying (frame : Frame) (next : AfterReply)
  /-- In `ws.close` of a rejected message. -/
  | closing (started : Bool)
  /-- In `ws.close` of an `end` message. -/
  | closingEnd
  /-- `abort_session_requests`, before the first critical section. The id was read on
  entry. -/
  | abortLock (activeRequestId : Option RequestId) (next : AfterAbort)
  /-- In `engine.abort`. -/
  | abortEngine (next : AfterAbort)
  /-- Before the second critical section. -/
  | abortCleanup (next : AfterAbort)
  /-- `begin_request`, before its critical section. -/
  | beginning (plan : TurnPlan)
  /-- `track_request_task`, before its critical section. -/
  | tracking (requestId : RequestId) (task : TaskId)
  /-- In `send_error` of an unexpected exception. -/
  | replyingInternal
  /-- In `lifecycle.stop`; the flag is whether `state` is bound. -/
  | stopping (hasState : Bool)
  /-- `mark_session_closed`, before its critical section. -/
  | closeLock
  /-- `connections.disconnect`, before its critical section. -/
  | disconnecting
  | returned

/-- What an observer of the loop writes down. -/
inductive LoopEvent where
  /-- A start ran; this is the chat history it left. -/
  | startHandled (history : List ChatMessage)
  /-- A start was refused as a repeated one. -/
  | startRefused
  /-- A message passed the `started` check. -/
  | turnDispatched
  /-- A message was planned. -/
  | turnPlanned (msg : Dict Text Json) (plan : TurnPlan)
  /-- A start returned `True`. -/
  | startAccepted (msg : Dict Text Json)
  /-- The loop was left by an exception. -/
  | loopRaised (e : Exc)

/-- The state of one connection. -/
structure Conn (S : Sanitizer) where
  session : SessionState
  phase : LoopPhase
  started : Bool
  messageLimiter : SlidingWindowRateLimiter
  cancelLimiter : SlidingWindowRateLimiter
  /-- `lifecycle.idle_timed_out()`. -/
  idleTimedOut : Bool
  /-- The spawned tasks, in the order they were created. -/
  tasks : List (Task S)
  /-- The next identifier `uuid4` will mint. -/
  nextId : Nat
  /-- The start message being answered, while its `done` frame is in flight. -/
  starting : Option (Dict Text Json)
  /-- The websocket is in `active_connections`. -/
  slotHeld : Bool
  /-- How often the connection slot was released. -/
  slotReleases : Nat
  log : List LoopEvent

/-- The events the schedule chooses from. -/
inductive Label where
  /-- `receive_text` returned a message that parsed. -/
  | recv (msg : ClientMessage) (now : ℚ)
  /-- It returned one that did not; this is the text of the `ValueError`. -/
  | recvInvalid (message : Text)
  /-- `receive_text` raised. -/
  | recvFailed (e : Exc)
  /-- Parsing raised something other than `ValueError`. -/
  | parseFailed (e : Exc)
  /-- The handler's send came back. -/
  | sent (result : SendResult)
  /-- `ws.close` came back. -/
  | closed (failure : Option Exc)
  /-- `engine.abort` came back; an exception is suppressed. -/
  | engineAborted (failure : Option Exc)
  /-- A lock was acquired, or `lifecycle.stop` returned. -/
  | resume
  /-- The watchdog declared the connection idle. -/
  | watchdog
  /-- A task's await came back. -/
  | task (id : TaskId) (event : TaskEvent)

namespace Conn

variable {S : Sanitizer}

/-- An admitted connection entering the loop. -/
def init (S : Sanitizer) (cfg : ServerConfig) (clientId : Text) : Conn S where
  session := .fresh clientId
  phase := .receiving
  started := false
  messageLimiter := .create cfg.maxMessagesPerWindow cfg.rateLimitWindow
  cancelLimiter := .create cfg.maxCancelsPerWindow cfg.rateLimitWindow
  idleTimedOut := false
  tasks := []
  nextId := 0
  starting := none
  slotHeld := true
  slotReleases := 0
  log := []

/-- `task.done()` by id. -/
def taskDone (c : Conn S) (id : TaskId) : Bool := (c.tasks[id]?.map Task.isDone).getD true

/-! ### Leaving the loop -/

/-- `_finalize_connection`, up to `lifecycle.stop`. -/
def finalize (c : Conn S) (hasState : Bool) : Conn S := { c with phase := .stopping hasState }

/-- `run_message_loop` returned its state. -/
def leaveLoop (c : Conn S) : Conn S := c.finalize true

/-- An exception left `run_message_loop`: `state` stays unbound, and an unexpected one is
answered. -/
def raiseLoop (lower : Lower) (c : Conn S) (e : Exc) : Conn S :=
  let c := { c with log := c.log ++ [LoopEvent.loopRaised e] }
  if c.idleTimedOut || isExpectedWsDisconnect lower e then c.finalize false
  else { c with phase := .replyingInternal }

/-! ### Handling a message -/

/-- `send_error` with the status of its code. -/
def errorFrame (code message : Text) : Frame :=
  .error (if code = "internal_error".toList then 500
    else if code = "rate_limited".toList then 429 else 400) code message

def reply (c : Conn S) (frame : Frame) (next : AfterReply) : Conn S :=
  { c with phase := .replying frame next }

/-- `_send_turn_error`, then `started` is set. -/
def replyTurnError (c : Conn S) (error : TurnError) (started : Bool) : Conn S :=
  c.reply (errorFrame error.code error.message)
    (if error.close then .closeThenSet started else .setStarted started)

/-- `abort_session_requests`, up to its first critical section. -/
def abortSessionRequests (c : Conn S) (next : AfterAbort) : Conn S :=
  { c with phase := .abortLock c.session.activeRequestId next }

/-- `handle_turn_message` for a message: plan it, and go on to `begin_request`. -/
def planTurn (deps : Deps) (c : Conn S) (msg : Dict Text Json) : Conn S :=
  let ids : PlanIds := { requestId := c.nextId, turnId := c.nextId + 1 }
  let c := { c with nextId := c.nextId + 2 }
  match planMessageTurn deps.sh deps.parsing ids c.session msg with
  | .rejected error => c.replyTurnError error true
  | .escaped e => c.raiseLoop deps.sh.lower e
  | .planned session plan =>
      { c with
        session := session
        phase := .beginning plan
        log := c.log ++ [LoopEvent.turnPlanned msg plan] }

/-- The items of a start's `history`, each of which may draw an id. -/
def historyLength (msg : Dict Text Json) : Nat :=
  match Json.get? msg "history".toList with
  | some (.list items) => items.length
  | _ => 0

/-- `_handle_turn_command` for a start. -/
def handleStart (deps : Deps) (c : Conn S) (msg : Dict Text Json) : Conn S :=
  if c.started then
    { c with log := c.log ++ [LoopEvent.startRefused] }.reply
      (errorFrame "invalid_message".toList
        "start may only be sent once per connection; use 'message' for subsequent turns.".toList)
      (.setStarted true)
  else
    let freshId := fun i => c.nextId + i
    let c := { c with nextId := c.nextId + historyLength msg }
    let handled := fun (session : SessionState) =>
      { c with
        session := session
        log := c.log ++ [LoopEvent.startHandled (HistoryController.chatMessages session)] }
    match bootstrapStartTurn deps.sh deps.parsing deps.promptText freshId c.session msg with
    | .rejected session error => (handled session).replyTurnError error false
    | .escaped session e => (handled session).raiseLoop deps.sh.lower e
    | .accepted session =>
        { handled session with starting := some msg }.reply (.done 200) .startAccepted

/-- `_handle_turn_command` for a message. -/
def handleMessage (deps : Deps) (c : Conn S) (msg : Dict Text Json) : Conn S :=
  if !c.started then
    c.reply (errorFrame "invalid_message".toList
      "no active session; send 'start' first.".toList) (.setStarted false)
  else
    let c := { c with log := c.log ++ [LoopEvent.turnDispatched] }
    if hasRunningTask c.taskDone c.session then c.abortSessionRequests (.plan msg)
    else c.planTurn deps msg

/-- The frame of `consume_limiter`. -/
def rateLimitedFrame : Frame :=
  errorFrame "rate_limited".toList "Rate limit exceeded. Try again shortly.".toList

/-- `_apply_rate_limit`, then the dispatch by message type. -/
def handle (deps : Deps) (c : Conn S) (msg : ClientMessage) (now : ℚ) : Conn S :=
  match msg with
  | .ping => c.reply .pong .continue
  | .pong => c
  | .endSession => c.reply (.done 200) .endSession
  | .cancel =>
      let (limiter, admitted) := c.cancelLimiter.consume now
      let c := { c with cancelLimiter := limiter }
      if admitted then c.abortSessionRequests .confirmCancel
      else c.reply rateLimitedFrame .continue
  | .start msg =>
      let (limiter, admitted) := c.messageLimiter.consume now
      let c := { c with messageLimiter := limiter }
      if admitted then c.handleStart deps msg else c.reply rateLimitedFrame .continue
  | .message msg =>
      let (limiter, admitted) := c.messageLimiter.consume now
      let c := { c with messageLimiter := limiter }
      if admitted then c.handleMessage deps msg else c.reply rateLimitedFrame .continue

/-! ### Between awaits -/

/-- The reply was sent, or the peer was found gone, which `safe_send_flat` reports and no
caller here looks at. -/
def afterReply (c : Conn S) : AfterReply → Conn S
  | .continue => { c with phase := .receiving }
  | .setStarted started => { c with phase := .receiving, started := started }
  | .startAccepted =>
      { c with
        phase := .receiving
        started := true
        starting := none
        log := c.log ++ c.starting.toList.map LoopEvent.startAccepted }
  | .closeThenSet started => { c with phase := .closing started }
  | .endSession => { c with phase := .closingEnd }

/-- The first critical section of `abort_session_requests`. -/
def cancelSection (c : Conn S) : Conn S :=
  { c with
    session := cancelSessionRequests c.session
    tasks := match taskToCancel c.taskDone c.session with
      | some id => c.tasks.modify id Task.cancel
      | none => c.tasks }

/-- What follows the second one. -/
def afterAbort (deps : Deps) (c : Conn S) : AfterAbort → Conn S
  | .plan msg => c.planTurn deps msg
  | .confirmCancel => c.reply .cancelled (.setStarted true)
  | .markClosed => { c with phase := .closeLock }

/-- `spawn_session_task`, from the critical section of `begin_request`. -/
def beginSection (c : Conn S) (plan : TurnPlan) : Conn S :=
  let (session, started) := beginSessionRequest c.session plan.requestId
  -- the session was closed in the meantime, and the message is dropped
  if !started then { c with session := session, phase := .receiving, started := true }
  else
    { c with
      session := session
      phase := .tracking plan.requestId c.tasks.length
      tasks := c.tasks ++ [.create plan] }

/-- `connections.disconnect`: the slot is released if the websocket is a member. -/
def disconnectSection (c : Conn S) : Conn S :=
  { c with
    slotHeld := false
    slotReleases := if c.slotHeld then c.slotReleases + 1 else c.slotReleases
    phase := .returned }

/-! ### Running a task -/

/-- The operation of a task ended: complete, or answer first. -/
def phaseOfOutcome (lower : Lower) (outcome : StreamOutcome) : TaskPhase S :=
  if answersWithError lower outcome then .replying else .completing

/-- `_run_fitted_chat_turn`, or the same part of `_run_chat_only`, up to the first await. -/
def startStream (deps : Deps) (session : SessionState) (plan : TurnPlan) (isTool : Bool)
    (now : ℚ) : SessionState × TaskPhase deps.sanitizer :=
  let (session, chatUserUtt) := chatUserUttForPlan deps.sh session plan isTool
  match deps.sh.chatTokenizer with
  | none => (session, .replying)
  | some tok =>
      match fitPlanPrompt deps.sh tok plan chatUserUtt with
      | .error (.valueError _) => (session, .sendingFitError)
      | .error e => (session, phaseOfOutcome deps.sh.lower (.raised (.exc e)))
      | .ok fit =>
          let turn := ChatTurn.start deps.sanitizer [] deps.sh.server.streamFlushMs now
            (sanitizesOutput deps.sh.server plan.samplingOverrides)
          (session, .streaming { turn with run := streamChatTurn deps.sh session fit })

/-- What the tool request is given came out of the tool history, or raised. -/
def routeTool (deps : Deps) (session : SessionState) :
    Except Exc (SessionState × Text × Text) → SessionState × TaskPhase deps.sanitizer
  | .ok (session, _) => (session, .routing)
  | .error e => (session, phaseOfOutcome deps.sh.lower (.raised (.exc e)))

/-- `dispatch_execution`, up to its first await. -/
def dispatchExecution (deps : Deps) (freshId : TurnId) (session : SessionState) (plan : TurnPlan)
    (now : ℚ) : SessionState × TaskPhase deps.sanitizer :=
  let raise := fun (message : String) =>
    (session, phaseOfOutcome deps.sh.lower (.raised (.exc (.runtimeError message.toList))))
  if plan.deployChat && plan.deployTool then
    if !deps.hasChatEngine || !deps.hasToolAdapter || deps.sh.chatTokenizer.isNone then
      raise "Sequential execution requires chat engine, chat tokenizer, and tool adapter"
    else
      routeTool deps session
        (prepareToolTurnForExecution deps.sh freshId session (plan.chatUserUtt.getD [])
          plan.toolUserUtt plan.historyTurnId)
  else if plan.deployChat then
    if !deps.hasChatEngine || deps.sh.chatTokenizer.isNone then
      raise "Chat-only execution requires chat engine and chat tokenizer"
    else startStream deps session plan false now
  else if plan.deployTool then
    if !deps.hasToolAdapter then raise "Tool-only execution requires tool adapter"
    else
      let toolUser := plan.toolUserUtt.getD []
      routeTool deps session
        (deps.sh.prepareToolTurn freshId session
          (if toolUser.isEmpty then plan.chatUserUtt.getD [] else toolUser) plan.historyTurnId)
  else (session, .completing)

/-- What a send came back with, when the event is about a send. -/
def sendResult : ChainEvent → Option SendResult
  | .sent .cancelled => none
  | .sent result => some result
  | .cancel => some .cancelled
  | _ => none

/-- A send of the task came back. Nobody looks at its result; an exception unwinds. -/
def afterTaskSend (deps : Deps) (session : SessionState) (event : ChainEvent)
    (next : SessionState × TaskPhase deps.sanitizer) :
    Option (SessionState × TaskPhase deps.sanitizer) :=
  (sendResult event).map fun result =>
    match safeSendText result with
    | .ok _ => next
    | .error r => (session, phaseOfOutcome deps.sh.lower (.raised r))

/-- The cancel check of a request is `is_request_cancelled` at the moment of the output. -/
def withCancelCheck (session : SessionState) (requestId : RequestId) : ChainEvent → ChainEvent
  | .output text _ now => .output text (isRequestCancelled session requestId) now
  | event => event

/-- The history commits a step of the chain made. -/
def newAppends (before after : StreamRun) : List (Text × Text) :=
  after.appends.drop before.appends.length

/-- Carry out history commits. -/
def commitAppends (sh : SessionHandler) (session : SessionState) (appends : List (Text × Text)) :
    SessionState :=
  appends.foldl (fun s a => sh.appendChatTurn s a.1 a.2) session

/-- Where a task is when its chain has reached its next await, or ended. -/
def phaseOfTurn (lower : Lower) (turn : ChatTurn S) : TaskPhase S :=
  match turn.run.phase with
  | .ended outcome => phaseOfOutcome lower outcome
  | _ => .streaming turn

/-- A task that is not streaming, from one await to the next: what it does to the session, and
where it waits then. A task cancelled before its first step never enters the coroutine. -/
def runTask (deps : Deps) (freshId : TurnId) (session : SessionState) (plan : TurnPlan) :
    TaskPhase deps.sanitizer → TaskEvent → Option (SessionState × TaskPhase deps.sanitizer)
  | .created, .run now => some (dispatchExecution deps freshId session plan now)
  | .created, .chain .cancel _ => some (session, .finished)
  | .routing, .toolDecision isTool => some (session, .sendingTool isTool)
  | .routing, .toolFailed e =>
      some (session, phaseOfOutcome deps.sh.lower (.raised (.exc e)))
  | .routing, .chain .cancel _ => some (session, .completing)
  | .sendingTool isTool, .chain event now =>
      afterTaskSend deps session event
        (if plan.deployChat then startStream deps session plan isTool now
          else (session, .sendingToolFinal))
  | .sendingToolFinal, .chain event _ =>
      afterTaskSend deps session event (session, .sendingToolDone)
  | .sendingToolDone, .chain event _ => afterTaskSend deps session event (session, .completing)
  | .sendingFitError, .chain event _ => afterTaskSend deps session event (session, .completing)
  | .replying, .chain event _ => (sendResult event).map fun _ => (session, .completing)
  | .completing, .complete => some (completeRequest session plan.requestId, .finished)
  -- cancelled at the lock: the request is left uncompleted
  | .completing, .chain .cancel _ => some (session, .finished)
  | _, _ => none

/-- May the event be delivered? A cancellation that was asked for comes before anything else.
One that was not can only be the stream's timeout expiring while the task is in a send. -/
def admits (t : Task S) : TaskEvent → Bool
  | .chain .cancel _ =>
      t.cancelPending ||
        match t.phase with
        | .streaming turn => match turn.phase with
            | .consuming _ => true
            | _ => false
        | _ => false
  | _ => !t.cancelPending

/-- A task takes a step. -/
def taskStep (deps : Deps) (c : Conn deps.sanitizer) (id : TaskId) (event : TaskEvent) :
    Option (Conn deps.sanitizer) :=
  match c.tasks[id]? with
  | none => none
  | some t =>
      if !admits t event then none
      else
        match t.phase, event with
        | .streaming turn, .chain event _ =>
            (turn.step (withCancelCheck c.session t.plan.requestId event)).map fun turn' =>
              { c with
                session := commitAppends deps.sh c.session (newAppends turn.run turn'.run)
                tasks := c.tasks.set id
                  { t with
                    phase := phaseOfTurn deps.sh.lower turn'
                    cancelPending := false
                    response := some turn'.run } }
        | phase, event =>
            (runTask deps c.nextId c.session t.plan phase event).map fun (session, phase) =>
              { c with
                session := session
                nextId := c.nextId + 1
                tasks := c.tasks.set id { t with phase := phase, cancelPending := false } }

/-! ### The handler between awaits -/

/-- The handler takes a step. -/
def loopStep (deps : Deps) (c : Conn deps.sanitizer) (label : Label) :
    Option (Conn deps.sanitizer) :=
  match c.phase, label with
  | .receiving, .recv msg now => some (c.handle deps msg now)
  | .receiving, .recvInvalid message =>
      some (c.reply (errorFrame "invalid_message".toList message) .continue)
  | .receiving, .recvFailed e =>
      if c.idleTimedOut || isExpectedWsDisconnect deps.sh.lower e then some c.leaveLoop
      else some (c.raiseLoop deps.sh.lower e)
  | .receiving, .parseFailed e => some (c.raiseLoop deps.sh.lower e)
  | .replying _ next, .sent result =>
      match safeSendText result with
      | .ok _ => some (c.afterReply next)
      | .error (.exc e) => some (c.raiseLoop deps.sh.lower e)
      | .error .cancelledError => none
  | .replyingInternal, .sent result => if result = .cancelled then none else some (c.finalize false)
  | .closing started, .closed none => some { c with phase := .receiving, started := started }
  | .closing _, .closed (some e) => some (c.raiseLoop deps.sh.lower e)
  | .closingEnd, .closed _ => some c.leaveLoop
  | .abortLock activeRequestId next, .resume =>
      let c := c.cancelSection
      -- the engine is told of the request that was active on entry, if there was one
      if activeRequestId.isSome && deps.hasChatEngine then some { c with phase := .abortEngine next }
      else some { c with phase := .abortCleanup next }
  | .abortEngine next, .engineAborted _ => some { c with phase := .abortCleanup next }
  | .abortCleanup next, .resume =>
      some ({ c with session := cleanupSessionRequests c.session none true }.afterAbort deps next)
  | .beginning plan, .resume => some (c.beginSection plan)
  -- the task may have run, and even finished, before it is attached
  | .tracking requestId task, .resume =>
      some { c with
        session := attachRequestTask c.session requestId task
        phase := .receiving
        started := true }
  | .stopping true, .resume => some (c.abortSessionRequests .markClosed)
  | .stopping false, .resume => some { c with phase := .disconnecting }
  | .closeLock, .resume =>
      some { c with session := closeSessionRequests c.session, phase := .disconnecting }
  | .disconnecting, .resume => some c.disconnectSection
  | _, _ => none

/-- **One step of a connection**: of the watchdog, of a task or of the handler. -/
def step (deps : Deps) (c : Conn deps.sanitizer) (label : Label) : Option (Conn deps.sanitizer) :=
  match label with
  | .watchdog => some { c with idleTimedOut := true }
  | .task id event => c.taskStep deps id event
  | label => c.loopStep deps label

end Conn

/-- Is it the acquisition of a lock, or the return of `lifecycle.stop`? -/
def Label.isResume : Label → Bool
  | .resume => true
  | _ => false

end YapInference
