import Mathlib.Logic.Function.Basic
import YapInference.WebSocket.Connection
import YapInference.WebSocket.ConnectionHandler

/-!
# The server

All handlers of `handle_websocket_connection` at once, over the one `ConnectionHandler` they share
(`src/handlers/websocket/manager.py`). Each socket has its own handler, which authenticates it,
waits for a slot, accepts it, runs the message loop and gives the slot back; the loop and its
cleanup are the connection of `WebSocket.Connection`, and what happens to the slots is
`WebSocket.ConnectionHandler`.

The steps of different handlers interleave freely. A websocket object belongs to one handler, which
runs once.
-/

namespace YapInference

/-- The awaits of `handle_websocket_connection`, around the message loop. -/
inductive HandlerPhase (S : Sanitizer) where
  /-- No such connection yet. -/
  | absent
  /-- In `authenticate_websocket`. -/
  | authenticating
  /-- In `reject_connection`. -/
  | rejecting
  /-- In `connections.connect`. -/
  | connecting
  /-- In `ws.accept`. -/
  | accepting
  /-- In the `connections.disconnect` of a failed accept. -/
  | acceptFailed
  /-- In the message loop, or in the cleanup after it. -/
  | serving (c : Conn S)
  /-- Returned, or raised, without having served. -/
  | refused

/-- The handlers, and what they share. -/
structure Server (S : Sanitizer) (Socket : Type) where
  admission : Admission Socket
  handlers : Socket → HandlerPhase S

/-- The events the schedule chooses from. -/
inductive ServerLabel (Socket : Type) where
  /-- A client connects. -/
  | arrived (ws : Socket)
  /-- `authenticate_websocket` returned. -/
  | authenticated (ws : Socket) (granted : Bool)
  /-- It raised. -/
  | authRaised (ws : Socket)
  /-- `reject_connection` came back, or raised. -/
  | rejected (ws : Socket)
  /-- `connect` got a permit. -/
  | acquired (ws : Socket)
  /-- `connect` timed out and returned `False`. -/
  | timedOut (ws : Socket)
  /-- `connect` added the socket and returned `True`. -/
  | added (ws : Socket)
  /-- `connect` raised at the lock. -/
  | lockFailed (ws : Socket)
  /-- `ws.accept` came back. -/
  | accepted (ws : Socket)
  /-- `ws.accept` raised. -/
  | acceptRaised (ws : Socket)
  /-- The connection takes a step. -/
  | conn (ws : Socket) (label : Label)
  /-- `disconnect` got the lock. -/
  | removed (ws : Socket)
  /-- `disconnect` releases the permit. -/
  | released (ws : Socket)

/-- Is the handler about to enter the critical section of `disconnect`? -/
def LoopPhase.isDisconnecting : LoopPhase → Bool
  | .disconnecting => true
  | _ => false

namespace Server

variable {S : Sanitizer} {Socket : Type} [DecidableEq Socket]

omit [DecidableEq Socket] in
/-- A server nobody has connected to. -/
def create (S : Sanitizer) (maxConnections : Nat) : Server S Socket where
  admission := { handler := .create maxConnections }
  handlers := fun _ => .absent

/-- A handler goes on. -/
def moves (s : Server S Socket) (ws : Socket) (phase : HandlerPhase S) : Server S Socket :=
  { s with handlers := Function.update s.handlers ws phase }

/-- A handler goes on by a step of the shared `ConnectionHandler`. -/
def calls (s : Server S Socket) (ws : Socket) (l : AdmissionStep Socket) (phase : HandlerPhase S) :
    Option (Server S Socket) :=
  (s.admission.step l).map fun admission => { s with admission := admission }.moves ws phase

/-- The connection of a handler takes a step; when it comes to `connections.disconnect`, the call
is made. -/
def connStep (deps : Deps) (s : Server deps.sanitizer Socket) (ws : Socket)
    (c : Conn deps.sanitizer) (label : Label) : Option (Server deps.sanitizer Socket) :=
  match c.step deps label with
  | none => none
  | some c' =>
      if !c.phase.isDisconnecting && c'.phase.isDisconnecting then
        s.calls ws (.disconnect ws) (.serving c')
      else some (s.moves ws (.serving c'))

/-- **One step of one handler.** -/
def step (deps : Deps) (clientId : Socket → Py.Text) (s : Server deps.sanitizer Socket) :
    ServerLabel Socket → Option (Server deps.sanitizer Socket)
  | .arrived ws =>
      match s.handlers ws with
      | .absent => some (s.moves ws .authenticating)
      | _ => none
  | .authenticated ws granted =>
      match s.handlers ws with
      | .authenticating =>
          if granted then s.calls ws (.connect ws) .connecting else some (s.moves ws .rejecting)
      | _ => none
  | .authRaised ws =>
      match s.handlers ws with
      | .authenticating => some (s.moves ws .refused)
      | _ => none
  | .rejected ws =>
      match s.handlers ws with
      | .rejecting => some (s.moves ws .refused)
      | _ => none
  | .acquired ws =>
      match s.handlers ws with
      | .connecting => s.calls ws (.acquired ws) .connecting
      | _ => none
  | .timedOut ws =>
      match s.handlers ws with
      | .connecting => s.calls ws (.timedOut ws) .rejecting
      | _ => none
  | .added ws =>
      match s.handlers ws with
      | .connecting => s.calls ws (.added ws) .accepting
      | _ => none
  | .lockFailed ws =>
      match s.handlers ws with
      | .connecting => s.calls ws (.lockFailed ws) .refused
      | _ => none
  | .accepted ws =>
      match s.handlers ws with
      | .accepting =>
          some (s.moves ws (.serving (.init deps.sanitizer deps.sh.server (clientId ws))))
      | _ => none
  | .acceptRaised ws =>
      match s.handlers ws with
      | .accepting => s.calls ws (.disconnect ws) .acceptFailed
      | _ => none
  | .conn ws label =>
      match s.handlers ws with
      | .serving c =>
          -- the critical section of `disconnect` is a step of the shared handler
          if c.phase.isDisconnecting && label.isResume then none else s.connStep deps ws c label
      | _ => none
  | .removed ws =>
      match s.handlers ws with
      | .acceptFailed => s.calls ws (.removed ws) .refused
      | .serving c =>
          if c.phase.isDisconnecting then
            (c.step deps .resume).bind fun c' => s.calls ws (.removed ws) (.serving c')
          else none
      | _ => none
  | .released ws => s.calls ws (.released ws) (s.handlers ws)

end Server

end YapInference
