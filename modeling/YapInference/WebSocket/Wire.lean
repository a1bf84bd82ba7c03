import YapInference.Lib.Outputs
import YapInference.WebSocket.Connection

/-!
# The wire

What a connection hands to the socket, and what the socket takes. The handler and the background
tasks write to the same socket, and no frame says which turn it belongs to. A frame is handed over
when a send begins and is delivered when the send returns; a send that raises, finds the peer gone
or is cancelled may have handed its frame over all the same.
-/

namespace YapInference

open Py

/-- The `type` of a message to the client. -/
inductive FrameType where
  | token
  | final
  | done
  | error
  | tool
  | cancelled
  | pong
  deriving DecidableEq

/-- The `type` field of a frame. -/
def Frame.type : Frame → FrameType
  | .token _ => .token
  | .final _ _ => .final
  | .done _ => .done
  | .error _ _ _ => .error
  | .tool _ _ => .tool
  | .cancelled => .cancelled
  | .pong => .pong

/-- Who sends. -/
inductive Sender where
  /-- The message loop. -/
  | handler
  | task (id : TaskId)
  deriving DecidableEq

/-- A frame on the wire. -/
structure Sent where
  sender : Sender
  type : FrameType
  deriving DecidableEq

/-- Was it sent by this task? -/
def Sent.isFrom (id : TaskId) (s : Sent) : Bool := s.sender == .task id

/-- What a task is sending. -/
def TaskPhase.sends {S : Sanitizer} : TaskPhase S → Option FrameType
  | .sendingTool _ => some .tool
  | .sendingToolFinal => some .final
  | .sendingToolDone => some .done
  | .sendingFitError | .replying => some .error
  | .streaming turn => turn.run.pendingFrame.map Frame.type
  | .created | .routing | .completing | .finished => none

/-- What the handler is sending. -/
def LoopPhase.sends : LoopPhase → Option FrameType
  | .replying frame _ => some frame.type
  | .replyingInternal => some .error
  | _ => none

namespace Conn

variable {S : Sanitizer}

/-- What a task is sending, by id. -/
def taskSends (c : Conn S) (id : TaskId) : Option FrameType :=
  c.tasks[id]?.bind fun t => t.phase.sends

/-- What a step hands to the socket: it ends at a send that was not there before. -/
def hands (_ : Conn S) (label : Label) (c' : Conn S) : List Sent :=
  match label with
  | .task id _ => (c'.taskSends id).toList.map (Sent.mk (.task id))
  | .watchdog => []
  | _ => c'.phase.sends.toList.map (Sent.mk .handler)

/-- What a step learns to be delivered. -/
def delivers (c : Conn S) (label : Label) (_ : Conn S) : List Sent :=
  match label with
  | .task id (.chain (.sent .ack) _) => (c.taskSends id).toList.map (Sent.mk (.task id))
  | .sent .ack => c.phase.sends.toList.map (Sent.mk .handler)
  | _ => []

/-- Everything a run hands to the socket. -/
def handedOver (deps : Deps) (c : Conn deps.sanitizer) (labels : List Label) : List Sent :=
  Lts.outputs (Conn.step deps) hands c labels

/-- Everything it delivers. -/
def delivered (deps : Deps) (c : Conn deps.sanitizer) (labels : List Label) : List Sent :=
  Lts.outputs (Conn.step deps) delivers c labels

end Conn

end YapInference
