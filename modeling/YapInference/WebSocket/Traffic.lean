import YapInference.Lib.Serving
import YapInference.WebSocket.Wire

/-!
# The traffic of the message loop

The loop as a client sees it: what it is given, and what it makes of it. A message is answered by a
frame or, if all goes well, by a turn, which speaks for itself from then on
(`src/handlers/websocket/message_loop.py`). A start and a message meet the session as it is when
they are worked on, which for a message can be after the turn before it was aborted.
`servicePolicy` says what answers what.
-/

namespace YapInference

open Py Serving

/-- What the loop is given. -/
inductive Ask where
  /-- A text that is no message. -/
  | invalid
  /-- A message, with what `_apply_rate_limit` says of it, and whether the connection has a
  session started. -/
  | message (msg : ClientMessage) (now : ℚ) (admitted started : Bool)

/-- What a start or a message meets. -/
structure Met where
  session : SessionState
  /-- The next id to be drawn. -/
  nextId : Nat

/-- What the loop answers with. -/
inductive Reply where
  | frame (frame : Frame)
  /-- A turn is spawned. -/
  | turn (plan : TurnPlan)

/-- The frame of `_send_turn_error`. -/
def Reply.error (error : TurnError) : Reply := .frame (Conn.errorFrame error.code error.message)

/-- **What answers a message the rate limit lets through**, if anything does: an exception is no
answer. -/
def ClientMessage.answer (deps : Deps) : ClientMessage → Bool → Option Met → Option Reply
  | .ping, _, none => some (.frame .pong)
  | .endSession, _, none => some (.frame (.done 200))
  | .cancel, _, none => some (.frame .cancelled)
  | .start _, true, none => some (.frame (Conn.errorFrame "invalid_message".toList
      "start may only be sent once per connection; use 'message' for subsequent turns.".toList))
  | .start msg, false, some met =>
      match bootstrapStartTurn deps.sh deps.parsing deps.promptText (fun i => met.nextId + i)
          met.session msg with
      | .accepted _ => some (.frame (.done 200))
      | .rejected _ error => some (.error error)
      | .escaped _ _ => none
  | .message _, false, none => some (.frame (Conn.errorFrame "invalid_message".toList
      "no active session; send 'start' first.".toList))
  | .message msg, true, some met =>
      match planMessageTurn deps.sh deps.parsing ⟨met.nextId, met.nextId + 1⟩ met.session msg with
      | .planned _ plan => some (.turn plan)
      | .rejected error => some (.error error)
      | .escaped _ => none
  | _, _, _ => none

/-- What answers what. A `pong` wants no answer. -/
def servicePolicy (deps : Deps) : Policy Ask Met Reply where
  wants
    | .message .pong _ _ _ => false
    | _ => true
  answers
    | .invalid, none, .frame frame => frame.type = .error
    | .message msg _ true started, met, reply => msg.answer deps started met = some reply
    | .message _ _ false _, none, reply => reply = .frame Conn.rateLimitedFrame
    | _, _, _ => False

/-- Does the message limiter count it? -/
def ClientMessage.isTurn : ClientMessage → Bool
  | .start _ | .message _ => true
  | _ => false

/-- Does the cancel limiter? -/
def ClientMessage.isCancel : ClientMessage → Bool
  | .cancel => true
  | _ => false

/-- The frame that is handed over. -/
def Reply.frameType : Event Ask Met Reply → Option FrameType
  | .answer (.frame f) => some f.type
  | .giveUp => some .error
  | _ => none

/-- The turn that is spawned. -/
def Reply.turnPlan : Event Ask Met Reply → Option TurnPlan
  | .answer (.turn plan) => some plan
  | _ => none

/-- When a message of this kind was received, and whether it was let through. -/
def Ask.verdict (kind : ClientMessage → Bool) : Event Ask Met Reply → Option (ℚ × Bool)
  | .ask (.message msg now admitted _) => if kind msg then some (now, admitted) else none
  | _ => none

/-- The frame the handler has sent. -/
def Sent.byHandler (s : Sent) : Option FrameType :=
  match s.sender with
  | .handler => some s.type
  | .task _ => none

namespace Conn

variable {S : Sanitizer}

/-- `_apply_rate_limit`. -/
def admitsMessage (c : Conn S) (now : ℚ) : ClientMessage → Bool
  | .start _ | .message _ => (c.messageLimiter.consume now).2
  | .cancel => (c.cancelLimiter.consume now).2
  | .ping | .pong | .endSession => true

/-- What the loop is given. -/
def asks (c : Conn S) : Label → List (Event Ask Met Reply)
  | .recv msg now => [.ask (.message msg now (c.admitsMessage now msg) c.started)]
  | .recvInvalid _ => [.ask .invalid]
  | _ => []

/-- What is met in a step: a start is worked on at once, and a message unless the turn before it is
aborted first. -/
def meets (c : Conn S) : Label → List (Event Ask Met Reply)
  | .recv (.start msg) now =>
      if c.admitsMessage now (.start msg) && !c.started then [.meet ⟨c.session, c.nextId⟩] else []
  | .recv (.message msg) now =>
      if c.admitsMessage now (.message msg) && c.started && !hasRunningTask c.taskDone c.session then
        [.meet ⟨c.session, c.nextId⟩]
      else []
  | .resume =>
      match c.phase with
      | .abortCleanup (.plan _) =>
          [.meet ⟨cleanupSessionRequests c.session none true, c.nextId⟩]
      | _ => []
  | _ => []

/-- What it comes to. -/
def replies (c : Conn S) : List (Event Ask Met Reply) :=
  match c.phase with
  | .replying frame _ => [.answer (.frame frame)]
  | .tracking _ task => (c.tasks[task]?).toList.map fun t => .answer (.turn t.plan)
  | .replyingInternal => [.giveUp]
  | _ => []

/-- What passes in a step. -/
def passes (c : Conn S) (label : Label) (c' : Conn S) : List (Event Ask Met Reply) :=
  match label with
  | .task _ _ | .watchdog => []
  | label => c.asks label ++ c.meets label ++ c'.replies

/-- What passes in a run. -/
def traffic (deps : Deps) (c : Conn deps.sanitizer) (labels : List Label) :
    List (Event Ask Met Reply) :=
  Lts.outputs (Conn.step deps) passes c labels

end Conn

end YapInference
