import YapInference.Execution.Controller
import YapInference.WebSocket.Disconnects

/-!
# Supervision of a background turn

`_run_with_supervision` of `src/handlers/websocket/supervision.py`, around the
streaming chain. A cancellation and an expected disconnect end the task quietly;
any other exception is answered with one error frame, whose own failure is suppressed.
-/

namespace YapInference

open Py

/-- What `send_error` puts on the wire for an unexpected failure. -/
def internalErrorFrame : Frame :=
  .error 500 "internal_error".toList "An unexpected server error occurred.".toList

/-- Is this outcome of the operation answered with an error frame? -/
def answersWithError (lower : Lower) : StreamOutcome → Bool
  | .returned _ => false
  | .raised .cancelledError => false
  | .raised (.exc e) => !isExpectedWsDisconnect lower e

/-- Where `_run_with_supervision` is. -/
inductive SupervisionPhase where
  /-- In `await operation`. -/
  | operation
  /-- In `send_error`. -/
  | replying
  /-- In the `finally`, or past it. -/
  | finished
  deriving DecidableEq

/-- A supervised turn. -/
structure SupervisedTurn (S : Sanitizer) where
  turn : ChatTurn S
  phase : SupervisionPhase
  /-- The error frames handed to the socket by the supervisor. -/
  errorFrames : List Frame

namespace SupervisedTurn

variable {S : Sanitizer}

/-- Every frame handed to the socket so far. -/
def attempted (s : SupervisedTurn S) : List Frame := s.turn.run.attempted ++ s.errorFrames

/-- The operation reached its next await, or ended. -/
def afterOperation (lower : Lower) (s : SupervisedTurn S) (turn : ChatTurn S) :
    SupervisedTurn S :=
  match turn.run.phase with
  | .ended outcome =>
      if answersWithError lower outcome then
        { turn := turn, phase := .replying, errorFrames := s.errorFrames ++ [internalErrorFrame] }
      else { s with turn := turn, phase := .finished }
  | _ => { s with turn := turn }

/-- One step, to the next await. -/
def step (lower : Lower) (s : SupervisedTurn S) (event : ChainEvent) : Option (SupervisedTurn S) :=
  match s.phase with
  | .operation => (s.turn.step event).map (s.afterOperation lower)
  | .replying =>
      match event with
      | .sent _ | .cancel => some { s with phase := .finished }
      | _ => none
  | .finished => none

end SupervisedTurn

end YapInference
