import YapInference.WebSocket.Auth
import YapInference.WebSocket.Server

/-!
# The gate

The handlers of the server with the authentication they begin with (`_prepare_connection`,
`src/handlers/websocket/manager.py`). All of them share one store of recent failures and one clock,
which does not go back. `authenticate_websocket` awaits nothing, so a handshake is one step: it
looks at the store, leaves its mark there, and its answer is what the handler goes on with.
-/

namespace YapInference

/-- The server, the failures its handlers remember, and the last reading of the clock. -/
structure Gate (S : Sanitizer) (Socket : Type) where
  server : Server S Socket
  failures : AuthFailures
  clock : ℚ

/-- The events the schedule chooses from. -/
inductive GateLabel (Socket : Type) where
  /-- `authenticate_websocket` runs, with its two readings of the clock. -/
  | handshake (ws : Socket) (now recordedAt : ℚ)
  /-- Anything else. -/
  | server (l : ServerLabel Socket)

/-- How `authenticate_websocket` comes back to the handler. -/
def AuthOutcome.comesBack {Socket : Type} (ws : Socket) (outcome : AuthOutcome) :
    ServerLabel Socket :=
  match outcome.websocketResult with
  | .ok granted => .authenticated ws granted
  | .error _ => .authRaised ws

/-- Does `authenticate_websocket` come back? -/
def ServerLabel.authenticates {Socket : Type} : ServerLabel Socket → Bool
  | .authenticated _ _ | .authRaised _ => true
  | _ => false

namespace Gate

variable {Socket : Type} [DecidableEq Socket]

omit [DecidableEq Socket] in
/-- A server nobody has connected to. -/
def create (S : Sanitizer) (maxConnections : Nat) (clock : ℚ) : Gate S Socket where
  server := .create S maxConnections
  failures := []
  clock := clock

/-- **One step of one handler**; nothing but a handshake answers for `authenticate_websocket`. -/
def step (deps : Deps) (config : AuthRuntimeConfig) (request : Socket → AuthRequest)
    (clientId : Socket → Py.Text) (g : Gate deps.sanitizer Socket) :
    GateLabel Socket → Option (Gate deps.sanitizer Socket)
  | .handshake ws now recordedAt =>
      if g.clock ≤ now ∧ now ≤ recordedAt then
        let (failures, outcome) :=
          authenticateWebsocket deps.sh.lower config g.failures (request ws) now recordedAt
        (g.server.step deps clientId (outcome.comesBack ws)).map fun server =>
          { server := server, failures := failures, clock := recordedAt }
      else none
  | .server l =>
      if l.authenticates then none
      else (g.server.step deps clientId l).map fun server => { g with server := server }

end Gate

end YapInference
