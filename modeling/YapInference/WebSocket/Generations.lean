import YapInference.Engines.Trt
import YapInference.WebSocket.Server

/-!
# The server and its engine

All handlers at once, as in `WebSocket.Server`, over the one `TRTEngine` whose streams their turns
pull and whose `abort` they call (`_stream_with_timeout` of `src/execution/chat/controller.py`,
`abort_session_requests` of `src/handlers/session/manager.py`). A request id is a `uuid4`, so two
connections never draw the same one: here a socket and its own id.

What an exception does to the stream under it depends on where it strikes. Thrown into an await of
the engine's generator it unwinds through its `finally`. Anywhere else the generator is suspended at
a `yield` and is only dropped; Python closes it at some time after.
-/

namespace YapInference

/-! ## The calls of a turn -/

/-- The engine calls of the chain between two awaits, by where it was and where it is. -/
def chainCalls (phase : ChainPhase) (event : ChainEvent) (phase' : ChainPhase) : List EngineCall :=
  (match phase, event with
    | .engine, .output _ _ _ => []
    -- the generator ended, or what ended the await unwound through it
    | .engine, _ => [.close]
    | _, _ => []) ++
  match phase' with
    | .aborting _ => [.abort]
    | _ => []

namespace TaskPhase

variable {S : Sanitizer}

/-- Where the chain of a task is. -/
def chain : TaskPhase S → ChainPhase
  | .streaming turn => turn.phase
  | _ => .over

/-- Does the task still hold the engine's generator? -/
def holdsStream (phase : TaskPhase S) : Bool :=
  match phase.chain with
  | .engine | .aborting _ | .consuming .engine => true
  | _ => false

/-- The engine calls of a task between two awaits. -/
def engineCalls (phase : TaskPhase S) (event : TaskEvent) (phase' : TaskPhase S) :
    List EngineCall :=
  match phase, event, phase' with
  | .streaming turn, .chain event _, phase' => chainCalls turn.phase event phase'.chain
  | _, _, .streaming _ => [.generate]
  | _, _, _ => []

end TaskPhase

/-- The engine calls of a connection between two awaits, by the request they are for. -/
def Conn.engineCalls (deps : Deps) (c : Conn deps.sanitizer) (label : Label)
    (c' : Conn deps.sanitizer) : List (RequestId × EngineCall) :=
  match label with
  | .task id event =>
      match c.tasks[id]?, c'.tasks[id]? with
      | some t, some t' => (t.phase.engineCalls event t'.phase).map (t.plan.requestId, ·)
      | _, _ => []
  | .resume =>
      match c.phase with
      -- `abort_session_requests`, once its first critical section is over
      | .abortLock (some requestId) _ => if deps.hasChatEngine then [(requestId, .abort)] else []
      | _ => []
  | _ => []

/-! ## The system -/

/-- The server and its engine. -/
structure Generations (S : Sanitizer) (Socket : Type) where
  server : Server S Socket
  engine : TRTEngine (Socket × RequestId)

/-- The events the schedule chooses from. -/
inductive GenerationsLabel (Socket : Type) where
  /-- A step of the server, with what `generate_async` returns in its course. -/
  | server (l : ServerLabel Socket) (generated : Option GenerationResult)
  /-- Python closes a generator that was dropped. -/
  | finalized (ws : Socket) (id : TaskId)
  /-- `shutdown_engine`. -/
  | shutdown

namespace Generations

variable {Socket : Type} [DecidableEq Socket]

omit [DecidableEq Socket] in
/-- A server nobody has connected to, and an engine nothing was asked of. -/
def create (S : Sanitizer) (maxConnections : Nat) (hasExecutor : Bool) : Generations S Socket where
  server := .create S maxConnections
  engine := { isShutdown := false, hasExecutor := hasExecutor, inflight := [] }

omit [DecidableEq Socket] in
/-- The engine calls of a step of the server. -/
def serverCalls (deps : Deps) (s : Server deps.sanitizer Socket) (l : ServerLabel Socket)
    (s' : Server deps.sanitizer Socket) : List ((Socket × RequestId) × EngineCall) :=
  match l with
  | .conn ws label =>
      match s.handlers ws, s'.handlers ws with
      | .serving c, .serving c' =>
          (c.engineCalls deps label c').map fun p => ((ws, p.1), p.2)
      | _, _ => []
  | _ => []

/-- **One step**, of a handler with the calls it makes, of a dropped generator, of the engine. -/
def step (deps : Deps) (clientId : Socket → Py.Text) (s : Generations deps.sanitizer Socket) :
    GenerationsLabel Socket → Option (Generations deps.sanitizer Socket)
  | .server l generated =>
      (s.server.step deps clientId l).map fun server =>
        { server := server
          engine := (s.engine.calls generated (serverCalls deps s.server l server)).1 }
  | .finalized ws id =>
      match s.server.handlers ws with
      | .serving c =>
          match c.tasks[id]? with
          | some t =>
              if t.phase.holdsStream then none
              else some { s with engine := s.engine.closeStream (ws, t.plan.requestId) }
          | none => none
      | _ => none
  | .shutdown => some { s with engine := s.engine.shutdown }

/-- The requests the executor is told to abort in a step, by the turn they belong to. -/
def told (deps : Deps) (s : Generations deps.sanitizer Socket) (l : GenerationsLabel Socket)
    (s' : Generations deps.sanitizer Socket) : List ((Socket × RequestId) × Int) :=
  match l with
  | .server l generated => (s.engine.calls generated (serverCalls deps s.server l s'.server)).2
  | _ => []

end Generations

end YapInference
