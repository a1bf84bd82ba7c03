import YapInference.WebSocket.Connection

/-!
# The idle watchdog

`WebSocketLifecycle` of `src/handlers/websocket/lifecycle.py`: a task that sleeps, looks at the
time of the last activity, and closes the websocket when that is too long ago. The handler creates
and starts it before the message loop, touches it for every message that parses, and stops it
before anything else of the cleanup.

In `WebSocket.Connection` the watchdog is a label that may come at any time. Here it is the task
it is, beside the connection it watches. Both read `time.monotonic`, whose readings never decrease.
-/

namespace YapInference

open Py

/-- The idle settings of `config/websocket.py`. -/
structure WatchdogConfig where
  wsIdleTimeoutS : ℚ
  wsWatchdogTickS : ℚ
  wsCloseIdleCode : Int
  wsCloseIdleReason : Text

/-- The defaults the server ships with. -/
def WatchdogConfig.shipped : WatchdogConfig where
  wsIdleTimeoutS := 150
  wsWatchdogTickS := 10
  wsCloseIdleCode := 4000
  wsCloseIdleReason := "idle_timeout".toList

/-- The awaits of `_watchdog_loop`. -/
inductive WatchdogPhase where
  /-- Its first step has not run. -/
  | created
  /-- In `asyncio.sleep`, which returns from this reading on. -/
  | sleeping (due : ℚ)
  /-- In `ws.close`. -/
  | closing
  | done
  deriving DecidableEq

/-- The watchdog task. -/
structure WatchdogTask where
  phase : WatchdogPhase
  /-- It was asked to cancel, and has not run since. -/
  cancelPending : Bool
  deriving DecidableEq

/-- `WebSocketLifecycle`. -/
structure WebSocketLifecycle where
  idleTimeoutS : ℚ
  watchdogTickS : ℚ
  idleCloseCode : Int
  idleCloseReason : Text
  lastActivity : ℚ
  stopEvent : Bool
  idleTimeoutEvent : Bool
  task : Option WatchdogTask

/-- `value or default`. -/
def orDefault (value : Option ℚ) (default : ℚ) : ℚ :=
  match value with
  | none => default
  | some v => if v = 0 then default else v

namespace WebSocketLifecycle

/-- `__init__`. -/
def create (cfg : WatchdogConfig) (idleTimeoutS watchdogTickS : Option ℚ)
    (idleCloseCode : Option Int) (now : ℚ) : WebSocketLifecycle where
  idleTimeoutS := orDefault idleTimeoutS cfg.wsIdleTimeoutS
  watchdogTickS := orDefault watchdogTickS cfg.wsWatchdogTickS
  idleCloseCode := idleCloseCode.getD cfg.wsCloseIdleCode
  idleCloseReason := cfg.wsCloseIdleReason
  lastActivity := now
  stopEvent := false
  idleTimeoutEvent := false
  task := none

/-- `touch`. -/
def touch (l : WebSocketLifecycle) (now : ℚ) : WebSocketLifecycle := { l with lastActivity := now }

/-- `start`: a second call changes nothing. -/
def start (l : WebSocketLifecycle) : WebSocketLifecycle :=
  match l.task with
  | none => { l with task := some { phase := .created, cancelPending := false } }
  | some _ => l

/-- `stop`, up to its await. -/
def stop (l : WebSocketLifecycle) : WebSocketLifecycle :=
  { l with
    stopEvent := true
    task := l.task.map fun t => if t.phase = .done then t else { t with cancelPending := true } }

/-- `stop`, when the task it awaits is done. -/
def stopped (l : WebSocketLifecycle) : Option WebSocketLifecycle :=
  match l.task with
  | none => some l
  | some t => if t.phase = .done then some { l with task := none } else none

/-! ### The watchdog task -/

/-- The task is at its next await. -/
def awaits (l : WebSocketLifecycle) (phase : WatchdogPhase) : WebSocketLifecycle :=
  { l with task := some { phase := phase, cancelPending := false } }

/-- The head of the loop: leave it, or sleep. -/
def loopHead (l : WebSocketLifecycle) (now : ℚ) : WebSocketLifecycle :=
  if l.stopEvent then l.awaits .done else l.awaits (.sleeping (now + l.watchdogTickS))

/-- The rest of the loop, after the sleep. -/
def afterSleep (l : WebSocketLifecycle) (now : ℚ) : WebSocketLifecycle :=
  if l.stopEvent then l.awaits .done
  else if now - l.lastActivity ≥ l.idleTimeoutS then
    -- the flags are set before the close is awaited
    { l with idleTimeoutEvent := true, stopEvent := true }.awaits .closing
  else l.loopHead now

/-- The first step of the task. -/
def run (l : WebSocketLifecycle) (now : ℚ) : Option WebSocketLifecycle :=
  match l.task with
  | some ⟨.created, false⟩ => some (l.loopHead now)
  | _ => none

/-- The sleep returns. -/
def wake (l : WebSocketLifecycle) (now : ℚ) : Option WebSocketLifecycle :=
  match l.task with
  | some ⟨.sleeping due, false⟩ => if due ≤ now then some (l.afterSleep now) else none
  | _ => none

/-- `ws.close` came back, or raised. -/
def closed (l : WebSocketLifecycle) : Option WebSocketLifecycle :=
  match l.task with
  | some ⟨.closing, false⟩ => some (l.awaits .done)
  | _ => none

/-- The cancellation is delivered. -/
def cancelled (l : WebSocketLifecycle) : Option WebSocketLifecycle :=
  match l.task with
  | some ⟨_, true⟩ => some (l.awaits .done)
  | _ => none

end WebSocketLifecycle

/-! ## The connection and its watchdog -/

/-- A connection, the watchdog of its websocket, and the latest reading of the clock. -/
structure WatchedConn (S : Sanitizer) where
  conn : Conn S
  lifecycle : WebSocketLifecycle
  clock : ℚ

/-- The events the schedule chooses from. -/
inductive WatchedLabel where
  /-- A message parsed; the clock is read by `touch`, and by the rate limiter after it. -/
  | received (msg : ClientMessage) (touched now : ℚ)
  /-- The connection takes another step. -/
  | conn (label : Label)
  /-- Time passes. -/
  | elapsed (now : ℚ)
  /-- The watchdog runs for the first time. -/
  | run (now : ℚ)
  /-- Its sleep returns. -/
  | wake (now : ℚ)
  /-- Its `ws.close` came back. -/
  | closed
  /-- Its cancellation is delivered. -/
  | cancelled

/-- In `lifecycle.stop`. -/
def LoopPhase.isStopping : LoopPhase → Bool
  | .stopping _ => true
  | _ => false

namespace WatchedConn

variable {S : Sanitizer}

/-- `handle_websocket_connection`, about to enter the message loop. -/
def init (S : Sanitizer) (server : ServerConfig) (cfg : WatchdogConfig) (clientId : Text)
    (now : ℚ) : WatchedConn S where
  conn := .init S server clientId
  lifecycle := (WebSocketLifecycle.create cfg none none none now).start
  clock := now

/-- The connection goes on; when it comes to `lifecycle.stop`, the call is made. -/
def advance (w : WatchedConn S) (conn : Conn S) : WatchedConn S :=
  { w with
    conn := conn
    lifecycle :=
      if !w.conn.phase.isStopping && conn.phase.isStopping then w.lifecycle.stop else w.lifecycle }

/-- The watchdog goes on; when it declares the connection idle, the connection can see it. -/
def watch (w : WatchedConn S) (now : ℚ) (lifecycle : WebSocketLifecycle) : WatchedConn S where
  conn := if lifecycle.idleTimeoutEvent then { w.conn with idleTimedOut := true } else w.conn
  lifecycle := lifecycle
  clock := now

/-- **One step of the two.** -/
def step (deps : Deps) (w : WatchedConn deps.sanitizer) :
    WatchedLabel → Option (WatchedConn deps.sanitizer)
  | .received msg touched now =>
      if w.clock ≤ touched ∧ touched ≤ now then
        (w.conn.step deps (.recv msg now)).map
          { w with lifecycle := w.lifecycle.touch touched, clock := now }.advance
      else none
  | .conn label =>
      match label with
      | .recv _ _ | .watchdog => none
      | label =>
          if w.conn.phase.isStopping && label.isResume then
            w.lifecycle.stopped.bind fun lifecycle =>
              (w.conn.step deps label).map { w with lifecycle := lifecycle }.advance
          else (w.conn.step deps label).map w.advance
  | .elapsed now => if w.clock ≤ now then some { w with clock := now } else none
  | .run now => if w.clock ≤ now then (w.lifecycle.run now).map (w.watch now) else none
  | .wake now => if w.clock ≤ now then (w.lifecycle.wake now).map (w.watch now) else none
  | .closed => w.lifecycle.closed.map (w.watch w.clock)
  | .cancelled => w.lifecycle.cancelled.map (w.watch w.clock)

end WatchedConn

end YapInference
