import YapInference.Engines.Cache

/-!
# Concurrent cache resets

Every call of `CacheResetManager.try_reset` in flight, over the lock they share, and the task that
`ensure_daemon_running` starts, which makes calls of its own (`src/engines/vllm/cache.py`). Where
`Engines.Cache` has one loop and the resets of the others as events, here the others are calls like
its own.

`asyncio.Lock` serves those who wait in the order they came; here any of them may be next. A call
that finds the lock free does not wait, so it is next at once.
-/

namespace YapInference

/-- The awaits of `try_reset`. -/
inductive ResetPhase where
  /-- Past the first test, at the lock. -/
  | locking
  /-- In the engine's `reset_caches`, with the lock, since then. -/
  | resetting (startedAt : ℚ)
  /-- Returned, or raised. -/
  | over
  deriving DecidableEq

/-- A call of `try_reset`. -/
structure ResetCall where
  force : Bool
  phase : ResetPhase
  deriving DecidableEq

/-- `_daemon_task`. -/
inductive DaemonTask where
  | none
  /-- Created, and not run yet. -/
  | created
  /-- At the head of the loop. -/
  | looping
  /-- It awaits a call it made then. -/
  | calling (call : Nat) (calledAt : ℚ)
  /-- In `wait_for`, up to then. -/
  | waiting (deadline : ℚ)
  | done
  deriving DecidableEq

namespace DaemonTask

/-- Does it await the call? -/
def awaits (task : DaemonTask) (call : Nat) : Bool :=
  match task with
  | .calling awaited _ => awaited == call
  | _ => false

/-- Is it suspended in its loop? -/
def isSuspended : DaemonTask → Bool
  | .calling _ _ | .waiting _ => true
  | _ => false

/-- Where it is in `_daemon_loop`, once it runs. -/
def phase : DaemonTask → Option DaemonPhase
  | .none | .created => Option.none
  | .looping => some .looping
  | .calling _ calledAt => some (.resetting calledAt)
  | .waiting deadline => some (.waiting deadline)
  | .done => some .ended

end DaemonTask

/-- The manager, and whoever uses it. -/
structure CacheResets where
  manager : CacheResetManager
  /-- `_lock` is taken. -/
  locked : Bool
  /-- The calls of `try_reset`, in the order they were made. -/
  calls : List ResetCall
  daemon : DaemonTask
  /-- When the loop called `reset_caches_fn`, since its task was created. -/
  attempts : List ℚ
  /-- The last reading of the clock. -/
  clock : ℚ
  deriving DecidableEq

/-- What happens next. -/
inductive ResetEvent where
  /-- Some task calls `try_reset`. -/
  | called (force : Bool)
  /-- A call gets the lock. -/
  | acquired (call : Nat)
  /-- The engine's `reset_caches` returned. -/
  | returned (call : Nat) (success : Bool)
  /-- What a call awaits raised, or its task was cancelled. -/
  | raised (call : Nat)
  /-- `ensure_daemon_running`. -/
  | ensured
  /-- The loop runs one round. -/
  | round
  /-- Its `wait_for` returned. -/
  | woken
  /-- Its `wait_for` raised `TimeoutError`. -/
  | timedOut
  /-- Its `wait_for` raised something else, or the task was cancelled. -/
  | cancelled
  deriving DecidableEq

/-- An event, and the reading of the clock that comes with it. -/
structure ResetLabel where
  now : ℚ
  event : ResetEvent
  deriving DecidableEq

namespace CacheResets

/-- `CacheResetManager()`, at a reading of the clock. -/
def create (interval now : ℚ) : CacheResets where
  manager := { interval := interval, lastReset := now, event := false }
  locked := false
  calls := []
  daemon := .none
  attempts := []
  clock := now

/-! ## A call -/

/-- `try_reset`, up to the lock. -/
def tryReset (s : CacheResets) (force : Bool) (now : ℚ) : CacheResets :=
  if s.manager.isTooSoon force now then s
  else { s with calls := s.calls ++ [{ force := force, phase := .locking }] }

/-- A call comes to an end; a task that awaits it goes on. -/
def ends (s : CacheResets) (call : Nat) (c : ResetCall) (next : DaemonTask) : CacheResets :=
  { s with
    calls := s.calls.set call { c with phase := .over }
    daemon := if s.daemon.awaits call then next else s.daemon }

/-- `try_reset`, from the lock on. -/
def onAcquired (hasResetCaches : Bool) (s : CacheResets) (call : Nat) (c : ResetCall) (now : ℚ) :
    CacheResets :=
  if s.manager.isTooSoon c.force now then s.ends call c .looping
  else if !hasResetCaches then s.ends call c .looping
  else
    { s with
      calls := s.calls.set call { c with phase := .resetting now }
      locked := true }

/-- `try_reset`, once the engine has returned. -/
def onReturned (s : CacheResets) (call : Nat) (c : ResetCall) (success : Bool) (now : ℚ) :
    CacheResets :=
  { s with manager := s.manager.onReset success now, locked := false }.ends call c .looping

/-! ## The daemon -/

/-- `ensure_daemon_running`. -/
def ensureDaemonRunning (s : CacheResets) : CacheResets :=
  match s.daemon with
  | .none | .done =>
      if s.manager.interval ≤ 0 then s else { s with daemon := .created, attempts := [] }
  | _ => s

/-- `await reset_caches_fn("timer", True)`. -/
def callReset (s : CacheResets) (now : ℚ) : CacheResets :=
  { s.tryReset true now with
    daemon := .calling s.calls.length now
    attempts := s.attempts ++ [now] }

/-- One round of `_daemon_loop`. -/
def onRound (s : CacheResets) (now : ℚ) : CacheResets :=
  if s.manager.event then
    { s with manager := { s.manager with event := false }, daemon := .looping }
  else
    let wait := max 0 (s.manager.interval - s.manager.secondsSinceLastReset now)
    if wait ≤ 0 then s.callReset now else { s with daemon := .waiting (now + wait) }

/-! ## The system -/

/-- What an event does. -/
def onEvent (hasResetCaches : Bool) (s : CacheResets) (now : ℚ) : ResetEvent → Option CacheResets
  | .called force => some (s.tryReset force now)
  | .acquired call =>
      match s.calls[call]? with
      | some c =>
          match c.phase with
          | .locking => if s.locked then none else some (s.onAcquired hasResetCaches call c now)
          | _ => none
      | none => none
  | .returned call success =>
      match s.calls[call]? with
      | some c =>
          match c.phase with
          | .resetting _ => some (s.onReturned call c success now)
          | _ => none
      | none => none
  | .raised call =>
      match s.calls[call]? with
      | some c =>
          match c.phase with
          | .locking => some (s.ends call c .done)
          | .resetting _ => some ({ s with locked := false }.ends call c .done)
          | .over => none
      | none => none
  | .ensured => some s.ensureDaemonRunning
  | .round =>
      match s.daemon with
      | .created | .looping => some (s.onRound now)
      | _ => none
  | .woken =>
      match s.daemon with
      | .waiting _ =>
          if s.manager.event then
            some { s with manager := { s.manager with event := false }, daemon := .looping }
          else none
      | _ => none
  | .timedOut =>
      match s.daemon with
      | .waiting deadline => if deadline ≤ now then some (s.callReset now) else none
      | _ => none
  | .cancelled =>
      match s.daemon with
      | .waiting _ => some { s with daemon := .done }
      | _ => none

/-- May the event come now? A loop that is not at an await has the control. -/
def admits (s : CacheResets) (l : ResetLabel) : Bool :=
  decide (s.clock ≤ l.now) && (s.daemon != .looping || l.event == .round)

/-- **One step**, of a call or of the daemon. -/
def step (hasResetCaches : Bool) (s : CacheResets) (l : ResetLabel) : Option CacheResets :=
  if s.admits l then { s with clock := l.now }.onEvent hasResetCaches l.now l.event else none

/-! ## What is seen of it -/

/-- A reset of the engine's caches that came to an end. -/
structure EngineReset where
  force : Bool
  startedAt : ℚ
  endedAt : ℚ
  success : Bool
  deriving DecidableEq

/-- The resets that come to an end in a step. -/
def engineResets (s : CacheResets) (l : ResetLabel) (_ : CacheResets) : List EngineReset :=
  let ended (call : Nat) (success : Bool) : List EngineReset :=
    match s.calls[call]? with
    | some ⟨force, .resetting startedAt⟩ => [⟨force, startedAt, l.now, success⟩]
    | _ => []
  match l.event with
  | .returned call success => ended call success
  | .raised call => ended call false
  | _ => []

/-- What the loop does in a step, or is told: how its await came back, or that the caches were
reset. -/
def daemonEvents (hasResetCaches : Bool) (s : CacheResets) (l : ResetLabel) : List DaemonEvent :=
  match l.event with
  | .round => [.round l.now]
  | .woken => [.woken l.now]
  | .timedOut => [.timedOut l.now]
  | .cancelled => [.raised l.now]
  | .acquired call =>
      -- without a `reset_caches` the call returns `False` at once
      if s.daemon.awaits call && !hasResetCaches then [.resetReturned false l.now] else []
  | .returned call success =>
      if s.daemon.awaits call then [.resetReturned success l.now]
      else if success && s.daemon.isSuspended then
        (s.calls[call]?.map fun c => .otherReset c.force l.now).toList
      else []
  | .raised call => if s.daemon.awaits call then [.raised l.now] else []
  | .called _ | .ensured => []

/-- The manager as the task found it when it first ran, and all of that since. -/
def noted (hasResetCaches : Bool) (s : CacheResets) (l : ResetLabel)
    (seen : CacheResetManager × List DaemonEvent) : CacheResetManager × List DaemonEvent :=
  match s.daemon with
  | .none => seen
  | .created => if l.event = .round then (s.manager, [.round l.now]) else seen
  | _ => (seen.1, seen.2 ++ daemonEvents hasResetCaches s l)

end CacheResets

end YapInference
