import YapInference.State

/-!
# The cache reset daemon

`src/engines/vllm/cache.py`, called through `RuntimeDeps.reset_engine_caches`. The daemon suspends
in two places, on a reset and on the event, and other tasks may reset the caches while it does.
Every reading of `time.monotonic` is part of an event of the run, and none is earlier than the one
before.
-/

namespace YapInference

/-- `CacheResetManager`, with the interval it is configured for. -/
structure CacheResetManager where
  interval : ℚ
  lastReset : ℚ
  /-- `_event`. -/
  event : Bool
  deriving DecidableEq

namespace CacheResetManager

/-- `seconds_since_last_reset`. -/
def secondsSinceLastReset (m : CacheResetManager) (now : ℚ) : ℚ :=
  let elapsed := now - m.lastReset
  if elapsed < 0 then 0 else elapsed

/-- The test `try_reset` makes before it takes the lock, and again when it has it. -/
def isTooSoon (m : CacheResetManager) (force : Bool) (now : ℚ) : Bool :=
  !force && decide (0 < m.interval) && decide (now - m.lastReset < m.interval)

/-- What `try_reset` does once the engine's `reset_caches` has returned. -/
def onReset (m : CacheResetManager) (success : Bool) (now : ℚ) : CacheResetManager :=
  if success then { m with lastReset := now, event := true } else m

end CacheResetManager

/-- The awaits of `_daemon_loop`. -/
inductive DaemonPhase where
  /-- At the head of the loop. -/
  | looping
  /-- In a reset that began then. -/
  | resetting (startedAt : ℚ)
  /-- In `wait_for`, up to then. -/
  | waiting (deadline : ℚ)
  | ended
  deriving DecidableEq

/-- `_daemon_loop` in progress. -/
structure CacheDaemon where
  manager : CacheResetManager
  phase : DaemonPhase
  /-- The last reading of the clock. -/
  clock : ℚ
  /-- When the loop called `reset_caches_fn`. -/
  attempts : List ℚ
  deriving DecidableEq

/-- What happens to the loop. -/
inductive DaemonEvent where
  /-- It runs one round, up to an await or back to its head. -/
  | round (now : ℚ)
  /-- The reset it awaits returned. -/
  | resetReturned (success : Bool) (now : ℚ)
  /-- A reset by another task, forced or not, was successful. -/
  | otherReset (force : Bool) (now : ℚ)
  /-- `wait_for` returned. -/
  | woken (now : ℚ)
  /-- `wait_for` raised `TimeoutError`. -/
  | timedOut (now : ℚ)
  /-- The await raised something else, or the task was cancelled. -/
  | raised (now : ℚ)
  deriving DecidableEq

/-- The reading of the clock that comes with an event. -/
def DaemonEvent.now : DaemonEvent → ℚ
  | round now | resetReturned _ now | otherReset _ now | woken now | timedOut now | raised now => now

namespace CacheDaemon

/-- The loop as it starts. -/
def start (m : CacheResetManager) : CacheDaemon where
  manager := m
  phase := if m.interval ≤ 0 then .ended else .looping
  clock := m.lastReset
  attempts := []

/-- `await reset_caches_fn("timer", True)`. -/
def callReset (d : CacheDaemon) (now : ℚ) : CacheDaemon :=
  { d with phase := .resetting now, attempts := d.attempts ++ [now] }

/-- One round of the loop. -/
def onRound (d : CacheDaemon) (now : ℚ) : CacheDaemon :=
  if d.manager.event then { d with manager := { d.manager with event := false } }
  else
    let wait := max 0 (d.manager.interval - d.manager.secondsSinceLastReset now)
    if wait ≤ 0 then d.callReset now else { d with phase := .waiting (now + wait) }

/-- Is the loop suspended? -/
def isSuspended (d : CacheDaemon) : Bool :=
  match d.phase with
  | .resetting _ | .waiting _ => true
  | .looping | .ended => false

/-- One event, at a reading of the clock that is not before the last. -/
def step (d : CacheDaemon) (e : DaemonEvent) : Option CacheDaemon :=
  if e.now < d.clock then none
  else
    let d := { d with clock := e.now }
    match e, d.phase with
    | .round now, .looping => some (d.onRound now)
    | .resetReturned success now, .resetting _ =>
        some { d with manager := d.manager.onReset success now, phase := .looping }
    | .otherReset force now, _ =>
        if d.isSuspended && !d.manager.isTooSoon force now then
          some { d with manager := d.manager.onReset true now }
        else none
    | .woken _, .waiting _ =>
        -- the event wakes it, and is cleared
        if d.manager.event then
          some { d with manager := { d.manager with event := false }, phase := .looping }
        else none
    | .timedOut now, .waiting deadline => if deadline ≤ now then some (d.callReset now) else none
    | .raised _, _ => if d.isSuspended then some { d with phase := .ended } else none
    | _, _ => none

end CacheDaemon

end YapInference
