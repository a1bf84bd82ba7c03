import YapInference.WebSocket.Stream

/-!
# The streaming chain of one chat turn

`src/execution/chat/controller.py` and the generator half of `runner.py`. Three
generators are nested under `stream_chat_response`: the engine stream with its
timeout and cancel check, the controller that extracts deltas and buffers them, and
the optional sanitizer. None of them runs unless it is pulled, and a chunk travels
from the engine to the socket without a suspension in between, so the chain as a whole
suspends in three places only: on the engine, on `engine.abort`, and on a send.

`ChatTurn` is that chain. Its `exitStream` is where the generators' `except` and
`finally` clauses meet: what is still buffered is yielded while the exception that
ended the stream is on its way out.
-/

namespace YapInference

open Py

/-! ## The controller -/

/-- The mutable fields of `ChatStreamController` that decide what is yielded. -/
structure ControllerState where
  fullText : Text
  cancelled : Bool
  buffer : List Text
  lastFlushAt : ℚ
  deriving DecidableEq

namespace ControllerState

/-- `_extract_delta` of an output whose `text` is a string, or not. -/
def extractDelta (ctrl : ControllerState) (output : Option Text) : ControllerState × Text :=
  match output with
  | none => (ctrl, [])
  | some text =>
      -- an engine that rewrote its text is forwarded from the start again
      let delta := if startsWith text ctrl.fullText then text.drop ctrl.fullText.length else text
      if delta.isEmpty then (ctrl, []) else ({ ctrl with fullText := text }, delta)

/-- `_emit` at the clock reading `now`, in seconds. -/
def emit (ctrl : ControllerState) (flushMs now : ℚ) (delta : Text) :
    ControllerState × Option Text :=
  if flushMs ≤ 0 then (ctrl, some delta)
  else
    let buffer := ctrl.buffer ++ [delta]
    if (now - ctrl.lastFlushAt) * 1000 ≥ flushMs then
      ({ ctrl with buffer := [], lastFlushAt := now }, some buffer.flatten)
    else ({ ctrl with buffer := buffer }, none)

/-- `_flush_tail`. -/
def flushTail (ctrl : ControllerState) (flushMs : ℚ) : Text :=
  if flushMs ≤ 0 then [] else ctrl.buffer.flatten

end ControllerState

/-! ## The sanitizer, from outside -/

/-- A streaming sanitizer: what `push` and `flush` do to its state and return. -/
structure Sanitizer where
  State : Type
  init : State
  push : State → Text → State × Text
  flush : State → Text

/-- A sanitizer that changes nothing. -/
def plainSanitizer : Sanitizer where
  State := Unit
  init := ()
  push := fun _ chunk => ((), chunk)
  flush := fun _ => []

/-! ## The chain -/

/-- Why `_stream_with_timeout` is awaiting `engine.abort`. -/
inductive AbortCause where
  /-- The cancel check returned true. -/
  | cancelCheck
  /-- A `TimeoutError` reached the handler. -/
  | timeout
  deriving DecidableEq

/-- What the stream does when it is next pulled. -/
inductive GenNext where
  /-- It asks the engine. -/
  | engine
  /-- It yields these and then ends, normally or by raising. -/
  | items (rest : List Text) (exit : Option Raised)
  deriving DecidableEq

/-- The awaits of the chain. -/
inductive ChainPhase where
  /-- On the engine's next output. -/
  | engine
  /-- On `engine.abort`. -/
  | aborting (cause : AbortCause)
  /-- On a send; the stream is suspended at a `yield`, or finished. -/
  | consuming (next : GenNext)
  | over
  deriving DecidableEq

/-- `stream_chat_response` over `run_chat_generation`. -/
structure ChatTurn (S : Sanitizer) where
  flushMs : ℚ
  ctrl : ControllerState
  /-- The sanitizer's state, or nothing when the output is not sanitized. -/
  san : Option S.State
  run : StreamRun
  phase : ChainPhase

namespace ChatTurn

variable {S : Sanitizer}

/-- The call, up to its first await: on the engine. -/
def start (S : Sanitizer) (historyUser : Text) (flushMs now : ℚ) (sanitizeOutput : Bool) :
    ChatTurn S where
  flushMs := flushMs
  ctrl := { fullText := [], cancelled := false, buffer := [], lastFlushAt := now }
  san := if sanitizeOutput then some S.init else none
  run := .init historyUser
  phase := .engine

/-- One chunk through `_stream_with_optional_sanitizer`. -/
def pushChunk (t : ChatTurn S) (chunk : Text) : ChatTurn S × Option Text :=
  match t.san with
  | none => (t, some chunk)
  | some st =>
      let (st', clean) := S.push st chunk
      ({ t with san := some st' }, if clean.isEmpty then none else some clean)

/-- The consumer pulls a stream in the given position. -/
def pull (t : ChatTurn S) : GenNext → ChatTurn S
  | .engine => { t with phase := .engine }
  | .items (chunk :: rest) exit =>
      { t with run := t.run.onChunk chunk, phase := .consuming (.items rest exit) }
  | .items [] none => { t with run := t.run.onExhausted, phase := .consuming (.items [] none) }
  | .items [] (some r) => { t with run := t.run.onRaised r, phase := .over }

/-- What the `finally` of `iter_text` still yields, through the sanitizer. -/
def flushedTail (t : ChatTurn S) : ChatTurn S × Option Text :=
  let tail := t.ctrl.flushTail t.flushMs
  if tail.isEmpty then (t, none) else t.pushChunk tail

/-- What the sanitizer yields when the stream under it ends normally. -/
def sanitizerFlush (t : ChatTurn S) : Option Text :=
  match t.san with
  | none => none
  | some st =>
      let tail := S.flush st
      if tail.isEmpty then none else some tail

/-- The engine stream ended, normally or by raising: `StreamCancelledError` is swallowed
by `iter_text` and suppresses its tail, anything else passes after the tail. -/
def exitStream (t : ChatTurn S) (exit : Option Raised) : ChatTurn S :=
  if exit = some (.exc .streamCancelledError) then
    let t := { t with ctrl := { t.ctrl with cancelled := true } }
    t.pull (.items t.sanitizerFlush.toList none)
  else
    let (t, tail) := t.flushedTail
    match exit with
    | none => t.pull (.items (tail.toList ++ t.sanitizerFlush.toList) none)
    -- what the sanitizer still holds is not flushed on this way out
    | some r => t.pull (.items tail.toList (some r))

/-- An output that passed the cancel check. -/
def onOutput (t : ChatTurn S) (output : Option Text) (now : ℚ) : ChatTurn S :=
  let (ctrl, delta) := t.ctrl.extractDelta output
  if delta.isEmpty then { t with ctrl := ctrl, phase := .engine }
  else
    let (ctrl, emitted) := ctrl.emit t.flushMs now delta
    let t := { t with ctrl := ctrl }
    match emitted with
    | none => { t with phase := .engine }
    | some chunk =>
        match t.pushChunk chunk with
        | (t, none) => { t with phase := .engine }
        | (t, some clean) => { t with run := t.run.onChunk clean, phase := .consuming .engine }

/-- The send in flight came back. -/
def onSent (t : ChatTurn S) (next : GenNext) (result : SendResult) : ChatTurn S :=
  let t := { t with run := t.run.onSent result }
  match t.run.phase with
  | .nextChunk => t.pull next
  | .ended _ => { t with phase := .over }
  | _ => { t with phase := .consuming next }

end ChatTurn

/-- What an await of the chain comes back with. -/
inductive ChainEvent where
  /-- The engine yielded an output; the cancel check is evaluated, and the clock read. -/
  | output (text : Option Text) (cancelCheck : Bool) (now : ℚ)
  | exhausted
  | failed (e : Exc)
  /-- `async_timeout` expired on the engine. -/
  | timedOut
  /-- `engine.abort` returned. -/
  | aborted
  | abortFailed (e : Exc)
  /-- The send in flight came back, other than cancelled. -/
  | sent (result : SendResult)
  /-- `CancelledError` is delivered at the await. -/
  | cancel
  deriving DecidableEq

/-- One step of the chain, to its next await. -/
def ChatTurn.step {S : Sanitizer} (t : ChatTurn S) (event : ChainEvent) : Option (ChatTurn S) :=
  match t.phase, event with
  | .engine, .output text cancelCheck now =>
      if cancelCheck then some { t with phase := .aborting .cancelCheck }
      else some (t.onOutput text now)
  | .engine, .exhausted => some (t.exitStream none)
  | .engine, .failed e =>
      if e = .timeoutError then some { t with phase := .aborting .timeout }
      else some (t.exitStream (some (.exc e)))
  | .engine, .timedOut => some { t with phase := .aborting .timeout }
  | .engine, .cancel => some (t.exitStream (some .cancelledError))
  | .aborting .cancelCheck, .aborted => some (t.exitStream (some (.exc .streamCancelledError)))
  | .aborting .timeout, .aborted => some (t.exitStream (some (.exc .timeoutError)))
  | .aborting cause, .abortFailed e =>
      -- inside the `try`, a `TimeoutError` from the abort itself is handled like any other
      if cause = .cancelCheck ∧ e = .timeoutError then some { t with phase := .aborting .timeout }
      else some (t.exitStream (some (.exc e)))
  | .aborting _, .cancel => some (t.exitStream (some .cancelledError))
  | .consuming next, .sent result =>
      if result = .cancelled then none else some (t.onSent next result)
  | .consuming next, .cancel => some (t.onSent next .cancelled)
  | _, _ => none

end YapInference
