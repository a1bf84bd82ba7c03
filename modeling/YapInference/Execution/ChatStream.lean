import YapInference.Execution.Controller

/-!
# `iter_text`, from the engine's chunks to what is yielded

`src/state/engines.py`, `generate_stream` of both engines, and the generator of
`src/execution/chat/controller.py` on its own. In `ChatTurn` the generator is one link of a chain;
here it has no sanitizer above it and no socket, only the stream below it and the chunks it has
yielded.
-/

namespace YapInference

open Py

/-! ## Engine outputs -/

/-- The `text` attribute of the first output of an engine's chunk. -/
inductive TextAttr where
  | absent
  | null
  | str (text : Text)
  deriving DecidableEq

/-- `EngineOutput.from_vllm`, as to its text; `none` is a chunk without outputs. -/
def EngineOutput.fromVllm : Option TextAttr → Option Text
  | none | some .absent => some []
  | some .null => none
  | some (.str text) => some text

/-- `EngineOutput.from_trt`, as to its text. -/
def EngineOutput.fromTrt (chunk : Option TextAttr) (prevText : Text) : Text :=
  match chunk with
  | some (.str text) => if text.isEmpty then prevText else text
  | _ => prevText

/-- `generate_stream` of the vLLM engine. -/
def vllmStream (chunks : List (Option TextAttr)) : List (Option Text) :=
  chunks.map EngineOutput.fromVllm

/-- `generate_stream` of the TensorRT-LLM engine, from some `prev_text` on. -/
def trtStreamFrom (prevText : Text) : List (Option TextAttr) → List (Option Text)
  | [] => []
  | chunk :: chunks =>
      let text := EngineOutput.fromTrt chunk prevText
      some text :: trtStreamFrom (if text.isEmpty then prevText else text) chunks

/-- `generate_stream` of the TensorRT-LLM engine. -/
def trtStream (chunks : List (Option TextAttr)) : List (Option Text) := trtStreamFrom [] chunks

/-! ## The generator -/

/-- One round of `_iter_emitted_chunks`. -/
def ControllerState.onOutput (ctrl : ControllerState) (flushMs : ℚ) (output : Option Text)
    (now : ℚ) : ControllerState × Option Text :=
  let (ctrl, delta) := ctrl.extractDelta output
  if delta.isEmpty then (ctrl, none) else ctrl.emit flushMs now delta

/-- `iter_text` in progress. -/
structure IterText where
  flushMs : ℚ
  ctrl : ControllerState
  /-- The chunks yielded so far. -/
  yielded : List Text
  /-- How the stream below it ended, once it has. -/
  finished : Option (Option Raised)
  deriving DecidableEq

/-- What the stream below comes back with. -/
inductive IterEvent where
  /-- An output, and the clock reading of `_emit`. -/
  | output (text : Option Text) (now : ℚ)
  /-- The end, normal or by raising. -/
  | ended (exit : Option Raised)
  deriving DecidableEq

namespace IterText

/-- The controller as it is made, at a clock reading. -/
def start (flushMs now : ℚ) : IterText where
  flushMs := flushMs
  ctrl := { fullText := [], cancelled := false, buffer := [], lastFlushAt := now }
  yielded := []
  finished := none

/-- An output, up to the next pull of the stream below. -/
def onOutput (it : IterText) (output : Option Text) (now : ℚ) : IterText :=
  let (ctrl, chunk) := it.ctrl.onOutput it.flushMs output now
  { it with ctrl := ctrl, yielded := it.yielded ++ chunk.toList }

/-- The `except` clauses and the `finally`: a `StreamCancelledError` keeps the tail back. -/
def onEnded (it : IterText) (exit : Option Raised) : IterText :=
  if exit = some (.exc .streamCancelledError) then
    { it with ctrl := { it.ctrl with cancelled := true }, finished := some exit }
  else
    let tail := it.ctrl.flushTail it.flushMs
    { it with
      yielded := it.yielded ++ (if tail.isEmpty then [] else [tail])
      finished := some exit }

/-- One step of the generator. -/
def step (it : IterText) (event : IterEvent) : Option IterText :=
  match it.finished, event with
  | none, .output text now => some (it.onOutput text now)
  | none, .ended exit => some (it.onEnded exit)
  | some _, _ => none

end IterText

end YapInference
