import YapInference.Lib.Text

/-!
# Log noise filters

`src/scripts/filters/trt.py` and `src/scripts/filters/vllm.py`. Their two stream classes are one
text but for the noise function and its patterns.
-/

namespace YapInference

open Py

/-- `pattern.search(text)` of a compiled pattern, as a truth value. -/
abbrev NoisePattern := Text → Bool

/-- The shape of `is_trt_noise` and `is_vllm_noise`. -/
def isNoise (text : Text) (patterns : List NoisePattern) : Bool :=
  let normalized := strip text
  if normalized.isEmpty then false else patterns.any fun pattern => pattern normalized

/-- `is_trt_noise`. -/
def isTrtNoise (text : Text) (patterns : List NoisePattern) : Bool := isNoise text patterns

/-- `is_vllm_noise`. -/
def isVllmNoise (text : Text) (patterns : List NoisePattern) : Bool := isNoise text patterns

/-- White space is never noise, whatever the patterns say. -/
theorem isNoise_blank {text : Text} (h : strip text = []) (patterns : List NoisePattern) :
    isTrtNoise text patterns = false ∧ isVllmNoise text patterns = false := by
  simp [isTrtNoise, isVllmNoise, isNoise, h]

/-- `NoiseFilterStream`. What is noise is for `is_trt_noise` and the stream's patterns to say. -/
structure NoiseFilterStream where
  /-- What `_stream` was told to write, call by call. -/
  stream : List Text
  buffer : Text
  deriving DecidableEq

namespace NoiseFilterStream

/-- `__init__`. -/
def init : NoiseFilterStream := ⟨[], []⟩

/-- `_stream.write`. -/
def streamWrite (s : NoiseFilterStream) (text : Text) : NoiseFilterStream :=
  { s with stream := s.stream ++ [text] }

/-- `_emit`. -/
def emit (noise : Text → Bool) (s : NoiseFilterStream) (text : Text) (newline : Bool) :
    NoiseFilterStream :=
  if text.isEmpty && newline then s.streamWrite ['\n']
  else if noise text then s
  else if newline then s.streamWrite (text ++ ['\n'])
  else s.streamWrite text

theorem emit_buffer (noise : Text → Bool) (s : NoiseFilterStream) (text : Text) (newline : Bool) :
    (s.emit noise text newline).buffer = s.buffer := by
  unfold emit
  split
  · rfl
  · split
    · rfl
    · split <;> rfl

/-- `buffer.split("\n", 1)` where there is a line feed. -/
def splitFirst (buffer : Text) : Text × Text :=
  (buffer.takeWhile (· != '\n'), (buffer.dropWhile (· != '\n')).tail)

theorem splitFirst_append {l : Text} (h : '\n' ∉ l) (t : Text) :
    splitFirst (l ++ '\n' :: t) = (l, t) := by
  have hl : ∀ c ∈ l, (c != '\n') = true := fun c hc => bne_iff_ne.mpr fun heq => h (heq ▸ hc)
  rw [splitFirst, List.takeWhile_append_of_pos hl, List.dropWhile_append_of_pos hl]
  simp

theorem length_splitFirst {buffer : Text} (h : '\n' ∈ buffer) :
    (splitFirst buffer).2.length < buffer.length := by
  obtain ⟨l, t, rfl, hl⟩ := List.eq_append_cons_of_mem h
  rw [splitFirst_append hl, List.length_append, List.length_cons]
  exact Nat.lt_add_left l.length (Nat.lt_succ_self t.length)

/-- The loop of `write`. -/
def emitLines (noise : Text → Bool) (s : NoiseFilterStream) : NoiseFilterStream :=
  if '\n' ∈ s.buffer then
    emitLines noise
      ({ s with buffer := (splitFirst s.buffer).2 }.emit noise (splitFirst s.buffer).1 true)
  else s
termination_by s.buffer.length
decreasing_by
  rename_i h
  rw [emit_buffer]
  exact length_splitFirst h

/-- `write`, with what it returns. -/
def write (noise : Text → Bool) (s : NoiseFilterStream) (text : Text) : NoiseFilterStream × Nat :=
  let length := text.length
  if text.isEmpty then (s, 0)
  else (emitLines noise { s with buffer := s.buffer ++ text }, length)

/-- `writelines`. -/
def writelines (noise : Text → Bool) (s : NoiseFilterStream) (lines : List Text) :
    NoiseFilterStream :=
  lines.foldl (fun s line => (s.write noise line).1) s

/-- `flush`. -/
def flush (noise : Text → Bool) (s : NoiseFilterStream) : NoiseFilterStream :=
  if s.buffer.isEmpty then s else { s.emit noise s.buffer false with buffer := [] }

/-- The text that has been passed on. -/
def passed (s : NoiseFilterStream) : Text := s.stream.flatten

end NoiseFilterStream

/-- `VLLMNoiseFilterStream`: the methods of `NoiseFilterStream`, with `is_vllm_noise`. -/
abbrev VLLMNoiseFilterStream := NoiseFilterStream

namespace VLLMNoiseFilterStream

variable (patterns : List NoisePattern)

/-- `write`. -/
def write (s : VLLMNoiseFilterStream) (text : Text) : VLLMNoiseFilterStream × Nat :=
  NoiseFilterStream.write (isVllmNoise · patterns) s text

/-- `writelines`. -/
def writelines (s : VLLMNoiseFilterStream) (lines : List Text) : VLLMNoiseFilterStream :=
  lines.foldl (fun s line => (s.write patterns line).1) s

/-- `flush`. -/
def flush (s : VLLMNoiseFilterStream) : VLLMNoiseFilterStream :=
  NoiseFilterStream.flush (isVllmNoise · patterns) s

end VLLMNoiseFilterStream

end YapInference
