import YapInference.Lib.Value

/-!
# The TensorRT-LLM engine

`src/engines/trt/engine.py`, as to which generations it keeps track of. Nothing it does to
`_inflight` is interrupted: `generate_stream` registers its generation before its first await, and
its `finally` and `abort` contain none.

What it yields is in `Execution.ChatStream`.
-/

namespace YapInference

open Py

/-- What `generate_async` returned, as to its `request_id`. -/
structure GenerationResult where
  requestId : Option Int
  deriving DecidableEq

/-- `TRTEngine`. -/
structure TRTEngine (Key : Type) where
  /-- `_shutdown`. -/
  isShutdown : Bool
  /-- The executor can be reached. -/
  hasExecutor : Bool
  /-- `_inflight`. -/
  inflight : Dict Key GenerationResult
  deriving DecidableEq

/-- What is asked of the engine. -/
inductive EngineCall where
  /-- `generate_stream` is pulled for the first time. -/
  | generate
  /-- The `finally` of `generate_stream` runs. -/
  | close
  /-- `abort`. -/
  | abort
  deriving DecidableEq

namespace TRTEngine

variable {Key : Type} [DecidableEq Key]

/-- `generate_stream` up to its first await; nothing is generated when `generate_async` raised. -/
def generateStream (e : TRTEngine Key) (requestId : Key) (generated : Option GenerationResult) :
    TRTEngine Key :=
  -- after a shutdown it raises `EngineNotReadyError`
  if e.isShutdown then e
  else
    match generated with
    | none => e
    | some generation =>
        if generation.requestId.isSome then
          { e with inflight := e.inflight.set requestId generation }
        else e

/-- The `finally` of `generate_stream`. -/
def closeStream (e : TRTEngine Key) (requestId : Key) : TRTEngine Key :=
  { e with inflight := e.inflight.erase requestId }

/-- `abort`, with the request the executor is told to abort. That it raises is swallowed. -/
def abort (e : TRTEngine Key) (requestId : Key) : TRTEngine Key × Option Int :=
  let pending := e.inflight.get? requestId
  ({ e with inflight := e.inflight.erase requestId },
    match pending.bind GenerationResult.requestId with
    | none => none
    | some trtRequestId => if e.hasExecutor then some trtRequestId else none)

/-- `shutdown`. -/
def shutdown (e : TRTEngine Key) : TRTEngine Key := { e with isShutdown := true }

/-- One call, with what the executor is told. -/
def call (e : TRTEngine Key) (generated : Option GenerationResult) (requestId : Key) :
    EngineCall → TRTEngine Key × Option Int
  | .generate => (e.generateStream requestId generated, none)
  | .close => (e.closeStream requestId, none)
  | .abort => e.abort requestId

/-- Calls one after the other, with what the executor is told in their course. -/
def calls (generated : Option GenerationResult) :
    TRTEngine Key → List (Key × EngineCall) → TRTEngine Key × List (Key × Int)
  | e, [] => (e, [])
  | e, (requestId, c) :: rest =>
      let (e, told) := e.call generated requestId c
      let (e, more) := calls generated e rest
      (e, told.toList.map (requestId, ·) ++ more)

/-! ## One request at a time -/

/-- The generation registered for a request. -/
def registered (e : TRTEngine Key) (requestId : Key) : Option GenerationResult :=
  e.inflight.get? requestId

@[simp] theorem registered_shutdown (e : TRTEngine Key) (k : Key) :
    e.shutdown.registered k = e.registered k := rfl

theorem registered_generateStream_ne (e : TRTEngine Key) {requestId k : Key} (h : k ≠ requestId)
    (generated : Option GenerationResult) :
    (e.generateStream requestId generated).registered k = e.registered k := by
  unfold generateStream registered
  split
  · rfl
  · split
    · rfl
    · split
      · exact Dict.get?_set_ne _ _ h.symm
      · rfl

@[simp] theorem registered_closeStream (e : TRTEngine Key) (requestId k : Key) :
    (e.closeStream requestId).registered k = if k = requestId then none else e.registered k := by
  unfold closeStream registered
  split
  · rename_i hk
    rw [hk, Dict.get?_erase_self]
  · rename_i hk
    exact Dict.get?_erase_ne _ (Ne.symm hk)

/-- An abort forgets the generation. -/
@[simp] theorem registered_abort (e : TRTEngine Key) (requestId k : Key) :
    (e.abort requestId).1.registered k = if k = requestId then none else e.registered k :=
  registered_closeStream e requestId k

/-- **The executor is told of what is registered**, as far as it has a request there. -/
theorem told_abort (e : TRTEngine Key) (requestId : Key) (n : Int) :
    (e.abort requestId).2 = some n
      ↔ e.hasExecutor = true ∧ ∃ g, e.registered requestId = some g ∧ g.requestId = some n := by
  unfold abort registered
  cases hpending : e.inflight.get? requestId with
  | none => simp
  | some g =>
      cases hid : g.requestId with
      | none => simp [hid]
      | some m => simp [hid]

/-- Calls for other requests do not touch a request. -/
theorem registered_calls_ne (generated : Option GenerationResult) {k : Key} :
    ∀ (e : TRTEngine Key) (cs : List (Key × EngineCall)), (∀ p ∈ cs, p.1 ≠ k) →
      (e.calls generated cs).1.registered k = e.registered k := by
  intro e cs
  induction cs generalizing e with
  | nil => exact fun _ => rfl
  | cons p cs ih =>
      obtain ⟨requestId, c⟩ := p
      intro hne
      have hk : k ≠ requestId := (hne _ List.mem_cons_self).symm
      refine (ih _ fun q hq => hne q (List.mem_cons_of_mem _ hq)).trans ?_
      cases c with
      | generate => exact registered_generateStream_ne e hk generated
      | close => exact (registered_closeStream e requestId k).trans (if_neg hk)
      | abort => exact (registered_abort e requestId k).trans (if_neg hk)

end TRTEngine

end YapInference
