import YapInference.Lib.Lts
import YapInference.State

/-!
# Micro-batching

`src/tool/future.py` and `src/tool/batch.py`. The queue is thread-safe and unbounded, and one
worker thread takes from it; any number of threads put. A future is known by the place its request
has in the order of submission. `Queue.get` with a timeout raises `Empty` only if it still finds
nothing when the time is up.

What `infer_fn` and the softmax make of the texts comes from outside: rows, or an exception. Every
row is delivered on its own, since the callers' threads run in between.
-/

namespace YapInference

open Py

variable {Row : Type}

/-- `BatchFuture`. -/
structure BatchFuture (Row : Type) where
  event : Bool
  value : Option Row
  exc : Option Exc
  deriving DecidableEq

namespace BatchFuture

/-- `__init__`. -/
def fresh : BatchFuture Row where
  event := false
  value := none
  exc := none

/-- `set_result`. -/
def setResult (future : BatchFuture Row) (row : Row) : BatchFuture Row :=
  { future with value := some row, event := true }

/-- `set_exception`. -/
def setException (future : BatchFuture Row) (exc : Exc) : BatchFuture Row :=
  { future with exc := some exc, event := true }

/-- `result`, when its time is up. -/
def result (future : BatchFuture Row) : Except Exc Row :=
  if !future.event then .error .timeoutError
  else
    match future.exc, future.value with
    | some exc, _ => .error exc
    | none, none => .error (.runtimeError "Tool batch completed without result".toList)
    | none, some row => .ok row

/-- Set the result or the exception. -/
def resolve (future : BatchFuture Row) : Except Exc Row → BatchFuture Row
  | .ok row => future.setResult row
  | .error exc => future.setException exc

/-- A future that was resolved once. -/
def resolved (answer : Except Exc Row) : BatchFuture Row := fresh.resolve answer

end BatchFuture

/-- `RequestItem`; the future by its place. -/
structure RequestItem where
  text : Text
  future : Nat
  deriving DecidableEq

/-- What the requests of a batch of `size` are answered with: each its row, or all the exception. -/
def batchAnswers (size : Nat) : Except Exc (List Row) → List (Except Exc Row)
  | .error exc => List.replicate size (.error exc)
  | .ok probs =>
      if probs.length ≠ size then
        List.replicate size (.error (.runtimeError ("Batch size mismatch: ".toList
          ++ (toString size).toList ++ " requests, ".toList ++ (toString probs.length).toList
          ++ " results".toList)))
      else probs.map .ok

/-- Where the worker is. -/
inductive WorkerPhase (Row : Type) where
  /-- In `self._queue.get()`. -/
  | waiting
  /-- In the loop of `_collect_batch`. -/
  | collecting (batch : List RequestItem)
  /-- In `infer_fn`. -/
  | inferring (batch : List RequestItem)
  /-- In the loop that sets results or exceptions; what is left of it. -/
  | delivering (answers : List (RequestItem × Except Exc Row))
  deriving DecidableEq

/-- A batch and what inference made of it. -/
structure DispatchedBatch (Row : Type) where
  items : List RequestItem
  outcome : Except Exc (List Row)

/-- What its requests are answered with. -/
def DispatchedBatch.answers (batch : DispatchedBatch Row) : List (Except Exc Row) :=
  batchAnswers batch.items.length batch.outcome

/-- `BatchExecutor`, with its worker and the futures it has given out. -/
structure BatchExecutor (Row : Type) where
  maxBatch : Nat
  queue : List RequestItem := []
  phase : WorkerPhase Row := .waiting
  futures : List (BatchFuture Row) := []
  /-- Every request that was put, in order. -/
  submitted : List RequestItem := []
  /-- Every batch that inference has returned from, in order. -/
  dispatched : List (DispatchedBatch Row) := []

/-- What happens next. -/
inductive BatchStep (Row : Type) where
  /-- A caller's `classify` puts a request. -/
  | submit (text : Text)
  /-- The worker gets the first request of a batch. -/
  | getFirst
  /-- It gets another one in time. -/
  | get
  /-- It finds that the deadline has passed. -/
  | deadlinePassed
  /-- It has waited to the deadline in vain. -/
  | empty
  | inferred (outcome : Except Exc (List Row))
  /-- It resolves the next future. -/
  | deliver

/-- The text that is submitted, if this is a submission. -/
def BatchStep.submittedText : BatchStep Row → Option Text
  | .submit text => some text
  | _ => none

/-- Is this a step of the worker? -/
def BatchStep.ofWorker : BatchStep Row → Bool
  | .submit _ => false
  | _ => true

namespace BatchExecutor

/-- `__init__`. -/
def create (maxBatchSize : Int) : BatchExecutor Row where
  maxBatch := (max 1 maxBatchSize).toNat

/-- The condition of the loop of `_collect_batch`. -/
def collect (executor : BatchExecutor Row) (batch : List RequestItem) : WorkerPhase Row :=
  if batch.length < executor.maxBatch then .collecting batch else .inferring batch

/-- One step of a caller or of the worker. -/
def step (executor : BatchExecutor Row) : BatchStep Row → Option (BatchExecutor Row)
  | .submit text =>
      let item : RequestItem := { text := text, future := executor.futures.length }
      some { executor with
        queue := executor.queue ++ [item]
        futures := executor.futures ++ [.fresh]
        submitted := executor.submitted ++ [item] }
  | .getFirst =>
      match executor.phase, executor.queue with
      | .waiting, first :: rest =>
          some { executor with queue := rest, phase := executor.collect [first] }
      | _, _ => none
  | .get =>
      match executor.phase, executor.queue with
      | .collecting batch, next :: rest =>
          some { executor with queue := rest, phase := executor.collect (batch ++ [next]) }
      | _, _ => none
  | .deadlinePassed =>
      match executor.phase with
      | .collecting batch => some { executor with phase := .inferring batch }
      | _ => none
  | .empty =>
      match executor.phase, executor.queue with
      | .collecting batch, [] => some { executor with phase := .inferring batch }
      | _, _ => none
  | .inferred outcome =>
      match executor.phase with
      | .inferring batch =>
          some { executor with
            phase := .delivering (batch.zip (batchAnswers batch.length outcome))
            dispatched := executor.dispatched ++ [{ items := batch, outcome := outcome }] }
      | _ => none
  | .deliver =>
      match executor.phase with
      | .delivering ((item, answer) :: rest) =>
          some { executor with
            futures := executor.futures.modify item.future (·.resolve answer)
            phase := if rest.isEmpty then .waiting else .delivering rest }
      | _ => none

end BatchExecutor

end YapInference
