import Mathlib.Data.Finset.Card
import YapInference.Lib.Lts

/-!
# Admission of connections

`ConnectionHandler` of `src/handlers/connections.py`. The set is only touched under a lock whose
sections contain no await, so each section is one atomic step; what is in between is a call that
waits, for a permit, for the lock or for its next turn. A call is known by its socket: two calls at
the same point for the same socket have the same future.

`asyncio.Semaphore` is its counter. A permit that `wait_for` loses to its timeout goes back inside
`acquire`, so a call either has one or has not.
-/

namespace YapInference

/-- `ConnectionHandler`. -/
structure ConnectionHandler (Socket : Type) where
  maxConnections : Nat
  activeConnections : Finset Socket
  /-- The permits that are free. -/
  semaphore : Nat

/-- What `get_capacity_info` returns. -/
structure CapacityInfo where
  active : Nat
  max : Nat
  available : Int
  atCapacity : Bool
  deriving DecidableEq

namespace ConnectionHandler

variable {Socket : Type}

/-- `__init__`. -/
def create (maxConnections : Nat) : ConnectionHandler Socket where
  maxConnections := maxConnections
  activeConnections := ∅
  semaphore := maxConnections

/-- `self._semaphore.acquire()`, when it need not wait. -/
def acquire (handler : ConnectionHandler Socket) : Option (ConnectionHandler Socket) :=
  if handler.semaphore = 0 then none
  else some { handler with semaphore := handler.semaphore - 1 }

/-- `self._semaphore.release()`. -/
def release (handler : ConnectionHandler Socket) : ConnectionHandler Socket :=
  { handler with semaphore := handler.semaphore + 1 }

@[simp] theorem release_maxConnections (handler : ConnectionHandler Socket) :
    handler.release.maxConnections = handler.maxConnections := rfl

@[simp] theorem release_activeConnections (handler : ConnectionHandler Socket) :
    handler.release.activeConnections = handler.activeConnections := rfl

@[simp] theorem release_semaphore (handler : ConnectionHandler Socket) :
    handler.release.semaphore = handler.semaphore + 1 := rfl

/-- `get_capacity_info`. -/
def getCapacityInfo (handler : ConnectionHandler Socket) : CapacityInfo where
  active := handler.activeConnections.card
  max := handler.maxConnections
  available := handler.maxConnections - handler.activeConnections.card
  atCapacity := handler.activeConnections.card ≥ handler.maxConnections

variable [DecidableEq Socket]

/-- The locked section of `connect`. -/
def add (handler : ConnectionHandler Socket) (websocket : Socket) : ConnectionHandler Socket :=
  { handler with activeConnections := insert websocket handler.activeConnections }

@[simp] theorem add_maxConnections (handler : ConnectionHandler Socket) (websocket : Socket) :
    (handler.add websocket).maxConnections = handler.maxConnections := rfl

@[simp] theorem add_semaphore (handler : ConnectionHandler Socket) (websocket : Socket) :
    (handler.add websocket).semaphore = handler.semaphore := rfl

/-- The locked section of `disconnect`, and `should_release`. -/
def remove (handler : ConnectionHandler Socket) (websocket : Socket) :
    ConnectionHandler Socket × Bool :=
  if websocket ∈ handler.activeConnections then
    ({ handler with activeConnections := handler.activeConnections.erase websocket }, true)
  else (handler, false)

end ConnectionHandler

/-! ## Calls in flight -/

/-- The handler, and the calls that are at an await. -/
structure Admission (Socket : Type) where
  handler : ConnectionHandler Socket
  /-- `connect`, waiting for a permit. -/
  acquiring : List Socket := []
  /-- `connect`, with a permit, waiting for the lock. -/
  adding : List Socket := []
  /-- `disconnect`, waiting for the lock. -/
  removing : List Socket := []
  /-- `disconnect`, with the socket removed, about to release. -/
  releasing : List Socket := []
  /-- The sockets that were added, in order. -/
  admitted : List Socket := []
  /-- Those whose slot was released after that. -/
  released : List Socket := []

/-- What happens between two awaits. -/
inductive AdmissionStep (Socket : Type) where
  | connect (websocket : Socket)
  | acquired (websocket : Socket)
  /-- `wait_for` raises `TimeoutError`, and `connect` returns `False`. -/
  | timedOut (websocket : Socket)
  | added (websocket : Socket)
  /-- Taking the lock raises, and `connect` gives the permit back. -/
  | lockFailed (websocket : Socket)
  | disconnect (websocket : Socket)
  | removed (websocket : Socket)
  | released (websocket : Socket)
  deriving DecidableEq

namespace Admission

variable {Socket : Type} [DecidableEq Socket]

/-- A handler nobody has called yet. -/
def create (maxConnections : Nat) : Admission Socket where
  handler := .create maxConnections

/-- One step of one call. -/
def step (a : Admission Socket) : AdmissionStep Socket → Option (Admission Socket)
  | .connect websocket => some { a with acquiring := a.acquiring ++ [websocket] }
  | .acquired websocket =>
      if websocket ∈ a.acquiring then
        a.handler.acquire.map fun handler =>
          { a with
            handler := handler
            acquiring := a.acquiring.erase websocket
            adding := a.adding ++ [websocket] }
      else none
  | .timedOut websocket =>
      if websocket ∈ a.acquiring then
        some { a with acquiring := a.acquiring.erase websocket }
      else none
  | .added websocket =>
      if websocket ∈ a.adding then
        some { a with
          handler := a.handler.add websocket
          adding := a.adding.erase websocket
          admitted := a.admitted ++ [websocket] }
      else none
  | .lockFailed websocket =>
      if websocket ∈ a.adding then
        some { a with handler := a.handler.release, adding := a.adding.erase websocket }
      else none
  | .disconnect websocket => some { a with removing := a.removing ++ [websocket] }
  | .removed websocket =>
      if websocket ∈ a.removing then
        let (handler, shouldRelease) := a.handler.remove websocket
        some { a with
          handler := handler
          removing := a.removing.erase websocket
          releasing := if shouldRelease then a.releasing ++ [websocket] else a.releasing }
      else none
  | .released websocket =>
      if websocket ∈ a.releasing then
        some { a with
          handler := a.handler.release
          releasing := a.releasing.erase websocket
          released := a.released ++ [websocket] }
      else none

/-- What `_prepare_connection` promises: it connects a socket once, so no socket is connected that
is active or being connected. -/
def ConnectsOnce (a : Admission Socket) : AdmissionStep Socket → Prop
  | .connect websocket =>
      websocket ∉ a.acquiring ∧ websocket ∉ a.adding ∧ websocket ∉ a.handler.activeConnections
  | _ => True

instance (a : Admission Socket) (l : AdmissionStep Socket) : Decidable (a.ConnectsOnce l) := by
  cases l <;> simp only [ConnectsOnce] <;> infer_instance

/-- What that comes to: no socket is added to the set that is in it. -/
def AddsNew (a : Admission Socket) : AdmissionStep Socket → Prop
  | .added websocket => websocket ∉ a.handler.activeConnections
  | _ => True

instance (a : Admission Socket) (l : AdmissionStep Socket) : Decidable (a.AddsNew l) := by
  cases l <;> simp only [AddsNew] <;> infer_instance

end Admission

end YapInference
