import YapInference.State

/-!
# Request tracking

`src/handlers/session/requests.py`. Every function here runs inside the request lock
and never suspends, so each is one atomic step on the session. A task handle is
consulted for one thing only, whether it is done; that is a predicate on task ids
here. What `cancel_session_requests` does to the handle is reported by
`taskToCancel`, and applied by whoever owns the tasks.
-/

namespace YapInference

/-- `is_request_cancelled`. -/
def isRequestCancelled (state : SessionState) (requestId : RequestId) : Bool :=
  if state.lifecycleState = .cancelling || state.lifecycleState = .closed then true
  else if state.cancelRequested then true
  else
    match state.activeRequestId with
    | none => false
    | some active => active != requestId

/-- `has_running_task`. -/
def hasRunningTask (taskDone : TaskId → Bool) (state : SessionState) : Bool :=
  match state.activeRequestTask with
  | none => false
  | some task => !taskDone task

/-- `begin_session_request`; the flag is its result. -/
def beginSessionRequest (state : SessionState) (requestId : RequestId) : SessionState × Bool :=
  if state.lifecycleState = .closed then (state, false)
  else
    ({ state with
        activeRequestId := some requestId
        cancelRequested := false
        lifecycleState := .running }, true)

/-- `attach_request_task`. -/
def attachRequestTask (state : SessionState) (requestId : RequestId) (task : TaskId) :
    SessionState :=
  if state.lifecycleState = .closed then state
  else if state.activeRequestId ≠ some requestId then state
  else { state with activeRequestTask := some task }

/-- The task `cancel_session_requests` calls `cancel` on. -/
def taskToCancel (taskDone : TaskId → Bool) (state : SessionState) : Option TaskId :=
  state.activeRequestTask.filter fun task => !taskDone task

/-- `cancel_session_requests`, on the session. -/
def cancelSessionRequests (state : SessionState) : SessionState :=
  { state with lifecycleState := .cancelling, cancelRequested := true }

/-- `cleanup_session_requests`, without the ids it returns. -/
def cleanupSessionRequests (state : SessionState) (requestId : Option RequestId) (force : Bool) :
    SessionState :=
  if !force && requestId.isSome && state.activeRequestId != requestId then state
  else
    { state with
      activeRequestId := none
      activeRequestTask := none
      lifecycleState := if state.lifecycleState = .closed then .closed else .idle
      cancelRequested := false }

/-- `close_session_requests`. -/
def closeSessionRequests (state : SessionState) : SessionState :=
  { state with
    lifecycleState := .closed
    cancelRequested := true
    activeRequestId := none
    activeRequestTask := none }

/-- `complete_request`. -/
def completeRequest (state : SessionState) (requestId : RequestId) : SessionState :=
  cleanupSessionRequests state (some requestId) false

/-- A completion of a request that is not the active one changes nothing. -/
theorem completeRequest_stale {state : SessionState} {requestId : RequestId}
    (h : state.activeRequestId ≠ some requestId) : completeRequest state requestId = state := by
  simp [completeRequest, cleanupSessionRequests, h]

end YapInference
