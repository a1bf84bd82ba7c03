import YapInference.Lib.Lts
import YapInference.Session.Requests

/-!
# Sequences of request operations

The five operations of `Session.Requests` in any order, on a session that starts anywhere. Two
things should be final and are not quite.

A closed session stays closed until `cancel_session_requests` is called on it: alone among the
five, it does not look whether the session is closed, and from `cancelling` there is a way back.

A cancelled request, or one that a later request has replaced, counts as cancelled by the
lifecycle state, by the flag or by the request that is active now. A cleanup resets all three.
-/

namespace YapInference

open Lts

/-- One request operation. -/
inductive RequestOp where
  | begin (requestId : RequestId)
  | attach (requestId : RequestId) (task : TaskId)
  | cancel
  | cleanup (requestId : Option RequestId) (force : Bool)
  | close
  deriving DecidableEq

namespace RequestOp

/-- Run one operation. -/
def apply (state : SessionState) : RequestOp → SessionState
  | begin requestId => (beginSessionRequest state requestId).1
  | attach requestId task => attachRequestTask state requestId task
  | cancel => cancelSessionRequests state
  | cleanup requestId force => cleanupSessionRequests state requestId force
  | close => closeSessionRequests state

/-- Every operation is always possible. -/
def step (state : SessionState) (op : RequestOp) : Option SessionState := some (op.apply state)

/-- Is this a cleanup that does not pass the session by? -/
def cleansUp (state : SessionState) : RequestOp → Bool
  | cleanup requestId force => force || requestId.isNone || state.activeRequestId == requestId
  | _ => false

/-- Such a cleanup leaves nothing active and no flag. -/
theorem apply_of_cleansUp {state : SessionState} {op : RequestOp}
    (h : op.cleansUp state = true) :
    op.apply state
      = { state with
          activeRequestId := none
          activeRequestTask := none
          lifecycleState := if state.lifecycleState = .closed then .closed else .idle
          cancelRequested := false } := by
  cases op with
  | cleanup requestId force =>
      simp only [cleansUp, Bool.or_eq_true, beq_iff_eq, Option.isNone_iff_eq_none] at h
      simp only [apply, cleanupSessionRequests]
      rw [if_neg]
      rcases h with (rfl | rfl) | h <;> simp [*]
  | _ => simp [cleansUp] at h

/-- Any other cleanup does nothing. -/
theorem apply_of_passesBy {state : SessionState} {requestId : Option RequestId} {force : Bool}
    (h : (cleanup requestId force).cleansUp state = false) :
    (cleanup requestId force).apply state = state := by
  simp only [cleansUp, Bool.or_eq_false_iff, beq_eq_false_iff_ne, Option.isNone_eq_false_iff] at h
  simp [apply, cleanupSessionRequests, h]

end RequestOp

/-! ## Closed is final -/

/-- A session that is closed for good. -/
structure ClosedForGood (state : SessionState) : Prop where
  lifecycle : state.lifecycleState = .closed
  noRequest : state.activeRequestId = none
  noTask : state.activeRequestTask = none
  /-- It takes no new request. -/
  refuses : ∀ requestId, (beginSessionRequest state requestId).2 = false

theorem closedForGood_of {state : SessionState} (hlifecycle : state.lifecycleState = .closed)
    (hrequest : state.activeRequestId = none) (htask : state.activeRequestTask = none) :
    ClosedForGood state :=
  ⟨hlifecycle, hrequest, htask, fun _ => by simp [beginSessionRequest, hlifecycle]⟩

theorem closedForGood_close (state : SessionState) : ClosedForGood (closeSessionRequests state) :=
  closedForGood_of rfl rfl rfl

/-- Every operation but one looks whether the session is closed. -/
theorem closedForGood_step {state : SessionState} (h : ClosedForGood state) {op : RequestOp}
    (hop : op ≠ .cancel) : ClosedForGood (op.apply state) := by
  cases op with
  | begin requestId =>
      have happly : (RequestOp.begin requestId).apply state = state := by
        simp [RequestOp.apply, beginSessionRequest, h.lifecycle]
      exact happly.symm ▸ h
  | attach requestId task =>
      have happly : (RequestOp.attach requestId task).apply state = state := by
        simp [RequestOp.apply, attachRequestTask, h.lifecycle]
      exact happly.symm ▸ h
  | cancel => exact absurd rfl hop
  | cleanup requestId force =>
      cases hcleans : (RequestOp.cleanup requestId force).cleansUp state with
      | false => rw [RequestOp.apply_of_passesBy hcleans]; exact h
      | true =>
          rw [RequestOp.apply_of_cleansUp hcleans]
          exact closedForGood_of (by simp [h.lifecycle]) rfl rfl
  | close => exact closedForGood_close state

/-- **A closed session stays closed exactly as long as nothing cancels its requests.** -/
theorem closed_iff_neverCancelled (state : SessionState) (ops : List RequestOp) :
    Throughout RequestOp.step ClosedForGood (closeSessionRequests state) ops
      ↔ RequestOp.cancel ∉ ops := by
  have hrun := exec_total (fun s (op : RequestOp) => op.apply s) (closeSessionRequests state) ops
  -- `cancel` leaves the closed state at once
  have hmeets : Throughout RequestOp.step ClosedForGood (closeSessionRequests state) ops
      ↔ Meets RequestOp.step (fun _ op => op ≠ .cancel) (closeSessionRequests state) ops := by
    refine throughout_iff_meets (fun _ h => h) (fun s op s' hs _ hop hstep => ?_)
      (fun s op s' _ hop hstep hclosed => ?_) (closedForGood_close state)
      (meets_of_forall (fun _ _ => trivial) _) hrun
    · exact Option.some.inj hstep ▸ closedForGood_step hs hop
    · obtain rfl := Option.some.inj hstep
      obtain rfl := not_not.mp hop
      exact absurd hclosed.lifecycle (by simp [RequestOp.apply, cancelSessionRequests])
  rw [hmeets]
  constructor
  · intro h hcancel
    exact forall_of_meets h hrun _ hcancel rfl
  · intro h
    refine meets_of_forall (fun op hop => ?_) _
    intro heq
    obtain rfl := heq
    exact h hop

/-- Cancel and clean up a closed session, and it takes the next request. -/
theorem closed_then_cancelled :
    ¬ Throughout RequestOp.step ClosedForGood (closeSessionRequests (.fresh []))
        [.cancel, .cleanup none true]
      ∧ (let reopened := [RequestOp.cancel, .cleanup none true].foldl (fun s op => op.apply s)
            (closeSessionRequests (.fresh []))
         (beginSessionRequest reopened 7).2 = true
          ∧ (beginSessionRequest reopened 7).1.activeRequestId = some 7
          ∧ (beginSessionRequest reopened 7).1.lifecycleState = .running) := by
  refine ⟨fun h => ?_, by decide⟩
  exact absurd (h.2 _ rfl).start.lifecycle (by decide)

/-! ## Cancellation is not permanent -/

/-- A session and the requests it has seen. -/
structure RequestWatch where
  state : SessionState
  /-- The requests that were begun. -/
  begun : List RequestId := []
  /-- Those that were cancelled while active, or followed by another. -/
  gone : List RequestId := []
  deriving DecidableEq

namespace RequestWatch

/-- Run one operation and note what it did to whom. -/
def next (w : RequestWatch) (op : RequestOp) : RequestWatch :=
  let state := op.apply w.state
  match op with
  | .begin requestId =>
      if (beginSessionRequest w.state requestId).2 then
        { state, begun := w.begun ++ [requestId], gone := w.gone ++ w.begun }
      else { w with state }
  | .cancel => { w with state, gone := w.gone ++ w.state.activeRequestId.toList }
  | _ => { w with state }

def step (w : RequestWatch) (op : RequestOp) : Option RequestWatch := some (w.next op)

/-- No id is begun twice. -/
def BeginsFresh (w : RequestWatch) : RequestOp → Prop
  | .begin requestId => requestId ∉ w.begun
  | _ => True

/-- Once a request is gone, nothing is cleaned up before the session closes. -/
def LeavesMarks (w : RequestWatch) (op : RequestOp) : Prop :=
  w.gone ≠ [] → w.state.lifecycleState ≠ .closed → op.cleansUp w.state = false

/-- Every request that is gone counts as cancelled. -/
def Remembered (w : RequestWatch) : Prop :=
  ∀ r ∈ w.gone, isRequestCancelled w.state r = true

instance (w : RequestWatch) (op : RequestOp) : Decidable (w.BeginsFresh op) := by
  cases op <;> simp only [BeginsFresh] <;> infer_instance

instance (w : RequestWatch) (op : RequestOp) : Decidable (w.LeavesMarks op) :=
  inferInstanceAs (Decidable (_ → _ → _))

/-- What the lists say about the session. -/
structure Tracks (w : RequestWatch) : Prop where
  gone_begun : ∀ r ∈ w.gone, r ∈ w.begun
  active_begun : ∀ r, w.state.activeRequestId = some r → r ∈ w.begun
  remembered : w.Remembered

/-- Cancelling or closed, everyone counts as cancelled. -/
theorem remembered_of_lifecycle {w : RequestWatch}
    (h : w.state.lifecycleState = .cancelling ∨ w.state.lifecycleState = .closed) :
    w.Remembered := by
  intro r _
  rcases h with h | h <;> simp [isRequestCancelled, h]

/-- A cleanup before that makes everyone look uncancelled. -/
theorem not_cancelled_of_cleansUp {state : SessionState} {op : RequestOp}
    (hop : op.cleansUp state = true) (hopen : state.lifecycleState ≠ .closed) (r : RequestId) :
    isRequestCancelled (op.apply state) r = false := by
  rw [RequestOp.apply_of_cleansUp hop]
  simp [isRequestCancelled, hopen]

theorem tracks_begin {w : RequestWatch} (h : w.Tracks) {requestId : RequestId}
    (hfresh : requestId ∉ w.begun) : (w.next (.begin requestId)).Tracks := by
  by_cases hclosed : w.state.lifecycleState = .closed
  · have hsame : w.next (.begin requestId) = w := by
      simp [next, RequestOp.apply, beginSessionRequest, hclosed]
    exact hsame.symm ▸ h
  · have hnext : w.next (.begin requestId)
        = { state := { w.state with
              activeRequestId := some requestId
              cancelRequested := false
              lifecycleState := .running }
            begun := w.begun ++ [requestId]
            gone := w.gone ++ w.begun } := by
      simp [next, RequestOp.apply, beginSessionRequest, hclosed]
    rw [hnext]
    -- whoever was begun before is not the one that is active now
    have hold : ∀ r ∈ w.gone ++ w.begun, r ∈ w.begun := fun r hr =>
      (List.mem_append.mp hr).elim (h.gone_begun r) id
    exact {
      gone_begun := fun r hr => List.mem_append_left _ (hold r hr)
      active_begun := fun r hr => by simp_all
      remembered := fun r hr => by
        have hne : requestId ≠ r := fun heq => hfresh (heq ▸ hold r hr)
        simp [isRequestCancelled, hne] }

theorem tracks_attach {w : RequestWatch} (h : w.Tracks) (requestId : RequestId) (task : TaskId) :
    (w.next (.attach requestId task)).Tracks := by
  have hsame : ∃ t, (w.next (.attach requestId task)).state
      = { w.state with activeRequestTask := t } := by
    simp only [next, RequestOp.apply, attachRequestTask]
    split
    · exact ⟨_, rfl⟩
    · split
      · exact ⟨_, rfl⟩
      · exact ⟨some task, rfl⟩
  obtain ⟨t, ht⟩ := hsame
  refine ⟨h.gone_begun, fun r hr => h.active_begun r ?_, fun r hr => ?_⟩
  · simpa [ht] using hr
  · simpa [ht, isRequestCancelled] using h.remembered r hr

theorem tracks_cancel {w : RequestWatch} (h : w.Tracks) : (w.next .cancel).Tracks where
  gone_begun r hr := by
    rcases List.mem_append.mp hr with hr | hr
    · exact h.gone_begun r hr
    · exact h.active_begun r (Option.mem_toList.mp hr)
  active_begun := h.active_begun
  remembered := remembered_of_lifecycle (.inl rfl)

theorem tracks_cleanup {w : RequestWatch} (h : w.Tracks) {requestId : Option RequestId}
    {force : Bool} (hmarks : w.LeavesMarks (.cleanup requestId force)) :
    (w.next (.cleanup requestId force)).Tracks := by
  cases hop : (RequestOp.cleanup requestId force).cleansUp w.state with
  | false =>
      have hsame : w.next (.cleanup requestId force) = w := by
        simp [next, RequestOp.apply_of_passesBy hop]
      exact hsame.symm ▸ h
  | true =>
      have hstate := RequestOp.apply_of_cleansUp hop
      refine ⟨h.gone_begun, fun r hr => ?_, ?_⟩
      · simp [next, hstate] at hr
      · by_cases hclosed : w.state.lifecycleState = .closed
        · exact remembered_of_lifecycle (.inr (by simp [next, hstate, hclosed]))
        · -- nobody is gone yet
          have hgone : w.gone = [] := by
            by_contra hgone
            exact absurd (hmarks hgone hclosed) (by simp [hop])
          intro r hr
          simp [next, hgone] at hr

theorem tracks_close {w : RequestWatch} (h : w.Tracks) : (w.next .close).Tracks where
  gone_begun := h.gone_begun
  active_begun r hr := absurd hr (by simp [next, RequestOp.apply, closeSessionRequests])
  remembered := remembered_of_lifecycle (.inr rfl)

theorem tracks_next {w : RequestWatch} (h : w.Tracks) {op : RequestOp} (hfresh : w.BeginsFresh op)
    (hmarks : w.LeavesMarks op) : (w.next op).Tracks := by
  cases op with
  | begin requestId => exact tracks_begin h hfresh
  | attach requestId task => exact tracks_attach h requestId task
  | cancel => exact tracks_cancel h
  | cleanup requestId force => exact tracks_cleanup h hmarks
  | close => exact tracks_close h

/-- The cleanup that forgets someone is noticed at once. -/
theorem not_remembered_next {w : RequestWatch} {op : RequestOp} (h : ¬ w.LeavesMarks op) :
    ¬ (w.next op).Remembered := by
  simp only [LeavesMarks, Classical.not_imp, Bool.not_eq_false] at h
  obtain ⟨hgone, hopen, hop⟩ := h
  obtain ⟨r, hr⟩ := List.exists_mem_of_ne_nil _ hgone
  intro hremembered
  cases op with
  | cleanup requestId force =>
      exact absurd (hremembered r hr) (by simp [next, not_cancelled_of_cleansUp hop hopen])
  | _ => simp [RequestOp.cleansUp] at hop

end RequestWatch

/-- **A request that is gone counts as cancelled throughout exactly the runs that clean nothing up
from then on, until the session closes.** -/
theorem RequestWatch.remembered_iff_leavesMarks {state : SessionState}
    (hidle : state.activeRequestId = none) {ops : List RequestOp}
    (hfresh : Meets RequestWatch.step RequestWatch.BeginsFresh { state } ops) :
    Throughout RequestWatch.step RequestWatch.Remembered { state } ops
      ↔ Meets RequestWatch.step RequestWatch.LeavesMarks { state } ops := by
  have hstart : RequestWatch.Tracks { state } :=
    ⟨fun r hr => by simp at hr, fun r hr => by simp [hidle] at hr, fun r hr => by simp at hr⟩
  refine throughout_iff_meets (fun _ h => h.remembered)
    (fun w op w' h hfresh hmarks hstep => ?_) (fun w op w' _ hmarks hstep => ?_) hstart hfresh
    (exec_total RequestWatch.next _ ops)
  · exact Option.some.inj hstep ▸ RequestWatch.tracks_next h hfresh hmarks
  · exact Option.some.inj hstep ▸ RequestWatch.not_remembered_next hmarks

/-- Two requests and a cancellation, and nothing is cleaned up until the session is closed. -/
theorem RequestWatch.remembered_iff_leavesMarks_closed :
    Throughout RequestWatch.step RequestWatch.Remembered { state := .fresh [] }
      [.begin 1, .attach 1 5, .begin 2, .cancel, .close, .cleanup none true] :=
  (RequestWatch.remembered_iff_leavesMarks rfl (by decide)).mpr (by decide)

/-- A barge-in cancels the request and cleans up at once: its generation is told to go on. -/
theorem RequestWatch.cancelled_then_forgotten :
    Meets RequestWatch.step RequestWatch.BeginsFresh { state := .fresh [] }
        [.begin 1, .cancel, .cleanup none true]
      ∧ ¬ Throughout RequestWatch.step RequestWatch.Remembered { state := .fresh [] }
          [.begin 1, .cancel, .cleanup none true] := by
  refine ⟨by decide, fun h => ?_⟩
  have hlast := ((h.2 _ rfl).2 _ rfl).2 _ rfl
  exact absurd (hlast 1 (by decide)) (by decide)

end YapInference
