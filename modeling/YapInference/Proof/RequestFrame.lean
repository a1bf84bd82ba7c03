import YapInference.Proof.SessionFrame

/-!
# What leaves the request bookkeeping alone

Planning, starting, the tool half of a turn and a history commit all write to the
session, and none of them writes to the fields `Session.Requests` works on. So between
two critical sections those fields do not move.
-/

namespace YapInference

open Py

/-- Two sessions with the same request bookkeeping. -/
structure SameRequests (a b : SessionState) : Prop where
  task : a.activeRequestTask = b.activeRequestTask
  id : a.activeRequestId = b.activeRequestId
  lifecycle : a.lifecycleState = b.lifecycleState

namespace SameRequests

theorem refl (s : SessionState) : SameRequests s s := ⟨rfl, rfl, rfl⟩

theorem trans {a b c : SessionState} (h₁ : SameRequests a b) (h₂ : SameRequests b c) :
    SameRequests a c :=
  ⟨h₁.task.trans h₂.task, h₁.id.trans h₂.id, h₁.lifecycle.trans h₂.lifecycle⟩

end SameRequests

theorem WritesHistory.requests {s' s : SessionState} (h : WritesHistory s' s) :
    SameRequests s' s := by
  obtain ⟨_, _, rfl⟩ := h
  exact ⟨rfl, rfl, rfl⟩

/-! ## What a task writes -/

/-- What a task that is not streaming does to the session, its completion apart. -/
inductive TaskWrites (deps : Deps) (freshId : TurnId) (s : SessionState) (plan : TurnPlan) :
    SessionState → Prop where
  | nothing : TaskWrites deps freshId s plan s
  /-- The tool half of the turn is stored. -/
  | toolTurn {user turnId s' u h} :
      deps.sh.prepareToolTurn freshId s user turnId = .ok (s', u, h) →
      TaskWrites deps freshId s plan s'
  /-- The screen follow-up is noted. -/
  | followup (isTool : Bool) :
      TaskWrites deps freshId s plan (chatUserUttForPlan deps.sh s plan isTool).1

theorem startStream_writes (deps : Deps) (freshId : TurnId) (s : SessionState) (plan : TurnPlan)
    (isTool : Bool) (now : ℚ) :
    TaskWrites deps freshId s plan (Conn.startStream deps s plan isTool now).1 := by
  rw [startStream_session]
  exact .followup isTool

theorem dispatchExecution_writes (deps : Deps) (freshId : TurnId) (s : SessionState)
    (plan : TurnPlan) (now : ℚ) :
    TaskWrites deps freshId s plan (Conn.dispatchExecution deps freshId s plan now).1 := by
  have hroute : ∀ user turnId, TaskWrites deps freshId s plan
      (Conn.routeTool deps s (deps.sh.prepareToolTurn freshId s user turnId)).1 := by
    intro user turnId
    unfold Conn.routeTool
    split
    · rename_i s' texts he
      exact .toolTurn he
    · exact .nothing
  unfold Conn.dispatchExecution
  dsimp only
  split
  · split
    · exact .nothing
    · exact hroute _ _
  · split
    · split
      · exact .nothing
      · exact startStream_writes deps freshId s plan false now
    · split
      · split
        · exact .nothing
        · exact hroute _ _
      · exact .nothing

/-- **What a step of a task that is not streaming can do to the session.** -/
theorem runTask_writes {deps : Deps} {freshId : TurnId} {s s' : SessionState} {plan : TurnPlan}
    {phase phase' : TaskPhase deps.sanitizer} {event : TaskEvent}
    (h : Conn.runTask deps freshId s plan phase event = some (s', phase')) :
    TaskWrites deps freshId s plan s'
      ∨ (s' = completeRequest s plan.requestId ∧ phase' = .finished) := by
  have hsend : ∀ {event : ChainEvent} {next : SessionState × TaskPhase deps.sanitizer},
      TaskWrites deps freshId s plan next.1 →
      Conn.afterTaskSend deps s event next = some (s', phase') →
      TaskWrites deps freshId s plan s' := by
    intro event next hnext hs
    obtain ⟨result, -, heq⟩ := Option.map_eq_some_iff.mp hs
    split at heq
    · rw [heq] at hnext; exact hnext
    · cases heq; exact .nothing
  unfold Conn.runTask at h
  split at h
  · injection h with h
    have hwrites := dispatchExecution_writes deps freshId s plan ‹ℚ›
    rw [h] at hwrites
    exact Or.inl hwrites
  · cases h; exact Or.inl .nothing
  · cases h; exact Or.inl .nothing
  · cases h; exact Or.inl .nothing
  · cases h; exact Or.inl .nothing
  · refine Or.inl (hsend ?_ h)
    split
    · exact startStream_writes deps freshId s plan _ _
    · exact .nothing
  · exact Or.inl (hsend .nothing h)
  · exact Or.inl (hsend .nothing h)
  · exact Or.inl (hsend .nothing h)
  · obtain ⟨result, -, heq⟩ := Option.map_eq_some_iff.mp h
    cases heq
    exact Or.inl .nothing
  · cases h; exact Or.inr ⟨rfl, rfl⟩
  · cases h; exact Or.inl .nothing
  · cases h

theorem TaskWrites.requests {deps : Deps} {freshId : TurnId} {s s' : SessionState}
    {plan : TurnPlan} (h : TaskWrites deps freshId s plan s') : SameRequests s' s := by
  cases h with
  | nothing => exact .refl s
  | toolTurn he => exact (prepareToolTurn_writes he).history.requests
  | followup isTool =>
      rw [chatUserUttForPlan_session]
      exact ⟨rfl, rfl, rfl⟩

/-- A task that is not streaming touches the bookkeeping only to complete its request. -/
theorem runTask_requests {deps : Deps} {freshId : TurnId} {s s' : SessionState} {plan : TurnPlan}
    {phase phase' : TaskPhase deps.sanitizer} {event : TaskEvent}
    (h : Conn.runTask deps freshId s plan phase event = some (s', phase')) :
    SameRequests s' s ∨ (s' = completeRequest s plan.requestId ∧ phase' = .finished) := by
  rcases runTask_writes h with hw | hdone
  · exact Or.inl hw.requests
  · exact Or.inr hdone

theorem runTask_complete {deps : Deps} {freshId : TurnId} {s s' : SessionState} {plan : TurnPlan}
    {phase phase' : TaskPhase deps.sanitizer}
    (h : Conn.runTask deps freshId s plan phase .complete = some (s', phase')) :
    s' = completeRequest s plan.requestId := by
  cases phase with
  | completing => exact (Prod.mk.inj (Option.some.inj h)).1.symm
  | _ => cases h

theorem runTask_finished {deps : Deps} {freshId : TurnId} {s : SessionState} {plan : TurnPlan}
    (event : TaskEvent) : Conn.runTask deps freshId s plan .finished event = none := by
  unfold Conn.runTask; rfl

/-! ## Starting -/

theorem bootstrapStartTurn_requests {sh : SessionHandler} {parsing : NumberParsing}
    {pt : PromptText} {freshId : Nat → TurnId} {s : SessionState} {msg : Dict Text Json}
    {result : StartResult} (h : bootstrapStartTurn sh parsing pt freshId s msg = result) :
    SameRequests result.state s := by
  subst h
  rcases bootstrapStartTurn_writes sh parsing pt freshId s msg with heq | ⟨update, hwrites⟩
  · rw [heq]
    exact ⟨rfl, rfl, rfl⟩
  · exact hwrites.requests.trans ⟨rfl, rfl, rfl⟩

end YapInference
