import YapInference.Proof.ConnStep
import YapInference.Proof.ChainStep
import YapInference.Proof.StreamRun

/-!
# What a task leaves of the conversation

A task touches the chat history in one place, the commit of its streamed response, and that
is the last thing its response does. Here a task is followed from its creation to its end:
which phases can still lead to a stream, what a stream has shown, and what is committed when
it ends.
-/

namespace YapInference

open Py Conn

/-- Can the task still begin to stream? -/
def TaskPhase.mayStream {S : Sanitizer} : TaskPhase S → Bool
  | .created | .routing | .sendingTool _ => true
  | _ => false

/-- What the client was shown of a turn: the user's words as the turn was planned with, and the
acknowledged text. -/
def Task.shownTurn {S : Sanitizer} (t : Task S) : Option (Text × Text) :=
  t.response.bind fun run =>
    if run.ackedText = [] then none else some (t.plan.chatUserUtt.getD [], run.ackedText)

/-- What a turn has committed: nothing while it is streaming. -/
def Task.committedTurn {S : Sanitizer} (t : Task S) : Option (Text × Text) :=
  match t.phase with
  | .streaming _ => none
  | _ => t.shownTurn

theorem Task.committedTurn_of_quiet {S : Sanitizer} {t : Task S}
    (h : ∀ turn, t.phase ≠ .streaming turn) : t.committedTurn = t.shownTurn := by
  unfold Task.committedTurn
  split
  · rename_i turn hp
    exact absurd hp (h turn)
  · rfl

/-- An operation that ended is not streaming, and will not. -/
theorem phaseOfOutcome_quiet {S : Sanitizer} (lower : Lower) (outcome : StreamOutcome) :
    (∀ turn : ChatTurn S, phaseOfOutcome lower outcome ≠ .streaming turn)
      ∧ (phaseOfOutcome (S := S) lower outcome).mayStream = false := by
  unfold phaseOfOutcome
  split <;> exact ⟨fun _ => by simp, rfl⟩

/-- A stream in progress, as its task remembers it. -/
structure Streams {S : Sanitizer} (response : Option StreamRun) (turn : ChatTurn S) : Prop where
  phased : turn.WellPhased
  run : turn.run.RunInv
  running : ∀ outcome, turn.run.phase ≠ .ended outcome
  response : response = some turn.run ∨ (response = none ∧ turn.run.ackedText = [])

/-- What holds of a task at each of its awaits. -/
structure TaskInv (deps : Deps) (t : Task deps.sanitizer) : Prop where
  plan : t.plan.deployChat = deps.sh.historyConfig.deployChat
  unshown : t.phase.mayStream = true → t.response = none
  streaming : ∀ turn, t.phase = .streaming turn →
    deps.sh.historyConfig.deployChat = true ∧ Streams t.response turn

/-! ## Streaming -/

/-- What a step of a stream leaves: a stream, or an ended one and its commit. -/
inductive StreamSteps {S : Sanitizer} (lower : Lower) (turn turn' : ChatTurn S) : Prop where
  | goesOn : phaseOfTurn lower turn' = .streaming turn' → Streams (some turn'.run) turn' →
      newAppends turn.run turn'.run = [] → StreamSteps lower turn turn'
  | ended {outcome} : phaseOfTurn lower turn' = phaseOfOutcome lower outcome →
      newAppends turn.run turn'.run
        = (if turn'.run.ackedText = [] then []
          else [(turn.run.historyUser, turn'.run.ackedText)]) →
      StreamSteps lower turn turn'

/-- **What a stream commits**, over one step of the chain. -/
theorem streamSteps_of_step {S : Sanitizer} (lower : Lower) {response : Option StreamRun}
    {turn turn' : ChatTurn S} {event : ChainEvent} (h : Streams response turn)
    (hs : turn.step event = some turn') : StreamSteps lower turn turn' := by
  obtain ⟨events, hexec⟩ := ChatTurn.step_refines h.phased hs
  have hinv := StreamRun.runInv_exec h.run hexec
  have hbefore := StreamRun.appends_of_running h.run h.running
  have hnew : newAppends turn.run turn'.run = turn'.run.appends := by
    simp [newAppends, hbefore]
  -- a response commits at its end, and nothing before it
  by_cases hended : ∃ outcome, turn'.run.phase = .ended outcome
  · obtain ⟨outcome, hp⟩ := hended
    refine @StreamSteps.ended S lower turn turn' outcome ?_ ?_
    · simp [phaseOfTurn, hp]
    · rw [hnew, ← StreamRun.historyUser_exec hexec]
      exact StreamRun.committed_of_ended hinv hp
  · have hrunning : ∀ outcome, turn'.run.phase ≠ .ended outcome :=
      fun outcome hp => hended ⟨outcome, hp⟩
    refine .goesOn ?_ ⟨ChatTurn.step_wellPhased h.phased hs, hinv, hrunning, Or.inl rfl⟩ ?_
    · unfold phaseOfTurn
      split
      · rename_i outcome hp; exact absurd hp (hrunning outcome)
      · rfl
    · rw [hnew]
      exact StreamRun.appends_of_running hinv hrunning

/-! ## What is shown -/

namespace StreamRun

@[simp] theorem onChunk_ackedText (run : StreamRun) (chunk : Text) :
    (run.onChunk chunk).ackedText = run.ackedText := rfl

@[simp] theorem onExhausted_ackedText (run : StreamRun) :
    run.onExhausted.ackedText = run.ackedText := rfl

@[simp] theorem onRaised_ackedText (run : StreamRun) (r : Raised) :
    (run.onRaised r).ackedText = run.ackedText := leave_ackedText _ _

theorem onSent_ackedText (run : StreamRun) (result : SendResult) :
    (run.onSent result).ackedText = (run.logged result).ackedText := by
  rw [onSent_eq]
  split
  · unfold onAck
    split <;> first | rfl | exact leave_ackedText _ _
  · unfold onGone interrupt
    split <;> first | rfl | exact leave_ackedText _ _
  · exact leave_ackedText _ _

/-- A send shows something only if it acknowledges a token that is not empty. -/
theorem logged_ackedText (run : StreamRun) (result : SendResult) :
    (run.logged result).ackedText = run.ackedText
      ∨ (result = .ack ∧ ∃ chunk, chunk ≠ [] ∧ run.pendingFrame = some (.token chunk)) := by
  cases result with
  | ack =>
      cases hp : run.pendingFrame with
      | none => exact Or.inl (by simp [logged, hp, ackedText, ackedTokens])
      | some frame =>
          have hsnoc := ackedTokens_snoc run frame .ack
          have hlogged : run.logged .ack = { run with sends := run.sends ++ [(frame, .ack)] } := by
            simp [logged, hp]
          rw [hlogged, ackedText, hsnoc, ackedText]
          cases frame with
          | token chunk =>
              by_cases hc : chunk = []
              · exact Or.inl (by simp [hc])
              · exact Or.inr ⟨rfl, chunk, hc, rfl⟩
          | _ => exact Or.inl (by simp)
  | gone | failed _ | cancelled =>
      exact Or.inl (congrArg List.flatten (logged_ackedTokens (by simp)))

end StreamRun

namespace ChatTurn

variable {S : Sanitizer}

@[simp] theorem pull_ackedText (t : ChatTurn S) (next : GenNext) :
    (t.pull next).run.ackedText = t.run.ackedText := by
  cases next with
  | engine => rfl
  | items rest exit =>
      cases rest with
      | cons chunk rest => rfl
      | nil =>
          cases exit with
          | none => rfl
          | some r => exact StreamRun.onRaised_ackedText _ _

theorem exitStream_ackedText (t : ChatTurn S) (exit : Option Raised) :
    (t.exitStream exit).run.ackedText = t.run.ackedText := by
  unfold exitStream
  dsimp only
  split
  · simp
  · split <;> simp

theorem onSent_ackedText (t : ChatTurn S) (next : GenNext) (result : SendResult) :
    (t.onSent next result).run.ackedText = (t.run.onSent result).ackedText := by
  unfold onSent
  dsimp only
  split
  · simp
  · rfl
  · rfl

/-- **A step of the chain shows something only if it acknowledges a token in flight.** -/
theorem step_ackedText {t t' : ChatTurn S} {event : ChainEvent} (hs : t.step event = some t') :
    t'.run.ackedText = t.run.ackedText
      ∨ (event = .sent .ack ∧ ∃ chunk, chunk ≠ [] ∧ t.run.pendingFrame = some (.token chunk)) := by
  cases steps_of_step hs with
  | check _ | failedTimeout _ | timedOut _ | abortTimeout _ => exact Or.inl rfl
  | @output text now hp =>
      rcases onOutput_cases t text now with ⟨hr, -⟩ | ⟨chunk, hr, -⟩
      · exact Or.inl (by rw [hr])
      · exact Or.inl (by rw [hr, StreamRun.onChunk_ackedText])
  | exhausted _ | cancelEngine _ | failed _ _ | abortedCheck _ | abortedTimeout _ | cancelAbort _
  | abortFailed _ _ => exact Or.inl (exitStream_ackedText _ _)
  | @sent next result _ _ =>
      rw [onSent_ackedText, StreamRun.onSent_ackedText]
      rcases t.run.logged_ackedText result with heq | ⟨rfl, hshown⟩
      · exact Or.inl heq
      · exact Or.inr ⟨rfl, hshown⟩
  | @cancelSend next _ =>
      rw [onSent_ackedText, StreamRun.onSent_ackedText]
      rcases t.run.logged_ackedText .cancelled with heq | ⟨hack, -⟩
      · exact Or.inl heq
      · cases hack

end ChatTurn

/-! ## Before and after the stream -/

/-- Where a task that is not streaming can go: to a stream only from before one. -/
def TaskPhase.Leads {S : Sanitizer} (plan : TurnPlan) (phase phase' : TaskPhase S) : Prop :=
  match phase' with
  | .streaming turn => phase.mayStream = true ∧ plan.deployChat = true ∧ turn.phase = .engine
      ∧ ∃ historyUser, turn.run = .init historyUser
  | .created | .routing | .sendingTool _ => phase.mayStream = true
  | _ => True

theorem leads_phaseOfOutcome {S : Sanitizer} (lower : Lower) (plan : TurnPlan)
    (phase : TaskPhase S) (outcome : StreamOutcome) :
    phase.Leads plan (phaseOfOutcome lower outcome) := by
  unfold phaseOfOutcome
  split <;> trivial

theorem leads_startStream {deps : Deps} {s : SessionState} {plan : TurnPlan}
    {phase : TaskPhase deps.sanitizer} (hphase : phase.mayStream = true)
    (hchat : plan.deployChat = true) (isTool : Bool) (now : ℚ) :
    phase.Leads plan (startStream deps s plan isTool now).2 := by
  unfold startStream
  dsimp only
  split
  · trivial
  · split
    · trivial
    · exact leads_phaseOfOutcome _ _ _ _
    · exact ⟨hphase, hchat, rfl, _, rfl⟩

theorem leads_routeTool {deps : Deps} {s : SessionState} {plan : TurnPlan}
    {phase : TaskPhase deps.sanitizer} (hphase : phase.mayStream = true)
    (prepared : Except Exc (SessionState × Text × Text)) :
    phase.Leads plan (routeTool deps s prepared).2 := by
  cases prepared with
  | ok _ => exact hphase
  | error e => exact leads_phaseOfOutcome _ _ _ _

theorem leads_dispatchExecution {deps : Deps} {freshId : TurnId} {s : SessionState}
    {plan : TurnPlan} {phase : TaskPhase deps.sanitizer} (hphase : phase.mayStream = true)
    (now : ℚ) : phase.Leads plan (dispatchExecution deps freshId s plan now).2 := by
  unfold dispatchExecution
  dsimp only
  split
  · split
    · exact leads_phaseOfOutcome _ _ _ _
    · exact leads_routeTool hphase _
  · split
    · rename_i hchat
      split
      · exact leads_phaseOfOutcome _ _ _ _
      · exact leads_startStream hphase hchat false now
    · split
      · split
        · exact leads_phaseOfOutcome _ _ _ _
        · exact leads_routeTool hphase _
      · trivial

theorem leads_afterTaskSend {deps : Deps} {s s' : SessionState} {plan : TurnPlan}
    {phase phase' : TaskPhase deps.sanitizer} {event : ChainEvent}
    {next : SessionState × TaskPhase deps.sanitizer} (hnext : phase.Leads plan next.2)
    (h : afterTaskSend deps s event next = some (s', phase')) : phase.Leads plan phase' := by
  obtain ⟨result, -, heq⟩ := Option.map_eq_some_iff.mp h
  split at heq
  · rw [heq] at hnext; exact hnext
  · cases heq; exact leads_phaseOfOutcome _ _ _ _

theorem runTask_leads {deps : Deps} {freshId : TurnId} {s s' : SessionState} {plan : TurnPlan}
    {phase phase' : TaskPhase deps.sanitizer} {event : TaskEvent}
    (h : runTask deps freshId s plan phase event = some (s', phase')) :
    phase.Leads plan phase' := by
  unfold runTask at h
  split at h
  · injection h with h
    have hlead := @leads_dispatchExecution deps freshId s plan .created rfl ‹ℚ›
    rw [h] at hlead
    exact hlead
  · cases h; trivial
  · cases h; rfl
  · cases h; exact leads_phaseOfOutcome _ _ _ _
  · cases h; trivial
  · refine leads_afterTaskSend ?_ h
    split
    · rename_i hchat; exact leads_startStream rfl hchat _ _
    · trivial
  · exact leads_afterTaskSend (by trivial) h
  · exact leads_afterTaskSend (by trivial) h
  · exact leads_afterTaskSend (by trivial) h
  · obtain ⟨result, -, heq⟩ := Option.map_eq_some_iff.mp h
    cases heq
    trivial
  · cases h; trivial
  · cases h; trivial
  · cases h

/-! ## The chat history of a session -/

/-- Without a chat deployment there are no chat messages. -/
def NoChat (deps : Deps) (s : SessionState) : Prop :=
  deps.sh.historyConfig.deployChat = false → HistoryController.chatMessages s = []

theorem noChat_of_deployed {deps : Deps} (hchat : deps.sh.historyConfig.deployChat = true)
    (s : SessionState) : NoChat deps s :=
  fun hd => absurd (hchat.symm.trans hd) (by simp)

/-- **A task that is not streaming leaves the chat messages alone.** -/
theorem runTask_chatMessages {deps : Deps} {freshId : TurnId} {s s' : SessionState}
    {plan : TurnPlan} {phase phase' : TaskPhase deps.sanitizer} {event : TaskEvent}
    (hc : NoChat deps s) (h : runTask deps freshId s plan phase event = some (s', phase')) :
    HistoryController.chatMessages s' = HistoryController.chatMessages s := by
  rcases runTask_writes h with hw | ⟨rfl, -⟩
  · cases hw with
    | nothing => rfl
    | toolTurn he => exact (prepareToolTurn_writes he).chatMessages hc
    | followup isTool => rw [chatUserUttForPlan_session]; rfl
  · exact (cleanupSessionRequests_writes s _ _).chatMessages

end YapInference
