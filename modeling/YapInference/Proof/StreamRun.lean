import YapInference.Lib.Lts
import YapInference.WebSocket.Stream

/-!
# Frames and history of one streamed response

`RunInv` says, for each await, what has been sent so far; the three exits that commit
and the one that does not all reach `ended` with the same fact, that the history holds
the acknowledged text or nothing when there is none.
-/

namespace YapInference

open Py

namespace StreamRun

/-- The texts of the token frames acknowledged so far. -/
def ackedTokens (run : StreamRun) : List Text :=
  run.sends.filterMap fun
    | (.token text, .ack) => some text
    | _ => none

/-- What the client has been shown. -/
def ackedText (run : StreamRun) : Text := run.ackedTokens.flatten

/-- `token*`, then `final` and `done` in this order as far as they go, or one error
frame when there was no text. The text of `final` is all the tokens'. -/
def FramesShape (frames : List Frame) : Prop :=
  ∃ (tokens : List Text) (rest : List Frame), frames = tokens.map Frame.token ++ rest
    ∧ (rest = []
      ∨ rest = [.final 200 tokens.flatten]
      ∨ rest = [.final 200 tokens.flatten, .done 200]
      ∨ (rest = [emptyOutputFrame] ∧ tokens.flatten = []))

/-- Every send so far was an acknowledged token, and nothing has been committed. -/
structure Streaming (run : StreamRun) : Prop where
  sends : run.sends = run.ackedTokens.map fun text => (Frame.token text, SendResult.ack)
  text : run.state.finalText = run.ackedText
  /-- The flag may lag behind only while no text has been shown. -/
  visible : run.ackedText ≠ [] → run.state.textVisible = true
  appends : run.appends = []
  committed : run.historyCommitted = false

/-- The history a finished run leaves: the acknowledged text, if there is any. -/
def Committed (run : StreamRun) : Prop :=
  run.appends = if run.ackedText = [] then [] else [(run.historyUser, run.ackedText)]

/-- What is true at each await. -/
def RunInv (run : StreamRun) : Prop :=
  match run.phase with
  | .sendInitial => False
  | .nextChunk | .sendToken _ => run.Streaming
  | .sendEmptyOutput => run.Streaming ∧ run.ackedText = []
  | .sendFinal => run.Streaming ∧ run.ackedText ≠ []
  | .sendDone =>
      run.ackedText ≠ [] ∧ run.state.finalText = run.ackedText ∧ run.state.textVisible = true
        ∧ run.appends = [] ∧ run.historyCommitted = false
        ∧ run.sends = (run.ackedTokens.map fun text => (Frame.token text, SendResult.ack))
            ++ [(.final 200 run.ackedText, .ack)]
  | .ended _ => FramesShape (run.sends.map Prod.fst) ∧ run.Committed

/-! ## Reading the log -/

theorem ackedTokens_snoc (run : StreamRun) (frame : Frame) (result : SendResult) :
    ackedTokens { run with sends := run.sends ++ [(frame, result)] }
      = run.ackedTokens ++ (match frame, result with
        | .token text, .ack => [text]
        | _, _ => []) := by
  unfold ackedTokens
  rw [List.filterMap_append]
  congr 1
  cases frame <;> cases result <;> rfl

theorem ackedText_eq_nil {run : StreamRun} :
    run.ackedText = [] ↔ ∀ text, (Frame.token text, SendResult.ack) ∈ run.sends → text = [] := by
  simp only [ackedText, List.flatten_eq_nil_iff, ackedTokens, List.mem_filterMap]
  constructor
  · intro h text hmem
    exact h text ⟨_, hmem, rfl⟩
  · intro h text h'
    obtain ⟨⟨frame, result⟩, hmem, hsome⟩ := h'
    cases frame <;> cases result <;> simp at hsome
    subst hsome
    exact h _ hmem

/-! ## Leaving -/

theorem leave_ackedText (run : StreamRun) (outcome : StreamOutcome) :
    (run.leave outcome).ackedText = run.ackedText := by
  unfold leave commitHistoryOnce; split <;> rfl

theorem leave_sends (run : StreamRun) (outcome : StreamOutcome) :
    (run.leave outcome).sends = run.sends := by
  unfold leave commitHistoryOnce; split <;> rfl

/-- **Every committing exit writes the acknowledged text once.** -/
theorem leave_inv {run : StreamRun} {outcome : StreamOutcome}
    (hshape : FramesShape (run.sends.map Prod.fst))
    (htext : run.state.finalText = run.ackedText)
    (hvisible : run.ackedText ≠ [] → run.state.textVisible = true)
    (happends : run.appends = []) (hcommitted : run.historyCommitted = false) :
    (run.leave outcome).RunInv := by
  refine ⟨by rw [leave_sends]; exact hshape, ?_⟩
  rw [Committed, leave_ackedText]
  unfold leave commitHistoryOnce shouldCommitVisibleHistory
  by_cases hne : run.ackedText = []
  · simp [hne, htext, happends]
  · simp [hne, htext, happends, hcommitted, hvisible hne]

theorem shape_tokens (tokens : List Text) : FramesShape (tokens.map Frame.token) :=
  ⟨tokens, [], by simp, Or.inl rfl⟩

theorem Streaming.fst {run : StreamRun} (h : run.Streaming) :
    run.sends.map Prod.fst = run.ackedTokens.map Frame.token := by
  conv_lhs => rw [h.sends]
  simp

/-! ## One await -/

theorem runInv_init (historyUser : Text) : (init historyUser).RunInv :=
  ⟨rfl, rfl, fun h => absurd rfl h, rfl, rfl⟩

theorem onChunk_inv {run : StreamRun} (h : run.Streaming) (chunk : Text) :
    (run.onChunk chunk).RunInv :=
  ⟨h.sends, h.text, h.visible, h.appends, h.committed⟩

theorem onExhausted_inv {run : StreamRun} (h : run.Streaming) : run.onExhausted.RunInv := by
  have hs : run.onExhausted.Streaming := ⟨h.sends, h.text, h.visible, h.appends, h.committed⟩
  have htext : run.onExhausted.ackedText = run.state.finalText := h.text.symm
  by_cases hne : run.state.finalText = []
  · have hp : run.onExhausted.phase = .sendEmptyOutput := by simp [onExhausted, hne]
    rw [RunInv, hp]
    exact ⟨hs, by rw [htext, hne]⟩
  · have hp : run.onExhausted.phase = .sendFinal := by simp [onExhausted, hne]
    rw [RunInv, hp]
    exact ⟨hs, by rw [htext]; exact hne⟩

theorem onRaised_inv {run : StreamRun} (h : run.Streaming) (r : Raised) :
    (run.onRaised r).RunInv :=
  leave_inv (h.fst ▸ shape_tokens _) h.text h.visible h.appends h.committed

/-- The log after the send in flight came back. -/
def logged (run : StreamRun) (result : SendResult) : StreamRun :=
  { run with sends := run.sends ++ run.pendingFrame.toList.map (·, result) }

theorem safeSendText_true {result : SendResult} :
    safeSendText result = .ok true ↔ result = .ack := by
  cases result with
  | failed e => cases e <;> simp [safeSendText]
  | _ => simp [safeSendText]

/-- What follows a send is decided by how it came back, over the new log. -/
theorem onSent_eq (run : StreamRun) (result : SendResult) :
    run.onSent result = match safeSendText result with
      | .ok true => (run.logged result).onAck
      | .ok false => (run.logged result).onGone
      | .error r => (run.logged result).leave (.raised r) := rfl

/-- Every send but that of the empty-output error looks whether the client is gone. -/
theorem onGone_eq_interrupt {run : StreamRun} (h : run.phase ≠ .sendEmptyOutput) :
    run.onGone = run.interrupt := by
  unfold onGone
  split
  · rename_i hp; exact absurd hp h
  · rfl

/-- A send that was not acknowledged shows nothing. -/
theorem logged_ackedTokens {run : StreamRun} {result : SendResult} (h : result ≠ .ack) :
    (run.logged result).ackedTokens = run.ackedTokens := by
  unfold logged
  cases run.pendingFrame with
  | none => simp [ackedTokens]
  | some frame =>
      simp only [Option.toList_some, List.map_cons, List.map_nil]
      rw [ackedTokens_snoc]
      cases frame <;> cases result <;> simp at h ⊢

/-- A failed send of the frame in flight ends the run in good order, whatever it was. -/
theorem leave_logged_inv {run : StreamRun} {result : SendResult} (hne : result ≠ .ack)
    (hshape : FramesShape ((run.logged result).sends.map Prod.fst))
    (htext : run.state.finalText = run.ackedText)
    (hvisible : run.ackedText ≠ [] → run.state.textVisible = true)
    (happends : run.appends = []) (hcommitted : run.historyCommitted = false) :
    (run.logged result).interrupt.RunInv
      ∧ ∀ r, ((run.logged result).leave (.raised r)).RunInv := by
  have hacked : (run.logged result).ackedText = run.ackedText := by
    rw [ackedText, logged_ackedTokens hne, ackedText]
  constructor
  · refine leave_inv hshape ?_ ?_ happends hcommitted
    · exact htext.trans hacked.symm
    · intro h; exact hvisible (hacked ▸ h)
  · intro r
    refine leave_inv hshape ?_ ?_ happends hcommitted
    · exact htext.trans hacked.symm
    · intro h; exact hvisible (hacked ▸ h)

/-- The invariant at the send in flight, as the two things that can follow it: the
acknowledged continuation, and an exit. -/
theorem onSent_of {run : StreamRun} (result : SendResult)
    (hack : result = .ack → (run.logged .ack).onAck.RunInv)
    (hgone : result ≠ .ack → (run.logged result).onGone.RunInv)
    (hraise : result ≠ .ack → ∀ r, ((run.logged result).leave (.raised r)).RunInv) :
    (run.onSent result).RunInv := by
  rw [onSent_eq]
  by_cases h : result = .ack
  · subst h; exact hack rfl
  · have hnt : safeSendText result ≠ .ok true := fun ht => h (safeSendText_true.mp ht)
    split
    · rename_i ht; exact absurd ht hnt
    · exact hgone h
    · exact hraise h _

theorem onSent_token_inv {run : StreamRun} {chunk : Text} (hp : run.phase = .sendToken chunk)
    (h : run.Streaming) (result : SendResult) : (run.onSent result).RunInv := by
  have hpend : run.pendingFrame = some (.token chunk) := by simp [pendingFrame, hp]
  have hshape : FramesShape ((run.logged result).sends.map Prod.fst) := by
    simp only [logged, hpend, List.map_append, Option.toList_some, List.map_cons, List.map_nil]
    rw [h.fst]
    have := shape_tokens (run.ackedTokens ++ [chunk])
    simpa using this
  refine onSent_of result ?_ ?_ ?_
  -- acknowledged: the chunk is shown, and the stream is pulled again
  · intro _
    have htokens : (run.logged .ack).ackedTokens = run.ackedTokens ++ [chunk] := by
      simp only [logged, hpend, Option.toList_some, List.map_cons, List.map_nil]
      rw [ackedTokens_snoc]
    have hphase : (run.logged .ack).onAck = { run.logged .ack with
        state := { run.state with
          finalText := run.state.finalText ++ chunk, textVisible := true }
        phase := .nextChunk } := by simp [onAck, logged, hp]
    have htok' : (run.logged .ack).onAck.ackedTokens = run.ackedTokens ++ [chunk] := by
      rw [hphase]; exact htokens
    rw [RunInv, hphase]
    refine ⟨?_, ?_, fun _ => rfl, h.appends, h.committed⟩
    · rw [← hphase, htok', hphase, List.map_append, ← h.sends]
      simp [logged, hpend]
    · rw [← hphase, ackedText, htok', hphase, List.flatten_append, h.text]
      simp [ackedText]
  · intro hne
    rw [onGone_eq_interrupt (by simp [logged, hp])]
    exact (leave_logged_inv hne hshape h.text h.visible h.appends h.committed).1
  · intro hne
    exact (leave_logged_inv hne hshape h.text h.visible h.appends h.committed).2

theorem onSent_emptyOutput_inv {run : StreamRun} (hp : run.phase = .sendEmptyOutput)
    (h : run.Streaming) (hempty : run.ackedText = []) (result : SendResult) :
    (run.onSent result).RunInv := by
  have hpend : run.pendingFrame = some emptyOutputFrame := by simp [pendingFrame, hp]
  have hshape : ∀ result, FramesShape ((run.logged result).sends.map Prod.fst) := by
    intro result
    simp only [logged, hpend, List.map_append, Option.toList_some, List.map_cons, List.map_nil]
    rw [h.fst]
    exact ⟨run.ackedTokens, [emptyOutputFrame], rfl, Or.inr (Or.inr (Or.inr ⟨rfl, hempty⟩))⟩
  have hacked : ∀ result, (run.logged result).ackedText = [] := by
    intro result
    simp only [logged, hpend, Option.toList_some, List.map_cons, List.map_nil, ackedText]
    rw [ackedTokens_snoc, emptyOutputFrame]
    simpa [ackedText] using hempty
  -- this exit returns without committing, and there is nothing to commit
  have hended : ∀ result outcome,
      ({ run.logged result with phase := .ended outcome } : StreamRun).RunInv := by
    intro result outcome
    refine ⟨hshape result, ?_⟩
    have : ({ run.logged result with phase := .ended outcome } : StreamRun).ackedText = [] :=
      hacked result
    rw [Committed, this, if_pos rfl]
    exact h.appends
  refine onSent_of result ?_ ?_ ?_
  · intro _
    have : (run.logged .ack).onAck
        = { run.logged .ack with phase := .ended (.returned run.state.finalText) } := by
      simp [onAck, logged, hp]
    rw [this]; exact hended _ _
  · intro _
    have : (run.logged result).onGone
        = { run.logged result with phase := .ended (.returned run.state.finalText) } := by
      simp [onGone, logged, hp]
    rw [this]; exact hended _ _
  · intro hne
    exact (leave_logged_inv hne (hshape result) h.text h.visible h.appends h.committed).2

theorem onSent_final_inv {run : StreamRun} (hp : run.phase = .sendFinal)
    (h : run.Streaming) (hne : run.ackedText ≠ []) (result : SendResult) :
    (run.onSent result).RunInv := by
  have hpend : run.pendingFrame = some (.final 200 run.ackedText) := by
    simp [pendingFrame, hp, h.text]
  have hshape : FramesShape ((run.logged result).sends.map Prod.fst) := by
    simp only [logged, hpend, List.map_append, Option.toList_some, List.map_cons, List.map_nil]
    rw [h.fst]
    exact ⟨run.ackedTokens, [.final 200 run.ackedText], rfl, Or.inr (Or.inl rfl)⟩
  refine onSent_of result ?_ ?_ ?_
  · intro _
    -- acknowledged: `done` follows, and the text is committed only after it
    have hphase : (run.logged .ack).onAck = { run.logged .ack with phase := .sendDone } := by
      simp [onAck, logged, hp]
    have hacked : (run.logged .ack).ackedTokens = run.ackedTokens := by
      simp only [logged, hpend, Option.toList_some, List.map_cons, List.map_nil]
      rw [ackedTokens_snoc]
      simp
    have hacked' : (run.logged .ack).onAck.ackedTokens = run.ackedTokens := by
      rw [hphase]; exact hacked
    have htext' : (run.logged .ack).onAck.ackedText = run.ackedText := by
      rw [ackedText, hacked', ackedText]
    rw [RunInv]
    have hp' : (run.logged .ack).onAck.phase = .sendDone := by rw [hphase]
    rw [hp']
    refine ⟨htext' ▸ hne, ?_, ?_, ?_, ?_, ?_⟩
    · rw [htext', hphase]; exact h.text
    · rw [hphase]; exact h.visible hne
    · rw [hphase]; exact h.appends
    · rw [hphase]; exact h.committed
    · rw [hacked', htext', ← h.sends, hphase]
      simp [logged, hpend]
  · intro hna
    rw [onGone_eq_interrupt (by simp [logged, hp])]
    exact (leave_logged_inv hna hshape h.text h.visible h.appends h.committed).1
  · intro hna
    exact (leave_logged_inv hna hshape h.text h.visible h.appends h.committed).2

theorem onSent_done_inv {run : StreamRun} (hp : run.phase = .sendDone) (h : run.RunInv)
    (result : SendResult) : (run.onSent result).RunInv := by
  rw [RunInv, hp] at h
  obtain ⟨hne, htext, hvisible, happends, hcommitted, hsends⟩ := h
  have hpend : run.pendingFrame = some (.done 200) := by simp [pendingFrame, hp]
  have hshape : ∀ result, FramesShape ((run.logged result).sends.map Prod.fst) := by
    intro result
    simp only [logged, hpend, List.map_append, Option.toList_some, List.map_cons, List.map_nil]
    rw [hsends]
    refine ⟨run.ackedTokens, [.final 200 run.ackedText, .done 200], ?_,
      Or.inr (Or.inr (Or.inl rfl))⟩
    simp
  refine onSent_of result ?_ ?_ ?_
  · intro _
    have hacked : (run.logged .ack).ackedText = run.ackedText := by
      simp only [logged, hpend, Option.toList_some, List.map_cons, List.map_nil, ackedText]
      rw [ackedTokens_snoc]
      simp
    have hphase : (run.logged .ack).onAck
        = (run.logged .ack).leave (.returned run.state.finalText) := by
      simp [onAck, logged, hp]
    rw [hphase]
    refine leave_inv (hshape _) (htext.trans hacked.symm) (fun _ => hvisible) happends hcommitted
  · intro hna
    rw [onGone_eq_interrupt (by simp [logged, hp])]
    exact (leave_logged_inv hna (hshape _) htext (fun _ => hvisible) happends hcommitted).1
  · intro hna
    exact (leave_logged_inv hna (hshape _) htext (fun _ => hvisible) happends hcommitted).2

theorem onSent_inv {run : StreamRun} (h : run.RunInv) (hpend : run.pendingFrame.isSome = true)
    (result : SendResult) : (run.onSent result).RunInv := by
  cases hp : run.phase with
  | sendInitial => rw [RunInv, hp] at h; exact h.elim
  | nextChunk => simp [pendingFrame, hp] at hpend
  | sendToken chunk => rw [RunInv, hp] at h; exact onSent_token_inv hp h result
  | sendEmptyOutput => rw [RunInv, hp] at h; exact onSent_emptyOutput_inv hp h.1 h.2 result
  | sendFinal => rw [RunInv, hp] at h; exact onSent_final_inv hp h.1 h.2 result
  | sendDone => exact onSent_done_inv hp h result
  | ended outcome => simp [pendingFrame, hp] at hpend

/-- **Preserved by every await.** -/
theorem runInv_step {run run' : StreamRun} {event : StreamEvent} (h : run.RunInv)
    (hs : run.step event = some run') : run'.RunInv := by
  unfold step at hs
  split at hs
  · rename_i text hp
    injection hs with hs
    rw [RunInv, hp] at h
    exact hs ▸ onChunk_inv h text
  · rename_i hp
    injection hs with hs
    rw [RunInv, hp] at h
    exact hs ▸ onExhausted_inv h
  · rename_i r hp
    injection hs with hs
    rw [RunInv, hp] at h
    exact hs ▸ onRaised_inv h r
  · rename_i result
    split at hs
    · rename_i hpend
      injection hs with hs
      exact hs ▸ onSent_inv h hpend result
    · exact absurd hs (by simp)
  · exact absurd hs (by simp)

/-- **Preserved by every run.** -/
theorem runInv_exec {run run' : StreamRun} {events : List StreamEvent} (h : run.RunInv)
    (he : Lts.exec step run events = some run') : run'.RunInv :=
  Lts.exec_inv (fun _ _ _ hi hs => runInv_step hi hs) h he

/-! ## What the frames and the history are -/

theorem attempted_shape {run : StreamRun} (h : run.RunInv) : FramesShape run.attempted := by
  cases hp : run.phase with
  | sendInitial => rw [RunInv, hp] at h; exact h.elim
  | nextChunk =>
      rw [RunInv, hp] at h
      rw [attempted, h.fst]
      simpa [pendingFrame, hp] using shape_tokens run.ackedTokens
  | sendToken chunk =>
      rw [RunInv, hp] at h
      rw [attempted, h.fst]
      simpa [pendingFrame, hp] using shape_tokens (run.ackedTokens ++ [chunk])
  | sendEmptyOutput =>
      rw [RunInv, hp] at h
      rw [attempted, h.1.fst]
      exact ⟨run.ackedTokens, [emptyOutputFrame], by simp [pendingFrame, hp],
        Or.inr (Or.inr (Or.inr ⟨rfl, h.2⟩))⟩
  | sendFinal =>
      rw [RunInv, hp] at h
      rw [attempted, h.1.fst]
      exact ⟨run.ackedTokens, [.final 200 run.ackedText], by simp [pendingFrame, hp, h.1.text],
        Or.inr (Or.inl rfl)⟩
  | sendDone =>
      rw [RunInv, hp] at h
      rw [attempted, h.2.2.2.2.2]
      exact ⟨run.ackedTokens, [.final 200 run.ackedText, .done 200], by simp [pendingFrame, hp],
        Or.inr (Or.inr (Or.inl rfl))⟩
  | ended outcome =>
      rw [RunInv, hp] at h
      simpa [attempted, pendingFrame, hp] using h.1

/-- A run that has not ended has committed nothing. -/
theorem appends_of_running {run : StreamRun} (h : run.RunInv)
    (hrunning : ∀ outcome, run.phase ≠ .ended outcome) : run.appends = [] := by
  cases hp : run.phase with
  | sendInitial => rw [RunInv, hp] at h; exact h.elim
  | nextChunk | sendToken _ => rw [RunInv, hp] at h; exact h.appends
  | sendEmptyOutput | sendFinal => rw [RunInv, hp] at h; exact h.1.appends
  | sendDone => rw [RunInv, hp] at h; exact h.2.2.2.1
  | ended outcome => exact absurd hp (hrunning outcome)

/-- One that has ended has committed what was acknowledged. -/
theorem committed_of_ended {run : StreamRun} (h : run.RunInv) {outcome : StreamOutcome}
    (hp : run.phase = .ended outcome) : run.Committed := by
  rw [RunInv, hp] at h
  exact h.2

theorem appends_of_inv {run : StreamRun} (h : run.RunInv) :
    run.appends = []
      ∨ (run.appends = [(run.historyUser, run.ackedText)] ∧ run.ackedText ≠ []) := by
  by_cases hended : ∃ outcome, run.phase = .ended outcome
  · obtain ⟨outcome, hp⟩ := hended
    have hc := committed_of_ended h hp
    unfold Committed at hc
    split at hc
    · exact Or.inl hc
    · rename_i hne; exact Or.inr ⟨hc, hne⟩
  · exact Or.inl (appends_of_running h fun outcome hp => hended ⟨outcome, hp⟩)

theorem historyUser_step {run run' : StreamRun} {event : StreamEvent}
    (h : run.step event = some run') : run'.historyUser = run.historyUser := by
  have hleave : ∀ (r : StreamRun) (o : StreamOutcome), (r.leave o).historyUser = r.historyUser := by
    intro r o; unfold leave commitHistoryOnce; split <;> rfl
  unfold step at h
  split at h
  · injection h with h; subst h; rfl
  · injection h with h; subst h; rfl
  · injection h with h; subst h; exact hleave _ _
  · split at h
    · injection h with h
      subst h
      simp only [onSent]
      split
      · unfold onAck; split <;> first | rfl | exact hleave _ _
      · unfold onGone interrupt; split <;> first | rfl | exact hleave _ _
      · exact hleave _ _
    · exact absurd h (by simp)
  · exact absurd h (by simp)

theorem historyUser_exec {run run' : StreamRun} {events : List StreamEvent}
    (he : Lts.exec step run events = some run') : run'.historyUser = run.historyUser :=
  Lts.exec_inv (I := fun r => r.historyUser = run.historyUser)
    (fun _ _ _ hi hs => (historyUser_step hs).trans hi) rfl he

/-- Frames other than tokens are sent only once the stream is exhausted. -/
theorem attempted_tokens_step {run run' : StreamRun} {event : StreamEvent}
    (h : (∀ frame ∈ run.attempted, ∃ text, frame = .token text) ∧ run.phase ≠ .sendInitial)
    (he : event ≠ .exhausted) (hs : run.step event = some run') :
    (∀ frame ∈ run'.attempted, ∃ text, frame = .token text) ∧ run'.phase ≠ .sendInitial := by
  obtain ⟨htok, hinit⟩ := h
  have hsends : ∀ frame ∈ run.sends.map Prod.fst, ∃ text, frame = .token text :=
    fun frame hf => htok frame (List.mem_append_left _ hf)
  have hleave : ∀ (r : StreamRun) (o : StreamOutcome),
      (∀ frame ∈ r.sends.map Prod.fst, ∃ text, frame = .token text) →
      (∀ frame ∈ (r.leave o).attempted, ∃ text, frame = .token text)
        ∧ (r.leave o).phase ≠ .sendInitial := by
    intro r o hr
    refine ⟨?_, by simp [leave]⟩
    intro frame hf
    refine hr frame ?_
    rw [attempted, leave_sends] at hf
    simpa [pendingFrame, leave] using hf
  unfold step at hs
  split at hs
  · rename_i text hp
    injection hs with hs
    subst hs
    refine ⟨?_, by simp [onChunk]⟩
    intro frame hf
    simp only [attempted, pendingFrame, onChunk, Option.toList_some] at hf
    rcases List.mem_append.mp hf with hf | hf
    · exact hsends frame hf
    · exact ⟨text, List.mem_singleton.mp hf⟩
  · exact absurd rfl he
  · injection hs with hs
    subst hs
    exact hleave run _ hsends
  · rename_i result
    split at hs
    · rename_i hpend
      injection hs with hs
      subst hs
      -- the frame in flight is a token, so the run is in `sendToken`
      cases hp : run.phase with
      | sendToken chunk =>
          have hlog : ∀ frame ∈ (run.logged result).sends.map Prod.fst,
              ∃ text, frame = .token text := by
            intro frame hf
            refine htok frame ?_
            simpa [logged, attempted, Function.comp_def] using hf
          rw [onSent_eq]
          split
          · refine ⟨?_, by simp [onAck, logged, hp]⟩
            intro frame hf
            refine hlog frame ?_
            simpa [onAck, logged, hp, attempted, pendingFrame] using hf
          · rw [onGone_eq_interrupt (by simp [logged, hp])]
            exact hleave _ _ hlog
          · exact hleave _ _ hlog
      | sendInitial => exact absurd hp hinit
      | nextChunk => simp [pendingFrame, hp] at hpend
      | ended _ => simp [pendingFrame, hp] at hpend
      | sendEmptyOutput =>
          obtain ⟨text, ht⟩ := htok emptyOutputFrame (by simp [attempted, pendingFrame, hp])
          simp [emptyOutputFrame] at ht
      | sendFinal =>
          obtain ⟨text, ht⟩ := htok (.final 200 run.state.finalText)
            (by simp [attempted, pendingFrame, hp])
          simp at ht
      | sendDone =>
          obtain ⟨text, ht⟩ := htok (.done 200) (by simp [attempted, pendingFrame, hp])
          simp at ht
    · exact absurd hs (by simp)
  · exact absurd hs (by simp)

theorem attempted_tokens_exec {historyUser : Text} {events : List StreamEvent} {run : StreamRun}
    (he : ∀ event ∈ events, event ≠ .exhausted)
    (h : Lts.exec step (init historyUser) events = some run) :
    ∀ frame ∈ run.attempted, ∃ text, frame = .token text :=
  (Lts.exec_inv_of_meets (I := fun run => (∀ frame ∈ run.attempted, ∃ text, frame = .token text)
      ∧ run.phase ≠ .sendInitial)
    (fun _ _ _ hi hc hs => attempted_tokens_step hi hc hs)
    ⟨by simp [attempted, pendingFrame, init, start], by simp [init, start]⟩
    (Lts.meets_of_forall he _) h).1

/--
**Frames and history of a streamed response.** After any sequence of chunks, send
results, exceptions and cancellations:

* the frames handed to the socket are tokens, then `final` with all their text, then
  `done`, or tokens without text and one error frame;
* anything but a token is sent only once the stream is exhausted;
* `append_chat_turn` has been called at most once, with the acknowledged text, and not
  before the response ended;
* when it has ended, it was called exactly if a non-empty token was acknowledged.
-/
theorem streamChatResponse_run (historyUser : Text) (events : List StreamEvent) (run : StreamRun)
    (h : Lts.exec step (init historyUser) events = some run) :
    FramesShape run.attempted
      ∧ (.exhausted ∉ events → ∀ frame ∈ run.attempted, ∃ text, frame = .token text)
      ∧ (run.appends = [] ∨ run.appends = [(historyUser, run.ackedText)])
      ∧ ((∀ outcome, run.phase ≠ .ended outcome) → run.appends = [])
      ∧ (∀ outcome, run.phase = .ended outcome →
          (run.appends ≠ [] ↔ ∃ text ≠ [], (Frame.token text, SendResult.ack) ∈ run.sends)) := by
  have hinv := runInv_exec (runInv_init historyUser) h
  have huser : run.historyUser = historyUser := historyUser_exec h
  refine ⟨attempted_shape hinv, ?_, ?_, ?_, ?_⟩
  · intro hno
    exact attempted_tokens_exec (fun event hmem heq => hno (heq ▸ hmem)) h
  · rcases appends_of_inv hinv with hnil | ⟨hone, -⟩
    · exact Or.inl hnil
    · exact Or.inr (huser ▸ hone)
  · intro hopen
    exact appends_of_running hinv hopen
  · intro outcome hp
    have hc := committed_of_ended hinv hp
    rw [Committed] at hc
    have hshown : run.ackedText ≠ [] ↔
        ∃ text ≠ [], (Frame.token text, SendResult.ack) ∈ run.sends := by
      rw [ne_eq, ackedText_eq_nil]
      push Not
      constructor
      · rintro ⟨text, hmem, hne⟩; exact ⟨text, hne, hmem⟩
      · rintro ⟨text, hne, hmem⟩; exact ⟨text, hmem, hne⟩
    rw [← hshown, hc]
    -- the text is committed exactly when it is not empty
    by_cases hne : run.ackedText = [] <;> simp [hne]

/-- A response that shows one token and then loses the client keeps that token. -/
theorem streamChatResponse_run_interrupted :
    let run : StreamRun := {
      state := { finalText := "Hi".toList, textVisible := true, interrupted := true }
      phase := .ended (.returned "Hi".toList)
      historyUser := "hello".toList
      historyCommitted := true
      appends := [("hello".toList, "Hi".toList)]
      sends := [(.token "Hi".toList, .ack), (.token " there".toList, .gone)] }
    run.appends ≠ [] ↔ ∃ text ≠ [], (Frame.token text, SendResult.ack) ∈ run.sends :=
  (streamChatResponse_run "hello".toList
    [.chunk "Hi".toList, .sent .ack, .chunk " there".toList, .sent .gone] _ (by decide)).2.2.2.2
    _ rfl

end StreamRun

end YapInference
