import YapInference.Proof.ChainStep
import YapInference.WebSocket.Supervision

/-!
# What is sent after a cancellation

A turn is cancelled in one of two ways: the cancel check returns true at an engine
output, or `CancelledError` is delivered at an await. `Watched` runs the supervised
chain and remembers how many frames had been handed to the socket at the first such
event.

Delivered at a send, a cancellation is always quiet. Everywhere else it passes through
the generators' `finally` clauses, which yield what is buffered; and the cancel check
raises an exception that `iter_text` swallows, so the chain completes as if the engine
had finished. `Harmless` is exactly the steps that avoid both.
-/

namespace YapInference

open Py

/-! ## The supervised turn, watched -/

namespace SupervisedTurn

variable {S : Sanitizer}

/-- The supervisor is in the operation only while the chain is running. -/
def WellPhased (s : SupervisedTurn S) : Prop :=
  s.phase = .operation → s.turn.WellPhased ∧ ∀ outcome, s.turn.run.phase ≠ .ended outcome

theorem afterOperation_wellPhased {lower : Lower} {s : SupervisedTurn S} {turn : ChatTurn S}
    (h : turn.WellPhased) : (s.afterOperation lower turn).WellPhased := by
  unfold afterOperation
  split
  · split <;> exact fun hp => absurd hp (by simp)
  · rename_i hopen
    exact fun _ => ⟨h, hopen⟩

theorem step_wellPhased {lower : Lower} {s s' : SupervisedTurn S} {event : ChainEvent}
    (h : s.WellPhased) (hs : s.step lower event = some s') : s'.WellPhased := by
  unfold step at hs
  split at hs
  · rename_i hp
    obtain ⟨turn, hturn, rfl⟩ := Option.map_eq_some_iff.mp hs
    exact afterOperation_wellPhased (ChatTurn.step_wellPhased (h hp).1 hturn)
  · split at hs
    · injection hs with hs; subst hs; exact fun hp => absurd hp (by simp)
    · injection hs with hs; subst hs; exact fun hp => absurd hp (by simp)
    · exact absurd hs (by simp)
  · exact absurd hs (by simp)

theorem afterOperation_answered {lower : Lower} {outcome : StreamOutcome} {turn : ChatTurn S}
    (s : SupervisedTurn S) (hp : turn.run.phase = .ended outcome)
    (ha : answersWithError lower outcome = true) :
    (s.afterOperation lower turn).attempted
      = turn.run.attempted ++ s.errorFrames ++ [internalErrorFrame] := by
  simp [afterOperation, hp, ha, attempted]

theorem afterOperation_unanswered (lower : Lower) (s : SupervisedTurn S) (turn : ChatTurn S)
    (ha : ∀ outcome, turn.run.phase = .ended outcome → answersWithError lower outcome = false) :
    (s.afterOperation lower turn).attempted = turn.run.attempted ++ s.errorFrames
      ∧ (∀ outcome, turn.run.phase = .ended outcome →
          (s.afterOperation lower turn).phase = .finished) := by
  unfold afterOperation
  split
  · rename_i outcome hp
    rw [if_neg (by simp [ha outcome hp])]
    exact ⟨rfl, fun _ _ => rfl⟩
  · rename_i hopen
    exact ⟨rfl, fun outcome hp => absurd hp (hopen outcome)⟩

theorem afterOperation_attempted_le (lower : Lower) (s : SupervisedTurn S) (turn : ChatTurn S) :
    turn.run.attempted.length + s.errorFrames.length
      ≤ (s.afterOperation lower turn).attempted.length := by
  unfold afterOperation
  split
  · split <;> simp [attempted]
  · simp [attempted]

theorem step_attempted_le {lower : Lower} {s s' : SupervisedTurn S} {event : ChainEvent}
    (h : s.WellPhased) (hs : s.step lower event = some s') :
    s.attempted.length ≤ s'.attempted.length := by
  unfold step at hs
  split at hs
  · rename_i hp
    obtain ⟨turn, hturn, rfl⟩ := Option.map_eq_some_iff.mp hs
    have hturn' := ChatTurn.step_attempted_le (h hp).1 hturn
    have hafter := afterOperation_attempted_le lower s turn
    rw [attempted, List.length_append]
    omega
  · split at hs
    · injection hs with hs; subst hs; exact Nat.le_refl _
    · injection hs with hs; subst hs; exact Nat.le_refl _
    · exact absurd hs (by simp)
  · exact absurd hs (by simp)

end SupervisedTurn

/-- A supervised turn with the number of frames handed to the socket when it was first
cancelled. -/
structure Watched (S : Sanitizer) where
  supervised : SupervisedTurn S
  cancelPoint : Option Nat

/-- The events that are a cancellation point. -/
def isCancellation : ChainEvent → Bool
  | .cancel => true
  | .output _ cancelCheck _ => cancelCheck
  | _ => false

namespace Watched

variable {S : Sanitizer}

/-- A turn about to pull the engine for the first time. -/
def start (S : Sanitizer) (historyUser : Text) (flushMs now : ℚ) (sanitizeOutput : Bool) :
    Watched S where
  supervised := {
    turn := .start S historyUser flushMs now sanitizeOutput
    phase := .operation
    errorFrames := [] }
  cancelPoint := none

/-- The watched turn after an event that took the turn to `supervised`. -/
def advance (w : Watched S) (event : ChainEvent) (supervised : SupervisedTurn S) : Watched S where
  supervised := supervised
  cancelPoint := w.cancelPoint.or
    (if isCancellation event then some w.supervised.attempted.length else none)

def step (lower : Lower) (w : Watched S) (event : ChainEvent) : Option (Watched S) :=
  (w.supervised.step lower event).map (w.advance event)

/-- Nothing has been sent since the cancellation, if there was one. -/
def Quiet (w : Watched S) : Prop :=
  ∀ k, w.cancelPoint = some k → w.supervised.attempted.length ≤ k

/-- The steps after which a cancelled turn stays silent: the buffered text comes to
nothing, and the exception under way is neither the one `iter_text` swallows nor one the
supervisor answers. -/
def Harmless (lower : Lower) (w : Watched S) (event : ChainEvent) : Prop :=
  w.supervised.phase = .operation →
    match w.supervised.turn.phase, event with
    | .engine, .cancel => w.supervised.turn.flushedTail.2 = none
    | .aborting _, .cancel => w.supervised.turn.flushedTail.2 = none
    | .aborting _, .aborted => w.cancelPoint = none
    | .aborting cause, .abortFailed e =>
        w.cancelPoint = none ∨ (cause = .cancelCheck ∧ e = .timeoutError)
          ∨ (w.supervised.turn.flushedTail.2 = none ∧ isExpectedWsDisconnect lower e = true)
    | _, _ => True

/-- A watched turn that has been silent since its cancellation: it is still waiting for
`engine.abort`, or it is over. -/
structure Silent (w : Watched S) : Prop where
  /-- No frame since. -/
  frames : ∀ k, w.cancelPoint = some k → w.supervised.attempted.length = k
  /-- Where a cancelled turn can be. -/
  place : w.cancelPoint ≠ none → w.supervised.phase = .operation →
    ∃ cause, w.supervised.turn.phase = .aborting cause

theorem quiet_of_silent {w : Watched S} (h : w.Silent) : w.Quiet :=
  fun k hk => Nat.le_of_eq (h.frames k hk)

theorem silent_start (historyUser : Text) (flushMs now : ℚ) (sanitizeOutput : Bool) :
    (start S historyUser flushMs now sanitizeOutput).Silent :=
  ⟨fun _ h => absurd h (by simp [start]), fun h => absurd rfl h⟩

theorem step_cases {lower : Lower} {w w' : Watched S} {event : ChainEvent}
    (h : w.step lower event = some w') :
    ∃ supervised, w.supervised.step lower event = some supervised
      ∧ w' = w.advance event supervised := by
  obtain ⟨supervised, hs, rfl⟩ := Option.map_eq_some_iff.mp h
  exact ⟨supervised, hs, rfl⟩

/-- The cancellation point, once set, is the frame count at every silent state. -/
theorem cancelPoint_step {w : Watched S} (h : w.Silent) {event : ChainEvent}
    {supervised : SupervisedTurn S} {k : Nat}
    (hk : (w.advance event supervised).cancelPoint = some k) :
    w.supervised.attempted.length = k := by
  unfold advance at hk
  dsimp only at hk
  cases hc : w.cancelPoint with
  | some c =>
      rw [hc, Option.some_or] at hk
      exact h.frames k (hc.trans hk)
  | none =>
      rw [hc, Option.none_or] at hk
      split at hk
      · exact Option.some.inj hk
      · exact absurd hk (by simp)

/-- A step that adds no frame, and leaves a cancelled turn waiting for the abort or over,
is silent. -/
theorem silent_of {w : Watched S} {event : ChainEvent} {supervised : SupervisedTurn S}
    (h : w.Silent) (hlen : w.cancelPoint ≠ none ∨ isCancellation event = true →
      supervised.attempted.length = w.supervised.attempted.length)
    (hplace : w.cancelPoint ≠ none ∨ isCancellation event = true →
      supervised.phase = .operation → ∃ cause, supervised.turn.phase = .aborting cause) :
    (w.advance event supervised).Silent := by
  have hwhen : ∀ k, (w.advance event supervised).cancelPoint = some k →
      w.cancelPoint ≠ none ∨ isCancellation event = true := by
    intro k hk
    unfold advance at hk
    dsimp only at hk
    by_cases hc : w.cancelPoint = none
    · rw [hc, Option.none_or] at hk
      split at hk
      · rename_i hcan; exact Or.inr hcan
      · exact absurd hk (by simp)
    · exact Or.inl hc
  refine ⟨?_, ?_⟩
  · intro k hk
    exact (hlen (hwhen k hk)).trans (cancelPoint_step h hk)
  · intro hne hp
    obtain ⟨k, hk⟩ := Option.ne_none_iff_exists'.mp hne
    exact hplace (hwhen k hk) hp

/-- A quiet exit of the stream, supervised. -/
theorem quietExit_supervised {lower : Lower} {s : SupervisedTurn S} {r : Raised}
    (hp : s.turn.run.phase = .nextChunk) (hr : r ≠ .exc .streamCancelledError)
    (htail : s.turn.flushedTail.2 = none) (hans : answersWithError lower (.raised r) = false) :
    (s.afterOperation lower (s.turn.exitStream (some r))).attempted.length
        = s.attempted.length
      ∧ (s.afterOperation lower (s.turn.exitStream (some r))).phase = .finished := by
  obtain ⟨hatt, hend, -⟩ := ChatTurn.exitStream_quiet hp hr htail
  obtain ⟨h1, h2⟩ := SupervisedTurn.afterOperation_unanswered lower s
    (s.turn.exitStream (some r))
    (fun outcome ho => by rw [hend] at ho; injection ho with ho; exact ho ▸ hans)
  exact ⟨by rw [h1, hatt, SupervisedTurn.attempted], h2 _ hend⟩

/-- Any other exit hands a frame to the socket: a token, a completion frame, or the
supervisor's answer. -/
theorem loudExit_supervised {lower : Lower} {s : SupervisedTurn S} {exit : Option Raised}
    (hp : s.turn.run.phase = .nextChunk)
    (hl : ¬ s.turn.QuietExit exit
      ∨ ∃ r, exit = some r ∧ answersWithError lower (.raised r) = true) :
    s.attempted.length < (s.afterOperation lower (s.turn.exitStream exit)).attempted.length := by
  by_cases hq : s.turn.QuietExit exit
  · obtain ⟨⟨r, rfl, hr⟩, htail⟩ := hq
    rcases hl with hl | ⟨r', hr', hans⟩
    · exact absurd ⟨⟨r, rfl, hr⟩, htail⟩ hl
    · injection hr' with hr'
      subst hr'
      obtain ⟨hatt, hend, -⟩ := ChatTurn.exitStream_quiet hp hr htail
      rw [SupervisedTurn.afterOperation_answered s hend hans, hatt, SupervisedTurn.attempted]
      simp
  · have hlen := ChatTurn.exitStream_loud hp hq
    have hle := SupervisedTurn.afterOperation_attempted_le lower s (s.turn.exitStream exit)
    rw [SupervisedTurn.attempted, List.length_append]
    omega

/-- A cancelled turn is waiting for the abort. -/
theorem Silent.uncancelled {w : Watched S} (h : w.Silent) (hop : w.supervised.phase = .operation)
    {p : ChainPhase} (hp : w.supervised.turn.phase = p) (hno : ∀ cause, p ≠ .aborting cause) :
    w.cancelPoint = none := by
  by_contra hne
  obtain ⟨cause, hcause⟩ := h.place hne hop
  exact hno cause (hp.symm.trans hcause)

/-- Where nothing was cancelled and the event is no cancellation, there is nothing to show. -/
theorem Silent.idle {w : Watched S} (h : w.Silent) {event : ChainEvent}
    (hn : w.cancelPoint = none) (hi : isCancellation event = false) (s : SupervisedTurn S) :
    (w.advance event s).Silent := by
  have hnot : ¬(w.cancelPoint ≠ none ∨ isCancellation event = true) := by simp [hn, hi]
  exact silent_of h (fun hx => absurd hx hnot) (fun hx => absurd hx hnot)

theorem Silent.quietExit {w : Watched S} (h : w.Silent) (event : ChainEvent) {lower : Lower}
    {r : Raised} (hp : w.supervised.turn.run.phase = .nextChunk)
    (hr : r ≠ .exc .streamCancelledError) (htail : w.supervised.turn.flushedTail.2 = none)
    (hans : answersWithError lower (.raised r) = false) :
    (w.advance event
      (w.supervised.afterOperation lower (w.supervised.turn.exitStream (some r)))).Silent := by
  obtain ⟨hlen, hfin⟩ := quietExit_supervised hp hr htail hans
  exact silent_of h (fun _ => hlen) (fun _ hx => absurd hx (by rw [hfin]; simp))

/-- To go and wait for the abort sends nothing. -/
theorem Silent.aborting {w : Watched S} (h : w.Silent) (event : ChainEvent) (lower : Lower)
    (hopen : ∀ outcome, w.supervised.turn.run.phase ≠ .ended outcome) (cause : AbortCause) :
    (w.advance event (w.supervised.afterOperation lower
      { w.supervised.turn with phase := .aborting cause })).Silent := by
  have hun := SupervisedTurn.afterOperation_unanswered lower w.supervised
    { w.supervised.turn with phase := .aborting cause }
    (fun outcome ho => absurd ho (hopen outcome))
  refine silent_of h (fun _ => by rw [hun.1]; rfl) (fun _ _ => ⟨cause, ?_⟩)
  unfold SupervisedTurn.afterOperation
  split
  · rename_i outcome ho; exact absurd ho (hopen outcome)
  · rfl

/-- Neither does a cancellation at a send. -/
theorem Silent.cancelledSend {w : Watched S} (h : w.Silent) (event : ChainEvent) (lower : Lower)
    (next : GenNext) :
    (w.advance event (w.supervised.afterOperation lower
      (w.supervised.turn.onSent next .cancelled))).Silent := by
  obtain ⟨hatt, hend⟩ := StreamRun.attempted_onSent_cancelled w.supervised.turn.run
  have hturn : w.supervised.turn.onSent next .cancelled
      = { w.supervised.turn with
          run := w.supervised.turn.run.onSent .cancelled, phase := .over } := by
    simp [ChatTurn.onSent, hend]
  rw [hturn]
  have hun := SupervisedTurn.afterOperation_unanswered lower w.supervised
    { w.supervised.turn with
      run := w.supervised.turn.run.onSent .cancelled, phase := .over }
    (fun outcome ho => by
      simp only [hend] at ho; injection ho with ho; subst ho; rfl)
  refine silent_of h (fun _ => by rw [hun.1, hatt, SupervisedTurn.attempted]) (fun _ hx => ?_)
  rw [hun.2 _ hend] at hx
  exact absurd hx (by simp)

/-- **A harmless step keeps a turn silent.** -/
theorem silent_step {lower : Lower} {w w' : Watched S} {event : ChainEvent}
    (hwell : w.supervised.WellPhased) (h : w.Silent) (hc : w.Harmless lower event)
    (hs : w.step lower event = some w') : w'.Silent := by
  obtain ⟨supervised, hstep, rfl⟩ := step_cases hs
  unfold SupervisedTurn.step at hstep
  split at hstep
  · rename_i hop
    obtain ⟨turn, hturn, rfl⟩ := Option.map_eq_some_iff.mp hstep
    obtain ⟨hwt, hopen⟩ := hwell hop
    have hc := hc hop
    cases ChatTurn.steps_of_step hturn with
    | check hp | failedTimeout hp | timedOut hp | abortTimeout hp =>
        exact h.aborting _ lower hopen _
    | output hp | exhausted hp | failed hp _ | sent hp _ =>
        exact h.idle (h.uncancelled hop hp (by simp)) rfl _
    | cancelEngine hp =>
        rw [hp] at hc
        exact h.quietExit _ (hwt.engine hp) (by simp) hc rfl
    | abortedCheck hp | abortedTimeout hp =>
        rw [hp] at hc
        exact h.idle hc rfl _
    | @abortFailed cause e hp hne =>
        rw [hp] at hc
        rcases hc with hn | hx | ⟨htail, hexp⟩
        · exact h.idle hn rfl _
        · exact absurd hx hne
        · refine h.quietExit _ (hwt.aborting hp) ?_ htail (by simp [answersWithError, hexp])
          intro hr
          injection hr with hr
          subst hr
          simp [isExpectedWsDisconnect] at hexp
    | cancelAbort hp =>
        rw [hp] at hc
        exact h.quietExit _ (hwt.aborting hp) (by simp) hc rfl
    | cancelSend hp => exact h.cancelledSend _ lower _
  · split at hstep
    · injection hstep with hstep; subst hstep
      exact silent_of h (fun _ => rfl) (fun _ hx => absurd hx (by simp))
    · injection hstep with hstep; subst hstep
      exact silent_of h (fun _ => rfl) (fun _ hx => absurd hx (by simp))
    · exact absurd hstep (by simp)
  · exact absurd hstep (by simp)

/-- A frame handed to the socket after the cancellation point is there to stay. -/
theorem not_quiet_step {lower : Lower} {w w' : Watched S} {event : ChainEvent}
    (hwell : w.supervised.WellPhased) (h : ¬ w.Quiet) (hs : w.step lower event = some w') :
    ¬ w'.Quiet := by
  obtain ⟨supervised, hstep, rfl⟩ := step_cases hs
  intro hq
  refine h (fun k hk => ?_)
  have hle := SupervisedTurn.step_attempted_le hwell hstep
  have := hq k (by simp [advance, hk])
  exact Nat.le_trans hle this

theorem not_quiet_of {w : Watched S} {event : ChainEvent} {supervised : SupervisedTurn S}
    (h : w.Silent) (hwhen : w.cancelPoint ≠ none ∨ isCancellation event = true)
    (hlt : w.supervised.attempted.length < supervised.attempted.length) :
    ¬ (w.advance event supervised).Quiet := by
  -- the cancellation point is set, before this step or by it
  have hsome : ∃ k, (w.advance event supervised).cancelPoint = some k := by
    unfold advance
    dsimp only
    cases hc : w.cancelPoint with
    | some c => exact ⟨c, by simp⟩
    | none =>
        rcases hwhen with hn | hcan
        · exact absurd hc hn
        · exact ⟨w.supervised.attempted.length, by simp [hcan]⟩
  obtain ⟨k, hk⟩ := hsome
  intro hq
  have := hq k hk
  have := cancelPoint_step h hk
  simp only [advance] at *
  omega

/-- **Any other step breaks the silence at once.** -/
theorem loud_step {lower : Lower} {w w' : Watched S} {event : ChainEvent}
    (hwell : w.supervised.WellPhased) (h : w.Silent) (hc : ¬ w.Harmless lower event)
    (hs : w.step lower event = some w') : ¬ w'.Quiet := by
  obtain ⟨supervised, hstep, rfl⟩ := step_cases hs
  unfold Harmless at hc
  rw [Classical.not_imp] at hc
  obtain ⟨hop, hc⟩ := hc
  simp only [SupervisedTurn.step, hop] at hstep
  obtain ⟨turn, hturn, rfl⟩ := Option.map_eq_some_iff.mp hstep
  obtain ⟨hwt, -⟩ := hwell hop
  have htail : ∀ {r : Raised}, w.supervised.turn.flushedTail.2 ≠ none →
      ¬ w.supervised.turn.QuietExit (some r) := fun hne hq => hne hq.2
  cases ChatTurn.steps_of_step hturn with
  | check hp | output hp | failedTimeout hp | timedOut hp | exhausted hp =>
      rw [hp] at hc; exact absurd trivial hc
  | failed hp _ => rw [hp] at hc; exact absurd trivial hc
  | sent hp _ => rw [hp] at hc; exact absurd trivial hc
  | cancelSend hp => rw [hp] at hc; exact absurd trivial hc
  | cancelEngine hp =>
      rw [hp] at hc
      exact not_quiet_of h (Or.inr rfl) (loudExit_supervised (hwt.engine hp) (Or.inl (htail hc)))
  | cancelAbort hp =>
      rw [hp] at hc
      exact not_quiet_of h (Or.inr rfl) (loudExit_supervised (hwt.aborting hp) (Or.inl (htail hc)))
  | abortedCheck hp =>
      rw [hp] at hc
      refine not_quiet_of h (Or.inl hc) (loudExit_supervised (hwt.aborting hp) (Or.inl ?_))
      intro h
      obtain ⟨⟨r, hr, hne⟩, -⟩ := h
      exact hne (Option.some.inj hr).symm
  | abortedTimeout hp =>
      rw [hp] at hc
      exact not_quiet_of h (Or.inl hc)
        (loudExit_supervised (hwt.aborting hp) (Or.inr ⟨_, rfl, rfl⟩))
  | abortTimeout hp =>
      rw [hp] at hc
      exact absurd (Or.inr (Or.inl ⟨rfl, rfl⟩)) hc
  | @abortFailed cause e hp _ =>
      rw [hp] at hc
      simp only [not_or] at hc
      obtain ⟨hn, -, hne⟩ := hc
      refine not_quiet_of h (Or.inl hn) (loudExit_supervised (hwt.aborting hp) ?_)
      -- either the tail is yielded, or the supervisor answers the exception
      by_cases ht : w.supervised.turn.flushedTail.2 = none
      · have hexp : isExpectedWsDisconnect lower e = false := by
          simpa using fun hx => hne ⟨ht, hx⟩
        exact Or.inr ⟨_, rfl, by simp [answersWithError, hexp]⟩
      · exact Or.inl (htail ht)

/-! ## Every run -/

theorem supervised_wellPhased_start (historyUser : Text) (flushMs now : ℚ)
    (sanitizeOutput : Bool) :
    (start S historyUser flushMs now sanitizeOutput).supervised.WellPhased :=
  fun _ => ⟨ChatTurn.wellPhased_start historyUser flushMs now sanitizeOutput,
    fun _ h => absurd h (by simp [start, ChatTurn.start, StreamRun.init, StreamRun.start])⟩

/-- **A turn stays silent after its cancellation exactly when every step of it is
harmless**, for every engine output, clock, buffering and send result. -/
theorem quiet_iff_harmless (lower : Lower) (historyUser : Text) (flushMs now : ℚ)
    (sanitizeOutput : Bool) (events : List ChainEvent) (w : Watched S)
    (h : Lts.exec (step lower) (start S historyUser flushMs now sanitizeOutput) events = some w) :
    w.Quiet ↔ Lts.Meets (step lower) (Harmless lower)
      (start S historyUser flushMs now sanitizeOutput) events := by
  refine Lts.exec_iff_meets (J := fun w => w.supervised.WellPhased) (I := Silent) ?_ ?_ ?_ ?_ ?_
    (supervised_wellPhased_start historyUser flushMs now sanitizeOutput)
    (silent_start historyUser flushMs now sanitizeOutput) h
  · intro w event w' hw hs
    obtain ⟨supervised, hstep, rfl⟩ := step_cases hs
    exact SupervisedTurn.step_wellPhased hw hstep
  · exact fun _ => quiet_of_silent
  · exact fun _ _ _ => silent_step
  · exact fun _ _ _ => loud_step
  · exact fun _ _ _ => not_quiet_step

end Watched

namespace Watched

/-- Cancelled at the send of a buffered token: nothing more is sent. -/
theorem quiet_iff_harmless_send :
    ∃ w, Lts.exec (step id) (start plainSanitizer [] 5 0 false)
        [.output (some "Hi".toList) false 0, .output (some "Hi you".toList) false 1, .cancel]
        = some w
      ∧ (w.Quiet ↔ Lts.Meets (step id) (Harmless id) (start plainSanitizer [] 5 0 false)
        [.output (some "Hi".toList) false 0, .output (some "Hi you".toList) false 1, .cancel]) := by
  have hsome : (Lts.exec (step id) (start plainSanitizer [] 5 0 false)
      [.output (some "Hi".toList) false 0, .output (some "Hi you".toList) false 1,
        .cancel]).isSome = true := by decide +kernel
  obtain ⟨w, hw⟩ := Option.isSome_iff_exists.mp hsome
  exact ⟨w, hw, quiet_iff_harmless id [] 5 0 false _ w hw⟩

/-- What an observer of a watched turn reports: the frames at the cancellation point and
all frames in the end. -/
def report (w : Watched S) : Option Nat × List Frame := (w.cancelPoint, w.supervised.attempted)

theorem not_quiet_of_report {o : Option (Watched S)} {k : Nat} {frames : List Frame}
    (h : o.map report = some (some k, frames)) (hlt : k < frames.length) :
    ∃ w, o = some w ∧ ¬ w.Quiet := by
  obtain ⟨w, rfl, hr⟩ := Option.map_eq_some_iff.mp h
  obtain ⟨hk, hf⟩ := Prod.mk.inj hr
  refine ⟨w, rfl, fun hq => ?_⟩
  have := hq k hk
  rw [hf] at this
  omega

/-- **Two turns that go on talking.** The cancel check stops the first at its second
output, and a `final` frame follows; `CancelledError` reaches the second at the engine
with text in the micro-buffer, and a token follows. -/
theorem frames_after_cancellation :
    (∃ w, Lts.exec (step id) (start plainSanitizer [] 0 0 false)
        [.output (some "Hi".toList) false 1, .sent .ack,
          .output (some "Hi there".toList) true 2, .aborted] = some w ∧ ¬ w.Quiet)
    ∧ ∃ w, Lts.exec (step id) (start plainSanitizer [] 5 0 false)
        [.output (some "Hi".toList) false 0, .cancel] = some w ∧ ¬ w.Quiet := by
  have hfinal : (Lts.exec (step id) (start plainSanitizer [] 0 0 false)
      [.output (some "Hi".toList) false 1, .sent .ack,
        .output (some "Hi there".toList) true 2, .aborted]).map report
      = some (some 1, [.token "Hi".toList, .final 200 "Hi".toList]) := by decide +kernel
  have htoken : (Lts.exec (step id) (start plainSanitizer [] 5 0 false)
      [.output (some "Hi".toList) false 0, .cancel]).map report
      = some (some 0, [.token "Hi".toList]) := by decide +kernel
  exact ⟨not_quiet_of_report hfinal (by decide), not_quiet_of_report htoken (by decide)⟩

end Watched

end YapInference
