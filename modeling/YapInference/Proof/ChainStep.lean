import YapInference.Lib.Lts
import YapInference.Execution.Controller

/-!
# Steps of the streaming chain

What one await of the chain does, said once: `Steps` lists the cases with their guards,
`WellPhased` relates the position of the generators to the position of their consumer,
and the frames handed to the socket only grow.
-/

namespace YapInference

open Py

/-! ## Frames grow -/

namespace StreamRun

theorem attempted_leave {run : StreamRun} (outcome : StreamOutcome) :
    (run.leave outcome).attempted = run.sends.map Prod.fst := by
  unfold leave commitHistoryOnce
  split <;> simp [attempted, pendingFrame]

theorem attempted_nextChunk {run : StreamRun} (hp : run.phase = .nextChunk) :
    run.attempted = run.sends.map Prod.fst := by
  simp [attempted, pendingFrame, hp]

theorem attempted_onChunk {run : StreamRun} (hp : run.phase = .nextChunk) (chunk : Text) :
    (run.onChunk chunk).attempted = run.attempted ++ [.token chunk] := by
  rw [attempted_nextChunk hp]
  simp [attempted, pendingFrame, onChunk]

theorem attempted_onExhausted {run : StreamRun} (hp : run.phase = .nextChunk) :
    ∃ frame, run.onExhausted.attempted = run.attempted ++ [frame]
      ∧ run.onExhausted.pendingFrame = some frame := by
  rw [attempted_nextChunk hp]
  by_cases hne : run.state.finalText.isEmpty = true
  · exact ⟨emptyOutputFrame, by simp [attempted, pendingFrame, onExhausted, hne],
      by simp [pendingFrame, onExhausted, hne]⟩
  · exact ⟨.final 200 run.state.finalText, by simp [attempted, pendingFrame, onExhausted, hne],
      by simp [pendingFrame, onExhausted, hne]⟩

theorem attempted_onRaised {run : StreamRun} (hp : run.phase = .nextChunk) (r : Raised) :
    (run.onRaised r).attempted = run.attempted := by
  rw [attempted_nextChunk hp, onRaised, attempted_leave]

/-- The frame in flight is logged whatever its send came back with. -/
theorem attempted_onSent (run : StreamRun) (result : SendResult) :
    run.attempted <+: (run.onSent result).attempted := by
  -- the log takes over the frame in flight, so the frames are the same before and after
  have hlog : ∀ r : StreamRun,
      r.sends = run.sends ++ run.pendingFrame.toList.map (·, result) →
      run.attempted = r.sends.map Prod.fst := by
    intro r hr
    rw [hr, attempted, List.map_append, List.map_map]
    simp [Function.comp_def]
  have hpre : ∀ r : StreamRun, r.sends = run.sends ++ run.pendingFrame.toList.map (·, result) →
      run.attempted <+: r.attempted :=
    fun r hr => hlog r hr ▸ List.prefix_append _ _
  have hleave : ∀ (r : StreamRun) (o : StreamOutcome),
      r.sends = run.sends ++ run.pendingFrame.toList.map (·, result) →
      run.attempted <+: (r.leave o).attempted := by
    intro r o hr
    rw [attempted_leave, hlog r hr]
  simp only [onSent]
  split
  · unfold onAck
    split <;> first | exact hpre _ rfl | exact hleave _ _ rfl
  · unfold onGone interrupt
    split <;> first | exact hpre _ rfl | exact hleave _ _ rfl
  · exact hleave _ _ rfl

theorem attempted_onSent_cancelled (run : StreamRun) :
    (run.onSent .cancelled).attempted = run.attempted
      ∧ (run.onSent .cancelled).phase = .ended (.raised .cancelledError) := by
  have hfold : run.onSent .cancelled
      = ({ run with sends := run.sends ++ run.pendingFrame.toList.map (·, .cancelled) } :
          StreamRun).leave (.raised .cancelledError) := rfl
  rw [hfold]
  refine ⟨?_, rfl⟩
  rw [attempted_leave, attempted, List.map_append, List.map_map]
  simp [Function.comp_def]

end StreamRun

namespace ChatTurn

variable {S : Sanitizer}

/-- The chain and its consumer agree on where they are. -/
def WellPhased (t : ChatTurn S) : Prop :=
  match t.phase with
  | .engine | .aborting _ => t.run.phase = .nextChunk
  | .consuming _ => t.run.pendingFrame.isSome = true
  | .over => ∃ outcome, t.run.phase = .ended outcome

theorem wellPhased_start (historyUser : Text) (flushMs now : ℚ) (sanitizeOutput : Bool) :
    (start S historyUser flushMs now sanitizeOutput).WellPhased := rfl

@[simp] theorem pushChunk_run (t : ChatTurn S) (chunk : Text) : (t.pushChunk chunk).1.run = t.run := by
  unfold pushChunk; split <;> rfl

@[simp] theorem flushedTail_run (t : ChatTurn S) : t.flushedTail.1.run = t.run := by
  unfold flushedTail
  dsimp only
  split
  · rfl
  · exact pushChunk_run _ _

theorem pull_wellPhased {t : ChatTurn S} (h : t.run.phase = .nextChunk) (next : GenNext) :
    (t.pull next).WellPhased := by
  cases next with
  | engine => exact h
  | items rest exit =>
      cases rest with
      | cons chunk rest => rfl
      | nil =>
          cases exit with
          | none =>
              obtain ⟨frame, -, hf⟩ := StreamRun.attempted_onExhausted h
              simp [pull, WellPhased, hf]
          | some r => exact ⟨.raised r, rfl⟩

/-- Pulling a stream that ends without another item ends the run quietly; any other end
puts a frame on the wire. -/
theorem pull_items_attempted {t : ChatTurn S} (h : t.run.phase = .nextChunk) (rest : List Text)
    (exit : Option Raised) :
    (rest = [] ∧ exit.isSome = true
        ∧ (t.pull (.items rest exit)).run.attempted = t.run.attempted)
      ∨ (¬(rest = [] ∧ exit.isSome = true)
        ∧ (t.pull (.items rest exit)).run.attempted.length = t.run.attempted.length + 1) := by
  cases rest with
  | cons chunk rest =>
      refine Or.inr ⟨by simp, ?_⟩
      simp [pull, StreamRun.attempted_onChunk h]
  | nil =>
      cases exit with
      | none =>
          obtain ⟨frame, hf, -⟩ := StreamRun.attempted_onExhausted h
          refine Or.inr ⟨by simp, ?_⟩
          simp [pull, hf]
      | some r =>
          exact Or.inl ⟨rfl, rfl, by simp [pull, StreamRun.attempted_onRaised h]⟩

/-- Does an exit of the engine stream leave without putting anything on the wire? -/
def QuietExit (t : ChatTurn S) (exit : Option Raised) : Prop :=
  (∃ r, exit = some r ∧ r ≠ .exc .streamCancelledError) ∧ t.flushedTail.2 = none

theorem exitStream_wellPhased {t : ChatTurn S} (h : t.run.phase = .nextChunk)
    (exit : Option Raised) : (t.exitStream exit).WellPhased := by
  unfold exitStream
  split
  · exact pull_wellPhased (t := { t with ctrl := { t.ctrl with cancelled := true } }) h _
  · dsimp only
    split
    · exact pull_wellPhased (by simpa using h) _
    · exact pull_wellPhased (by simpa using h) _

theorem exitStream_quiet {t : ChatTurn S} (h : t.run.phase = .nextChunk) {r : Raised}
    (hr : r ≠ .exc .streamCancelledError) (htail : t.flushedTail.2 = none) :
    (t.exitStream (some r)).run.attempted = t.run.attempted
      ∧ (t.exitStream (some r)).run.phase = .ended (.raised r)
      ∧ (t.exitStream (some r)).phase = .over := by
  have he : t.exitStream (some r) = t.flushedTail.1.pull (.items [] (some r)) := by
    unfold exitStream
    rw [if_neg (by simpa using hr)]
    simp only [htail, Option.toList_none]
  rw [he]
  refine ⟨?_, rfl, rfl⟩
  have h' : t.flushedTail.1.run.phase = .nextChunk := by simpa using h
  simpa [pull] using StreamRun.attempted_onRaised h' r

theorem exitStream_loud {t : ChatTurn S} (h : t.run.phase = .nextChunk) {exit : Option Raised}
    (hq : ¬ t.QuietExit exit) :
    (t.exitStream exit).run.attempted.length = t.run.attempted.length + 1 := by
  unfold exitStream
  split
  · -- swallowed: the stream completes, and completion is a frame
    rcases pull_items_attempted
        (t := { t with ctrl := { t.ctrl with cancelled := true } }) h
        (sanitizerFlush { t with ctrl := { t.ctrl with cancelled := true } }).toList none with
      ⟨-, hs, -⟩ | ⟨-, hlen⟩
    · exact absurd hs (by simp)
    · exact hlen
  · rename_i hne
    dsimp only
    have h' : t.flushedTail.1.run.phase = .nextChunk := by simpa using h
    split
    · rcases pull_items_attempted h'
          (t.flushedTail.2.toList ++ t.flushedTail.1.sanitizerFlush.toList) none with
        ⟨-, hs, -⟩ | ⟨-, hlen⟩
      · exact absurd hs (by simp)
      · simpa using hlen
    · rename_i r
      -- the exception passes after the tail, which must be there
      rcases pull_items_attempted h' t.flushedTail.2.toList (some r) with ⟨hnil, -, -⟩ | ⟨-, hlen⟩
      · have htail : t.flushedTail.2 = none := by simpa using hnil
        exact absurd ⟨⟨r, rfl, by simpa using hne⟩, htail⟩ hq
      · simpa using hlen

theorem onOutput_cases (t : ChatTurn S) (output : Option Text) (now : ℚ) :
    (t.onOutput output now).run = t.run ∧ (t.onOutput output now).phase = .engine
      ∨ ∃ chunk, (t.onOutput output now).run = t.run.onChunk chunk
        ∧ (t.onOutput output now).phase = .consuming .engine := by
  unfold onOutput
  dsimp only
  split
  · exact Or.inl ⟨rfl, rfl⟩
  · split
    · exact Or.inl ⟨rfl, rfl⟩
    · rename_i chunk _
      have hrun := pushChunk_run { t with
        ctrl := ((t.ctrl.extractDelta output).1.emit t.flushMs now (t.ctrl.extractDelta output).2).1 }
        chunk
      split
      · rename_i t' hpush
        rw [hpush] at hrun
        exact Or.inl ⟨hrun, rfl⟩
      · rename_i t' clean hpush
        rw [hpush] at hrun
        exact Or.inr ⟨clean, by simp only at hrun ⊢; rw [hrun], rfl⟩

theorem onOutput_wellPhased {t : ChatTurn S} (h : t.run.phase = .nextChunk) (output : Option Text)
    (now : ℚ) : (t.onOutput output now).WellPhased := by
  rcases onOutput_cases t output now with ⟨hr, hp⟩ | ⟨chunk, hr, hp⟩
  · rw [WellPhased, hp]
    simpa [hr] using h
  · rw [WellPhased, hp]
    simp [hr, StreamRun.onChunk, StreamRun.pendingFrame]

theorem onSent_wellPhased (t : ChatTurn S) (next : GenNext) (result : SendResult) :
    (t.onSent next result).WellPhased := by
  unfold onSent
  dsimp only
  split
  · rename_i hp; exact pull_wellPhased hp _
  · rename_i outcome hp; exact ⟨outcome, hp⟩
  · rename_i hnext hended
    simp only [WellPhased]
    unfold StreamRun.pendingFrame
    split
    all_goals first
      | rfl
      | skip
    · rename_i hp; exact absurd hp hnext
    · rename_i o hp; exact absurd hp (hended o)

/-- The steps of the chain, one constructor for each thing an await can come back with. -/
inductive Steps (t : ChatTurn S) : ChainEvent → ChatTurn S → Prop where
  /-- The cancel check stops the stream. -/
  | check {text now} : t.phase = .engine →
      Steps t (.output text true now) { t with phase := .aborting .cancelCheck }
  | output {text now} : t.phase = .engine → Steps t (.output text false now) (t.onOutput text now)
  | exhausted : t.phase = .engine → Steps t .exhausted (t.exitStream none)
  | failed {e} : t.phase = .engine → e ≠ .timeoutError →
      Steps t (.failed e) (t.exitStream (some (.exc e)))
  | failedTimeout : t.phase = .engine →
      Steps t (.failed .timeoutError) { t with phase := .aborting .timeout }
  | timedOut : t.phase = .engine → Steps t .timedOut { t with phase := .aborting .timeout }
  | cancelEngine : t.phase = .engine → Steps t .cancel (t.exitStream (some .cancelledError))
  | abortedCheck : t.phase = .aborting .cancelCheck →
      Steps t .aborted (t.exitStream (some (.exc .streamCancelledError)))
  | abortedTimeout : t.phase = .aborting .timeout →
      Steps t .aborted (t.exitStream (some (.exc .timeoutError)))
  | abortTimeout : t.phase = .aborting .cancelCheck →
      Steps t (.abortFailed .timeoutError) { t with phase := .aborting .timeout }
  | abortFailed {cause e} : t.phase = .aborting cause →
      ¬(cause = .cancelCheck ∧ e = .timeoutError) →
      Steps t (.abortFailed e) (t.exitStream (some (.exc e)))
  | cancelAbort {cause} : t.phase = .aborting cause →
      Steps t .cancel (t.exitStream (some .cancelledError))
  | sent {next result} : t.phase = .consuming next → result ≠ .cancelled →
      Steps t (.sent result) (t.onSent next result)
  | cancelSend {next} : t.phase = .consuming next → Steps t .cancel (t.onSent next .cancelled)

/-- **What a step can be.** -/
theorem steps_of_step {t t' : ChatTurn S} {event : ChainEvent} (hs : t.step event = some t') :
    t.Steps event t' := by
  unfold step at hs
  split at hs
  · rename_i text cancelCheck now hp
    split at hs
    · rename_i hc
      injection hs with hs; subst hs; subst hc; exact .check hp
    · rename_i hc
      injection hs with hs; subst hs
      rw [Bool.not_eq_true] at hc
      subst hc; exact .output hp
  · rename_i hp
    injection hs with hs; subst hs; exact .exhausted hp
  · rename_i e hp
    split at hs
    · rename_i he
      injection hs with hs; subst hs; subst he; exact .failedTimeout hp
    · rename_i he
      injection hs with hs; subst hs; exact .failed hp he
  · rename_i hp
    injection hs with hs; subst hs; exact .timedOut hp
  · rename_i hp
    injection hs with hs; subst hs; exact .cancelEngine hp
  · rename_i hp
    injection hs with hs; subst hs; exact .abortedCheck hp
  · rename_i hp
    injection hs with hs; subst hs; exact .abortedTimeout hp
  · rename_i cause e hp
    split at hs
    · rename_i hce
      obtain ⟨rfl, rfl⟩ := hce
      injection hs with hs; subst hs; exact .abortTimeout hp
    · rename_i hce
      injection hs with hs; subst hs; exact .abortFailed hp hce
  · rename_i cause hp
    injection hs with hs; subst hs; exact .cancelAbort hp
  · rename_i next result hp
    split at hs
    · exact absurd hs (by simp)
    · rename_i hr
      injection hs with hs; subst hs; exact .sent hp hr
  · rename_i next hp
    injection hs with hs; subst hs; exact .cancelSend hp
  · exact absurd hs (by simp)

theorem WellPhased.engine {t : ChatTurn S} (h : t.WellPhased) (hp : t.phase = .engine) :
    t.run.phase = .nextChunk := by rw [WellPhased, hp] at h; exact h

theorem WellPhased.aborting {t : ChatTurn S} (h : t.WellPhased) {cause : AbortCause}
    (hp : t.phase = .aborting cause) : t.run.phase = .nextChunk := by
  rw [WellPhased, hp] at h; exact h

theorem step_wellPhased {t t' : ChatTurn S} {event : ChainEvent} (h : t.WellPhased)
    (hs : t.step event = some t') : t'.WellPhased := by
  cases steps_of_step hs with
  | check hp | failedTimeout hp | timedOut hp => exact h.engine hp
  | output hp => exact onOutput_wellPhased (h.engine hp) _ _
  | exhausted hp | cancelEngine hp => exact exitStream_wellPhased (h.engine hp) _
  | failed hp _ => exact exitStream_wellPhased (h.engine hp) _
  | abortedCheck hp | abortedTimeout hp | cancelAbort hp =>
      exact exitStream_wellPhased (h.aborting hp) _
  | abortTimeout hp => exact h.aborting hp
  | abortFailed hp _ => exact exitStream_wellPhased (h.aborting hp) _
  | sent hp _ => exact onSent_wellPhased _ _ _
  | cancelSend hp => exact onSent_wellPhased _ _ _

/-! ## Nothing is taken back -/

theorem pull_attempted_le {t : ChatTurn S} (h : t.run.phase = .nextChunk) (next : GenNext) :
    t.run.attempted.length ≤ (t.pull next).run.attempted.length := by
  cases next with
  | engine => exact Nat.le_refl _
  | items rest exit =>
      rcases pull_items_attempted h rest exit with ⟨-, -, heq⟩ | ⟨-, hlen⟩
      · rw [heq]
      · omega

theorem exitStream_attempted_le {t : ChatTurn S} (h : t.run.phase = .nextChunk)
    (exit : Option Raised) :
    t.run.attempted.length ≤ (t.exitStream exit).run.attempted.length := by
  by_cases hq : t.QuietExit exit
  · obtain ⟨⟨r, rfl, hr⟩, htail⟩ := hq
    rw [(exitStream_quiet h hr htail).1]
  · rw [exitStream_loud h hq]; omega

theorem onSent_attempted_le (t : ChatTurn S) (next : GenNext) (result : SendResult) :
    t.run.attempted.length ≤ (t.onSent next result).run.attempted.length := by
  have hle := (StreamRun.attempted_onSent t.run result).length_le
  unfold onSent
  dsimp only
  split
  · rename_i hp
    exact Nat.le_trans hle (pull_attempted_le (t := { t with run := t.run.onSent result }) hp next)
  · exact hle
  · exact hle

/-- **The frames of a chain only grow.** -/
theorem step_attempted_le {t t' : ChatTurn S} {event : ChainEvent} (h : t.WellPhased)
    (hs : t.step event = some t') : t.run.attempted.length ≤ t'.run.attempted.length := by
  cases steps_of_step hs with
  | check hp | failedTimeout hp | timedOut hp | abortTimeout hp => exact Nat.le_refl _
  | @output text now hp =>
      rcases onOutput_cases t text now with ⟨hr, -⟩ | ⟨chunk, hr, -⟩
      · rw [hr]
      · rw [hr, StreamRun.attempted_onChunk (h.engine hp)]; simp
  | exhausted hp | cancelEngine hp => exact exitStream_attempted_le (h.engine hp) _
  | failed hp _ => exact exitStream_attempted_le (h.engine hp) _
  | abortedCheck hp | abortedTimeout hp | cancelAbort hp =>
      exact exitStream_attempted_le (h.aborting hp) _
  | abortFailed hp _ => exact exitStream_attempted_le (h.aborting hp) _
  | sent hp _ => exact onSent_attempted_le _ _ _
  | cancelSend hp => exact onSent_attempted_le _ _ _

/-! ## The chain drives the response -/

/-- Whatever the stream does when it is pulled is one event of the response, or none. -/
theorem pull_refines {t : ChatTurn S} (h : t.run.phase = .nextChunk) (next : GenNext) :
    ∃ events, Lts.exec StreamRun.step t.run events = some (t.pull next).run := by
  cases next with
  | engine => exact ⟨[], rfl⟩
  | items rest exit =>
      cases rest with
      | cons chunk rest => exact ⟨[.chunk chunk], by simp [Lts.exec, StreamRun.step, h, pull]⟩
      | nil =>
          cases exit with
          | none => exact ⟨[.exhausted], by simp [Lts.exec, StreamRun.step, h, pull]⟩
          | some r => exact ⟨[.raised r], by simp [Lts.exec, StreamRun.step, h, pull]⟩

theorem exitStream_refines {t : ChatTurn S} (h : t.run.phase = .nextChunk)
    (exit : Option Raised) :
    ∃ events, Lts.exec StreamRun.step t.run events = some (t.exitStream exit).run := by
  have htail : ∀ next, ∃ events,
      Lts.exec StreamRun.step t.run events = some (t.flushedTail.1.pull next).run := by
    intro next
    have hp := pull_refines (t := t.flushedTail.1) (by simpa using h) next
    rwa [flushedTail_run] at hp
  unfold exitStream
  split
  · exact pull_refines (t := { t with ctrl := { t.ctrl with cancelled := true } }) h _
  · dsimp only
    split
    · exact htail _
    · exact htail _

theorem onSent_refines {t : ChatTurn S} (h : t.run.pendingFrame.isSome = true) (next : GenNext)
    (result : SendResult) :
    ∃ events, Lts.exec StreamRun.step t.run events = some (t.onSent next result).run := by
  have hsent : t.run.step (.sent result) = some (t.run.onSent result) := by
    simp [StreamRun.step, h]
  have hone : Lts.exec StreamRun.step t.run [.sent result] = some (t.run.onSent result) := by
    simp [Lts.exec, hsent]
  unfold onSent
  dsimp only
  split
  · rename_i hp
    obtain ⟨events, hev⟩ := pull_refines (t := { t with run := t.run.onSent result }) hp next
    exact ⟨[.sent result] ++ events, Lts.exec_append_eq_some.mpr ⟨_, hone, hev⟩⟩
  · exact ⟨_, hone⟩
  · exact ⟨_, hone⟩

/-- **A step of the chain is a run of the response.** -/
theorem step_refines {t t' : ChatTurn S} {event : ChainEvent} (h : t.WellPhased)
    (hs : t.step event = some t') :
    ∃ events, Lts.exec StreamRun.step t.run events = some t'.run := by
  have hsend : ∀ {next}, t.phase = .consuming next → t.run.pendingFrame.isSome = true := by
    intro next hp
    rw [WellPhased, hp] at h
    exact h
  cases steps_of_step hs with
  | check _ | failedTimeout _ | timedOut _ | abortTimeout _ => exact ⟨[], rfl⟩
  | @output text now hp =>
      rcases onOutput_cases t text now with ⟨hr, -⟩ | ⟨chunk, hr, -⟩
      · exact ⟨[], by rw [hr]; rfl⟩
      · exact ⟨[.chunk chunk], by simp [Lts.exec, StreamRun.step, h.engine hp, hr]⟩
  | exhausted hp | cancelEngine hp => exact exitStream_refines (h.engine hp) _
  | failed hp _ => exact exitStream_refines (h.engine hp) _
  | abortedCheck hp | abortedTimeout hp | cancelAbort hp =>
      exact exitStream_refines (h.aborting hp) _
  | abortFailed hp _ => exact exitStream_refines (h.aborting hp) _
  | sent hp _ => exact onSent_refines (hsend hp) _ _
  | cancelSend hp => exact onSent_refines (hsend hp) _ _

end ChatTurn

end YapInference
