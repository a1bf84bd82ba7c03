import YapInference.Lib.Outputs
import YapInference.Proof.BargeIn
import YapInference.Proof.ChunkStability
import YapInference.Proof.DeltaStream
import YapInference.Proof.TurnFrames

/-!
# From the engine to the final frame

Inside a task, `iter_text` passes on what is new in an engine's text, the sanitizer rewrites it, and
`stream_chat_response` sends it. The three suspend together, so what one of them holds back while
another ends is easy to lose. Here the chain is followed beside the generator on its own: whatever
the chain does, `iter_text` alone would have yielded the same chunks, and what is on the wire is
what the sanitizer makes of those.
-/

namespace YapInference

open Py Lts Conn

/-! ## What is on the wire -/

/-- The text of a token. -/
def Frame.tokenText : Frame → Option Text
  | .token text => some text
  | _ => none

/-- The text of a `final`. -/
def Frame.finalText : Frame → Option Text
  | .final _ text => some text
  | _ => none

namespace StreamRun

/-- The text of the tokens handed to the socket so far, the one in flight included. -/
def tokenText (run : StreamRun) : Text := (run.attempted.filterMap Frame.tokenText).flatten

/-- The texts of the `final` frames. -/
def finalTexts (run : StreamRun) : List Text := run.attempted.filterMap Frame.finalText

/-- A send that came back leaves the frames as they are, or is followed by `done`. -/
theorem onSent_attempted {run : StreamRun} (h : run.phase ≠ .sendInitial) (result : SendResult) :
    (run.onSent result).attempted = run.attempted
      ∨ (run.onSent result).attempted = run.attempted ++ [.done 200] := by
  have hlogged : (run.logged result).sends.map Prod.fst = run.attempted := by
    rw [attempted, logged, List.map_append, List.map_map]
    simp [Function.comp_def]
  have hleave : ∀ (r : StreamRun) (outcome : StreamOutcome),
      r.sends = (run.logged result).sends → (r.leave outcome).attempted = run.attempted := by
    intro r outcome hr
    rw [attempted_leave, hr, hlogged]
  have hquiet : ∀ r : StreamRun, r.sends = (run.logged result).sends → r.pendingFrame = none →
      r.attempted = run.attempted := by
    intro r hr hp
    rw [attempted, hr, hlogged, hp, Option.toList_none, List.append_nil]
  rw [onSent_eq]
  split
  · unfold onAck
    split
    · rename_i hp
      exact absurd hp h
    · exact Or.inl (hquiet _ rfl rfl)
    · exact Or.inl (hquiet _ rfl rfl)
    · exact Or.inr (by rw [attempted]; exact congrArg (· ++ [Frame.done 200]) hlogged)
    · exact Or.inl (hleave _ _ rfl)
    · rename_i hp
      exact Or.inl (hquiet _ rfl (by simp [pendingFrame, hp]))
    · rename_i hp
      exact Or.inl (hquiet _ rfl (by simp [pendingFrame, hp]))
  · unfold onGone
    split
    · exact Or.inl (hquiet _ rfl rfl)
    · exact Or.inl (hleave _ _ rfl)
  · exact Or.inl (hleave _ _ rfl)

/-- So it says nothing new. -/
theorem onSent_texts {run : StreamRun} (h : run.phase ≠ .sendInitial) (result : SendResult) :
    (run.onSent result).tokenText = run.tokenText
      ∧ (run.onSent result).finalTexts = run.finalTexts := by
  unfold tokenText finalTexts
  rcases onSent_attempted h result with heq | heq <;>
    simp [heq, Frame.tokenText, Frame.finalText]

/-- While the stream is pulled, what was handed over is what was acknowledged. -/
theorem texts_of_nextChunk {run : StreamRun} (h : run.RunInv) (hp : run.phase = .nextChunk) :
    run.tokenText = run.state.finalText ∧ run.finalTexts = [] := by
  rw [RunInv, hp] at h
  have htokens : run.attempted = run.ackedTokens.map Frame.token := by
    rw [attempted_nextChunk hp, h.fst]
  constructor
  · rw [tokenText, htokens, h.text, ackedText, List.filterMap_map]
    congr 1
    exact List.filterMap_some
  · rw [finalTexts, htokens, List.filterMap_map]
    exact List.filterMap_eq_nil_iff.mpr fun _ _ => rfl

theorem onChunk_texts {run : StreamRun} (hp : run.phase = .nextChunk) (chunk : Text) :
    (run.onChunk chunk).tokenText = run.tokenText ++ chunk
      ∧ (run.onChunk chunk).finalTexts = run.finalTexts := by
  unfold tokenText finalTexts
  rw [attempted_onChunk hp]
  simp [Frame.tokenText, Frame.finalText]

theorem onRaised_texts {run : StreamRun} (hp : run.phase = .nextChunk) (r : Raised) :
    (run.onRaised r).tokenText = run.tokenText
      ∧ (run.onRaised r).finalTexts = run.finalTexts := by
  unfold tokenText finalTexts
  rw [attempted_onRaised hp]
  exact ⟨rfl, rfl⟩

/-- **A `final` repeats the tokens.** -/
theorem onExhausted_texts {run : StreamRun} (h : run.RunInv) (hp : run.phase = .nextChunk) :
    run.onExhausted.tokenText = run.tokenText
      ∧ ∀ text ∈ run.onExhausted.finalTexts, text = run.tokenText := by
  obtain ⟨htokens, hfinals⟩ := texts_of_nextChunk h hp
  have hsends := attempted_nextChunk hp
  by_cases hne : run.state.finalText = []
  · have hattempted : run.onExhausted.attempted = run.attempted ++ [emptyOutputFrame] := by
      rw [hsends]
      simp [onExhausted, hne, attempted, pendingFrame]
    have hfinals' : run.onExhausted.finalTexts = run.finalTexts := by
      simp [finalTexts, hattempted, emptyOutputFrame, Frame.finalText]
    refine ⟨by simp [tokenText, hattempted, emptyOutputFrame, Frame.tokenText], ?_⟩
    rw [hfinals', hfinals]
    simp
  · have hattempted : run.onExhausted.attempted
        = run.attempted ++ [.final 200 run.state.finalText] := by
      rw [hsends]
      simp [onExhausted, hne, attempted, pendingFrame]
    have hfinals' : run.onExhausted.finalTexts = run.finalTexts ++ [run.state.finalText] := by
      simp [finalTexts, hattempted, Frame.finalText]
    refine ⟨by simp [tokenText, hattempted, Frame.tokenText], ?_⟩
    rw [hfinals', hfinals, htokens]
    simp

end StreamRun

/-! ## Through the sanitizer -/

namespace Sanitizer

variable (S : Sanitizer)

/-- The sanitizer after these chunks, if the output is sanitized. -/
def stateAfter (sanitizes : Bool) (chunks : List Text) : Option S.State :=
  if sanitizes then some (S.pushAll (S.init, []) chunks).1 else none

/-- What it has let through. -/
def passed (sanitizes : Bool) (chunks : List Text) : Text :=
  if sanitizes then (S.pushAll (S.init, []) chunks).2 else chunks.flatten

/-- And what it lets through when no chunk comes after these. -/
def shown (sanitizes : Bool) (chunks : List Text) : Text :=
  if sanitizes then S.streamed chunks else chunks.flatten

theorem passed_isPrefix (sanitizes : Bool) (chunks : List Text) :
    S.passed sanitizes chunks <+: S.shown sanitizes chunks := by
  unfold passed shown
  split
  · exact List.prefix_append _ _
  · exact List.prefix_refl _

theorem pushAll_snoc (s : S.State × Text) (chunks : List Text) (chunk : Text) :
    S.pushAll s (chunks ++ [chunk])
      = ((S.push (S.pushAll s chunks).1 chunk).1,
        (S.pushAll s chunks).2 ++ (S.push (S.pushAll s chunks).1 chunk).2) := by
  simp [pushAll]

end Sanitizer

/-- The text of what may be yielded. -/
def itemText (item : Option Text) : Text := item.getD []

theorem flatten_toList (item : Option Text) : item.toList.flatten = itemText item := by
  cases item <;> simp [itemText]

namespace ChatTurn

variable {S : Sanitizer} {sanitizes : Bool} {chunks : List Text} {t : ChatTurn S}

/-- **A chunk goes through the sanitizer.** -/
theorem pushChunk_passed (hsan : t.san = S.stateAfter sanitizes chunks) (chunk : Text) :
    (t.pushChunk chunk).1.san = S.stateAfter sanitizes (chunks ++ [chunk])
      ∧ S.passed sanitizes chunks ++ itemText (t.pushChunk chunk).2
        = S.passed sanitizes (chunks ++ [chunk]) := by
  unfold Sanitizer.stateAfter Sanitizer.passed at *
  cases sanitizes with
  | false =>
      simp only [Bool.false_eq_true, if_false] at hsan ⊢
      simp [pushChunk, hsan, itemText]
  | true =>
      simp only [if_true] at hsan ⊢
      rw [Sanitizer.pushAll_snoc]
      simp only [pushChunk, hsan, true_and]
      split
      · rename_i hnil
        simp [itemText, List.isEmpty_iff.mp hnil]
      · rfl

/-- The end of the stream flushes it. -/
theorem sanitizerFlush_shown (hsan : t.san = S.stateAfter sanitizes chunks) :
    S.passed sanitizes chunks ++ itemText t.sanitizerFlush = S.shown sanitizes chunks := by
  unfold Sanitizer.stateAfter Sanitizer.passed Sanitizer.shown at *
  cases sanitizes with
  | false =>
      simp only [Bool.false_eq_true, if_false] at hsan ⊢
      simp [sanitizerFlush, hsan, itemText]
  | true =>
      simp only [if_true] at hsan ⊢
      simp only [sanitizerFlush, hsan, Sanitizer.streamed]
      split
      · rename_i hnil
        simp [itemText, List.isEmpty_iff.mp hnil]
      · rfl

theorem pushChunk_ctrl (t : ChatTurn S) (chunk : Text) :
    (t.pushChunk chunk).1.ctrl = t.ctrl ∧ (t.pushChunk chunk).1.flushMs = t.flushMs := by
  unfold pushChunk
  split <;> exact ⟨rfl, rfl⟩

end ChatTurn

/-! ## What the engine told a stream -/

/-- What a stream has been told. -/
structure Heard where
  /-- The texts of the outputs that have one and passed the cancel check, in order. -/
  said : List Text
  /-- The engine came to its end. -/
  ended : Bool
  deriving DecidableEq

namespace Heard

/-- Before the first output. -/
def nothing : Heard := ⟨[], false⟩

/-- The latest text. -/
def latest (heard : Heard) : Text := heard.said.getLast?.getD []

/-- Each text extends the one before. -/
def Cumulative (heard : Heard) : Prop := heard.said.IsChain (· <+: ·)

instance (heard : Heard) : Decidable heard.Cumulative :=
  inferInstanceAs (Decidable (List.IsChain _ _))

end Heard

/-- What an await of the chain adds to it. -/
def ChainEvent.tells (heard : Heard) : ChainEvent → Heard
  | .output text false _ => { heard with said := heard.said ++ (textOf text).toList }
  | .exhausted => { heard with ended := true }
  | _ => heard

/-- `iter_text`, run on what was heard. -/
structure Generates (heard : Heard) (it : IterText) : Prop where
  run : ∃ now events, exec IterText.step (IterText.start it.flushMs now) events = some it
    ∧ engineTexts events = heard.said
  ended : heard.ended = true → it.finished = some none

namespace Generates

variable {heard heard' : Heard} {it it' : IterText}

theorem delivers (h : Generates heard it) (hcum : heard.Cumulative) :
    it.Delivers heard.latest := by
  obtain ⟨now, events, hrun, hsaid⟩ := h.run
  have hlatest : heard.latest = latestText events := by rw [Heard.latest, ← hsaid, latestText]
  rw [Heard.Cumulative, ← hsaid] at hcum
  exact hlatest ▸ IterText.delivers_exec hcum hrun

theorem start (flushMs now : ℚ) : Generates .nothing (IterText.start flushMs now) :=
  ⟨⟨now, [], rfl, rfl⟩, fun h => by cases h⟩

theorem onOutput (h : Generates heard it) (hopen : it.finished = none) (output : Option Text)
    (now : ℚ) : Generates (ChainEvent.tells heard (.output output false now))
      (it.onOutput output now) := by
  obtain ⟨start, events, hrun, hsaid⟩ := h.run
  have hstep : it.step (.output output now) = some (it.onOutput output now) := by
    simp [IterText.step, hopen]
  refine ⟨⟨start, events ++ [.output output now], ?_, ?_⟩, fun hended => ?_⟩
  · exact exec_append_eq_some.mpr ⟨it, hrun, by simp [exec, hstep]⟩
  · rw [engineTexts_snoc, hsaid]
    rfl
  · rw [h.ended hended] at hopen
    cases hopen

theorem onEnded (h : Generates heard it) (hopen : it.finished = none) (exit : Option Raised)
    (hsaid' : heard'.said = heard.said)
    (hended : heard'.ended = true → heard.ended = true ∨ exit = none) :
    Generates heard' (it.onEnded exit) := by
  obtain ⟨start, events, hrun, hsaid⟩ := h.run
  have hstep : it.step (.ended exit) = some (it.onEnded exit) := by simp [IterText.step, hopen]
  have hflush : (it.onEnded exit).flushMs = it.flushMs := by unfold IterText.onEnded; split <;> rfl
  refine ⟨⟨start, events ++ [.ended exit], ?_, ?_⟩, fun h' => ?_⟩
  · rw [hflush]
    exact exec_append_eq_some.mpr ⟨it, hrun, by simp [exec, hstep]⟩
  · rw [engineTexts_snoc, hsaid, hsaid']
    exact List.append_nil _
  · rcases hended h' with hbefore | rfl
    · rw [h.ended hbefore] at hopen
      cases hopen
    · rfl

end Generates

/-! ## The chain beside its generator -/

/-- What a response has shown of what a generator has yielded. -/
structure Tells (S : Sanitizer) (sanitizes : Bool) (run : StreamRun) (it : IterText) : Prop where
  tokens : run.tokenText <+: S.shown sanitizes it.yielded
  final : ∀ text ∈ run.finalTexts, text = S.shown sanitizes it.yielded

namespace ChatTurn

variable {S : Sanitizer} {sanitizes : Bool} {t t' : ChatTurn S} {it : IterText}

/-- What is left to let through where the stream is pulled next: what the generator holds back, or
the last items. -/
def Reaches (sanitizes : Bool) (t : ChatTurn S) (it : IterText) : GenNext → Prop
  | .engine =>
      it.finished = none ∧ it.ctrl = t.ctrl ∧ t.san = S.stateAfter sanitizes it.yielded
        ∧ t.run.tokenText = S.passed sanitizes it.yielded
  | .items rest exit =>
      t.run.tokenText ++ rest.flatten <+: S.shown sanitizes it.yielded
        ∧ (exit = none → t.run.tokenText ++ rest.flatten = S.shown sanitizes it.yielded)

/-- **The chain has done what the generator did.** -/
structure Carries (sanitizes : Bool) (t : ChatTurn S) (it : IterText) : Prop where
  flushMs : it.flushMs = t.flushMs
  phased : t.WellPhased
  run : t.run.RunInv
  tells : Tells S sanitizes t.run it
  reaches : match t.phase with
    | .engine | .aborting _ => t.Reaches sanitizes it .engine
    | .consuming next => t.Reaches sanitizes it next
    | .over => True

theorem carries_start (S : Sanitizer) (historyUser : Text) (flushMs now : ℚ) (sanitizes : Bool) :
    ({ start S [] flushMs now sanitizes with run := .init historyUser } :
      ChatTurn S).Carries sanitizes (IterText.start flushMs now) where
  flushMs := rfl
  phased := rfl
  run := StreamRun.runInv_init historyUser
  tells := ⟨List.nil_prefix, fun text h => absurd h (by simp [StreamRun.finalTexts,
    StreamRun.attempted, StreamRun.pendingFrame, StreamRun.init, StreamRun.start])⟩
  reaches := by
    refine ⟨rfl, rfl, ?_, ?_⟩
    · cases sanitizes <;> rfl
    · cases sanitizes <;> rfl

/-- **Pulling a stream shows the next of what is left.** -/
theorem pull_carries {next : GenNext} (h : t.Reaches sanitizes it next)
    (hp : t.run.phase = .nextChunk) (hinv : t.run.RunInv) (hflush : it.flushMs = t.flushMs) :
    (t.pull next).Carries sanitizes it := by
  obtain ⟨events, hevents⟩ := pull_refines hp next
  have hrun : (t.pull next).run.RunInv := StreamRun.runInv_exec hinv hevents
  have hphased := pull_wellPhased hp next
  have hnoFinal := (StreamRun.texts_of_nextChunk hinv hp).2
  cases next with
  | engine =>
      refine ⟨hflush, hphased, hrun, ⟨?_, ?_⟩, h⟩
      · show t.run.tokenText <+: _
        rw [h.2.2.2]
        exact S.passed_isPrefix _ _
      · intro text htext
        rw [show (t.pull .engine).run = t.run from rfl, hnoFinal] at htext
        cases htext
  | items rest exit =>
      obtain ⟨hleft, hall⟩ := h
      cases rest with
      | cons chunk rest =>
          obtain ⟨htokens, hfinals⟩ := StreamRun.onChunk_texts hp chunk
          have hsame : (t.run.onChunk chunk).tokenText ++ rest.flatten
              = t.run.tokenText ++ (chunk :: rest).flatten := by
            rw [htokens, List.flatten_cons, List.append_assoc]
          refine ⟨hflush, hphased, hrun, ⟨?_, ?_⟩, ⟨?_, ?_⟩⟩
          · exact (List.prefix_append _ _).trans (hsame ▸ hleft)
          · intro text htext
            have hnone := hfinals.trans hnoFinal
            rw [show (t.pull (.items (chunk :: rest) exit)).run.finalTexts = [] from hnone] at htext
            cases htext
          · exact hsame ▸ hleft
          · exact fun hexit => hsame.trans (hall hexit)
      | nil =>
          rw [List.flatten_nil, List.append_nil] at hleft hall
          cases exit with
          | none =>
              obtain ⟨htokens, hfinals⟩ := StreamRun.onExhausted_texts hinv hp
              refine ⟨hflush, hphased, hrun, ⟨?_, ?_⟩, ⟨?_, ?_⟩⟩
              · exact htokens ▸ hleft
              · exact fun text htext => (hfinals text htext).trans (hall rfl)
              · rw [List.flatten_nil, List.append_nil]
                exact htokens ▸ hleft
              · intro _
                rw [List.flatten_nil, List.append_nil]
                exact htokens.trans (hall rfl)
          | some r =>
              obtain ⟨htokens, hfinals⟩ := StreamRun.onRaised_texts hp r
              refine ⟨hflush, hphased, hrun, ⟨htokens ▸ hleft, ?_⟩, trivial⟩
              intro text htext
              have hnone := hfinals.trans hnoFinal
              rw [show (t.pull (.items [] (some r))).run.finalTexts = [] from hnone] at htext
              cases htext

/-- A chunk that comes through the sanitizer is sent, and the generator waits. -/
theorem forward_carries {clean : Text} (hp : t.run.phase = .nextChunk) (hinv : t.run.RunInv)
    (hflush : it.flushMs = t.flushMs) (hopen : it.finished = none) (hctrl : it.ctrl = t.ctrl)
    (hsan : t.san = S.stateAfter sanitizes it.yielded)
    (htokens : t.run.tokenText ++ clean = S.passed sanitizes it.yielded) :
    ({ t with run := t.run.onChunk clean, phase := .consuming .engine } :
      ChatTurn S).Carries sanitizes it := by
  obtain ⟨htokens', hfinals'⟩ := StreamRun.onChunk_texts hp clean
  have hall : (t.run.onChunk clean).tokenText = S.passed sanitizes it.yielded :=
    htokens'.trans htokens
  have hstep : t.run.step (.chunk clean) = some (t.run.onChunk clean) := by
    simp [StreamRun.step, hp]
  refine ⟨hflush, rfl, StreamRun.runInv_step hinv hstep, ⟨?_, ?_⟩, hopen, hctrl, hsan, hall⟩
  · rw [hall]
    exact S.passed_isPrefix _ _
  · intro text htext
    rw [show (t.run.onChunk clean).finalTexts = []
      from hfinals'.trans (StreamRun.texts_of_nextChunk hinv hp).2] at htext
    cases htext

/-- An output that passed the check. -/
theorem onOutput_carries (hp : t.phase = .engine) (h : t.Carries sanitizes it)
    (output : Option Text) (now : ℚ) :
    (t.onOutput output now).Carries sanitizes (it.onOutput output now) := by
  have hreaches := h.reaches
  rw [hp] at hreaches
  obtain ⟨hopen, hctrl, hsan, htokens⟩ := hreaches
  have hnext : t.run.phase = .nextChunk := h.phased.engine hp
  have hit : it.onOutput output now = { it with
      ctrl := (t.ctrl.onOutput t.flushMs output now).1
      yielded := it.yielded ++ (t.ctrl.onOutput t.flushMs output now).2.toList } := by
    rw [IterText.onOutput, hctrl, h.flushMs]
  rw [onOutput_eq, hit]
  generalize t.ctrl.onOutput t.flushMs output now = next
  obtain ⟨ctrl, chunk⟩ := next
  dsimp only
  cases chunk with
  | none =>
      have hwaits : ({ t with ctrl := ctrl } : ChatTurn S).Reaches sanitizes
          { it with ctrl := ctrl, yielded := it.yielded ++ [] } .engine := by
        rw [List.append_nil]
        exact ⟨hopen, rfl, hsan, htokens⟩
      exact pull_carries hwaits hnext h.run h.flushMs
  | some chunk =>
      obtain ⟨hsan', hpassed⟩ := pushChunk_passed (t := { t with ctrl := ctrl }) hsan chunk
      obtain ⟨hctrl', hflush'⟩ := pushChunk_ctrl { t with ctrl := ctrl } chunk
      have hrun' := pushChunk_run { t with ctrl := ctrl } chunk
      dsimp only
      generalize ({ t with ctrl := ctrl } : ChatTurn S).pushChunk chunk = pushed at *
      obtain ⟨t₁, clean⟩ := pushed
      dsimp only at hsan' hpassed hctrl' hflush' hrun'
      have hnext' : t₁.run.phase = .nextChunk := hrun' ▸ hnext
      have hgrown : t₁.run.tokenText ++ itemText clean
          = S.passed sanitizes (it.yielded ++ [chunk]) := by
        rw [hrun', htokens, hpassed]
      have hinv : t₁.run.RunInv := hrun' ▸ h.run
      cases clean with
      | none =>
          rw [itemText, Option.getD_none, List.append_nil] at hgrown
          have hwaits : t₁.Reaches sanitizes
              { it with ctrl := ctrl, yielded := it.yielded ++ [chunk] } .engine :=
            ⟨hopen, hctrl'.symm, hsan', hgrown⟩
          exact pull_carries hwaits hnext' hinv (h.flushMs.trans hflush'.symm)
      | some clean =>
          exact forward_carries hnext' hinv (h.flushMs.trans hflush'.symm) hopen hctrl'.symm hsan'
            hgrown

/-- **The generators unwind**: what is held back comes out, unless the turn was cancelled. -/
theorem exitStream_carries (hnext : t.run.phase = .nextChunk) (hinv : t.run.RunInv)
    (hflush : it.flushMs = t.flushMs) (h : t.Reaches sanitizes it .engine)
    (exit : Option Raised) : (t.exitStream exit).Carries sanitizes (it.onEnded exit) := by
  obtain ⟨hopen, hctrl, hsan, htokens⟩ := h
  unfold exitStream IterText.onEnded
  split
  · have hall :=
      sanitizerFlush_shown (t := { t with ctrl := { t.ctrl with cancelled := true } }) hsan
    refine pull_carries ⟨?_, fun _ => ?_⟩ hnext hinv hflush
    · rw [flatten_toList, htokens, hall]
    · rw [flatten_toList, htokens, hall]
  · dsimp only
    have hheld : it.ctrl.flushTail it.flushMs = t.ctrl.flushTail t.flushMs := by rw [hctrl, hflush]
    rw [hheld]
    have htail : t.flushedTail.1.san = S.stateAfter sanitizes
          (it.yielded ++ if (t.ctrl.flushTail t.flushMs).isEmpty then []
            else [t.ctrl.flushTail t.flushMs])
        ∧ S.passed sanitizes it.yielded ++ itemText t.flushedTail.2
          = S.passed sanitizes (it.yielded ++ if (t.ctrl.flushTail t.flushMs).isEmpty then []
            else [t.ctrl.flushTail t.flushMs]) := by
      unfold flushedTail
      dsimp only
      split
      · rw [List.append_nil]
        exact ⟨hsan, List.append_nil _⟩
      · exact pushChunk_passed hsan _
    have hflush' : it.flushMs = t.flushedTail.1.flushMs := hflush.trans (flushedTail_flushMs t).symm
    have hrun' := flushedTail_run t
    have hnext' : t.flushedTail.1.run.phase = .nextChunk := hrun' ▸ hnext
    obtain ⟨hsan', hpassed⟩ := htail
    generalize (it.yielded ++ if (t.ctrl.flushTail t.flushMs).isEmpty then []
      else [t.ctrl.flushTail t.flushMs]) = yielded at *
    have hall := sanitizerFlush_shown hsan'
    have hgrown : t.flushedTail.1.run.tokenText ++ itemText t.flushedTail.2
        = S.passed sanitizes yielded := by
      rw [hrun', htokens, hpassed]
    split
    · have hshown : t.flushedTail.1.run.tokenText
          ++ (t.flushedTail.2.toList ++ t.flushedTail.1.sanitizerFlush.toList).flatten
          = S.shown sanitizes yielded := by
        rw [List.flatten_append, flatten_toList, flatten_toList, ← List.append_assoc, hgrown, hall]
      exact pull_carries ⟨hshown ▸ List.prefix_refl _, fun _ => hshown⟩ hnext' (hrun' ▸ hinv)
        hflush'
    · refine pull_carries ⟨?_, fun hexit => by cases hexit⟩ hnext' (hrun' ▸ hinv) hflush'
      rw [flatten_toList, hgrown]
      exact S.passed_isPrefix _ _

/-- A send that came back shows nothing new, and the stream is pulled again. -/
theorem onSent_carries {next : GenNext} (hp : t.phase = .consuming next)
    (h : t.Carries sanitizes it) (result : SendResult) :
    (t.onSent next result).Carries sanitizes it := by
  have hpending : t.run.pendingFrame.isSome = true := by
    have hphased := h.phased
    rw [WellPhased, hp] at hphased
    exact hphased
  have hnotInitial : t.run.phase ≠ .sendInitial := by
    intro hinitial
    have hinv := h.run
    rw [StreamRun.RunInv, hinitial] at hinv
    exact hinv
  obtain ⟨htokens, hfinals⟩ := StreamRun.onSent_texts hnotInitial result
  have hinv := StreamRun.onSent_inv h.run hpending result
  have hphased := onSent_wellPhased t next result
  have htells : Tells S sanitizes (t.run.onSent result) it :=
    ⟨htokens ▸ h.tells.tokens, hfinals ▸ h.tells.final⟩
  have hreaches :
      ({ t with run := t.run.onSent result } : ChatTurn S).Reaches sanitizes it next := by
    have hbefore := h.reaches
    rw [hp] at hbefore
    cases next <;> simpa [Reaches, htokens] using hbefore
  unfold onSent at hphased ⊢
  dsimp only at hphased ⊢
  split
  · rename_i hnext
    exact pull_carries hreaches hnext hinv h.flushMs
  · rename_i outcome hended
    rw [hended] at hphased
    exact ⟨h.flushMs, hphased, hinv, htells, trivial⟩
  · rename_i hnext hended
    refine ⟨h.flushMs, ?_, hinv, htells, hreaches⟩
    split at hphased
    · rename_i hp'
      exact absurd hp' hnext
    · rename_i hp'
      exact absurd hp' (hended _)
    · exact hphased

/-- **What one await of the chain says of what was heard.** -/
theorem step_carries {heard : Heard} {event : ChainEvent} (h : t.Carries sanitizes it)
    (hg : Generates heard it) (hs : t.step event = some t') :
    ∃ it', Generates (event.tells heard) it' ∧ t'.Carries sanitizes it' := by
  have hengine : t.phase = .engine → t.Reaches sanitizes it .engine := by
    intro hp
    have hreaches := h.reaches
    rwa [hp] at hreaches
  have haborting : ∀ {cause}, t.phase = .aborting cause → t.Reaches sanitizes it .engine := by
    intro cause hp
    have hreaches := h.reaches
    rwa [hp] at hreaches
  have hwaits : ∀ cause, t.run.phase = .nextChunk → t.Reaches sanitizes it .engine →
      ({ t with phase := .aborting cause } : ChatTurn S).Carries sanitizes it :=
    fun cause hnext hreaches => ⟨h.flushMs, hnext, h.run, h.tells, hreaches⟩
  have hexits : ∀ {heard' : Heard} (exit : Option Raised), t.run.phase = .nextChunk →
      t.Reaches sanitizes it .engine → heard'.said = heard.said →
      (heard'.ended = true → heard.ended = true ∨ exit = none) →
      ∃ it', Generates heard' it' ∧ (t.exitStream exit).Carries sanitizes it' :=
    fun exit hnext hreaches hsaid hended => ⟨it.onEnded exit,
      hg.onEnded hreaches.1 exit hsaid hended,
      exitStream_carries hnext h.run h.flushMs hreaches exit⟩
  cases steps_of_step hs with
  | check hp | failedTimeout hp | timedOut hp =>
      exact ⟨it, hg, hwaits _ (h.phased.engine hp) (hengine hp)⟩
  | abortTimeout hp => exact ⟨it, hg, hwaits _ (h.phased.aborting hp) (haborting hp)⟩
  | @output text now hp =>
      exact ⟨_, hg.onOutput (hengine hp).1 text now, onOutput_carries hp h text now⟩
  | exhausted hp =>
      exact hexits none (h.phased.engine hp) (hengine hp) rfl fun _ => Or.inr rfl
  | failed hp _ | cancelEngine hp =>
      exact hexits _ (h.phased.engine hp) (hengine hp) rfl Or.inl
  | abortedCheck hp | abortedTimeout hp | cancelAbort hp =>
      exact hexits _ (h.phased.aborting hp) (haborting hp) rfl Or.inl
  | abortFailed hp _ => exact hexits _ (h.phased.aborting hp) (haborting hp) rfl Or.inl
  | sent hp _ | cancelSend hp => exact ⟨it, hg, onSent_carries hp h _⟩

end ChatTurn

/-! ## The streams of a connection -/

/-- What a step tells the streams of a connection. -/
def Conn.hears {S : Sanitizer} (c : Conn S) (label : Label) (heard : TaskId → Heard) :
    TaskId → Heard :=
  match label with
  | .task id (.chain event _) =>
      match c.tasks[id]? with
      | some t => Function.update heard id
          ((withCancelCheck c.session t.plan.requestId event).tells (heard id))
      | none => heard
  | _ => heard

/-- **What the engine told each turn of a run.** -/
def Conn.heard (deps : Deps) (c : Conn deps.sanitizer) (labels : List Label) : TaskId → Heard :=
  Lts.history (Conn.step deps) Conn.hears c (fun _ => .nothing) labels

/-- Is the output of a turn sanitized? -/
def TurnPlan.sanitizes (deps : Deps) (plan : TurnPlan) : Bool :=
  sanitizesOutput deps.sh.server plan.samplingOverrides

/-- What holds of a task and of what its stream was told. -/
structure Spoken (deps : Deps) (heard : Heard) (t : Task deps.sanitizer) : Prop where
  before : t.phase.mayStream = true → heard = .nothing ∧ t.response = none
  streaming : ∀ turn, t.phase = .streaming turn →
    ∃ it, Generates heard it ∧ turn.Carries (t.plan.sanitizes deps) it
  response : ∀ run, t.response = some run →
    ∃ it, Generates heard it ∧ Tells deps.sanitizer (t.plan.sanitizes deps) run it

/-- And of all tasks. -/
structure AllSpoken (deps : Deps) (c : Conn deps.sanitizer) (heard : TaskId → Heard) : Prop where
  tasks : ∀ (id : TaskId) (t : Task deps.sanitizer), c.tasks[id]? = some t →
    Spoken deps (heard id) t
  unborn : ∀ id : TaskId, c.tasks[id]? = none → heard id = .nothing

/-- Outside its stream a task is told nothing. -/
theorem runTask_tells {deps : Deps} {freshId : TurnId} {session session' s : SessionState}
    {plan : TurnPlan} {phase phase' : TaskPhase deps.sanitizer} {event : ChainEvent} {now : ℚ}
    (h : runTask deps freshId session plan phase (.chain event now) = some (session', phase'))
    (requestId : RequestId) (heard : Heard) :
    (withCancelCheck s requestId event).tells heard = heard := by
  have hsend : ∀ {result}, sendResult event = some result →
      (withCancelCheck s requestId event).tells heard = heard := by
    intro result hr
    cases event <;> first | rfl | cases hr
  generalize he : TaskEvent.chain event now = e at h
  cases taskRuns_of_runTask h with
  | dispatched | decided | toolRaised | completed => cases he
  | neverRan | cancelledRouting | cancelledCompleting => cases he; rfl
  | toolSent hr _ | sent _ hr _ | sendRaised _ hr _ | replied hr => cases he; exact hsend hr

theorem Spoken.ran {deps : Deps} {heard : Heard} {t : Task deps.sanitizer} {freshId : TurnId}
    {session session' : SessionState} {phase : TaskPhase deps.sanitizer} {event : TaskEvent}
    (h : Spoken deps heard t)
    (hrun : runTask deps freshId session t.plan t.phase event = some (session', phase)) :
    Spoken deps heard { t with phase := phase, cancelPending := false } := by
  have hleads := runTask_leads hrun
  refine ⟨fun hmay => ?_, fun turn hp => ?_, h.response⟩
  · refine h.before ?_
    cases phase <;> first | exact hleads | cases hmay
  · subst hp
    obtain ⟨hnothing, -⟩ := h.before hleads.1
    obtain ⟨historyUser, now, rfl⟩ := (taskRuns_of_runTask hrun).fresh turn rfl
    exact ⟨_, hnothing ▸ .start _ now, ChatTurn.carries_start _ _ _ _ _⟩

/-- A stream goes on, or is over and leaves its response. -/
theorem Spoken.streamed {deps : Deps} {heard : Heard} {t : Task deps.sanitizer}
    {turn turn' : ChatTurn deps.sanitizer} {event : ChainEvent} (h : Spoken deps heard t)
    (hp : t.phase = .streaming turn) (hs : turn.step event = some turn') :
    Spoken deps (event.tells heard)
      { t with
        phase := phaseOfTurn deps.sh.lower turn'
        cancelPending := false
        response := some turn'.run } := by
  obtain ⟨it, hg, hcarries⟩ := h.streaming turn hp
  obtain ⟨it', hg', hcarries'⟩ := ChatTurn.step_carries hcarries hg hs
  refine ⟨fun hmay => ?_, fun turn₁ hp₁ => ?_, fun run hrun => ?_⟩
  · dsimp only at hmay
    unfold phaseOfTurn at hmay
    split at hmay
    · rename_i outcome _
      rw [(phaseOfOutcome_quiet deps.sh.lower outcome).2] at hmay
      cases hmay
    · cases hmay
  · obtain rfl := turn_of_phaseOfTurn hp₁
    exact ⟨it', hg', hcarries'⟩
  · obtain rfl := Option.some.inj hrun
    exact ⟨it', hg', hcarries'.tells⟩

theorem allSpoken_init (deps : Deps) (clientId : Text) :
    AllSpoken deps (Conn.init deps.sanitizer deps.sh.server clientId) fun _ => .nothing :=
  ⟨fun id t ht => by simp [Conn.init] at ht, fun _ _ => rfl⟩

theorem allSpoken_step {deps : Deps} {c c' : Conn deps.sanitizer} {label : Label}
    {heard : TaskId → Heard} (h : AllSpoken deps c heard) (hs : c.step deps label = some c') :
    AllSpoken deps c' (c.hears label heard) := by
  -- the handler tells a stream nothing
  have hloop : LoopSteps deps c label c' → AllSpoken deps c' heard := by
    intro hl
    have hmoves := loopSteps_tasks hl
    refine ⟨fun id u hu => ?_, fun id hnone => h.unborn id ?_⟩
    · rcases hmoves.get hu with ⟨t, ht, hphase, hplan, hresponse⟩ | ⟨hcreated, hresponse, hlast⟩
      · have htask := h.tasks id t ht
        refine ⟨fun hmay => ?_, fun turn hp => ?_, fun run hrun => ?_⟩
        · rw [hresponse]
          exact htask.before (hphase ▸ hmay)
        · rw [hplan]
          exact htask.streaming turn (hphase ▸ hp)
        · rw [hplan]
          exact htask.response run (hresponse ▸ hrun)
      · have hnothing := h.unborn id (List.getElem?_eq_none (Nat.le_of_eq hlast.symm))
        refine ⟨fun _ => ⟨hnothing, hresponse⟩, fun turn hp => ?_, fun run hrun => ?_⟩
        · rw [hcreated] at hp
          cases hp
        · rw [hresponse] at hrun
          cases hrun
    · cases ht : c.tasks[id]? with
      | none => rfl
      | some t =>
          obtain ⟨t', ht', -⟩ := hmoves.kept ht
          rw [hnone] at ht'
          cases ht'
  cases label with
  | watchdog => cases hs; exact ⟨h.tasks, h.unborn⟩
  | task id event =>
      -- the others are told nothing
      have hset : ∀ {c'' : Conn deps.sanitizer} {t t' : Task deps.sanitizer}
          {heard' : TaskId → Heard}, c.tasks[id]? = some t → c''.tasks = c.tasks.set id t' →
          (∀ i, i ≠ id → heard' i = heard i) → Spoken deps (heard' id) t' →
          AllSpoken deps c'' heard' := by
        intro c'' t t' heard' ht htasks hothers hspoken
        refine ⟨fun i u hu => ?_, fun i hnone => ?_⟩
        · rw [htasks] at hu
          rcases getElem?_set_cases hu with ⟨rfl, rfl⟩ | ⟨hne, hu⟩
          · exact hspoken
          · rw [hothers i hne]
            exact h.tasks i u hu
        · rw [htasks, List.getElem?_set] at hnone
          split at hnone
          · rename_i hid
            subst hid
            rw [if_pos (List.getElem?_eq_some_iff.mp ht).1] at hnone
            cases hnone
          · rename_i hne
            rw [hothers i (Ne.symm hne)]
            exact h.unborn i hnone
      cases taskSteps_of_taskStep hs with
      | @streamed t turn turn' event now ht _ hp hturn =>
          refine hset ht rfl (fun i hne => ?_) ?_
          · simp [Conn.hears, ht, Function.update_of_ne hne]
          · simp only [Conn.hears, ht, Function.update_self]
            exact (h.tasks id t ht).streamed hp hturn
      | @ran t event session phase ht _ hrun =>
          have hsame : c.hears (.task id event) heard = heard := by
            cases event with
            | chain event now =>
                simp only [Conn.hears, ht, runTask_tells hrun, Function.update_eq_self]
            | _ => rfl
          rw [hsame]
          exact hset ht rfl (fun _ _ => rfl) ((h.tasks id t ht).ran hrun)
  | recv _ _ | recvInvalid _ | recvFailed _ | parseFailed _ | sent _ | closed _ | engineAborted _
  | resume => exact hloop (loopSteps_of_loopStep hs)

/--
**What a client reads is what the engine said.** On every run of a connection, however its turns
are cancelled, interrupted and overlapped, if each text the engine told a turn extends the one
before, then there are chunks, together a beginning of the latest text, such that

* the tokens handed over for the turn are a beginning of what the sanitizer makes of the chunks, or
  of the chunks themselves when the turn is not sanitized;
* a `final` frame has exactly that text;
* the chunks are the whole text when the engine came to its end.
-/
theorem finalFrame_tells (deps : Deps) (clientId : Text) (labels : List Label)
    (c : Conn deps.sanitizer)
    (h : exec (Conn.step deps) (Conn.init deps.sanitizer deps.sh.server clientId) labels = some c)
    (id : TaskId) (t : Task deps.sanitizer) (ht : c.tasks[id]? = some t) (run : StreamRun)
    (hr : t.response = some run) :
    let heard := Conn.heard deps (Conn.init deps.sanitizer deps.sh.server clientId) labels id
    let sanitizes := sanitizesOutput deps.sh.server t.plan.samplingOverrides
    heard.Cumulative →
      ∃ chunks : List Text, chunks.flatten <+: heard.latest
        ∧ run.tokenText <+: deps.sanitizer.shown sanitizes chunks
        ∧ (∀ text ∈ run.finalTexts, text = deps.sanitizer.shown sanitizes chunks)
        ∧ (heard.ended = true → chunks.flatten = heard.latest) := by
  intro heard sanitizes hcum
  have hall : AllSpoken deps c
      (Conn.heard deps (Conn.init deps.sanitizer deps.sh.server clientId) labels) := by
    refine history_inv ?_ (allSpoken_init deps clientId) h
    intro c label c' heard hi hs
    exact allSpoken_step hi hs
  obtain ⟨it, hg, htells⟩ := (hall.tasks id t ht).response run hr
  have hdelivers := hg.delivers hcum
  exact ⟨it.yielded, hdelivers.part, htells.tokens, htells.final,
    fun hended => hdelivers.whole (hg.ended hended)⟩

/-- A turn whose text comes in two outputs, up to its `done`. -/
def twoOutputs : List Label :=
  firstToken ++ [.task 0 (.chain (.output (some "Hi there".toList) false 0) 0),
    .task 0 (.chain (.sent .ack) 0), .task 0 (.chain .exhausted 0), .task 0 (.chain (.sent .ack) 0),
    .task 0 (.chain (.sent .ack) 0)]

theorem finalFrame_tells_twoOutputs :
    ∃ (c : Conn Deps.unlimited.sanitizer) (t : Task Deps.unlimited.sanitizer) (run : StreamRun),
      exec (Conn.step .unlimited) sampleConn twoOutputs = some c ∧ c.tasks[0]? = some t
        ∧ t.response = some run ∧ run.finalTexts = ["Hi there".toList]
        ∧ ∃ chunks : List Text, chunks.flatten = "Hi there".toList
          ∧ "Hi there".toList = plainSanitizer.shown
            (sanitizesOutput Deps.unlimited.sh.server t.plan.samplingOverrides) chunks := by
  have hrun : ((exec (Conn.step .unlimited) sampleConn twoOutputs).bind fun c =>
      c.tasks[0]?.bind fun t => t.response.map StreamRun.finalTexts)
        = some ["Hi there".toList] := by decide +kernel
  obtain ⟨c, hc, hobs⟩ := Option.bind_eq_some_iff.mp hrun
  obtain ⟨t, ht, hobs⟩ := Option.bind_eq_some_iff.mp hobs
  obtain ⟨run, hr, hfinals⟩ := Option.map_eq_some_iff.mp hobs
  have hheard : Conn.heard .unlimited sampleConn twoOutputs 0
      = ⟨["Hi".toList, "Hi there".toList], true⟩ := by decide +kernel
  have hcum : (Conn.heard .unlimited sampleConn twoOutputs 0).Cumulative := by
    rw [hheard]
    decide
  obtain ⟨chunks, -, -, hfinal, hwhole⟩ :=
    finalFrame_tells .unlimited "client".toList twoOutputs c hc 0 t ht run hr hcum
  refine ⟨c, t, run, hc, ht, hr, hfinals, chunks, ?_, ?_⟩
  · exact (hwhole (congrArg Heard.ended hheard)).trans (congrArg Heard.latest hheard)
  · exact hfinal _ (by rw [hfinals]; exact List.mem_singleton.mpr rfl)

end YapInference
