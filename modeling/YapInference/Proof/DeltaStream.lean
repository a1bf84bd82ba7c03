import Mathlib.Data.List.Chain
import Mathlib.Data.List.Induction
import YapInference.Lib.Lts
import YapInference.Execution.ChatStream

/-!
# Delta streaming loses and repeats nothing

An engine tells all of its text each time, the controller passes on what is new, and holds some of
that back for a while. What has been yielded and what is held back are together the cumulative
text, after every output: that is the invariant, and `finally` hands over the rest.
-/

namespace YapInference

open Py Lts

/-! ## What the engine said -/

/-- The text of an output that has one. -/
def textOf : Option Text → Option Text
  | some text => if text.isEmpty then none else some text
  | none => none

/-- And of an event that is such an output. -/
def IterEvent.newText : IterEvent → Option Text
  | .output text _ => textOf text
  | .ended _ => none

theorem output_of_textOf {output : Option Text} {text : Text} (h : textOf output = some text) :
    output = some text := by
  cases output with
  | none => exact absurd h (by simp [textOf])
  | some t =>
      rw [textOf] at h
      split at h
      · exact absurd h (by simp)
      · exact h

/-- The texts of the outputs that have one, in order. -/
def engineTexts (events : List IterEvent) : List Text := events.filterMap IterEvent.newText

/-- The latest of them. -/
def latestText (events : List IterEvent) : Text := (engineTexts events).getLast?.getD []

/-- Each of them extends the one before. -/
def Cumulative (events : List IterEvent) : Prop := (engineTexts events).IsChain (· <+: ·)

instance (events : List IterEvent) : Decidable (Cumulative events) :=
  inferInstanceAs (Decidable (List.IsChain _ _))

theorem engineTexts_snoc (events : List IterEvent) (e : IterEvent) :
    engineTexts (events ++ [e]) = engineTexts events ++ e.newText.toList := by
  rw [engineTexts, List.filterMap_append]
  cases h : e.newText <;> simp [engineTexts, h]

theorem latestText_of_none {events : List IterEvent} {e : IterEvent} (h : e.newText = none) :
    latestText (events ++ [e]) = latestText events := by
  rw [latestText, engineTexts_snoc, h, Option.toList_none, List.append_nil, latestText]

theorem latestText_of_some {events : List IterEvent} {e : IterEvent} {text : Text}
    (h : e.newText = some text) : latestText (events ++ [e]) = text := by
  rw [latestText, engineTexts_snoc, h, Option.toList_some, List.getLast?_concat, Option.getD_some]

theorem Cumulative.init {events : List IterEvent} {e : IterEvent}
    (h : Cumulative (events ++ [e])) : Cumulative events := by
  rw [Cumulative, engineTexts_snoc] at h
  exact h.left_of_append

theorem Cumulative.extends {events : List IterEvent} {e : IterEvent} {text : Text}
    (h : Cumulative (events ++ [e])) (he : e.newText = some text) :
    latestText events <+: text := by
  rw [Cumulative, engineTexts_snoc, he, List.isChain_append] at h
  rw [latestText]
  cases hlast : (engineTexts events).getLast? with
  | none => exact List.nil_prefix
  | some last => exact h.2.2 last hlast text (by simp)

/-! ## One output -/

namespace ControllerState

variable {ctrl : ControllerState} {flushMs now : ℚ} {output : Option Text}

/-- An output without text changes nothing. -/
theorem onOutput_of_none (h : textOf output = none) :
    ctrl.onOutput flushMs output now = (ctrl, none) := by
  cases output with
  | none => rfl
  | some text =>
      have hnil : text = [] := by simpa [textOf] using h
      have hdelta : ctrl.extractDelta (some text) = (ctrl, []) := by
        subst hnil
        simp [extractDelta]
      rw [onOutput, hdelta]
      rfl

/-- A longer text brings the rest of it. -/
theorem extractDelta_of_prefix {text : Text} (h : ctrl.fullText <+: text) :
    ctrl.extractDelta (some text)
      = ({ ctrl with fullText := text }, text.drop ctrl.fullText.length) := by
  have hstarts : startsWith text ctrl.fullText = true := List.isPrefixOf_iff_prefix.mpr h
  have hsplit := List.prefix_iff_eq_append.mp h
  simp only [extractDelta, hstarts, if_true]
  split
  · rename_i hnil
    rw [List.isEmpty_iff] at hnil
    rw [hnil, List.append_nil] at hsplit
    rw [hnil, ← hsplit]
  · rfl

/-- **What is yielded and held back grows by the delta.** -/
theorem emit_held (ctrl : ControllerState) (flushMs now : ℚ) (delta : Text) :
    (ctrl.emit flushMs now delta).2.toList.flatten ++ (ctrl.emit flushMs now delta).1.flushTail flushMs
        = ctrl.flushTail flushMs ++ delta
      ∧ (ctrl.emit flushMs now delta).1.fullText = ctrl.fullText := by
  unfold emit flushTail
  by_cases hflush : flushMs ≤ 0
  · simp only [if_pos hflush]
    simp
  · simp only [if_neg hflush]
    split <;> simp

theorem onOutput_of_prefix {text : Text} (h : ctrl.fullText <+: text) :
    let next := ctrl.onOutput flushMs (some text) now
    next.1.fullText = text
      ∧ next.2.toList.flatten ++ next.1.flushTail flushMs
        = ctrl.flushTail flushMs ++ text.drop ctrl.fullText.length := by
  simp only [onOutput, extractDelta_of_prefix h]
  split
  · rename_i hnil
    rw [List.isEmpty_iff] at hnil
    rw [hnil, List.append_nil]
    exact ⟨rfl, rfl⟩
  · obtain ⟨hheld, hfull⟩ :=
      emit_held { ctrl with fullText := text } flushMs now (text.drop ctrl.fullText.length)
    exact ⟨hfull, hheld⟩

end ControllerState

/-! ## Runs -/

/-- What a generator has delivered of the latest text. -/
structure IterText.Delivers (it : IterText) (latest : Text) : Prop where
  full : it.ctrl.fullText = latest
  /-- While it runs, all but what it holds back. -/
  held : it.finished = none → it.yielded.flatten ++ it.ctrl.flushTail it.flushMs = latest
  /-- Never anything else. -/
  part : it.yielded.flatten <+: latest
  /-- And all of it, when the stream below it has ended normally. -/
  whole : it.finished = some none → it.yielded.flatten = latest

namespace IterText

theorem delivers_start (flushMs now : ℚ) : (start flushMs now).Delivers [] := by
  refine ⟨rfl, fun _ => ?_, List.nil_prefix, fun h => absurd h (by simp [start])⟩
  show (start flushMs now).ctrl.flushTail flushMs = []
  unfold ControllerState.flushTail
  split <;> rfl

theorem Delivers.onOutput {it : IterText} {latest : Text} (h : it.Delivers latest)
    (hopen : it.finished = none) {output : Option Text} {now : ℚ} {latest' : Text}
    (hnone : textOf output = none → latest' = latest)
    (hsome : ∀ text, textOf output = some text → latest' = text ∧ latest <+: text) :
    (it.onOutput output now).Delivers latest' := by
  have hheld : ∀ it' : IterText, it'.finished = none → it'.ctrl.fullText = latest' →
      it'.yielded.flatten ++ it'.ctrl.flushTail it'.flushMs = latest' → it'.Delivers latest' := by
    intro it' hopen' hfull hall
    exact ⟨hfull, fun _ => hall, ⟨_, hall⟩, fun hdone => absurd (hopen'.symm.trans hdone) (by simp)⟩
  cases hnew : textOf output with
  | none =>
      have hsame : it.ctrl.onOutput it.flushMs output now = (it.ctrl, none) :=
        ControllerState.onOutput_of_none hnew
      obtain rfl := hnone hnew
      refine hheld _ hopen ?_ ?_
      · rw [IterText.onOutput, hsame]
        exact h.full
      · rw [IterText.onOutput, hsame]
        simpa using h.held hopen
  | some text =>
      obtain ⟨rfl, hprefix⟩ := hsome text hnew
      obtain rfl := output_of_textOf hnew
      obtain ⟨hfull, hgrows⟩ := @ControllerState.onOutput_of_prefix it.ctrl it.flushMs now latest'
        (h.full ▸ hprefix)
      refine hheld _ hopen hfull ?_
      show (it.yielded ++ (it.ctrl.onOutput it.flushMs (some latest') now).2.toList).flatten
        ++ (it.ctrl.onOutput it.flushMs (some latest') now).1.flushTail it.flushMs = latest'
      rw [List.flatten_append, List.append_assoc, hgrows, ← List.append_assoc, h.held hopen, h.full]
      exact List.prefix_iff_eq_append.mp hprefix

theorem Delivers.onEnded {it : IterText} {latest : Text} (h : it.Delivers latest)
    (hopen : it.finished = none) (exit : Option Raised) : (it.onEnded exit).Delivers latest := by
  unfold IterText.onEnded
  split
  · rename_i hcancelled
    exact ⟨h.full, fun hnone => absurd hnone (by simp), h.part,
      fun hdone => absurd hdone (by simp [hcancelled])⟩
  · have htail : (it.yielded ++ if (it.ctrl.flushTail it.flushMs).isEmpty then []
        else [it.ctrl.flushTail it.flushMs]).flatten = latest := by
      rw [List.flatten_append, ← h.held hopen]
      split
      · rename_i hnil
        rw [List.isEmpty_iff.mp hnil, List.flatten_nil]
      · rw [List.flatten_singleton]
    exact ⟨h.full, fun hnone => absurd hnone (by simp), htail ▸ List.prefix_refl _, fun _ => htail⟩

theorem delivers_exec {flushMs now : ℚ} {events : List IterEvent} {it : IterText}
    (hcum : Cumulative events) (h : exec IterText.step (start flushMs now) events = some it) :
    it.Delivers (latestText events) := by
  induction events using List.reverseRecOn generalizing it with
  | nil =>
      obtain rfl := Option.some.inj h
      exact delivers_start flushMs now
  | append_singleton events e ih =>
      obtain ⟨before, hbefore, hlast⟩ := exec_append_eq_some.mp h
      have hdelivers := ih hcum.init hbefore
      obtain ⟨it', hstep, hend⟩ := exec_cons_eq_some.mp hlast
      obtain rfl := Option.some.inj hend
      cases hopen : before.finished with
      | some exit => exact absurd hstep (by simp [IterText.step, hopen])
      | none =>
          cases e with
          | output text now =>
              have hnext : before.onOutput text now = it' := by
                simpa [IterText.step, hopen] using hstep
              rw [← hnext]
              refine hdelivers.onOutput hopen (fun hnone => ?_) fun t ht => ?_
              · exact @latestText_of_none events (.output text now) hnone
              · exact ⟨@latestText_of_some events (.output text now) t ht, hcum.extends ht⟩
          | ended exit =>
              have hnext : before.onEnded exit = it' := by
                simpa [IterText.step, hopen] using hstep
              rw [← hnext, @latestText_of_none events (.ended exit) rfl]
              exact hdelivers.onEnded hopen exit

/-- **Delta streaming loses and repeats nothing.** Whatever outputs without text are in between,
and however the chunks are buffered: what has been yielded is a prefix of the latest text, and all
of it when the stream has ended normally. -/
theorem iterText_run {flushMs now : ℚ} {events : List IterEvent} {it : IterText}
    (hcum : Cumulative events) (h : exec IterText.step (start flushMs now) events = some it) :
    it.yielded.flatten <+: latestText events
      ∧ (it.finished = some none → it.yielded.flatten = latestText events) :=
  ⟨(delivers_exec hcum h).part, (delivers_exec hcum h).whole⟩

/-- An engine that repeats itself and has nothing to say in between; one chunk is held back. -/
theorem iterText_run_buffered :
    let events : List IterEvent :=
      [.output (some "He".toList) (1 / 100), .output none (2 / 100), .output (some []) (3 / 100),
        .output (some "Hello".toList) (4 / 100), .output (some "Hello".toList) (5 / 100),
        .output (some "Hello!".toList) (6 / 100), .ended none]
    ∃ it, exec IterText.step (start 30 0) events = some it
      ∧ it.yielded = ["Hello".toList, "!".toList] ∧ it.yielded.flatten = latestText events := by
  intro events
  have hcum : Cumulative events := by decide +kernel
  refine ⟨_, rfl, by decide +kernel, (@iterText_run 30 0 _ _ hcum rfl).2 ?_⟩
  decide +kernel

end IterText

/-! ## The engines -/

/-- The text a chunk of an engine has. -/
def chunkText : Option TextAttr → Option Text
  | some (.str text) => textOf (some text)
  | _ => none

/-- A vLLM stream says what its chunks say. -/
theorem filterMap_vllmStream (chunks : List (Option TextAttr)) :
    (vllmStream chunks).filterMap textOf = chunks.filterMap chunkText := by
  rw [vllmStream, List.filterMap_map]
  congr 1
  funext chunk
  rcases chunk with _ | (_ | _ | text) <;> rfl

/-- A chunk of a TensorRT-LLM stream without text repeats the text before. -/
theorem fromTrt_cases (chunk : Option TextAttr) (prevText : Text) :
    (chunkText chunk = none ∧ EngineOutput.fromTrt chunk prevText = prevText)
      ∨ ∃ text, chunkText chunk = some text ∧ text ≠ []
        ∧ EngineOutput.fromTrt chunk prevText = text := by
  rcases chunk with _ | (_ | _ | text)
  · exact .inl ⟨rfl, rfl⟩
  · exact .inl ⟨rfl, rfl⟩
  · exact .inl ⟨rfl, rfl⟩
  · cases text with
    | nil => exact .inl ⟨rfl, rfl⟩
    | cons c text => exact .inr ⟨c :: text, rfl, List.cons_ne_nil _ _, rfl⟩

theorem textOf_of_ne {text : Text} (hne : text ≠ []) : textOf (some text) = some text := by
  simp [textOf, hne]

theorem trtStreamFrom_chain (prevText : Text) {chunks : List (Option TextAttr)}
    (h : ((textOf (some prevText)).toList ++ chunks.filterMap chunkText).IsChain (· <+: ·)) :
    ((textOf (some prevText)).toList ++ (trtStreamFrom prevText chunks).filterMap textOf).IsChain
      (· <+: ·) := by
  induction chunks generalizing prevText with
  | nil => simpa [trtStreamFrom] using h
  | cons chunk chunks ih =>
      rcases fromTrt_cases chunk prevText with ⟨hchunk, htext⟩ | ⟨text, hchunk, hne, htext⟩
      · rw [List.filterMap_cons_none hchunk] at h
        have hrest := ih prevText h
        simp only [trtStreamFrom, htext, ite_self]
        cases prevText with
        | nil => exact hrest
        | cons c prevText => exact List.isChain_cons_cons.mpr ⟨List.prefix_refl _, hrest⟩
      · rw [List.filterMap_cons_some hchunk] at h
        have hrest := ih text (by rw [textOf_of_ne hne]; exact h.right_of_append)
        rw [textOf_of_ne hne] at hrest
        simp only [trtStreamFrom, htext, List.isEmpty_eq_false_iff.mpr hne, Bool.false_eq_true, if_false]
        rw [List.filterMap_cons_some (textOf_of_ne hne)]
        cases prevText with
        | nil => exact hrest
        | cons c prevText =>
            exact List.isChain_cons_cons.mpr ⟨(List.isChain_cons_cons.mp h).1, hrest⟩

/-- The text it says last is the last text of a chunk. -/
theorem trtStreamFrom_last (prevText : Text) (chunks : List (Option TextAttr)) :
    ((textOf (some prevText)).toList ++ (trtStreamFrom prevText chunks).filterMap textOf).getLast?
      = ((textOf (some prevText)).toList ++ chunks.filterMap chunkText).getLast? := by
  induction chunks generalizing prevText with
  | nil => rfl
  | cons chunk chunks ih =>
      rcases fromTrt_cases chunk prevText with ⟨hchunk, htext⟩ | ⟨text, hchunk, hne, htext⟩
      · have hrest := ih prevText
        rw [List.filterMap_cons_none hchunk, ← hrest]
        simp only [trtStreamFrom, htext, ite_self]
        cases prevText with
        | nil => rfl
        | cons c prevText => simp [textOf]
      · have hrest := ih text
        rw [textOf_of_ne hne] at hrest
        simp only [trtStreamFrom, htext, List.isEmpty_eq_false_iff.mpr hne, Bool.false_eq_true, if_false]
        rw [List.filterMap_cons_some hchunk, List.filterMap_cons_some (textOf_of_ne hne),
          List.getLast?_append, List.getLast?_append]
        exact congrArg (·.or (textOf (some prevText)).toList.getLast?) hrest

/-- The outputs in a run of the generator. -/
def IterEvent.engineOutput : IterEvent → Option (Option Text)
  | .output text _ => some text
  | .ended _ => none

theorem engineTexts_eq (events : List IterEvent) :
    engineTexts events = (events.filterMap IterEvent.engineOutput).filterMap textOf := by
  rw [engineTexts, List.filterMap_filterMap]
  congr 1
  funext e
  cases e <;> rfl

/-- **Nothing an engine says is lost or repeated.** For both engines, when the texts of their chunks
are cumulative: what has been yielded is a prefix of the text of the last chunk that has one, and
all of it when the stream has ended normally. -/
theorem IterText.delivers_engine {chunks : List (Option TextAttr)}
    (hchunks : (chunks.filterMap chunkText).IsChain (· <+: ·)) {flushMs now : ℚ}
    {events : List IterEvent} {it : IterText}
    (hevents : events.filterMap IterEvent.engineOutput = vllmStream chunks
      ∨ events.filterMap IterEvent.engineOutput = trtStream chunks)
    (h : exec IterText.step (start flushMs now) events = some it) :
    let said := (chunks.filterMap chunkText).getLast?.getD []
    it.yielded.flatten <+: said ∧ (it.finished = some none → it.yielded.flatten = said) := by
  intro said
  have hsaid : Cumulative events ∧ latestText events = said := by
    rw [Cumulative, latestText, engineTexts_eq]
    rcases hevents with hvllm | htrt
    · rw [hvllm, filterMap_vllmStream]
      exact ⟨hchunks, rfl⟩
    · rw [htrt]
      exact ⟨trtStreamFrom_chain [] hchunks, congrArg (·.getD []) (trtStreamFrom_last [] chunks)⟩
  obtain ⟨hcum, hlatest⟩ := hsaid
  have hdelivers := delivers_exec hcum h
  rw [hlatest] at hdelivers
  exact ⟨hdelivers.part, hdelivers.whole⟩

/-! ## The generator in its chain -/

/-- The link of `ChatTurn` that handles an output is this generator's, with the sanitizer on what it
yields. -/
theorem ChatTurn.onOutput_eq {S : Sanitizer} (t : ChatTurn S) (output : Option Text) (now : ℚ) :
    t.onOutput output now
      = let next := t.ctrl.onOutput t.flushMs output now
        let t := { t with ctrl := next.1 }
        match next.2 with
        | none => { t with phase := .engine }
        | some chunk =>
            match t.pushChunk chunk with
            | (t, none) => { t with phase := .engine }
            | (t, some clean) => { t with run := t.run.onChunk clean, phase := .consuming .engine } := by
  unfold ChatTurn.onOutput ControllerState.onOutput
  cases t.ctrl.extractDelta output with
  | mk ctrl delta =>
      dsimp only
      split <;> rfl

end YapInference
