import YapInference.Text.Stream

/-!
# Chunk boundaries

What a client gets of a text does not depend on how it is cut into chunks exactly when nothing
that was emitted has to be taken back. The pipeline runs over the whole raw text at every push, so
the sanitizer emits a sequence of targets, the stable parts of the text so far, and `Emission` says
when that comes to the last of them.
-/

namespace YapInference

open Py Emission

/-! ## What is emitted -/

/-- What the pipeline makes of a text from its start. -/
def sanitizedText (env : TextEnv) (raw : Text) : Text := (sanitizeStreamChunk env raw true true true).1

/-- The part of it that no guard holds back. -/
def stablePart (env : TextEnv) (raw : Text) : Text :=
  (sanitizedText env raw).take
    (computeStableAndTailLengths env.chars raw (sanitizedText env raw) StreamingSanitizer.maxTail).1

/-- The raw text at each push of a chunk that is not empty. -/
def rawTexts (raw : Text) : List Text → List Text
  | [] => []
  | chunk :: chunks =>
      if chunk = [] then rawTexts raw chunks
      else (raw ++ chunk) :: rawTexts (raw ++ chunk) chunks

/-- The stable parts at the chunk boundaries, where there is one. -/
def stableParts (env : TextEnv) (raw : Text) (chunks : List Text) : List Text :=
  ((rawTexts raw chunks).map (stablePart env)).filter (!·.isEmpty)

/-- What a whole text settles to: its stable part, or all of it when no part is stable. -/
def settledText (env : TextEnv) (text : Text) : Text :=
  if stablePart env text = [] then rstrip (sanitizedText env text) else stablePart env text

/-- **Nothing emitted is taken back**: the stable part at a chunk boundary begins with the one
before it, and what the whole text settles to begins with the last. -/
def ChunkStable (env : TextEnv) (chunks : List Text) : Prop :=
  (stableParts env [] chunks ++ [settledText env chunks.flatten]).IsChain (· <+: ·)

/-- Push one chunk after another, from a sanitizer's state and what it has emitted. -/
def Sanitizer.pushAll (S : Sanitizer) (s : S.State × Text) (chunks : List Text) : S.State × Text :=
  chunks.foldl (fun s chunk => ((S.push s.1 chunk).1, s.2 ++ (S.push s.1 chunk).2)) s

/-- What a client gets of a text that arrives in these chunks. -/
def Sanitizer.streamed (S : Sanitizer) (chunks : List Text) : Text :=
  (S.pushAll (S.init, []) chunks).2 ++ S.flush (S.pushAll (S.init, []) chunks).1

/-- The runs of the sanitizer the runner uses. -/
def pushAll (env : TextEnv) (s : StreamingSanitizer × Text) (chunks : List Text) :
    StreamingSanitizer × Text :=
  (streamingSanitizer env).pushAll s chunks

/-- What a client gets through it. -/
def streamed (env : TextEnv) (chunks : List Text) : Text := (streamingSanitizer env).streamed chunks

theorem pushAll_cons (env : TextEnv) (s : StreamingSanitizer) (shown chunk : Text)
    (chunks : List Text) : pushAll env (s, shown) (chunk :: chunks)
      = pushAll env ((s.push env chunk).1, shown ++ (s.push env chunk).2) chunks := rfl

/-! ## One push -/

/-- A sanitizer that has taken in a raw text and keeps what it emitted. -/
structure Holds (s : StreamingSanitizer) (raw emitted : Text) : Prop where
  rawTail : s.rawTail = raw
  parts : s.emittedParts.flatten = emitted
  /-- The start of the stream is never dropped. -/
  whole : s.trimmedStreamStart = false
  /-- Nothing is buffered before the first chunk. -/
  fresh : raw = [] → s.sanitizedTail = []

theorem holds_init : Holds .init [] [] := ⟨rfl, rfl, rfl, fun _ => rfl⟩

/-- The pipeline always runs with its one-shot steps pending. -/
theorem Holds.sanitizeRawTail {s : StreamingSanitizer} {raw emitted : Text}
    (h : Holds s raw emitted) (env : TextEnv) :
    (s.sanitizeRawTail env).2 = sanitizedText env raw
      ∧ (s.sanitizeRawTail env).1.rawTail = raw
      ∧ (s.sanitizeRawTail env).1.emittedParts.flatten = emitted
      ∧ (s.sanitizeRawTail env).1.trimmedStreamStart = false := by
  obtain ⟨rfl, hemitted, hwhole, -⟩ := h
  simp [StreamingSanitizer.sanitizeRawTail, hwhole, hemitted, sanitizedText]

theorem cutBack_snd (s : StreamingSanitizer) (target : Text) :
    (s.cutBack target).2 = common s.emittedParts.flatten target := by
  unfold StreamingSanitizer.cutBack
  dsimp only
  split <;> rfl

/-- After cutting back, what is kept is common to both. -/
theorem cutBack_fst (s : StreamingSanitizer) (target : Text) :
    (s.cutBack target).1.rawTail = s.rawTail
      ∧ (s.cutBack target).1.trimmedStreamStart = s.trimmedStreamStart
      ∧ (s.cutBack target).1.emittedParts.flatten
        = target.take (common s.emittedParts.flatten target) := by
  rw [← take_common]
  unfold StreamingSanitizer.cutBack commonPrefixLen
  dsimp only
  split
  · refine ⟨rfl, rfl, ?_⟩
    split
    · rename_i hnil; simpa using (List.isEmpty_iff.mp hnil).symm
    · simp
  · rename_i hlen
    refine ⟨rfl, rfl, ?_⟩
    rw [List.take_of_length_le (by omega)]

theorem sanitizedText_nil (env : TextEnv) : sanitizedText env [] = [] := rfl

theorem stableLen_le (cd : CharData) (raw sanitized : Text) (maxTail : Nat) :
    (computeStableAndTailLengths cd raw sanitized maxTail).1 ≤ sanitized.length := by
  unfold computeStableAndTailLengths
  split
  · exact Nat.zero_le _
  · dsimp only
    split <;> exact Nat.sub_le _ _

theorem stablePart_eq_nil {env : TextEnv} {raw : Text} :
    stablePart env raw = [] ↔ (computeStableAndTailLengths env.chars raw (sanitizedText env raw)
      StreamingSanitizer.maxTail).1 = 0 := by
  have hle := stableLen_le env.chars raw (sanitizedText env raw) StreamingSanitizer.maxTail
  rw [stablePart, List.take_eq_nil_iff]
  constructor
  · intro h'
    rcases h' with h | h
    · exact h
    · rw [h] at hle
      simpa [h] using hle
  · exact Or.inl

/-- **A push emits what its target adds**, and nothing when no part is stable. -/
theorem push_holds (env : TextEnv) {s : StreamingSanitizer} {raw emitted chunk : Text}
    (h : Holds s raw emitted) (hchunk : chunk ≠ []) (shown : Text) :
    let target := stablePart env (raw ++ chunk)
    let after := if target = [] then (shown, emitted) else emit (shown, emitted) target
    Holds (s.push env chunk).1 (raw ++ chunk) after.2 ∧ shown ++ (s.push env chunk).2 = after.1 := by
  have hne : raw ++ chunk ≠ [] := by simp [hchunk]
  have hgrown : Holds { s with rawTail := s.rawTail ++ chunk } (raw ++ chunk) emitted :=
    ⟨by rw [h.rawTail], h.parts, h.whole, fun hnil => absurd hnil hne⟩
  obtain ⟨htext, hraw, hparts, hwhole⟩ := hgrown.sanitizeRawTail env
  have hzero : stablePart env (raw ++ chunk) = [] ↔ _ := stablePart_eq_nil
  unfold StreamingSanitizer.push
  rw [if_neg (by simpa using hchunk)]
  dsimp only
  rw [htext, hraw]
  generalize StreamingSanitizer.sanitizeRawTail env { s with rawTail := s.rawTail ++ chunk }
    = sanitized at hraw hparts hwhole
  generalize hlen : computeStableAndTailLengths env.chars (raw ++ chunk)
    (sanitizedText env (raw ++ chunk)) StreamingSanitizer.maxTail = lengths at hzero ⊢
  have htarget : (sanitizedText env (raw ++ chunk)).take lengths.1 = stablePart env (raw ++ chunk) := by
    rw [stablePart, hlen]
  rw [htarget]
  -- without a stable part nothing is emitted, and nothing is cut back either
  by_cases hstable : stablePart env (raw ++ chunk) = []
  · rw [if_neg (by simpa using hzero.mp hstable), if_pos hstable]
    exact ⟨⟨hraw, hparts, hwhole, fun hnil => absurd hnil hne⟩, List.append_nil _⟩
  · have hpos : 0 < lengths.1 := Nat.pos_of_ne_zero fun h0 => hstable (hzero.mpr h0)
    rw [if_pos hpos, if_neg hstable]
    dsimp only
    obtain ⟨hcutRaw, hcutWhole, hcutParts⟩ :=
      cutBack_fst sanitized.1 (stablePart env (raw ++ chunk))
    rw [cutBack_snd, hparts]
    rw [hparts] at hcutParts
    refine ⟨⟨?_, ?_, ?_, fun hnil => absurd hnil hne⟩, rfl⟩
    · split
      · exact hcutRaw.trans hraw
      · exact hcutRaw.trans hraw
    · have hjoin := List.take_append_drop (common emitted (stablePart env (raw ++ chunk)))
        (stablePart env (raw ++ chunk))
      split
      · rename_i hdelta
        rw [List.isEmpty_iff.mp hdelta, List.append_nil] at hjoin
        exact hcutParts.trans hjoin
      · rw [← hjoin]
        simp [hcutParts, emit]
    · split
      · exact hcutWhole.trans hwhole
      · exact hcutWhole.trans hwhole

/-! ## A whole text -/

/-- **Pushing chunks emits the stable parts at their boundaries**, one after the other. -/
theorem pushAll_holds (env : TextEnv) {s : StreamingSanitizer} {raw emitted : Text}
    (h : Holds s raw emitted) (shown : Text) (chunks : List Text) :
    let after := (stableParts env raw chunks).foldl emit (shown, emitted)
    Holds (pushAll env (s, shown) chunks).1 (raw ++ chunks.flatten) after.2
      ∧ (pushAll env (s, shown) chunks).2 = after.1 := by
  induction chunks generalizing s raw emitted shown with
  | nil =>
      rw [List.flatten_nil, List.append_nil]
      exact ⟨h, rfl⟩
  | cons chunk chunks ih =>
      by_cases hchunk : chunk = []
      -- an empty chunk is not even taken in
      · have hskip : pushAll env (s, shown) (chunk :: chunks) = pushAll env (s, shown) chunks := by
          rw [pushAll_cons]
          simp [StreamingSanitizer.push, hchunk]
        have hparts : stableParts env raw (chunk :: chunks) = stableParts env raw chunks := by
          simp [stableParts, rawTexts, hchunk]
        rw [hskip, hparts, hchunk]
        exact ih h shown
      · obtain ⟨hpush, hshown⟩ := push_holds env h hchunk shown
        have hparts : (stableParts env raw (chunk :: chunks)).foldl emit (shown, emitted)
            = (stableParts env (raw ++ chunk) chunks).foldl emit
                (if stablePart env (raw ++ chunk) = [] then (shown, emitted)
                  else emit (shown, emitted) (stablePart env (raw ++ chunk))) := by
          by_cases hstable : stablePart env (raw ++ chunk) = [] <;>
            simp [stableParts, rawTexts, hchunk, hstable]
        rw [hparts]
        generalize (if stablePart env (raw ++ chunk) = [] then (shown, emitted)
          else emit (shown, emitted) (stablePart env (raw ++ chunk))) = after at hpush hshown ⊢
        have hnext := ih hpush after.1
        rw [List.append_assoc] at hnext
        rw [pushAll_cons, hshown, List.flatten_cons]
        exact hnext

/-- What the flush adds is the rest of the sanitized text, without trailing whitespace. -/
theorem flush_holds (env : TextEnv) {s : StreamingSanitizer} {raw emitted : Text}
    (h : Holds s raw emitted) :
    (s.flush env).2
      = (rstrip (sanitizedText env raw)).drop (common emitted (sanitizedText env raw)) := by
  obtain ⟨htext, -, hparts, -⟩ := h.sanitizeRawTail env
  unfold StreamingSanitizer.flush
  split
  · rename_i hnil
    rw [Bool.and_eq_true, List.isEmpty_iff, h.rawTail] at hnil
    rw [hnil.1, sanitizedText_nil]
    simp
  · dsimp only
    rw [htext, cutBack_snd, hparts, rstrip_drop]

theorem streamed_eq (env : TextEnv) (chunks : List Text) :
    streamed env chunks = (emitAll (stableParts env [] chunks)).1
      ++ (rstrip (sanitizedText env chunks.flatten)).drop
        (common (emitAll (stableParts env [] chunks)).2 (sanitizedText env chunks.flatten)) := by
  obtain ⟨hholds, hshown⟩ := pushAll_holds env holds_init [] chunks
  have hstreamed : streamed env chunks = (pushAll env (.init, []) chunks).2
      ++ ((pushAll env (.init, []) chunks).1.flush env).2 := rfl
  rw [hstreamed, hshown, flush_holds env hholds]
  rfl

/-- Empty chunks are not pushed. -/
theorem rawTexts_nil {raw : Text} {chunks : List Text} (h : chunks.flatten = []) :
    rawTexts raw chunks = [] := by
  induction chunks with
  | nil => rfl
  | cons chunk chunks ih =>
      obtain ⟨hchunk, hrest⟩ := List.append_eq_nil_iff.mp (List.flatten_cons ▸ h)
      rw [rawTexts, if_pos hchunk]
      exact ih hrest

/-- The last text pushed is the whole text. -/
theorem rawTexts_last (raw : Text) {chunks : List Text} (hne : chunks.flatten ≠ []) :
    (rawTexts raw chunks).getLast? = some (raw ++ chunks.flatten) := by
  induction chunks generalizing raw with
  | nil => exact absurd rfl hne
  | cons chunk chunks ih =>
      by_cases hchunk : chunk = []
      · rw [rawTexts, if_pos hchunk, hchunk]
        exact ih raw (by simpa [hchunk] using hne)
      · rw [rawTexts, if_neg hchunk, List.flatten_cons, ← List.append_assoc]
        by_cases hrest : chunks.flatten = []
        · rw [rawTexts_nil hrest, hrest, List.append_nil]
          rfl
        · rw [List.getLast?_cons, ih (raw ++ chunk) hrest]
          rfl

/-- The last of the stable parts is that of the whole text, if it has one. -/
theorem stableParts_last (env : TextEnv) (raw : Text) {chunks : List Text}
    (hne : chunks.flatten ≠ []) (hstable : stablePart env (raw ++ chunks.flatten) ≠ []) :
    (stableParts env raw chunks).getLast? = some (stablePart env (raw ++ chunks.flatten)) := by
  obtain ⟨front, hfront⟩ := List.getLast?_eq_some_iff.mp (rawTexts_last raw hne)
  rw [stableParts, hfront]
  simp [hstable]

/-! ## Any way of cutting -/

/-- A text with a stable part comes out as that and the rest, however it is cut, unless something
was taken back. -/
theorem streamed_iff_stable (env : TextEnv) {chunks : List Text}
    (hstable : stablePart env chunks.flatten ≠ []) :
    streamed env chunks = stablePart env chunks.flatten
        ++ (rstrip (sanitizedText env chunks.flatten)).drop (stablePart env chunks.flatten).length
      ↔ ChunkStable env chunks := by
  have hne : chunks.flatten ≠ [] := by
    intro hnil
    rw [hnil] at hstable
    exact hstable rfl
  have hlast := emitAll_last (stableParts env [] chunks)
  rw [stableParts_last env [] hne (by simpa using hstable)] at hlast
  have hlast : (emitAll (stableParts env [] chunks)).2 = stablePart env chunks.flatten := hlast
  have hprefix : stablePart env chunks.flatten <+: sanitizedText env chunks.flatten :=
    List.take_prefix _ _
  have hcommon := common_eq_length.mpr hprefix
  rw [streamed_eq, hlast, hcommon, List.append_left_inj, ChunkStable, settledText, if_neg hstable,
    isChain_snoc, ← emitAll_iff, hlast]
  exact (and_iff_left (List.prefix_refl _)).symm

/-- A text without one comes out whole, unless something was taken back. -/
theorem streamed_iff_unstable (env : TextEnv) {chunks : List Text}
    (hstable : stablePart env chunks.flatten = []) :
    streamed env chunks = rstrip (sanitizedText env chunks.flatten) ↔ ChunkStable env chunks := by
  rw [streamed_eq, ChunkStable, settledText, if_pos hstable, isChain_snoc, ← emitAll_iff]
  generalize sanitizedText env chunks.flatten = sanitized
  generalize hparts : stableParts env [] chunks = parts
  have hle := emitAll_le parts
  have hl := common_le_left (emitAll parts).2 sanitized
  constructor
  · intro h
    -- what is shown is never shorter than the last target, so the lengths leave no room
    have hlen := congrArg List.length h
    rw [List.length_append, List.length_drop] at hlen
    have hlast : (emitAll parts).2 <+: sanitized := common_eq_length.mp (by omega)
    refine ⟨emitAll_of_length (by omega), ?_⟩
    exact List.prefix_of_prefix_length_le hlast (rstrip_isPrefix _) (by omega)
  · intro h
    obtain ⟨hshown, hp⟩ := h
    rw [hshown, common_eq_length.mpr (hp.trans (rstrip_isPrefix _))]
    exact List.prefix_iff_eq_append.mp hp

/-- In one chunk nothing is taken back. -/
theorem chunkStable_one (env : TextEnv) (text : Text) : ChunkStable env [text] := by
  unfold ChunkStable settledText
  rw [List.flatten_cons, List.flatten_nil, List.append_nil]
  by_cases htext : text = []
  · simp [stableParts, rawTexts, htext]
  · by_cases hstable : stablePart env text = [] <;>
      simp [stableParts, rawTexts, htext, hstable]

/--
**Chunk boundaries do not matter exactly when nothing emitted is taken back.** For every text,
every way of cutting it into chunks, and whatever the phone number matcher reports.
-/
theorem streamed_iff_chunkStable (env : TextEnv) (chunks : List Text) :
    streamed env chunks = streamed env [chunks.flatten] ↔ ChunkStable env chunks := by
  have hone : ([chunks.flatten] : List Text).flatten = chunks.flatten := by simp
  have hwhole := chunkStable_one env chunks.flatten
  by_cases hstable : stablePart env chunks.flatten = []
  · rw [← streamed_iff_unstable env (hone.symm ▸ hstable), hone] at hwhole
    rw [hwhole]
    exact streamed_iff_unstable env hstable
  · rw [← streamed_iff_stable env (hone.symm ▸ hstable), hone] at hwhole
    rw [hwhole]
    exact streamed_iff_stable env hstable

end YapInference
