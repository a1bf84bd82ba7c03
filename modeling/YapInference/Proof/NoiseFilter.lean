import YapInference.Lib.Lines
import YapInference.Scripts.Filters

/-!
# The log filter works line by line

However a text is cut into writes, the stream has passed on the lines that are complete, without
the noise, and holds back the rest. A flush passes the rest on unless it is noise.
-/

namespace YapInference

open Py

namespace NoiseFilterStream

variable {noise : Text → Bool}

/-- A line that is passed on. An empty one always is. -/
def keepsLine (noise : Text → Bool) (line : Text) : Bool := line.isEmpty || !noise line

/-- Lines without the noise among them, each with its line feed. -/
def keepLines (noise : Text → Bool) (lines : List Text) : Text :=
  ((lines.filter (keepsLine noise)).map (· ++ ['\n'])).flatten

/-- The complete lines of a text, without the noise. -/
def filterComplete (noise : Text → Bool) (text : Text) : Text := keepLines noise (cutLines text).1

/-- A text without its noise, of which the last line may be incomplete. -/
def filterText (noise : Text → Bool) (text : Text) : Text :=
  filterComplete noise text ++ (if keepsLine noise (cutLines text).2 then (cutLines text).2 else [])

/-! ## One line -/

@[simp] theorem passed_streamWrite (s : NoiseFilterStream) (text : Text) :
    (s.streamWrite text).passed = s.passed ++ text := by
  simp [passed, streamWrite]

theorem emit_line (s : NoiseFilterStream) (line : Text) :
    (s.emit noise line true).passed = s.passed ++ keepLines noise [line] := by
  unfold emit keepLines
  rw [Bool.and_true]
  cases hempty : line.isEmpty with
  | true =>
      rw [List.isEmpty_iff.mp hempty]
      simp [keepsLine]
  | false => cases hnoise : noise line <;> simp [keepsLine, hempty, hnoise]

theorem emit_rest (s : NoiseFilterStream) {rest : Text} (h : rest.isEmpty = false) :
    (s.emit noise rest false).passed
      = s.passed ++ if keepsLine noise rest then rest else [] := by
  unfold emit keepsLine
  cases hnoise : noise rest <;> simp [h]

theorem keepLines_cons (line : Text) (lines : List Text) :
    keepLines noise (line :: lines) = keepLines noise [line] ++ keepLines noise lines := by
  simp only [keepLines, ← List.flatten_append, ← List.map_append, ← List.filter_append,
    List.singleton_append]

theorem keepLines_append (lines lines' : List Text) :
    keepLines noise (lines ++ lines') = keepLines noise lines ++ keepLines noise lines' := by
  simp [keepLines]

/-! ## The loop -/

/-- **The loop passes on the complete lines of the buffer and leaves the rest.** -/
theorem emitLines_isLines {lines : List Text} {rest : Text} {s : NoiseFilterStream}
    (h : IsLines s.buffer lines rest) :
    (emitLines noise s).passed = s.passed ++ keepLines noise lines
      ∧ (emitLines noise s).buffer = rest := by
  induction lines generalizing s with
  | nil =>
      have hbuffer : s.buffer = rest := h.eq
      rw [emitLines, if_neg (hbuffer ▸ h.rest_clear)]
      exact ⟨by simp [keepLines], hbuffer⟩
  | cons line lines ih =>
      obtain ⟨hline, hlines⟩ := List.forall_mem_cons.mp h.lines_clear
      have hbuffer : s.buffer = line ++ '\n' :: ((lines.map (· ++ ['\n'])).flatten ++ rest) := by
        rw [h.eq, List.map_cons, List.flatten_cons, List.append_assoc, List.append_assoc]
        rfl
      have hsplit : splitFirst s.buffer = (line, (lines.map (· ++ ['\n'])).flatten ++ rest) :=
        hbuffer ▸ splitFirst_append hline _
      rw [emitLines, if_pos (by simp [hbuffer]), hsplit]
      have hrest := @ih ({ s with buffer := (lines.map (· ++ ['\n'])).flatten ++ rest }.emit noise
        line true) ⟨emit_buffer _ _ _ _, hlines, h.rest_clear⟩
      refine ⟨?_, hrest.2⟩
      rw [hrest.1, emit_line, keepLines_cons line lines, ← List.append_assoc]
      rfl

/-! ## Writes -/

/-- What holds after the writes that make up a text. -/
structure Filters (noise : Text → Bool) (text : Text) (s : NoiseFilterStream) : Prop where
  passed_eq : s.passed = filterComplete noise text
  buffer_eq : s.buffer = (cutLines text).2

theorem filters_init : Filters noise [] init := ⟨rfl, rfl⟩

theorem filters_write {text : Text} {s : NoiseFilterStream} (h : Filters noise text s)
    (more : Text) : Filters noise (text ++ more) (s.write noise more).1 := by
  unfold write
  dsimp only
  split
  · rename_i hempty
    rw [List.isEmpty_iff.mp hempty, List.append_nil]
    exact h
  · have hmore := isLines_cutLines (s.buffer ++ more)
    have hall : IsLines (text ++ more) ((cutLines text).1 ++ (cutLines (s.buffer ++ more)).1)
        (cutLines (s.buffer ++ more)).2 := by
      refine (isLines_cutLines text).append ?_
      rw [← h.buffer_eq]
      exact hmore
    have hloop := @emitLines_isLines noise _ _ { s with buffer := s.buffer ++ more } hmore
    refine ⟨?_, ?_⟩
    · rw [hloop.1, filterComplete, hall.cutLines_eq, keepLines_append]
      exact congrArg (· ++ keepLines noise (cutLines (s.buffer ++ more)).1) h.passed_eq
    · rw [hloop.2, hall.cutLines_eq]

theorem filters_writelines {text : Text} {s : NoiseFilterStream} (h : Filters noise text s)
    (lines : List Text) : Filters noise (text ++ lines.flatten) (s.writelines noise lines) := by
  induction lines generalizing text s with
  | nil => rw [List.flatten_nil, List.append_nil]; exact h
  | cons line lines ih =>
      rw [List.flatten_cons, ← List.append_assoc]
      exact ih (filters_write h line)

theorem passed_flush {text : Text} {s : NoiseFilterStream} (h : Filters noise text s) :
    (s.flush noise).passed = filterText noise text := by
  unfold flush filterText
  split
  · rename_i hempty
    rw [h.passed_eq, ← h.buffer_eq, List.isEmpty_iff.mp hempty, ite_self, List.append_nil]
  · rename_i hne
    have hrest := @emit_rest noise s _ (by simpa using hne)
    rw [h.passed_eq, h.buffer_eq] at hrest
    rw [h.buffer_eq]
    exact hrest

/--
**The filter does not depend on how the text is cut.** For every noise predicate and all writes,
what has been passed on is the text they make up without its noise lines: the complete lines
before the flush, and the whole of it after.
-/
theorem passed_writelines (noise : Text → Bool) (texts : List Text) :
    (init.writelines noise texts).passed = filterComplete noise texts.flatten
      ∧ ((init.writelines noise texts).flush noise).passed = filterText noise texts.flatten := by
  have h : Filters noise texts.flatten (init.writelines noise texts) :=
    filters_writelines filters_init texts
  exact ⟨h.passed_eq, passed_flush h⟩

end NoiseFilterStream

/-- The other stream works in the same way, by its own noise. -/
theorem VLLMNoiseFilterStream.passed_writes (patterns : List NoisePattern) (texts : List Text) :
    (writelines patterns .init texts).passed
        = NoiseFilterStream.filterComplete (isVllmNoise · patterns) texts.flatten
      ∧ (flush patterns (writelines patterns .init texts)).passed
        = NoiseFilterStream.filterText (isVllmNoise · patterns) texts.flatten := by
  have h := NoiseFilterStream.filters_writelines
    (@NoiseFilterStream.filters_init (isVllmNoise · patterns)) texts
  exact ⟨h.passed_eq, NoiseFilterStream.passed_flush h⟩

/-- **Both pass on a line of white space**, whatever their patterns. -/
theorem keepsLine_blank {line : Text} (h : strip line = []) (patterns : List NoisePattern) :
    NoiseFilterStream.keepsLine (isTrtNoise · patterns) line = true
      ∧ NoiseFilterStream.keepsLine (isVllmNoise · patterns) line = true := by
  obtain ⟨htrt, hvllm⟩ := isNoise_blank h patterns
  simp [NoiseFilterStream.keepsLine, htrt, hvllm]

end YapInference
