import YapInference.Lib.Text

/-!
# `str.splitlines`

A line ends at any of ten characters, and a carriage return with a line feed after it
ends one line, not two. A text that ends in a break has no empty last line.
-/

namespace Py

/-- The characters `str.splitlines` breaks a line at. -/
def isLineBreak (c : Char) : Bool :=
  let n := c.toNat
  (10 ≤ n && n ≤ 13) || (0x1C ≤ n && n ≤ 0x1E) || n == 0x85 || n == 0x2028 || n == 0x2029

/-- `str.splitlines`. -/
def splitLines : Text → List Text
  | [] => []
  | c :: rest =>
      -- of the pair only the line feed counts
      if c = '\r' ∧ rest.head? = some '\n' then splitLines rest
      else if isLineBreak c then [] :: splitLines rest
      else
        match splitLines rest with
        | [] => [[c]]
        | line :: lines => (c :: line) :: lines

theorem splitLines_cons {c : Char} (h : isLineBreak c = false) (rest : Text) :
    splitLines (c :: rest)
      = match splitLines rest with
        | [] => [[c]]
        | line :: lines => (c :: line) :: lines := by
  have hcr : ¬(c = '\r' ∧ rest.head? = some '\n') := by
    intro h
    obtain ⟨rfl, -⟩ := h
    cases h
  rw [splitLines, if_neg hcr, h]
  rfl

theorem splitLines_newline (rest : Text) : splitLines ('\n' :: rest) = [] :: splitLines rest := by
  rw [splitLines, if_neg fun h => absurd h.1 (by decide)]
  rfl

/-- A text without breaks is one line, unless it is empty. -/
theorem splitLines_single {l : Text} (h : ∀ c ∈ l, isLineBreak c = false) (hne : l ≠ []) :
    splitLines l = [l] := by
  induction l with
  | nil => exact absurd rfl hne
  | cons c rest ih =>
      rw [splitLines_cons (h c (by simp))]
      by_cases hrest : rest = []
      · rw [hrest]
        rfl
      · rw [ih (fun d hd => h d (List.mem_cons_of_mem _ hd)) hrest]

theorem splitLines_append_newline {l : Text} (h : ∀ c ∈ l, isLineBreak c = false) (rest : Text) :
    splitLines (l ++ '\n' :: rest) = l :: splitLines rest := by
  induction l with
  | nil => exact splitLines_newline rest
  | cons c l ih =>
      rw [List.cons_append, splitLines_cons (h c (by simp)),
        ih fun d hd => h d (List.mem_cons_of_mem _ hd)]

/-- **Lines joined with line feeds are read back as they were**, if they have no break of
their own and the last one is not empty. -/
theorem splitLines_join {lines : List Text} (h : ∀ l ∈ lines, ∀ c ∈ l, isLineBreak c = false)
    (hlast : lines.getLast? ≠ some []) : splitLines (join ['\n'] lines) = lines := by
  induction lines with
  | nil => rfl
  | cons l rest ih =>
      by_cases hnil : rest = []
      · subst hnil
        rw [show join ['\n'] [l] = l by simp [join]]
        exact splitLines_single (h l (by simp)) fun hl => hlast (by simp [hl])
      · have hjoin : join ['\n'] (l :: rest) = l ++ '\n' :: join ['\n'] rest := by
          rw [join, List.intercalate_cons_of_ne_nil hnil, List.append_assoc]
          rfl
        have hlast' : rest.getLast? ≠ some [] := by
          intro heq
          exact hlast (by rw [List.getLast?_cons_of_ne_nil hnil, heq])
        rw [hjoin, splitLines_append_newline (h l (by simp)),
          ih (fun l' hl' => h l' (List.mem_cons_of_mem _ hl')) hlast']

/-! ## Lines that a line feed ends -/

/-- A text as its lines, each with its line feed, and the rest that has none. -/
structure IsLines (t : Text) (lines : List Text) (rest : Text) : Prop where
  eq : t = (lines.map (· ++ ['\n'])).flatten ++ rest
  lines_clear : ∀ l ∈ lines, '\n' ∉ l
  rest_clear : '\n' ∉ rest

/-- The lines of a text, and what comes after the last line feed. -/
def cutLines : Text → List Text × Text
  | [] => ([], [])
  | c :: t =>
      if c = '\n' then ([] :: (cutLines t).1, (cutLines t).2)
      else
        match (cutLines t).1 with
        | [] => ([], c :: (cutLines t).2)
        | l :: lines => ((c :: l) :: lines, (cutLines t).2)

theorem isLines_cutLines (t : Text) : IsLines t (cutLines t).1 (cutLines t).2 := by
  induction t with
  | nil => exact ⟨rfl, by simp [cutLines], by simp [cutLines]⟩
  | cons c t ih =>
      unfold cutLines
      split
      · rename_i hc
        subst hc
        refine ⟨?_, ?_, ih.rest_clear⟩
        · rw [List.map_cons, List.flatten_cons, List.append_assoc, ← ih.eq]
          rfl
        · exact List.forall_mem_cons.mpr ⟨by simp, ih.lines_clear⟩
      · rename_i hc
        have hclear : ∀ {l : Text}, '\n' ∉ l → '\n' ∉ c :: l := fun hl hmem =>
          (List.mem_cons.mp hmem).elim (fun h => hc h.symm) hl
        split
        · rename_i hnil
          have heq := ih.eq
          rw [hnil] at heq
          exact ⟨congrArg (c :: ·) heq, by simp, hclear ih.rest_clear⟩
        · rename_i l lines hlines
          have heq := ih.eq
          have hall := ih.lines_clear
          rw [hlines] at heq hall
          obtain ⟨hl, hrest⟩ := List.forall_mem_cons.mp hall
          refine ⟨congrArg (c :: ·) heq, ?_, ih.rest_clear⟩
          exact List.forall_mem_cons.mpr ⟨hclear hl, hrest⟩

theorem IsLines.nil {rest : Text} (h : '\n' ∉ rest) : IsLines rest [] rest := ⟨rfl, by simp, h⟩

/-- More text goes on where the rest left off. -/
theorem IsLines.append {t u : Text} {lines lines' : List Text} {rest rest' : Text}
    (h : IsLines t lines rest) (h' : IsLines (rest ++ u) lines' rest') :
    IsLines (t ++ u) (lines ++ lines') rest' where
  eq := by
    rw [h.eq, List.append_assoc, h'.eq, List.map_append, List.flatten_append, List.append_assoc]
  lines_clear := by
    intro l hl
    exact (List.mem_append.mp hl).elim (h.lines_clear l) (h'.lines_clear l)
  rest_clear := h'.rest_clear

theorem cutLines_of_clear {rest : Text} (h : '\n' ∉ rest) : cutLines rest = ([], rest) := by
  induction rest with
  | nil => rfl
  | cons c rest ih =>
      have hc : c ≠ '\n' := fun hc => h (hc ▸ List.mem_cons_self)
      rw [cutLines, if_neg hc, ih fun hm => h (List.mem_cons_of_mem _ hm)]

theorem cutLines_append_newline {l : Text} (h : '\n' ∉ l) (t : Text) :
    cutLines (l ++ '\n' :: t) = (l :: (cutLines t).1, (cutLines t).2) := by
  induction l with
  | nil => rw [List.nil_append, cutLines, if_pos rfl]
  | cons c l ih =>
      have hc : c ≠ '\n' := fun hc => h (hc ▸ List.mem_cons_self)
      rw [List.cons_append, cutLines, if_neg hc, ih fun hm => h (List.mem_cons_of_mem _ hm)]

/-- **A text has its lines in one way only.** -/
theorem IsLines.cutLines_eq {t : Text} {lines : List Text} {rest : Text}
    (h : IsLines t lines rest) : cutLines t = (lines, rest) := by
  obtain ⟨rfl, hlines, hrest⟩ := h
  induction lines with
  | nil => exact cutLines_of_clear hrest
  | cons l lines ih =>
      obtain ⟨hl, hlines⟩ := List.forall_mem_cons.mp hlines
      rw [List.map_cons, List.flatten_cons, List.append_assoc, List.append_assoc,
        List.singleton_append, cutLines_append_newline hl, ih hlines]

/-! ## Ends of a joined text -/

theorem mem_join {sep : Text} {lines : List Text} {l : Text} (hl : l ∈ lines) {c : Char}
    (hc : c ∈ l) : c ∈ join sep lines := by
  induction lines with
  | nil => exact absurd hl (by simp)
  | cons l' rest ih =>
      by_cases hnil : rest = []
      · subst hnil
        rw [List.mem_singleton.mp hl] at hc
        simpa [join] using hc
      · rw [join, List.intercalate_cons_of_ne_nil hnil]
        rcases List.mem_cons.mp hl with rfl | hl
        · simp [hc]
        · exact List.mem_append_right _ (ih hl)

/-- The first line of a clean text starts as the text does. -/
theorem first_of_clean {l : Text} {rest : List Text} (h : Clean (join ['\n'] (l :: rest))) :
    l ≠ [] ∧ ∀ c, l.head? = some c → isSpace c = false := by
  by_cases hnil : rest = []
  · subst hnil
    rw [show join ['\n'] [l] = l by simp [join]] at h
    exact ⟨h.ne, h.head⟩
  · rw [join, List.intercalate_cons_of_ne_nil hnil] at h
    have hne : l ≠ [] := by
      intro heq
      obtain rfl := heq
      exact absurd (h.head '\n' rfl) (by decide)
    refine ⟨hne, fun c hc => h.head c ?_⟩
    rw [List.append_assoc, List.head?_append_of_ne_nil _ hne, hc]

/-- The last line of a clean text is not empty. -/
theorem last_of_clean {lines : List Text} (h : Clean (join ['\n'] lines)) :
    lines.getLast? ≠ some [] := by
  intro hlast
  obtain ⟨init, rfl⟩ := List.getLast?_eq_some_iff.mp hlast
  by_cases hnil : init = []
  · subst hnil
    exact h.ne rfl
  · rw [join_append hnil (by simp)] at h
    have hspace := h.last '\n' (by simp [join])
    exact absurd hspace (by decide)

/-- A line feed after a clean text is stripped. -/
theorem strip_append_newline {t : Text} (h : Clean t) : strip (t ++ ['\n']) = t := by
  have hl : lstrip (t ++ ['\n']) = t ++ ['\n'] := by
    refine lstrip_of_head fun c hc => h.head c ?_
    rwa [List.head?_append_of_ne_nil _ h.ne] at hc
  rw [strip, hl, rstrip, List.rdropWhile_concat_pos _ _ _ (by decide)]
  exact h.rstrip_eq

end Py
