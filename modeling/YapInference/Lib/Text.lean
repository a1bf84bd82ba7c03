import Mathlib.Data.List.DropRight
import Mathlib.Data.List.Infix

/-!
# Python strings as lists of code points

A `str` is a list of characters, so slicing is `take`/`drop`, `startswith` is the
prefix order and `+` is append. What needs a definition is whitespace: `str.strip`
and the regular-expression class `\s` agree on one finite set of code points.

The rest of the file is the algebra of stripping. A text is *clean* when it is
non-blank and stripped already; clean texts are closed under joining with any
separator, which is the fact every merge rule for stored messages rests on.
-/

namespace Py

/-- A Python `str`: its code points in order. -/
abbrev Text := List Char

/-- `str.isspace` of one character, which is also the class `\s` of `re`. -/
def isSpace (c : Char) : Bool :=
  let n := c.toNat
  (9 ≤ n && n ≤ 13) || (28 ≤ n && n ≤ 32) || n == 0x85 || n == 0xA0 || n == 0x1680
    || (0x2000 ≤ n && n ≤ 0x200A) || n == 0x2028 || n == 0x2029 || n == 0x202F
    || n == 0x205F || n == 0x3000

/-- `str.lstrip`. -/
def lstrip (t : Text) : Text := t.dropWhile isSpace

/-- `str.rstrip`. -/
def rstrip (t : Text) : Text := t.rdropWhile isSpace

/-- `str.strip`. -/
def strip (t : Text) : Text := rstrip (lstrip t)

/-- `str.startswith`. -/
def startsWith (t p : Text) : Bool := p.isPrefixOf t

/-- `sep.join(parts)`. -/
def join (sep : Text) (parts : List Text) : Text := sep.intercalate parts

/-- `str.split()`: the maximal runs of non-space characters. -/
def splitWords (t : Text) : List Text :=
  (t.splitOnP isSpace).filter (fun w => !w.isEmpty)

/-- Non-blank and stripped. -/
structure Clean (t : Text) : Prop where
  /-- There is something in it. -/
  ne : t ≠ []
  /-- The first character is not a space. -/
  head : ∀ c, t.head? = some c → isSpace c = false
  /-- Neither is the last one. -/
  last : ∀ c, t.getLast? = some c → isSpace c = false

/-! ## Stripping -/

@[simp] theorem lstrip_nil : lstrip [] = [] := rfl

@[simp] theorem rstrip_nil : rstrip [] = [] := rfl

@[simp] theorem strip_nil : strip [] = [] := rfl

theorem head_lstrip {t : Text} {c : Char} (h : (lstrip t).head? = some c) :
    isSpace c = false := by
  have hd := List.head?_dropWhile_not isSpace t
  rw [lstrip] at h
  rw [h] at hd
  simpa using hd

theorem last_rstrip {t : Text} {c : Char} (h : (rstrip t).getLast? = some c) :
    isSpace c = false := by
  rw [rstrip, List.rdropWhile, List.getLast?_reverse] at h
  have hd := List.head?_dropWhile_not isSpace t.reverse
  rw [h] at hd
  simpa using hd

theorem lstrip_of_head {t : Text} (h : ∀ c, t.head? = some c → isSpace c = false) :
    lstrip t = t := by
  cases t with
  | nil => rfl
  | cons c t => simp [lstrip, h c rfl]

theorem rstrip_of_last {t : Text} (h : ∀ c, t.getLast? = some c → isSpace c = false) :
    rstrip t = t := by
  rw [rstrip, List.rdropWhile_eq_self_iff]
  intro hne
  simp [h (t.getLast hne) (List.getLast?_eq_some_getLast hne)]

theorem rstrip_isPrefix (t : Text) : rstrip t <+: t := List.rdropWhile_prefix isSpace t

theorem rstrip_cons (c : Char) (t : Text) :
    rstrip (c :: t)
      = if rstrip t = [] then (if isSpace c then [] else [c]) else c :: rstrip t := by
  simp only [rstrip, List.rdropWhile, List.reverse_cons, List.dropWhile_append, List.isEmpty_iff,
    List.reverse_eq_nil_iff]
  split
  · cases hc : isSpace c <;> simp [hc]
  · simp

/-- Cutting at the front commutes with stripping at the end. -/
theorem rstrip_drop (t : Text) (n : Nat) : rstrip (t.drop n) = (rstrip t).drop n := by
  induction n generalizing t with
  | zero => rfl
  | succ n ih =>
      cases t with
      | nil => rfl
      | cons c t =>
          rw [List.drop_succ_cons, ih, rstrip_cons]
          split
          · rename_i hnil
            split <;> simp [hnil]
          · rw [List.drop_succ_cons]

theorem lstrip_suffix (t : Text) : lstrip t <:+ t := List.dropWhile_suffix isSpace

theorem head_of_prefix {s t : Text} (h : s <+: t) (hne : s ≠ []) : s.head? = t.head? := by
  obtain ⟨r, rfl⟩ := h
  cases s with
  | nil => exact absurd rfl hne
  | cons c s => rfl

theorem clean_iff {t : Text} :
    Clean t ↔ t ≠ [] ∧ t.head?.all (!isSpace ·) = true ∧ t.getLast?.all (!isSpace ·) = true := by
  simp only [Option.all_eq_true, Bool.not_eq_true']
  exact ⟨fun h => ⟨h.ne, h.head, h.last⟩, fun h => ⟨h.1, h.2.1, h.2.2⟩⟩

instance (t : Text) : Decidable (Clean t) := decidable_of_iff _ clean_iff.symm

/-- What `strip` leaves is clean unless it is empty. -/
theorem clean_strip {t : Text} (h : strip t ≠ []) : Clean (strip t) where
  ne := h
  head := by
    intro c hc
    rw [strip, head_of_prefix (rstrip_isPrefix _) h] at hc
    exact head_lstrip hc
  last := fun c hc => last_rstrip hc

theorem Clean.lstrip_eq {t : Text} (h : Clean t) : lstrip t = t := lstrip_of_head h.head

theorem Clean.rstrip_eq {t : Text} (h : Clean t) : rstrip t = t := rstrip_of_last h.last

theorem Clean.strip_eq {t : Text} (h : Clean t) : strip t = t := by
  rw [strip, h.lstrip_eq, h.rstrip_eq]

/-- Stripping twice is stripping once. -/
@[simp] theorem strip_strip (t : Text) : strip (strip t) = strip t := by
  by_cases h : strip t = []
  · rw [h]; rfl
  · exact (clean_strip h).strip_eq

/-- Two clean texts stay clean however they are joined. -/
theorem Clean.append {a b : Text} (ha : Clean a) (hb : Clean b) (sep : Text) :
    Clean (a ++ sep ++ b) where
  ne := by simp [ha.ne]
  head := by
    intro c hc
    rw [List.append_assoc, List.head?_append_of_ne_nil _ ha.ne] at hc
    exact ha.head c hc
  last := by
    intro c hc
    rw [List.getLast?_append_of_ne_nil _ hb.ne] at hc
    exact hb.last c hc

/-- Clean texts joined with any separator are clean. -/
theorem Clean.join {sep : Text} {parts : List Text} (h : ∀ t ∈ parts, Clean t) (hne : parts ≠ []) :
    Clean (Py.join sep parts) := by
  induction parts with
  | nil => exact absurd rfl hne
  | cons t rest ih =>
      have ht := h t (by simp)
      have hrest : ∀ u ∈ rest, Clean u := fun u hu => h u (List.mem_cons_of_mem _ hu)
      by_cases hnil : rest = []
      · simpa [Py.join, hnil] using ht
      · rw [Py.join, List.intercalate_cons_of_ne_nil hnil]
        exact ht.append (ih hrest hnil) sep

/-! ## Joining -/

theorem join_append {sep : Text} {a b : List Text} (ha : a ≠ []) (hb : b ≠ []) :
    join sep (a ++ b) = join sep a ++ sep ++ join sep b := by
  induction a with
  | nil => exact absurd rfl ha
  | cons t rest ih =>
      by_cases hnil : rest = []
      · simp [join, hnil, List.intercalate_cons_of_ne_nil hb]
      · have hrest : rest ++ b ≠ [] := by simp [hnil]
        have hih := ih hnil
        unfold join at hih ⊢
        rw [List.cons_append, List.intercalate_cons_of_ne_nil hrest, hih,
          List.intercalate_cons_of_ne_nil hnil]
        simp only [List.append_assoc]

/-- Two parts may be joined beforehand. -/
theorem join_merge (sep : Text) (l : List Text) (a b : Text) :
    join sep (l ++ [a ++ sep ++ b]) = join sep (l ++ [a, b]) := by
  by_cases hl : l = []
  · simp [hl, join]
  · rw [join_append hl (by simp), join_append hl (by simp)]
    simp [join]

/-- What is joined so far is all that matters for what is added. -/
theorem join_append_congr {sep : Text} {a b : List Text} (h : join sep a = join sep b)
    (hnil : a = [] ↔ b = []) (c : List Text) : join sep (a ++ c) = join sep (b ++ c) := by
  by_cases ha : a = []
  · rw [ha, hnil.mp ha]
  by_cases hc : c = []
  · simpa [hc] using h
  have hb : b ≠ [] := fun hb => ha (hnil.mpr hb)
  rw [join_append ha hc, join_append hb hc, h]

/-! ## Words -/

theorem not_mem_of_mem_splitOnP {α : Type} {p : α → Bool} {l w : List α} (hw : w ∈ l.splitOnP p)
    {x : α} (hx : x ∈ w) : p x = false := by
  induction l generalizing w with
  | nil =>
      rw [List.splitOnP_nil, List.mem_singleton] at hw
      simp [hw] at hx
  | cons a l ih =>
      rw [List.splitOnP_cons_eq_if_modifyHead] at hw
      split at hw
      · rcases List.mem_cons.mp hw with rfl | hw
        · simp at hx
        · exact ih hw hx
      · rename_i ha
        -- only the first piece has grown, and by a character that is not a space
        cases hpieces : l.splitOnP p with
        | nil => exact absurd hpieces (List.splitOnP_ne_nil p l)
        | cons piece pieces =>
            rw [hpieces, List.modifyHead_cons] at hw
            rcases List.mem_cons.mp hw with rfl | hw
            · rcases List.mem_cons.mp hx with rfl | hx
              · simpa using ha
              · exact ih (w := piece) (by simp [hpieces]) hx
            · exact ih (w := w) (by simp [hpieces, hw]) hx

/-- A word is clean. -/
theorem clean_of_mem_splitWords {t w : Text} (h : w ∈ splitWords t) : Clean w := by
  obtain ⟨hw, hne⟩ := List.mem_filter.mp h
  exact {
    ne := by simpa using hne
    head := fun c hc => not_mem_of_mem_splitOnP hw (List.mem_of_mem_head? hc)
    last := fun c hc => not_mem_of_mem_splitOnP hw (List.mem_of_getLast? hc) }

/-- A text that starts with something other than white space has a word. -/
theorem splitWords_ne_nil {t : Text} (h : Clean t) : splitWords t ≠ [] := by
  rcases t with _ | ⟨c, rest⟩
  · exact absurd rfl h.ne
  · have hc : ¬ isSpace c = true := by
      rw [h.head c rfl]
      simp
    rcases hpieces : rest.splitOnP isSpace with _ | ⟨piece, pieces⟩
    · exact absurd hpieces (List.splitOnP_ne_nil _ _)
    · rw [splitWords, List.splitOnP_cons_eq_if_modifyHead, if_neg hc, hpieces,
        List.modifyHead_cons, List.filter_cons, if_pos (by simp)]
      exact List.cons_ne_nil _ _

theorem isSpace_of_mem_word {t w : Text} (h : w ∈ splitWords t) {c : Char} (hc : c ∈ w) :
    isSpace c = false :=
  not_mem_of_mem_splitOnP (List.mem_filter.mp h).1 hc

/-- Words joined with single spaces are read back as they were. -/
theorem splitWords_join {words : List Text}
    (h : ∀ w ∈ words, w ≠ [] ∧ ∀ c ∈ w, isSpace c = false) :
    splitWords (join [' '] words) = words := by
  induction words with
  | nil => simp [splitWords, join]
  | cons w rest ih =>
      have hw := h w (by simp)
      have hrest := ih fun v hv => h v (List.mem_cons_of_mem _ hv)
      have hkept : (!w.isEmpty) = true := by simpa using hw.1
      by_cases hnil : rest = []
      · simp [splitWords, join, hnil, List.splitOnP_eq_singleton hw.2, hw.1]
      · have hjoin : join [' '] (w :: rest) = w ++ ' ' :: join [' '] rest := by
          rw [join, List.intercalate_cons_of_ne_nil hnil, List.append_assoc]
          rfl
        rw [splitWords] at hrest ⊢
        rw [hjoin, List.splitOnP_append_cons_of_forall_mem hw.2 _ (by decide),
          List.filter_cons, if_pos hkept, hrest]

end Py
