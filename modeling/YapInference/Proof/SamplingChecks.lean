import YapInference.Messages.Sampling

/-!
# What the sampling overrides are checked for

Every field that is given is of its type and in its range, or the message is refused. One thing
escapes: an integer that no float can hold. It raises `OverflowError` where the field is a float,
and no such field is checked before the ones above it in the table have passed.
-/

namespace YapInference

open Py

variable {parsing : NumberParsing} {block msg : Dict Text Json} {spec : SamplingFieldSpec}

/-- A field is given a value: by the block, or by the top level where the block has none. -/
def Supplies (block msg : Dict Text Json) (name : Text) (raw : Json) : Prop :=
  Json.get? block name = some raw ∨ (Json.get? block name = none ∧ Json.get? msg name = some raw)

/-- A value of the field's type that lies within its bounds. -/
def SamplingFieldSpec.Allows (spec : SamplingFieldSpec) : SamplingValue → Prop
  | .float x => spec.isInt = false ∧ ∃ q, x = .finite q ∧ spec.minimum ≤ q ∧ q ≤ spec.maximum
  | .int n => spec.isInt = true ∧ spec.minimum ≤ n ∧ (n : ℚ) ≤ spec.maximum
  | .bool _ => False

/-- What is given to the field, if anything is, passes its check. -/
def SamplingFieldSpec.Accepts (parsing : NumberParsing) (block msg : Dict Text Json)
    (spec : SamplingFieldSpec) : Prop :=
  ∀ raw, Supplies block msg spec.name raw →
    ∃ value, coerceSamplingValue parsing raw spec.isInt = .ok value ∧ spec.inRange value = true

/-- The field is a float and is given an integer that rounds to `2 ^ 1024` or beyond. -/
def SamplingFieldSpec.TooLarge (block msg : Dict Text Json) (spec : SamplingFieldSpec) : Prop :=
  spec.isInt = false
    ∧ ∃ n : Int, Supplies block msg spec.name (.int n) ∧ 2 ^ 1024 - 2 ^ 970 ≤ n.natAbs

/-- The overrides say what the message says. -/
structure Checked (parsing : NumberParsing) (block msg : Dict Text Json)
    (overrides : SamplingOverrides) : Prop where
  /-- A numeric field is there when it is given a value, -/
  present : ∀ spec ∈ samplingFields, (overrides.get? spec.field).isSome = true
    ↔ ∃ raw, Supplies block msg spec.name raw
  /-- the value is the one it is given, -/
  given : ∀ spec ∈ samplingFields, ∀ value raw, overrides.get? spec.field = some value →
    Supplies block msg spec.name raw → coerceSamplingValue parsing raw spec.isInt = .ok value
  /-- and one that is allowed. -/
  allowed : ∀ spec ∈ samplingFields, ∀ value, overrides.get? spec.field = some value →
    spec.Allows value
  /-- So is the flag, -/
  sanitizePresent : (overrides.get? .sanitizeOutput).isSome = true
    ↔ ∃ raw, Supplies block msg "sanitize_output".toList raw
  /-- which is a boolean. -/
  sanitizeGiven : ∀ value, overrides.get? .sanitizeOutput = some value →
    ∃ b, value = .bool b ∧ Supplies block msg "sanitize_output".toList (.bool b)

/-! ## One field -/

theorem samplingRawValue_eq_some {name : Text} {raw : Json} :
    samplingRawValue block msg name = some raw ↔ Supplies block msg name raw := by
  unfold samplingRawValue Supplies
  split
  · rename_i value hvalue
    simp [hvalue]
  · rename_i hnone
    simp [hnone]

theorem samplingRawValue_eq_none {name : Text} :
    samplingRawValue block msg name = none ↔ ∀ raw, ¬ Supplies block msg name raw := by
  simp only [← samplingRawValue_eq_some, ← Option.eq_none_iff_forall_ne_some]

/-- A field is given one value. -/
theorem Supplies.unique {name : Text} {raw raw' : Json} (h : Supplies block msg name raw)
    (h' : Supplies block msg name raw') : raw = raw' :=
  Option.some.inj ((samplingRawValue_eq_some.mpr h).symm.trans (samplingRawValue_eq_some.mpr h'))

/-- The check on the range also leaves out what no range holds. -/
theorem allows_of_inRange {raw : Json} {value : SamplingValue}
    (h : coerceSamplingValue parsing raw spec.isInt = .ok value) (hr : spec.inRange value = true) :
    spec.Allows value := by
  unfold coerceSamplingValue at h
  split at h
  · rename_i hint
    cases hn : coerceInt parsing raw with
    | error e => rw [hn] at h; cases h
    | ok n =>
        rw [hn] at h
        cases h
        exact ⟨hint, by simpa [SamplingFieldSpec.inRange] using hr⟩
  · rename_i hint
    cases hx : coerceFloat parsing raw with
    | error e => rw [hx] at h; cases h
    | ok x =>
        rw [hx] at h
        cases h
        refine ⟨by simpa using hint, ?_⟩
        cases x with
        | finite q => exact ⟨q, rfl, by simpa [SamplingFieldSpec.inRange, PyFloat.le] using hr⟩
        | inf negative => cases negative <;> simp [SamplingFieldSpec.inRange, PyFloat.le] at hr
        | nan => simp [SamplingFieldSpec.inRange, PyFloat.le] at hr

/-- One of the two errors the check catches. -/
def IsCaught (e : Exc) : Prop := (∃ message, e = .typeError message) ∨ ∃ message, e = .valueError message

theorem coerceInt_error {raw : Json} {e : Exc} (h : coerceInt parsing raw = .error e) :
    IsCaught e := by
  unfold coerceInt at h
  split at h
  · cases h; exact .inl ⟨_, rfl⟩
  · cases h
  · split at h
    · cases h; exact .inr ⟨_, rfl⟩
    · split at h
      · cases h
      · cases h; exact .inr ⟨_, rfl⟩
  · dsimp only at h
    split at h
    · cases h; exact .inr ⟨_, rfl⟩
    · split at h
      · cases h
      · cases h; exact .inr ⟨_, rfl⟩
  · cases h; exact .inl ⟨_, rfl⟩

theorem coerceFloat_error {raw : Json} {e : Exc} (h : coerceFloat parsing raw = .error e) :
    IsCaught e ∨ (e = .overflowError
      ∧ ∃ n : Int, raw = .int n ∧ 2 ^ 1024 - 2 ^ 970 ≤ n.natAbs) := by
  unfold coerceFloat at h
  split at h
  · cases h; exact .inl (.inl ⟨_, rfl⟩)
  · rename_i n
    split at h
    · cases h
    · rename_i hn
      cases h; exact .inr ⟨rfl, n, rfl, (PyFloat.ofInt_eq_none_iff n).mp hn⟩
  · cases h
  · dsimp only at h
    split at h
    · cases h; exact .inl (.inr ⟨_, rfl⟩)
    · split at h
      · cases h
      · cases h; exact .inl (.inr ⟨_, rfl⟩)
  · cases h; exact .inl (.inl ⟨_, rfl⟩)

/-- **How a coercion fails**: with one of the two errors the check catches, or on an integer that
is too large for a float. -/
theorem coerceSamplingValue_error {raw : Json} {isInt : Bool} {e : Exc}
    (h : coerceSamplingValue parsing raw isInt = .error e) :
    IsCaught e ∨ (e = .overflowError ∧ isInt = false
      ∧ ∃ n : Int, raw = .int n ∧ 2 ^ 1024 - 2 ^ 970 ≤ n.natAbs) := by
  unfold coerceSamplingValue at h
  split at h
  · cases hn : coerceInt parsing raw with
    | error e' => rw [hn] at h; cases h; exact .inl (coerceInt_error hn)
    | ok n => rw [hn] at h; cases h
  · rename_i hint
    cases hx : coerceFloat parsing raw with
    | error e' =>
        rw [hx] at h
        cases h
        exact (coerceFloat_error hx).imp_right fun hover => ⟨hover.1, by simpa using hint, hover.2⟩
    | ok x => rw [hx] at h; cases h

theorem coerceSamplingValue_tooLarge {n : Int} (h : 2 ^ 1024 - 2 ^ 970 ≤ n.natAbs) :
    coerceSamplingValue parsing (.int n) false = .error .overflowError := by
  have hnone := (PyFloat.ofInt_eq_none_iff n).mpr h
  unfold coerceSamplingValue coerceFloat
  rw [if_neg (by decide)]
  dsimp only
  rw [hnone]
  rfl

/-- **What the check of a field comes to**: the field passes, or it is refused with a
`ValidationError`, or the error of a number that is too large escapes. -/
theorem extractSamplingField_cases (parsing : NumberParsing) (block msg : Dict Text Json)
    (spec : SamplingFieldSpec) :
    (spec.Accepts parsing block msg ∧ ∃ value, extractSamplingField parsing block msg spec = .ok value)
      ∨ (¬ spec.Accepts parsing block msg ∧ ¬ spec.TooLarge block msg ∧ ∃ errorCode message,
        extractSamplingField parsing block msg spec = .error (.validationError errorCode message))
      ∨ (spec.TooLarge block msg
        ∧ extractSamplingField parsing block msg spec = .error .overflowError) := by
  cases hraw : samplingRawValue block msg spec.name with
  | none =>
      have hnone := samplingRawValue_eq_none.mp hraw
      refine .inl ⟨fun raw h => absurd h (hnone raw), none, ?_⟩
      rw [extractSamplingField, hraw]
  | some raw =>
      have hsupplies := samplingRawValue_eq_some.mp hraw
      have haccepts : spec.Accepts parsing block msg ↔ ∃ value,
          coerceSamplingValue parsing raw spec.isInt = .ok value ∧ spec.inRange value = true :=
        ⟨fun h => h raw hsupplies, fun h raw' h' => hsupplies.unique h' ▸ h⟩
      have htooLarge : spec.TooLarge block msg →
          coerceSamplingValue parsing raw spec.isInt = .error .overflowError := by
        intro ⟨hfloat, n, hn, hlarge⟩
        rw [hsupplies.unique hn, hfloat]
        exact coerceSamplingValue_tooLarge hlarge
      cases hcoerce : coerceSamplingValue parsing raw spec.isInt with
      | ok value =>
          cases hrange : spec.inRange value with
          | true =>
              refine .inl ⟨haccepts.mpr ⟨value, hcoerce, hrange⟩, some value, ?_⟩
              simp [extractSamplingField, hraw, hcoerce, hrange]
          | false =>
              refine .inr (.inl ⟨fun h => ?_, fun h => ?_, ?_⟩)
              · obtain ⟨value', hcoerce', hrange'⟩ := haccepts.mp h
                obtain rfl : value = value' := Except.ok.inj (hcoerce.symm.trans hcoerce')
                exact absurd (hrange.symm.trans hrange') (by simp)
              · exact absurd (hcoerce.symm.trans (htooLarge h)) (by simp)
              · simp [extractSamplingField, hraw, hcoerce, hrange]
      | error e =>
          have hrefused : ¬ spec.Accepts parsing block msg := by
            intro h
            obtain ⟨value, hvalue, -⟩ := haccepts.mp h
            exact absurd (hcoerce.symm.trans hvalue) (by simp)
          rcases coerceSamplingValue_error hcoerce with hcaught | ⟨rfl, hfloat, n, rfl, hlarge⟩
          · refine .inr (.inl ⟨hrefused, fun h => ?_, ?_⟩)
            · have he : e = .overflowError := Except.error.inj (hcoerce.symm.trans (htooLarge h))
              rcases hcaught with ⟨message, rfl⟩ | ⟨message, rfl⟩ <;> exact absurd he (by simp)
            · rcases hcaught with ⟨message, rfl⟩ | ⟨message, rfl⟩ <;>
                simp [extractSamplingField, hraw, hcoerce]
          · refine .inr (.inr ⟨⟨hfloat, n, hsupplies, hlarge⟩, ?_⟩)
            simp [extractSamplingField, hraw, hcoerce]

/-- A value that passes is the one that is given, and is allowed. -/
theorem extractSamplingField_ok {value : Option SamplingValue}
    (h : extractSamplingField parsing block msg spec = .ok value) :
    (value.isSome = true ↔ ∃ raw, Supplies block msg spec.name raw)
      ∧ ∀ v, value = some v → spec.Allows v
        ∧ ∀ raw, Supplies block msg spec.name raw →
          coerceSamplingValue parsing raw spec.isInt = .ok v := by
  unfold extractSamplingField at h
  split at h
  · rename_i hnone
    cases h
    have hraw := samplingRawValue_eq_none.mp hnone
    exact ⟨⟨fun h => absurd h (by simp), fun ⟨raw, h⟩ => absurd h (hraw raw)⟩,
      fun v hv => absurd hv (by simp)⟩
  · rename_i raw hraw
    have hsupplies := samplingRawValue_eq_some.mp hraw
    split at h
    · cases h
    · cases h
    · cases h
    · rename_i normalized hcoerce
      split at h
      · rename_i hrange
        cases h
        refine ⟨⟨fun _ => ⟨raw, hsupplies⟩, fun _ => rfl⟩, fun v hv => ?_⟩
        obtain rfl : normalized = v := Option.some.inj hv
        exact ⟨allows_of_inRange hcoerce hrange, fun raw' h' => hsupplies.unique h' ▸ hcoerce⟩
      · cases h

/-! ## All fields -/

/-- The check of the fields comes to one that is given an integer too large for a float. -/
def Overflows (parsing : NumberParsing) (block msg : Dict Text Json)
    (specs : List SamplingFieldSpec) : Prop :=
  ∃ front spec back, specs = front ++ spec :: back
    ∧ (∀ s ∈ front, s.Accepts parsing block msg) ∧ spec.TooLarge block msg

theorem SamplingFieldSpec.TooLarge.not_accepts (h : spec.TooLarge block msg) :
    ¬ spec.Accepts parsing block msg := by
  intro ha
  obtain ⟨hfloat, n, hn, hlarge⟩ := h
  obtain ⟨value, hvalue, -⟩ := ha _ hn
  rw [hfloat] at hvalue
  exact absurd ((coerceSamplingValue_tooLarge hlarge).symm.trans hvalue) (by simp)

theorem overflows_cons {specs : List SamplingFieldSpec} :
    Overflows parsing block msg (spec :: specs)
      ↔ spec.TooLarge block msg
        ∨ (spec.Accepts parsing block msg ∧ Overflows parsing block msg specs) := by
  constructor
  · intro ⟨front, s, back, heq, hfront, hlarge⟩
    cases front with
    | nil =>
        obtain ⟨rfl, rfl⟩ := List.cons.inj heq
        exact .inl hlarge
    | cons f front =>
        obtain ⟨rfl, rfl⟩ := List.cons.inj heq
        exact .inr ⟨hfront spec (by simp),
          front, s, back, rfl, fun s hs => hfront s (List.mem_cons_of_mem _ hs), hlarge⟩
  · intro h
    rcases h with hlarge | ⟨haccepts, front, s, back, rfl, hfront, hlarge⟩
    · exact ⟨[], spec, specs, rfl, fun s hs => absurd hs (by simp), hlarge⟩
    · exact ⟨spec :: front, s, back, rfl, List.forall_mem_cons.mpr ⟨haccepts, hfront⟩, hlarge⟩

/-- The loop fails with the error that escapes exactly when the check comes to such a field, and
with a `ValidationError` otherwise. -/
theorem extractSamplingFields_error {specs : List SamplingFieldSpec} {start : SamplingOverrides}
    {e : Exc} (h : extractSamplingFields parsing block msg specs start = .error e) :
    (¬ Overflows parsing block msg specs ∧ ∃ errorCode message, e = .validationError errorCode message)
      ∨ (Overflows parsing block msg specs ∧ e = .overflowError) := by
  induction specs generalizing start with
  | nil => cases h
  | cons spec specs ih =>
      rw [overflows_cons]
      unfold extractSamplingFields at h
      rcases extractSamplingField_cases parsing block msg spec with
        ⟨haccepts, value, hvalue⟩ | ⟨hrefused, hfits, errorCode, message, herror⟩ | ⟨hlarge, herror⟩
      · have hfits : ¬ spec.TooLarge block msg := fun hlarge => hlarge.not_accepts haccepts
        simp only [hfits, haccepts, false_or, true_and]
        rw [hvalue] at h
        cases value with
        | none => exact ih h
        | some value => exact ih h
      · rw [herror] at h
        cases h
        exact .inl ⟨fun hover => hover.elim hfits fun hover => hrefused hover.1, _, _, rfl⟩
      · rw [herror] at h
        cases h
        exact .inr ⟨.inl hlarge, rfl⟩

theorem not_overflows_of_ok {specs : List SamplingFieldSpec} {start overrides : SamplingOverrides}
    (h : extractSamplingFields parsing block msg specs start = .ok overrides) :
    ¬ Overflows parsing block msg specs := by
  induction specs generalizing start with
  | nil => exact fun ⟨front, s, back, heq, _⟩ => absurd heq (by simp)
  | cons spec specs ih =>
      rw [overflows_cons]
      unfold extractSamplingFields at h
      rcases extractSamplingField_cases parsing block msg spec with
        ⟨haccepts, value, hvalue⟩ | ⟨-, -, errorCode, message, herror⟩ | ⟨hlarge, herror⟩
      · have hfits : ¬ spec.TooLarge block msg := fun hlarge => hlarge.not_accepts haccepts
        rw [hvalue] at h
        have hrest : ¬ Overflows parsing block msg specs := by
          cases value with
          | none => exact ih h
          | some value => exact ih h
        exact fun hover => hover.elim hfits fun hover => hrest hover.2
      · rw [herror] at h; cases h
      · rw [herror] at h; cases h

/-- A field the loop does not come to keeps its value, -/
theorem extractSamplingFields_other {specs : List SamplingFieldSpec}
    {start overrides : SamplingOverrides} {field : SamplingField}
    (h : extractSamplingFields parsing block msg specs start = .ok overrides)
    (hfield : ∀ spec ∈ specs, spec.field ≠ field) : overrides.get? field = start.get? field := by
  induction specs generalizing start with
  | nil => cases h; rfl
  | cons spec specs ih =>
      have hrest : ∀ s ∈ specs, s.field ≠ field := fun s hs => hfield s (List.mem_cons_of_mem _ hs)
      unfold extractSamplingFields at h
      split at h
      · cases h
      · exact ih h hrest
      · rw [ih h hrest, Dict.get?_set_ne _ _ (hfield spec (by simp))]

/-- and one it comes to has what its check returned. -/
theorem extractSamplingFields_get? {specs : List SamplingFieldSpec}
    {start overrides : SamplingOverrides}
    (h : extractSamplingFields parsing block msg specs start = .ok overrides)
    (hdistinct : (specs.map SamplingFieldSpec.field).Nodup)
    (hstart : ∀ spec ∈ specs, start.get? spec.field = none) :
    ∀ spec ∈ specs,
      extractSamplingField parsing block msg spec = .ok (overrides.get? spec.field) := by
  induction specs generalizing start with
  | nil => exact fun spec hspec => absurd hspec (by simp)
  | cons spec specs ih =>
      obtain ⟨hfresh, hdistinct⟩ := List.nodup_cons.mp hdistinct
      have hne : ∀ s ∈ specs, s.field ≠ spec.field := fun s hs heq =>
        hfresh (heq ▸ List.mem_map_of_mem hs)
      have hrest : ∀ s ∈ specs, start.get? s.field = none := fun s hs =>
        hstart s (List.mem_cons_of_mem _ hs)
      unfold extractSamplingFields at h
      split at h
      · cases h
      · rename_i hnone
        refine List.forall_mem_cons.mpr ⟨?_, ih h hdistinct hrest⟩
        rw [hnone, extractSamplingFields_other h hne, hstart spec (by simp)]
      · rename_i value hvalue
        refine List.forall_mem_cons.mpr ⟨?_, ih h hdistinct fun s hs => ?_⟩
        · rw [hvalue, extractSamplingFields_other h hne, Dict.get?_set_self]
        · rw [Dict.get?_set_ne _ _ (hne s hs).symm, hrest s hs]

/-! ## The overrides -/

theorem samplingFields_nodup : (samplingFields.map SamplingFieldSpec.field).Nodup := by decide

theorem samplingFields_ne_sanitizeOutput :
    ∀ spec ∈ samplingFields, spec.field ≠ .sanitizeOutput := by
  have hall : (samplingFields.map SamplingFieldSpec.field).all (· != .sanitizeOutput) = true := rfl
  intro spec hspec
  simpa using List.all_eq_true.mp hall _ (List.mem_map_of_mem hspec)

/-- The overrides of a message are refused with a `ValidationError`, or they are what the message
says. -/
def Answers (parsing : NumberParsing) (msg : Dict Text Json) : Prop :=
  (∃ errorCode message,
      extractSamplingOverrides parsing msg true = .error (.validationError errorCode message))
    ∨ ∃ block overrides, samplingBlock msg = .ok block
      ∧ extractSamplingOverrides parsing msg true = .ok overrides
      ∧ Checked parsing block msg overrides

theorem samplingBlock_error {e : Exc} (h : samplingBlock msg = .error e) :
    ∃ errorCode message, e = .validationError errorCode message := by
  unfold samplingBlock at h
  dsimp only at h
  split at h
  · cases h
  · cases h
  · cases h; exact ⟨_, _, rfl⟩

/-- The numeric fields of overrides that come out of the loop, with or without the flag. -/
theorem checked_of_fields {fields overrides : SamplingOverrides}
    (h : extractSamplingFields parsing block msg samplingFields [] = .ok fields)
    (hsame : ∀ spec ∈ samplingFields, overrides.get? spec.field = fields.get? spec.field)
    (hpresent : (overrides.get? .sanitizeOutput).isSome = true
      ↔ ∃ raw, Supplies block msg "sanitize_output".toList raw)
    (hgiven : ∀ value, overrides.get? .sanitizeOutput = some value →
      ∃ b, value = .bool b ∧ Supplies block msg "sanitize_output".toList (.bool b)) :
    Checked parsing block msg overrides := by
  have hfield : ∀ spec ∈ samplingFields,
      extractSamplingField parsing block msg spec = .ok (overrides.get? spec.field) := by
    intro spec hspec
    rw [hsame spec hspec]
    exact extractSamplingFields_get? h samplingFields_nodup (fun _ _ => rfl) spec hspec
  exact {
    present := fun spec hspec => (extractSamplingField_ok (hfield spec hspec)).1
    given := fun spec hspec value raw hvalue =>
      ((extractSamplingField_ok (hfield spec hspec)).2 value hvalue).2 raw
    allowed := fun spec hspec value hvalue =>
      ((extractSamplingField_ok (hfield spec hspec)).2 value hvalue).1
    sanitizePresent := hpresent
    sanitizeGiven := hgiven }

/-- What comes after the loop. -/
theorem answers_of_fields {fields : SamplingOverrides} (hblock : samplingBlock msg = .ok block)
    (h : extractSamplingFields parsing block msg samplingFields [] = .ok fields) :
    Answers parsing msg := by
  have hflag : fields.get? .sanitizeOutput = none :=
    extractSamplingFields_other h samplingFields_ne_sanitizeOutput
  obtain ⟨result, hresult⟩ : ∃ result, extractSamplingOverrides parsing msg true = result := ⟨_, rfl⟩
  have hcases := hresult
  unfold extractSamplingOverrides at hcases
  simp only [hblock, h, Bool.not_true, Bool.false_eq_true, if_false] at hcases
  split at hcases
  · rename_i hraw
    obtain rfl : .ok fields = result := hcases
    have hnone := samplingRawValue_eq_none.mp hraw
    refine .inr ⟨block, fields, hblock, hresult, checked_of_fields h (fun _ _ => rfl) ?_ ?_⟩
    · rw [hflag]
      exact ⟨fun h => absurd h (by simp), fun ⟨raw, h⟩ => absurd h (hnone raw)⟩
    · intro value hvalue
      exact absurd (hflag.symm.trans hvalue) (by simp)
  · rename_i b hraw
    obtain rfl : .ok (Dict.set fields .sanitizeOutput (.bool b)) = result := hcases
    have hsupplies := samplingRawValue_eq_some.mp hraw
    refine .inr ⟨block, _, hblock, hresult, checked_of_fields h (fun spec hspec => ?_) ?_ ?_⟩
    · exact Dict.get?_set_ne _ _ (samplingFields_ne_sanitizeOutput spec hspec).symm
    · rw [Dict.get?_set_self]
      exact ⟨fun _ => ⟨_, hsupplies⟩, fun _ => rfl⟩
    · intro value hvalue
      rw [Dict.get?_set_self] at hvalue
      exact ⟨b, (Option.some.inj hvalue).symm, hsupplies⟩
  · exact .inl ⟨_, _, hresult.trans hcases.symm⟩

/--
**The overrides are accounted for unless an integer is too large.** The message is refused with a
`ValidationError`, or its overrides are checked, exactly when the check does not come to a float
field that is given an integer no float can hold.
-/
theorem answers_iff (parsing : NumberParsing) (msg : Dict Text Json) :
    Answers parsing msg ↔
      ∀ block, samplingBlock msg = .ok block → ¬ Overflows parsing block msg samplingFields := by
  cases hblock : samplingBlock msg with
  | error e =>
      obtain ⟨errorCode, message, rfl⟩ := samplingBlock_error hblock
      refine iff_of_true (.inl ⟨errorCode, message, ?_⟩) fun block h => absurd h (by simp)
      simp [extractSamplingOverrides, hblock]
  | ok block =>
      simp only [Except.ok.injEq, forall_eq']
      cases h : extractSamplingFields parsing block msg samplingFields [] with
      | ok fields => exact iff_of_true (answers_of_fields hblock h) (not_overflows_of_ok h)
      | error e =>
          have herror : extractSamplingOverrides parsing msg true = .error e := by
            simp [extractSamplingOverrides, hblock, h]
          rcases extractSamplingFields_error h with ⟨hnot, errorCode, message, rfl⟩ | ⟨hover, rfl⟩
          · exact iff_of_true (.inl ⟨errorCode, message, herror⟩) hnot
          · refine iff_of_false (fun hanswers => ?_) (not_not_intro hover)
            rcases hanswers with ⟨errorCode, message, hrefused⟩ | ⟨_, overrides, -, hok, -⟩
            · exact absurd (herror.symm.trans hrefused) (by simp)
            · exact absurd (herror.symm.trans hok) (by simp)

/-- A temperature of `10 ^ 400` is neither refused nor taken. -/
theorem not_answers_temperature :
    ¬ ∀ (parsing : NumberParsing) (msg : Dict Text Json), Answers parsing msg := by
  intro h
  have hlarge : 2 ^ 1024 - 2 ^ 970 ≤ (10 ^ 400 : Int).natAbs := by decide +kernel
  refine (answers_iff noNumbers [("temperature".toList, .int (10 ^ 400))]).mp (h _ _) [] rfl ?_
  exact ⟨[], _, _, rfl, fun s hs => absurd hs (by simp), rfl, 10 ^ 400, .inr ⟨rfl, rfl⟩, hlarge⟩

end YapInference
