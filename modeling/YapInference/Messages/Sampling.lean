import YapInference.Lib.Value
import YapInference.State

/-!
# Sampling overrides of a client message

`src/messages/sampling.py`. The fields differ in their type, bounds and error codes
only, so they are one table and one check. Bounds are the exact values of the binary64
constants. Converting an integer beyond the range of a float raises `OverflowError`,
which is neither of the two exceptions the check catches.
-/

namespace YapInference

open Py

/-- `float(s)` and `int(s)` of a non-empty stripped string; `none` is their `ValueError`. -/
structure NumberParsing where
  parseFloat : Text → Option PyFloat
  parseInt : Text → Option Int

/-- No number is ever written as a string. -/
def noNumbers : NumberParsing := ⟨fun _ => none, fun _ => none⟩

/-- One row of `_SAMPLING_FIELDS`. The bounds carry the text `str` gives them. -/
structure SamplingFieldSpec where
  field : SamplingField
  name : Text
  isInt : Bool
  minimum : ℚ
  maximum : ℚ
  minimumText : Text
  maximumText : Text
  invalidCode : Text
  rangeCode : Text

/-- `_SAMPLING_FIELDS`. -/
def samplingFields : List SamplingFieldSpec := [
  { field := .temperature, name := "temperature".toList, isInt := false
    minimum := 0, maximum := 5404319552844595 / 2 ^ 52
    minimumText := "0.0".toList, maximumText := "1.2".toList
    invalidCode := "invalid_temperature".toList
    rangeCode := "temperature_out_of_range".toList },
  { field := .topP, name := "top_p".toList, isInt := false
    minimum := 5404319552844595 / 2 ^ 53, maximum := 1
    minimumText := "0.6".toList, maximumText := "1.0".toList
    invalidCode := "invalid_top_p".toList
    rangeCode := "top_p_out_of_range".toList },
  { field := .topK, name := "top_k".toList, isInt := true
    minimum := 0, maximum := 60
    minimumText := "0".toList, maximumText := "60".toList
    invalidCode := "invalid_top_k".toList
    rangeCode := "top_k_out_of_range".toList },
  { field := .minP, name := "min_p".toList, isInt := false
    minimum := 0, maximum := 3602879701896397 / 2 ^ 54
    minimumText := "0.0".toList, maximumText := "0.2".toList
    invalidCode := "invalid_min_p".toList
    rangeCode := "min_p_out_of_range".toList },
  { field := .repetitionPenalty, name := "repetition_penalty".toList, isInt := false
    minimum := 1, maximum := 5854679515581645 / 2 ^ 52
    minimumText := "1.0".toList, maximumText := "1.3".toList
    invalidCode := "invalid_repetition_penalty".toList
    rangeCode := "repetition_penalty_out_of_range".toList },
  { field := .presencePenalty, name := "presence_penalty".toList, isInt := false
    minimum := 0, maximum := 1 / 2
    minimumText := "0.0".toList, maximumText := "0.5".toList
    invalidCode := "invalid_presence_penalty".toList
    rangeCode := "presence_penalty_out_of_range".toList },
  { field := .frequencyPenalty, name := "frequency_penalty".toList, isInt := false
    minimum := 0, maximum := 1 / 2
    minimumText := "0.0".toList, maximumText := "0.5".toList
    invalidCode := "invalid_frequency_penalty".toList
    rangeCode := "frequency_penalty_out_of_range".toList }]

/-! ## Coercion -/

/-- `_coerce_float`. -/
def coerceFloat (parsing : NumberParsing) : Json → Except Exc PyFloat
  | .bool _ => .error (.typeError "bool not allowed".toList)
  | .int n =>
      match PyFloat.ofInt n with
      | some x => .ok x
      | none => .error .overflowError
  | .float x => .ok x
  | .str s =>
      let stripped := strip s
      if stripped.isEmpty then .error (.valueError "empty string".toList)
      else
        match parsing.parseFloat stripped with
        | some x => .ok x
        | none => .error (.valueError "could not convert string to float".toList)
  | _ => .error (.typeError "unsupported type".toList)

/-- `_coerce_int`. -/
def coerceInt (parsing : NumberParsing) : Json → Except Exc Int
  | .bool _ => .error (.typeError "bool not allowed".toList)
  | .int n => .ok n
  | .float x =>
      if !x.isInteger then .error (.valueError "non-integer float".toList)
      else
        match x with
        | .finite q => .ok q.num
        | _ => .error (.valueError "non-integer float".toList)
  | .str s =>
      let stripped := strip s
      if stripped.isEmpty then .error (.valueError "empty string".toList)
      else
        match parsing.parseInt stripped with
        | some n => .ok n
        | none => .error (.valueError "invalid literal for int()".toList)
  | _ => .error (.typeError "unsupported type".toList)

/-- `_coerce_sampling_value`. -/
def coerceSamplingValue (parsing : NumberParsing) (value : Json) (isInt : Bool) :
    Except Exc SamplingValue :=
  if isInt then (coerceInt parsing value).map .int else (coerceFloat parsing value).map .float

/-- `minimum <= normalized <= maximum`. -/
def SamplingFieldSpec.inRange (spec : SamplingFieldSpec) : SamplingValue → Bool
  | .float x => (PyFloat.finite spec.minimum).le x && x.le (.finite spec.maximum)
  | .int n => decide (spec.minimum ≤ n) && decide ((n : ℚ) ≤ spec.maximum)
  | .bool _ => false

/-! ## Extraction -/

/-- `sampling_block.get(field)`, then `msg.get(field)`. -/
def samplingRawValue (block msg : Dict Text Json) (name : Text) : Option Json :=
  match Json.get? block name with
  | some value => some value
  | none => Json.get? msg name

/-- One iteration of the loop over `_SAMPLING_FIELDS`: the value to store, if any. -/
def extractSamplingField (parsing : NumberParsing) (block msg : Dict Text Json)
    (spec : SamplingFieldSpec) : Except Exc (Option SamplingValue) :=
  match samplingRawValue block msg spec.name with
  | none => .ok none
  | some rawValue =>
      match coerceSamplingValue parsing rawValue spec.isInt with
      | .error (.typeError _) | .error (.valueError _) =>
          .error (.validationError spec.invalidCode
            (spec.name ++ " must be a valid ".toList
              ++ (if spec.isInt then "int".toList else "float".toList)))
      | .error e => .error e
      | .ok normalized =>
          if spec.inRange normalized then .ok (some normalized)
          else
            .error (.validationError spec.rangeCode
              (spec.name ++ " must be between ".toList ++ spec.minimumText ++ " and ".toList
                ++ spec.maximumText))

/-- The loop over `_SAMPLING_FIELDS`. -/
def extractSamplingFields (parsing : NumberParsing) (block msg : Dict Text Json) :
    List SamplingFieldSpec → SamplingOverrides → Except Exc SamplingOverrides
  | [], overrides => .ok overrides
  | spec :: specs, overrides =>
      match extractSamplingField parsing block msg spec with
      | .error e => .error e
      | .ok none => extractSamplingFields parsing block msg specs overrides
      | .ok (some value) =>
          extractSamplingFields parsing block msg specs (Dict.set overrides spec.field value)

/-- `msg.get("sampling") or msg.get("sampling_params") or {}`, checked to be an object. -/
def samplingBlock (msg : Dict Text Json) : Except Exc (Dict Text Json) :=
  let truthy := fun (v : Option Json) => v.filter Json.truthy
  match (truthy (Json.get? msg "sampling".toList)).or
      (truthy (Json.get? msg "sampling_params".toList)) with
  | none => .ok []
  | some (.obj d) => .ok d
  | some _ => .error (.validationError "invalid_sampling_payload".toList
      "sampling must be an object".toList)

/-- `extract_sampling_overrides`. -/
def extractSamplingOverrides (parsing : NumberParsing) (msg : Dict Text Json)
    (deployChat : Bool) : Except Exc SamplingOverrides :=
  if !deployChat then .ok []
  else
    match samplingBlock msg with
    | .error e => .error e
    | .ok block =>
        match extractSamplingFields parsing block msg samplingFields [] with
        | .error e => .error e
        | .ok overrides =>
            match samplingRawValue block msg "sanitize_output".toList with
            | none => .ok overrides
            | some (.bool b) => .ok (Dict.set overrides .sanitizeOutput (.bool b))
            | some _ => .error (.validationError "invalid_sanitize_output".toList
                "sanitize_output must be a boolean".toList)

end YapInference
