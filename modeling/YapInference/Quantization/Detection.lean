import YapInference.Lib.Value

/-!
# Unsupported fields of a quantization config

`strip_unsupported_fields` of `src/quantization/vllm/core/detection.py`. It changes the payload in
place, so here it returns the payload as it is afterwards, with the flag.
-/

namespace YapInference

open Py

/-- `UNSUPPORTED_QUANT_DTYPE_FIELDS`. -/
def unsupportedQuantDtypeFields : List Text := ["scale_dtype".toList, "zp_dtype".toList]

/-- `key in UNSUPPORTED_QUANT_DTYPE_FIELDS`. -/
def isUnsupported (key : Text) : Bool := unsupportedQuantDtypeFields.contains key

/-- The loop over the keys of an object, of which there is a copy. -/
def popUnsupported (keys : List Text) (obj : Dict Text Json) (removed : Bool) :
    Dict Text Json × Bool :=
  match keys with
  | [] => (obj, removed)
  | key :: keys =>
      if isUnsupported key then popUnsupported keys (obj.erase key) true
      else popUnsupported keys obj removed

theorem sizeOf_filter_le (p : Text × Json → Bool) (d : Dict Text Json) :
    sizeOf (d.filter p) ≤ sizeOf d := by
  induction d with
  | nil => simp
  | cons e d ih =>
      by_cases h : p e = true
      · rw [List.filter_cons_of_pos h]
        simpa using ih
      · rw [List.filter_cons_of_neg h, List.cons.sizeOf_spec]
        omega

theorem sizeOf_popUnsupported_le (keys : List Text) (obj : Dict Text Json) (removed : Bool) :
    sizeOf (popUnsupported keys obj removed).1 ≤ sizeOf obj := by
  induction keys generalizing obj removed with
  | nil => exact Nat.le_refl _
  | cons key keys ih =>
      unfold popUnsupported
      split
      · exact (ih _ _).trans (sizeOf_filter_le _ _)
      · exact ih _ _

mutual

/-- `strip_unsupported_fields`, which is the inner `_strip`. -/
def stripUnsupportedFields : Json → Json × Bool
  | .obj d =>
      let popped := popUnsupported (Dict.keys d) d false
      let stripped := stripValues popped.1 popped.2
      (.obj stripped.1, stripped.2)
  | .list xs =>
      let stripped := stripItems xs false
      (.list stripped.1, stripped.2)
  | v => (v, false)
termination_by v => sizeOf v
decreasing_by
  · have := sizeOf_popUnsupported_le (Dict.keys d) d false
    simp only [Json.obj.sizeOf_spec]
    omega
  · simp

/-- The loop over the values. -/
def stripValues : Dict Text Json → Bool → Dict Text Json × Bool
  | [], removed => ([], removed)
  | (key, value) :: d, removed =>
      let stripped := stripUnsupportedFields value
      let rest := stripValues d (removed || stripped.2)
      ((key, stripped.1) :: rest.1, rest.2)
termination_by d => sizeOf d

/-- The loop over the items. -/
def stripItems : List Json → Bool → List Json × Bool
  | [], removed => ([], removed)
  | item :: xs, removed =>
      let stripped := stripUnsupportedFields item
      let rest := stripItems xs (removed || stripped.2)
      (stripped.1 :: rest.1, rest.2)
termination_by xs => sizeOf xs

end

/-- `_sanitize_config_file`: what it writes back of what it read, if anything. -/
def sanitizeConfigFile (payload : Option Json) : Option Json :=
  payload.bind fun payload =>
    let stripped := stripUnsupportedFields payload
    if stripped.2 then some stripped.1 else none

end YapInference
