import YapInference.Quantization.Detection

/-!
# What is left of a config without its unsupported fields

The three loops are a filter and two maps, and the flag says whether anything was removed at any
depth. The rest is induction over the payload.
-/

namespace YapInference

open Py

/-- A field that stays. -/
def isKept (p : Text × Json) : Bool := !isUnsupported p.1

/-- No object in the payload has an unsupported field. -/
def Supported (payload : Json) : Prop :=
  ∀ d, Json.Inside (.obj d) payload → ∀ p ∈ d, isUnsupported p.1 = false

/-- **What stripping does to a payload.** -/
structure StripsUnsupported (f : Json → Json × Bool) : Prop where
  /-- No object has an unsupported field any more, at any depth. -/
  supported : ∀ payload, Supported (f payload).1
  /-- The other fields stay where they are, with their values stripped, -/
  obj : ∀ d, (f (.obj d)).1 = .obj ((d.filter isKept).map fun p => (p.1, (f p.2).1))
  /-- as the items do, -/
  list : ∀ xs, (f (.list xs)).1 = .list (xs.map fun x => (f x).1)
  /-- and everything else is as it was. -/
  scalar : ∀ payload, (∀ d, payload ≠ .obj d) → (∀ xs, payload ≠ .list xs) →
    (f payload).1 = payload
  /-- The flag says whether a field was removed anywhere. -/
  removed : ∀ payload, (f payload).2 = true
    ↔ ∃ d, Json.Inside (.obj d) payload ∧ ∃ p ∈ d, isUnsupported p.1 = true
  /-- A second time there is nothing to do. -/
  again : ∀ payload, f (f payload).1 = ((f payload).1, false)

/-! ## The loops -/

theorem popUnsupported_eq (keys : List Text) (obj : Dict Text Json) (removed : Bool) :
    popUnsupported keys obj removed
      = (obj.filter fun p => !(isUnsupported p.1 && keys.contains p.1),
        removed || keys.any isUnsupported) := by
  induction keys generalizing obj removed with
  | nil => simp [popUnsupported]
  | cons key keys ih =>
      unfold popUnsupported
      split
      · rename_i hkey
        rw [ih, Dict.erase, List.filter_filter, List.any_cons, hkey, Bool.true_or,
          Bool.or_true]
        refine congrArg (·, true) (List.filter_congr fun p _ => ?_)
        by_cases hp : p.1 = key
        · simp [hp, hkey]
        · simp [hp]
      · rename_i hkey
        rw [Bool.not_eq_true] at hkey
        rw [ih, List.any_cons, hkey, Bool.false_or]
        refine congrArg (·, removed || keys.any isUnsupported) (List.filter_congr fun p _ => ?_)
        by_cases hp : p.1 = key
        · simp [hp, hkey]
        · simp [hp]

theorem popUnsupported_keys (d : Dict Text Json) :
    popUnsupported (Dict.keys d) d false
      = (d.filter isKept, d.any fun p => isUnsupported p.1) := by
  have hkept : (d.filter fun p => !(isUnsupported p.1 && (Dict.keys d).contains p.1))
      = d.filter isKept := by
    refine List.filter_congr fun p hp => ?_
    have hkeys : p.1 ∈ Dict.keys d := List.mem_map_of_mem hp
    have hmem : (Dict.keys d).contains p.1 = true := by simpa using hkeys
    rw [hmem, Bool.and_true, isKept]
  rw [popUnsupported_eq, hkept, Bool.false_or, Dict.keys, List.any_map]
  rfl

theorem stripValues_eq (d : Dict Text Json) (removed : Bool) :
    stripValues d removed
      = (d.map fun p => (p.1, (stripUnsupportedFields p.2).1),
        removed || d.any fun p => (stripUnsupportedFields p.2).2) := by
  induction d generalizing removed with
  | nil => simp [stripValues]
  | cons p d ih =>
      rw [stripValues, ih, List.map_cons, List.any_cons, Bool.or_assoc]

theorem stripItems_eq (xs : List Json) (removed : Bool) :
    stripItems xs removed
      = (xs.map fun x => (stripUnsupportedFields x).1,
        removed || xs.any fun x => (stripUnsupportedFields x).2) := by
  induction xs generalizing removed with
  | nil => simp [stripItems]
  | cons x xs ih => rw [stripItems, ih, List.map_cons, List.any_cons, Bool.or_assoc]

/-- **An object**: the unsupported fields go, and the values of the others are stripped. -/
theorem stripUnsupportedFields_obj (d : Dict Text Json) :
    stripUnsupportedFields (.obj d)
      = (.obj ((d.filter isKept).map fun p => (p.1, (stripUnsupportedFields p.2).1)),
        (d.any fun p => isUnsupported p.1)
          || (d.filter isKept).any fun p => (stripUnsupportedFields p.2).2) := by
  rw [stripUnsupportedFields, popUnsupported_keys, stripValues_eq]

theorem stripUnsupportedFields_list (xs : List Json) :
    stripUnsupportedFields (.list xs)
      = (.list (xs.map fun x => (stripUnsupportedFields x).1),
        xs.any fun x => (stripUnsupportedFields x).2) := by
  rw [stripUnsupportedFields, stripItems_eq, Bool.false_or]

theorem stripUnsupportedFields_scalar {payload : Json} (hobj : ∀ d, payload ≠ .obj d)
    (hlist : ∀ xs, payload ≠ .list xs) : stripUnsupportedFields payload = (payload, false) := by
  rw [stripUnsupportedFields]
  · exact hobj
  · exact hlist

/-! ## Induction over the payload -/

theorem supported_obj {d : Dict Text Json} (h : ∀ p ∈ d, isUnsupported p.1 = false)
    (hvalues : ∀ p ∈ d, Supported p.2) : Supported (.obj d) := by
  intro e he
  cases he with
  | self => exact h
  | value hp hin => exact hvalues _ hp e hin

theorem supported_list {xs : List Json} (h : ∀ x ∈ xs, Supported x) : Supported (.list xs) := by
  intro e he
  cases he with
  | item hx hin => exact h _ hx e hin

theorem supported_scalar {payload : Json} (hobj : ∀ d, payload ≠ .obj d)
    (hlist : ∀ xs, payload ≠ .list xs) : Supported payload := by
  intro e he
  cases he with
  | self => exact absurd rfl (hobj e)
  | item hx hin => exact absurd rfl (hlist _)
  | value hp hin => exact absurd rfl (hobj _)

theorem supported_strip (payload : Json) : Supported (stripUnsupportedFields payload).1 := by
  induction payload using Json.induct with
  | list xs ih =>
      rw [stripUnsupportedFields_list]
      refine supported_list fun x hx => ?_
      obtain ⟨y, hy, rfl⟩ := List.mem_map.mp hx
      exact ih y hy
  | obj d ih =>
      rw [stripUnsupportedFields_obj]
      refine supported_obj (fun p hp => ?_) fun p hp => ?_
      · obtain ⟨q, hq, rfl⟩ := List.mem_map.mp hp
        simpa [isKept] using (List.mem_filter.mp hq).2
      · obtain ⟨q, hq, rfl⟩ := List.mem_map.mp hp
        exact ih q (List.mem_filter.mp hq).1
  | null | bool _ | int _ | float _ | str _ =>
      rw [stripUnsupportedFields_scalar (by simp) (by simp)]
      exact supported_scalar (by simp) (by simp)

/-- **Nothing happens to a payload that has no unsupported field.** -/
theorem strip_of_supported {payload : Json} (h : Supported payload) :
    stripUnsupportedFields payload = (payload, false) := by
  induction payload using Json.induct with
  | list xs ih =>
      have hitems : ∀ x ∈ xs, stripUnsupportedFields x = (x, false) := fun x hx =>
        ih x hx fun e he => h e (.item hx he)
      have hsame : (xs.map fun x => (stripUnsupportedFields x).1) = xs :=
        (List.map_congr_left fun x hx => congrArg Prod.fst (hitems x hx)).trans (List.map_id' xs)
      have hnone : (xs.any fun x => (stripUnsupportedFields x).2) = false :=
        List.any_eq_false.mpr fun x hx => by simp [hitems x hx]
      rw [stripUnsupportedFields_list, hsame, hnone]
  | obj d ih =>
      have hvalues : ∀ p ∈ d, stripUnsupportedFields p.2 = (p.2, false) := fun p hp =>
        ih p hp fun e he => h e (.value hp he)
      have hkeys : ∀ p ∈ d, isUnsupported p.1 = false := h d .self
      have hkept : d.filter isKept = d :=
        List.filter_eq_self.mpr fun p hp => by simp [isKept, hkeys p hp]
      have hsame : (d.map fun p => (p.1, (stripUnsupportedFields p.2).1)) = d :=
        (List.map_congr_left fun p hp => by rw [hvalues p hp]).trans (List.map_id' d)
      have hnone : (d.any fun p => (stripUnsupportedFields p.2).2) = false :=
        List.any_eq_false.mpr fun p hp => by simp [hvalues p hp]
      have hnoKey : (d.any fun p => isUnsupported p.1) = false :=
        List.any_eq_false.mpr fun p hp => by simp [hkeys p hp]
      rw [stripUnsupportedFields_obj, hkept, hsame, hnone, hnoKey, Bool.or_false]
  | null | bool _ | int _ | float _ | str _ =>
      exact stripUnsupportedFields_scalar (by simp) (by simp)

/-- Something is removed from a payload that has one. -/
theorem removed_of_inside {payload : Json} {d : Dict Text Json} (hd : Json.Inside (.obj d) payload)
    {p : Text × Json} (hp : p ∈ d) (hkey : isUnsupported p.1 = true) :
    (stripUnsupportedFields payload).2 = true := by
  induction hd with
  | self =>
      have hany : (d.any fun p => isUnsupported p.1) = true := List.any_eq_true.mpr ⟨p, hp, hkey⟩
      rw [stripUnsupportedFields_obj, hany, Bool.true_or]
  | item hx h ih =>
      rw [stripUnsupportedFields_list]
      exact List.any_eq_true.mpr ⟨_, hx, ih⟩
  | @value q e hq h ih =>
      rw [stripUnsupportedFields_obj]
      dsimp only
      -- a value that is under an unsupported field goes with it
      cases hfield : isUnsupported q.1 with
      | true => rw [List.any_eq_true.mpr ⟨q, hq, hfield⟩, Bool.true_or]
      | false =>
          have hkept : q ∈ e.filter isKept := List.mem_filter.mpr ⟨hq, by simp [isKept, hfield]⟩
          have hany : ((e.filter isKept).any fun p => (stripUnsupportedFields p.2).2) = true :=
            List.any_eq_true.mpr ⟨q, hkept, ih⟩
          rw [hany, Bool.or_true]

/-- **`strip_unsupported_fields` strips what is not supported**, and nothing else. -/
theorem stripsUnsupported : StripsUnsupported stripUnsupportedFields where
  supported := supported_strip
  obj := fun d => by rw [stripUnsupportedFields_obj]
  list := fun xs => by rw [stripUnsupportedFields_list]
  scalar := fun payload hobj hlist => by rw [stripUnsupportedFields_scalar hobj hlist]
  removed := by
    intro payload
    constructor
    · intro h
      by_contra hnone
      have hsupported : Supported payload := by
        intro d hd p hp
        by_contra hkey
        exact hnone ⟨d, hd, p, hp, by simpa using hkey⟩
      rw [strip_of_supported hsupported] at h
      exact absurd h (by simp)
    · intro h
      obtain ⟨d, hd, p, hp, hkey⟩ := h
      exact removed_of_inside hd hp hkey
  again := fun payload => strip_of_supported (supported_strip payload)

/-- **A config file is rewritten once.** What was written back is not written again. -/
theorem sanitizeConfigFile_again {payload : Option Json} {written : Json}
    (h : sanitizeConfigFile payload = some written) :
    sanitizeConfigFile (some written) = none := by
  cases payload with
  | none => exact absurd h (by simp [sanitizeConfigFile])
  | some payload =>
      simp only [sanitizeConfigFile, Option.bind_some] at h
      split at h
      · obtain rfl : (stripUnsupportedFields payload).1 = written := Option.some.inj h
        simp [sanitizeConfigFile, strip_of_supported (supported_strip payload)]
      · exact absurd h (by simp)

end YapInference
