import YapInference.Messages.Sampling
import YapInference.Config
import YapInference.Tokens

/-!
# Sampling resolution

The half of `src/execution/chat/runner.py` that decides what the engine is asked with, and whether
it is asked.
-/

namespace YapInference

open Py

/-- An override is stored under a field of its own type. -/
theorem extractSamplingField_fits {parsing : NumberParsing} {block msg : Dict Text Json}
    {spec : SamplingFieldSpec} {value : SamplingValue}
    (hspec : spec ∈ samplingFields)
    (h : extractSamplingField parsing block msg spec = .ok (some value)) :
    value.fits spec.field = true := by
  have htyped : ∀ raw, coerceSamplingValue parsing raw spec.isInt = .ok value →
      value.fits spec.field = true := by
    intro raw hraw
    unfold coerceSamplingValue at hraw
    simp only [samplingFields, List.mem_cons, List.not_mem_nil, or_false] at hspec
    split at hraw
    · cases hn : coerceInt parsing raw with
      | error e => rw [hn] at hraw; cases hraw
      | ok n =>
          rw [hn] at hraw
          cases hraw
          rcases hspec with rfl | rfl | rfl | rfl | rfl | rfl | rfl <;> simp_all [SamplingValue.fits]
    · cases hx : coerceFloat parsing raw with
      | error e => rw [hx] at hraw; cases hraw
      | ok x =>
          rw [hx] at hraw
          cases hraw
          rcases hspec with rfl | rfl | rfl | rfl | rfl | rfl | rfl <;> simp_all [SamplingValue.fits]
  unfold extractSamplingField at h
  split at h
  · cases h
  · rename_i raw _
    split at h
    · cases h
    · cases h
    · cases h
    · rename_i normalized hn
      split at h
      · cases h; exact htyped raw hn
      · cases h

theorem extractSamplingFields_fits {parsing : NumberParsing} {block msg : Dict Text Json}
    {specs : List SamplingFieldSpec} {start result : SamplingOverrides}
    (hspecs : ∀ spec ∈ specs, spec ∈ samplingFields)
    (hstart : ∀ field value, start.get? field = some value → value.fits field = true)
    (h : extractSamplingFields parsing block msg specs start = .ok result) :
    ∀ field value, result.get? field = some value → value.fits field = true := by
  induction specs generalizing start with
  | nil => cases h; exact hstart
  | cons spec specs ih =>
      have hrest := fun s hs => hspecs s (List.mem_cons_of_mem _ hs)
      unfold extractSamplingFields at h
      split at h
      · cases h
      · exact ih hrest hstart h
      · rename_i value hvalue
        refine ih hrest (fun field v hv => ?_) h
        by_cases hfield : spec.field = field
        · subst hfield
          rw [Dict.get?_set_self] at hv
          cases hv
          exact extractSamplingField_fits (hspecs spec (by simp)) hvalue
        · rw [Dict.get?_set_ne _ _ hfield] at hv
          exact hstart field v hv

/-- **Every override has the type of its field**, so the casts of the runner change nothing. -/
theorem extractSamplingOverrides_fits {parsing : NumberParsing} {msg : Dict Text Json}
    {deployChat : Bool} {overrides : SamplingOverrides}
    (h : extractSamplingOverrides parsing msg deployChat = .ok overrides) :
    ∀ field value, overrides.get? field = some value → value.fits field = true := by
  unfold extractSamplingOverrides at h
  split at h
  · cases h; intro field value hv; cases hv
  · split at h
    · cases h
    · split at h
      · cases h
      · rename_i fields hfields
        have hfits := extractSamplingFields_fits (fun s hs => hs)
          (fun field value hv => by cases hv) hfields
        split at h
        · cases h; exact hfits
        · cases h
          intro field value hv
          by_cases hfield : SamplingField.sanitizeOutput = field
          · subst hfield
            rw [Dict.get?_set_self] at hv
            cases hv
            rfl
          · rw [Dict.get?_set_ne _ _ hfield] at hv
            exact hfits field value hv
        · cases h

/-- `_resolve_sampling_overrides`, by field. -/
def resolveSamplingOverrides (cfg : ServerConfig) (overrides : SamplingOverrides)
    (field : SamplingField) : SamplingValue :=
  (overrides.get? field).getD (cfg.samplingDefault field)

/-- The sampling of `run_chat_generation`, from the `sampling_overrides` of a plan. -/
def engineSampling (cfg : ServerConfig) (samplingOverrides : Option SamplingOverrides) :
    SamplingField → SamplingValue :=
  resolveSamplingOverrides cfg (samplingOverrides.getD [])

/-- **Whatever an engine is given has the type of its field**, with the overrides of a message or
without any. -/
theorem engineSampling_fits (cfg : ServerConfig) {parsing : NumberParsing} {msg : Dict Text Json}
    {deployChat : Bool} {samplingOverrides : Option SamplingOverrides}
    (h : ∀ overrides, samplingOverrides = some overrides →
      extractSamplingOverrides parsing msg deployChat = .ok overrides) (field : SamplingField) :
    (engineSampling cfg samplingOverrides field).fits field = true := by
  unfold engineSampling resolveSamplingOverrides
  cases samplingOverrides with
  | none => exact cfg.samplingDefault_fits field
  | some overrides =>
      dsimp only [Option.getD_some]
      cases hfield : overrides.get? field with
      | none => exact cfg.samplingDefault_fits field
      | some value => exact extractSamplingOverrides_fits (h overrides rfl) field value hfield

/-- `bool(overrides["sanitize_output"])`. -/
def sanitizesOutput (cfg : ServerConfig) (samplingOverrides : Option SamplingOverrides) : Bool :=
  match engineSampling cfg samplingOverrides .sanitizeOutput with
  | .bool b => b
  | _ => true

/-- The check `run_chat_generation` makes before it opens the stream. -/
def checkPromptTokens (cfg : ServerConfig) (chatTokenizer : HfTokenizer) (prompt : Text)
    (promptTokenCount : Option Nat) : Except Exc Unit :=
  let resolvedPromptTokenCount :=
    promptTokenCount.getD (chatTokenizer.encodeIds prompt).length
  if resolvedPromptTokenCount > cfg.chatMaxLen then
    .error (.valueError ("prompt exceeds exact context budget before engine call (".toList
      ++ (toString resolvedPromptTokenCount).toList ++ " > ".toList
      ++ (toString cfg.chatMaxLen).toList ++ ")".toList))
  else .ok ()

end YapInference
