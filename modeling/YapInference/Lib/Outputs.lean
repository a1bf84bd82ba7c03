import Mathlib.Data.List.Count
import YapInference.Lib.Lts

/-!
# What a run puts out

A transition system that also says, for each step, what the step puts out: `out s l s'` for the
step from `s` to `s'` under `l`. The outputs of a run are those of its steps, in order.

Three rules carry what is said of them. `outputs_pairwise` orders them: it asks each state to know
enough of what was put out so far. `countP_outputs_le` bounds them: it asks each state for a
budget that every output is paid from. `outputs_refine` makes them a run of another system.

A history variable is what an onlooker keeps who sees the steps. `history_inv` relates it to the
state.
-/

namespace Lts

universe u v w

variable {σ : Type u} {ℓ : Type v} {ω : Type w}

/-- The outputs of a run, up to a label that is not enabled. -/
def outputs (step : σ → ℓ → Option σ) (out : σ → ℓ → σ → List ω) (s : σ) : List ℓ → List ω
  | [] => []
  | l :: ls =>
      match step s l with
      | none => []
      | some s' => out s l s' ++ outputs step out s' ls

variable {step : σ → ℓ → Option σ} {out : σ → ℓ → σ → List ω}

theorem outputs_cons {s s' : σ} {l : ℓ} {ls : List ℓ} (h : step s l = some s') :
    outputs step out s (l :: ls) = out s l s' ++ outputs step out s' ls := by
  rw [outputs, h]

section Rules

variable {I : σ → Prop} (hI : ∀ s l s', I s → step s l = some s' → I s')
include hI

/-- What every output of a step has, every output of a run has. -/
theorem forall_outputs {P : ω → Prop}
    (hout : ∀ s l s', I s → step s l = some s' → ∀ a ∈ out s l s', P a) {s : σ} (hs : I s)
    (ls : List ℓ) : ∀ a ∈ outputs step out s ls, P a := by
  induction ls generalizing s with
  | nil => simp [outputs]
  | cons l ls ih =>
      intro a ha
      cases h : step s l with
      | none => simp [outputs, h] at ha
      | some s' =>
          rw [outputs_cons h] at ha
          rcases List.mem_append.mp ha with ha | ha
          · exact hout s l s' hs h a ha
          · exact ih (hI s l s' hs h) a ha

/-- **Outputs in order.** `K s a` is what a state knows of an output `a` made before it: it
stays known, and whatever is put out later comes after `a`. -/
theorem outputs_pairwise {R : ω → ω → Prop} {K : σ → ω → Prop}
    (hnew : ∀ s l s', I s → step s l = some s' → ∀ a ∈ out s l s', K s' a)
    (hstay : ∀ s l s', I s → step s l = some s' → ∀ a, K s a → K s' a)
    (hafter : ∀ s l s', I s → step s l = some s' → ∀ a, K s a → ∀ b ∈ out s l s', R a b)
    (hone : ∀ s l s', I s → step s l = some s' → (out s l s').Pairwise R)
    {s : σ} (hs : I s) (ls : List ℓ) : (outputs step out s ls).Pairwise R := by
  -- whatever is known now comes before all outputs to come
  have hpast : ∀ (ls : List ℓ) {s : σ}, I s → ∀ a, K s a →
      ∀ b ∈ outputs step out s ls, R a b := by
    intro ls
    induction ls with
    | nil => simp [outputs]
    | cons l ls ih =>
        intro s hs a ha b hb
        cases h : step s l with
        | none => simp [outputs, h] at hb
        | some s' =>
            rw [outputs_cons h] at hb
            rcases List.mem_append.mp hb with hb | hb
            · exact hafter s l s' hs h a ha b hb
            · exact ih (hI s l s' hs h) a (hstay s l s' hs h a ha) b hb
  induction ls generalizing s with
  | nil => exact List.Pairwise.nil
  | cons l ls ih =>
      cases h : step s l with
      | none => simp [outputs, h]
      | some s' =>
          rw [outputs_cons h]
          have hs' := hI s l s' hs h
          refine List.pairwise_append.mpr ⟨hone s l s' hs h, ih hs', fun a ha b hb => ?_⟩
          exact hpast ls hs' a (hnew s l s' hs h a ha) b hb

/-- What a state learns of its outputs and does not forget is known in the end. -/
theorem outputs_known {K : σ → ω → Prop}
    (hnew : ∀ s l s', I s → step s l = some s' → ∀ a ∈ out s l s', K s' a)
    (hstay : ∀ s l s', I s → step s l = some s' → ∀ a, K s a → K s' a)
    {s t : σ} (hs : I s) {ls : List ℓ} (h : exec step s ls = some t) :
    ∀ a ∈ outputs step out s ls, K t a := by
  have hkeep : ∀ (ls : List ℓ) {s : σ}, I s → exec step s ls = some t → ∀ a, K s a → K t a := by
    intro ls
    induction ls with
    | nil =>
        intro s _ h a ha
        obtain rfl := Option.some.inj h
        exact ha
    | cons l ls ih =>
        intro s hs h a ha
        obtain ⟨s', h1, h2⟩ := exec_cons_eq_some.mp h
        exact ih (hI s l s' hs h1) h2 a (hstay s l s' hs h1 a ha)
  induction ls generalizing s with
  | nil => simp [outputs]
  | cons l ls ih =>
      intro a ha
      obtain ⟨s', h1, h2⟩ := exec_cons_eq_some.mp h
      have hs' := hI s l s' hs h1
      rw [outputs_cons h1] at ha
      rcases List.mem_append.mp ha with ha | ha
      · exact hkeep ls hs' h2 a (hnew s l s' hs h1 a ha)
      · exact ih hs' h2 a ha

/-- What becomes of a state only with an output of a kind has had one. -/
theorem exists_output {Q : σ → Prop} {P : ω → Prop}
    (hfirst : ∀ s l s', I s → step s l = some s' → ¬ Q s → Q s' → ∃ a ∈ out s l s', P a)
    {s t : σ} (hs : I s) (hnot : ¬ Q s) {ls : List ℓ} (h : exec step s ls = some t) (hQ : Q t) :
    ∃ a ∈ outputs step out s ls, P a := by
  induction ls generalizing s with
  | nil =>
      obtain rfl := Option.some.inj h
      exact absurd hQ hnot
  | cons l ls ih =>
      obtain ⟨s', h1, h2⟩ := exec_cons_eq_some.mp h
      rw [outputs_cons h1]
      by_cases hQ' : Q s'
      · obtain ⟨a, ha, hP⟩ := hfirst s l s' hs h1 hnot hQ'
        exact ⟨a, List.mem_append_left _ ha, hP⟩
      · obtain ⟨a, ha, hP⟩ := ih (hI s l s' hs h1) hQ' h2
        exact ⟨a, List.mem_append_right _ ha, hP⟩

/-- **Outputs on a budget.** If every step pays for the outputs of a kind out of the budget `B`, no
run puts out more of them than the budget it starts with. -/
theorem countP_outputs_le {p : ω → Bool} {B : σ → Nat}
    (hpays : ∀ s l s', I s → step s l = some s' → (out s l s').countP p + B s' ≤ B s)
    {s : σ} (hs : I s) (ls : List ℓ) : (outputs step out s ls).countP p ≤ B s := by
  induction ls generalizing s with
  | nil => exact Nat.zero_le _
  | cons l ls ih =>
      cases h : step s l with
      | none => simp [outputs, h]
      | some s' =>
          have hrest := ih (hI s l s' hs h)
          have hstep := hpays s l s' hs h
          rw [outputs_cons h, List.countP_append]
          omega

end Rules

/-- A ledger that every step carries on is what it was and what is read off the outputs. -/
theorem outputs_ledger {δ : Type*} (ledger : σ → List δ) (read : ω → Option δ)
    (hstep : ∀ s l s', step s l = some s' → ledger s' = ledger s ++ (out s l s').filterMap read)
    {s t : σ} {ls : List ℓ} (h : exec step s ls = some t) :
    ledger t = ledger s ++ (outputs step out s ls).filterMap read := by
  induction ls generalizing s with
  | nil =>
      obtain rfl := Option.some.inj h
      simp [outputs]
  | cons l ls ih =>
      obtain ⟨s', h1, h2⟩ := exec_cons_eq_some.mp h
      rw [outputs_cons h1, List.filterMap_append, ← List.append_assoc, ← hstep s l s' h1, ih h2]

/-- Two kinds of outputs that show the same of every step show the same of a run. -/
theorem outputs_filterMap_congr {ω' δ : Type*} {out' : σ → ℓ → σ → List ω'} {f : ω → Option δ}
    {g : ω' → Option δ}
    (hstep : ∀ s l s', step s l = some s' → (out s l s').filterMap f = (out' s l s').filterMap g)
    (s : σ) (ls : List ℓ) :
    (outputs step out s ls).filterMap f = (outputs step out' s ls).filterMap g := by
  induction ls generalizing s with
  | nil => rfl
  | cons l ls ih =>
      cases h : step s l with
      | none => simp [outputs, h]
      | some s' =>
          rw [outputs_cons h, outputs_cons h, List.filterMap_append, List.filterMap_append,
            hstep s l s' h, ih s']

/-! ## Refinement -/

/-- **What a system puts out is a run of another**, if what each of its steps puts out is. -/
theorem outputs_refine {τ : Type*} {spec : τ → ω → Option τ} {R : σ → τ → Prop}
    (hstep : ∀ s l s' t, R s t → step s l = some s' →
      ∃ t', exec spec t (out s l s') = some t' ∧ R s' t')
    {s s' : σ} {t : τ} {ls : List ℓ} (hs : R s t) (h : exec step s ls = some s') :
    ∃ t', exec spec t (outputs step out s ls) = some t' ∧ R s' t' := by
  induction ls generalizing s t with
  | nil =>
      obtain rfl := Option.some.inj h
      exact ⟨t, rfl, hs⟩
  | cons l ls ih =>
      obtain ⟨s₁, h1, h2⟩ := exec_cons_eq_some.mp h
      obtain ⟨t₁, hout, hs₁⟩ := hstep s l s₁ t hs h1
      obtain ⟨t', hrest, hs'⟩ := ih hs₁ h2
      exact ⟨t', outputs_cons h1 ▸ exec_append_eq_some.mpr ⟨t₁, hout, hrest⟩, hs'⟩

/-! ## History variables -/

section History

variable {γ : Type*} {note : σ → ℓ → γ → γ}

/-- A history variable along a run, up to a label that is not enabled: `note` is what a step
makes of it. -/
def history (step : σ → ℓ → Option σ) (note : σ → ℓ → γ → γ) (s : σ) (g : γ) : List ℓ → γ
  | [] => g
  | l :: ls =>
      match step s l with
      | none => g
      | some s' => history step note s' (note s l g) ls

/-- **What relates a state to the history variable**, if every step that meets `C` keeps it. -/
theorem history_inv_of_meets {C : σ → ℓ → Prop} {I : σ → γ → Prop}
    (hstep : ∀ s l s' g, I s g → C s l → step s l = some s' → I s' (note s l g)) {s t : σ} {g : γ}
    {ls : List ℓ} (hs : I s g) (hm : Meets step C s ls) (h : exec step s ls = some t) :
    I t (history step note s g ls) := by
  induction ls generalizing s g with
  | nil => obtain rfl := Option.some.inj h; exact hs
  | cons l ls ih =>
      obtain ⟨s', h1, h2⟩ := exec_cons_eq_some.mp h
      rw [history, h1]
      exact ih (hstep s l s' g hs hm.1 h1) (hm.2 s' h1) h2

/-- The same, if every step keeps it. -/
theorem history_inv {I : σ → γ → Prop}
    (hstep : ∀ s l s' g, I s g → step s l = some s' → I s' (note s l g)) {s t : σ} {g : γ}
    {ls : List ℓ} (hs : I s g) (h : exec step s ls = some t) :
    I t (history step note s g ls) :=
  history_inv_of_meets (fun s l s' g hI _ => hstep s l s' g hI) hs
    (meets_of_forall (fun _ _ => trivial) s) h

end History

end Lts
