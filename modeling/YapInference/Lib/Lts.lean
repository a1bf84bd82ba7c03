import Mathlib.Data.Option.Basic

/-!
# Executable labelled transition systems

A system is a partial step function: `step s l = some s'` says that in state `s`
the label `l` is enabled and leads to `s'`. A run is a list of labels, so a
concrete run is evaluated rather than derived, and "for every interleaving" is
"for every list of labels".

Two rules carry every safety argument. `exec_inv` is plain inductive invariance.
`exec_inv_of_meets` is the same for runs all of whose steps meet a condition on
the state before the step and the label, which is how a property that only holds
of well-behaved schedules is stated.
-/

namespace Lts

universe u v

variable {σ : Type u} {ℓ : Type v} (step : σ → ℓ → Option σ)

/-- Run a list of labels; `none` when one of them is not enabled. -/
def exec (s : σ) : List ℓ → Option σ
  | [] => some s
  | l :: ls => (step s l).bind (fun s' => exec s' ls)

/-- Every step of the run from `s` meets `C` at the state it is taken in. -/
def Meets (C : σ → ℓ → Prop) (s : σ) : List ℓ → Prop
  | [] => True
  | l :: ls => C s l ∧ ∀ s', step s l = some s' → Meets C s' ls

/-- `Q` holds in every state of the run from `s`. -/
def Throughout (Q : σ → Prop) (s : σ) : List ℓ → Prop
  | [] => Q s
  | l :: ls => Q s ∧ ∀ s', step s l = some s' → Throughout Q s' ls

/-- A run that is given can be checked for a decidable condition. -/
instance decidableMeets (C : σ → ℓ → Prop) [∀ s l, Decidable (C s l)] :
    (s : σ) → (ls : List ℓ) → Decidable (Meets step C s ls)
  | _, [] => isTrue trivial
  | s, l :: ls =>
      match hs : step s l with
      | none =>
          decidable_of_iff (C s l)
            ⟨fun h => ⟨h, fun s' hs' => absurd (hs.symm.trans hs') (by simp)⟩, fun h => h.1⟩
      | some s' =>
          have := decidableMeets C s' ls
          decidable_of_iff (C s l ∧ Meets step C s' ls)
            ⟨fun h => ⟨h.1, fun t ht => Option.some.inj (hs.symm.trans ht) ▸ h.2⟩,
              fun h => ⟨h.1, h.2 s' hs⟩⟩

variable {step}

theorem exec_cons_eq_some {s t : σ} {l : ℓ} {ls : List ℓ} :
    exec step s (l :: ls) = some t ↔ ∃ s', step s l = some s' ∧ exec step s' ls = some t := by
  simp [exec, Option.bind_eq_some_iff]

theorem exec_append_eq_some {s t : σ} {ls ms : List ℓ} :
    exec step s (ls ++ ms) = some t ↔
      ∃ s', exec step s ls = some s' ∧ exec step s' ms = some t := by
  induction ls generalizing s with
  | nil => simp [exec]
  | cons l ls ih =>
      simp only [List.cons_append, exec_cons_eq_some, ih]
      constructor
      · rintro ⟨a, ha, b, hb, hc⟩; exact ⟨b, ⟨a, ha, hb⟩, hc⟩
      · rintro ⟨b, ⟨a, ha, hb⟩, hc⟩; exact ⟨a, ha, b, hb, hc⟩

/-- A condition on labels alone is met by the runs of such labels. -/
theorem meets_of_forall {P : ℓ → Prop} {ls : List ℓ} (h : ∀ l ∈ ls, P l) (s : σ) :
    Meets step (fun _ l => P l) s ls := by
  induction ls generalizing s with
  | nil => trivial
  | cons l ls ih =>
      exact ⟨h l (by simp), fun s' _ => ih (fun x hx => h x (List.mem_cons_of_mem _ hx)) s'⟩

/-- And it may be met along with any other. -/
theorem Meets.and_forall {C : σ → ℓ → Prop} {P : ℓ → Prop} {s : σ} {ls : List ℓ}
    (hm : Meets step C s ls) (h : ∀ l ∈ ls, P l) : Meets step (fun s l => C s l ∧ P l) s ls := by
  induction ls generalizing s with
  | nil => trivial
  | cons l ls ih =>
      exact ⟨⟨hm.1, h l (by simp)⟩,
        fun s' hs' => ih (hm.2 s' hs') (fun x hx => h x (List.mem_cons_of_mem _ hx))⟩

/-- The last step of a run meets what the whole run meets. -/
theorem Meets.last {C : σ → ℓ → Prop} {s t : σ} {ls : List ℓ} {l : ℓ}
    (hm : Meets step C s (ls ++ [l])) (h : exec step s ls = some t) :
    Meets step C s ls ∧ C t l := by
  induction ls generalizing s with
  | nil =>
      obtain rfl := Option.some.inj h
      exact ⟨trivial, hm.1⟩
  | cons x ls ih =>
      obtain ⟨s', h1, h2⟩ := exec_cons_eq_some.mp h
      obtain ⟨hrest, hlast⟩ := ih (hm.2 s' h1) h2
      refine ⟨⟨hm.1, fun y hy => ?_⟩, hlast⟩
      obtain rfl := Option.some.inj (hy.symm.trans h1)
      exact hrest

/-- And a run that goes through has only such labels. -/
theorem forall_of_meets {P : ℓ → Prop} {s t : σ} {ls : List ℓ}
    (hm : Meets step (fun _ l => P l) s ls) (h : exec step s ls = some t) : ∀ l ∈ ls, P l := by
  induction ls generalizing s with
  | nil => simp
  | cons l ls ih =>
      obtain ⟨s', h1, h2⟩ := exec_cons_eq_some.mp h
      intro x hx
      rcases List.mem_cons.mp hx with rfl | hx
      · exact hm.1
      · exact ih (hm.2 s' h1) h2 x hx

/-- A property preserved by every step is preserved by every run. -/
theorem exec_inv {I : σ → Prop} (hstep : ∀ s l s', I s → step s l = some s' → I s')
    {s t : σ} {ls : List ℓ} (hs : I s) (h : exec step s ls = some t) : I t := by
  induction ls generalizing s with
  | nil => obtain rfl := Option.some.inj h; exact hs
  | cons l ls ih =>
      obtain ⟨s', h1, h2⟩ := exec_cons_eq_some.mp h
      exact ih (hstep s l s' hs h1) h2

/-- A property preserved by every step that meets `C` is preserved by every run
whose steps all meet `C`. -/
theorem exec_inv_of_meets {C : σ → ℓ → Prop} {I : σ → Prop}
    (hstep : ∀ s l s', I s → C s l → step s l = some s' → I s')
    {s t : σ} {ls : List ℓ} (hs : I s) (hm : Meets step C s ls)
    (h : exec step s ls = some t) : I t := by
  induction ls generalizing s with
  | nil => obtain rfl := Option.some.inj h; exact hs
  | cons l ls ih =>
      obtain ⟨s', h1, h2⟩ := exec_cons_eq_some.mp h
      exact ih (hstep s l s' hs hm.1 h1) (hm.2 s' h1) h2

/-- When every violation of `C` is visible from the next state on, in the loss of `Q`,
a run keeps `Q` exactly when all its steps meet `C`. `J` is what holds regardless. -/
theorem exec_iff_meets {C : σ → ℓ → Prop} {J I Q : σ → Prop}
    (hJ : ∀ s l s', J s → step s l = some s' → J s')
    (hinv : ∀ s, I s → Q s)
    (hgood : ∀ s l s', J s → I s → C s l → step s l = some s' → I s')
    (hbad : ∀ s l s', J s → I s → ¬ C s l → step s l = some s' → ¬ Q s')
    (hstay : ∀ s l s', J s → ¬ Q s → step s l = some s' → ¬ Q s')
    {s t : σ} {ls : List ℓ} (hj : J s) (hs : I s) (h : exec step s ls = some t) :
    Q t ↔ Meets step C s ls := by
  induction ls generalizing s with
  | nil =>
      obtain rfl := Option.some.inj h
      exact ⟨fun _ => trivial, fun _ => hinv s hs⟩
  | cons l ls ih =>
      obtain ⟨s', h1, h2⟩ := exec_cons_eq_some.mp h
      have hj' := hJ s l s' hj h1
      by_cases hc : C s l
      · rw [ih hj' (hgood s l s' hj hs hc h1) h2]
        constructor
        · intro hm
          refine ⟨hc, fun x hx => ?_⟩
          rw [h1] at hx
          exact Option.some.inj hx ▸ hm
        · intro hm; exact hm.2 s' h1
      · have hlost : J t ∧ ¬ Q t :=
          exec_inv (I := fun x => J x ∧ ¬ Q x)
            (fun a l b hq hx => ⟨hJ a l b hq.1 hx, hstay a l b hq.1 hq.2 hx⟩)
            ⟨hj', hbad s l s' hj hs hc h1⟩ h2
        exact ⟨fun hq => absurd hq hlost.2, fun hm => absurd hm.1 hc⟩

theorem Throughout.start {Q : σ → Prop} {s : σ} {ls : List ℓ} (h : Throughout step Q s ls) : Q s := by
  cases ls with
  | nil => exact h
  | cons l ls => exact h.1

/-- When every violation of `C` shows in the next state, `Q` holds throughout a run exactly when
all its steps meet `C`. `F` is what the labels promise regardless. -/
theorem throughout_iff_meets {C F : σ → ℓ → Prop} {I Q : σ → Prop}
    (hinv : ∀ s, I s → Q s)
    (hgood : ∀ s l s', I s → F s l → C s l → step s l = some s' → I s')
    (hbad : ∀ s l s', I s → ¬ C s l → step s l = some s' → ¬ Q s')
    {s t : σ} {ls : List ℓ} (hs : I s) (hf : Meets step F s ls) (h : exec step s ls = some t) :
    Throughout step Q s ls ↔ Meets step C s ls := by
  induction ls generalizing s with
  | nil => exact ⟨fun _ => trivial, fun _ => hinv s hs⟩
  | cons l ls ih =>
      obtain ⟨s', h1, h2⟩ := exec_cons_eq_some.mp h
      have hunique : ∀ x, step s l = some x → x = s' := fun x hx =>
        Option.some.inj (hx.symm.trans h1)
      constructor
      · intro h
        obtain ⟨-, hrest⟩ := h
        by_cases hc : C s l
        · refine ⟨hc, fun x hx => ?_⟩
          obtain rfl := hunique x hx
          exact (ih (hgood s l x hs hf.1 hc hx) (hf.2 x hx) h2).mp (hrest x hx)
        · exact absurd (hrest s' h1).start (hbad s l s' hs hc h1)
      · intro h
        obtain ⟨hc, hrest⟩ := h
        refine ⟨hinv s hs, fun x hx => ?_⟩
        obtain rfl := hunique x hx
        exact (ih (hgood s l x hs hf.1 hc hx) (hf.2 x hx) h2).mpr (hrest x hx)

/-- A system in which every label is always enabled. -/
theorem exec_total (next : σ → ℓ → σ) (s : σ) (ls : List ℓ) :
    exec (fun s l => some (next s l)) s ls = some (ls.foldl next s) := by
  induction ls generalizing s with
  | nil => rfl
  | cons l ls ih => exact ih (next s l)

end Lts
