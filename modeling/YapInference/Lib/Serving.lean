import Mathlib.Data.List.Induction
import YapInference.Lib.Lts

/-!
# Serving one request at a time

A server takes a request, answers it, and only then takes the next. What answers a request can
depend on what it meets at the server when its turn comes. A `Policy` says which requests want an
answer and what answers them; the server may give up at any moment, and nothing follows that.

`exec_served` reads accepted traffic as what a client makes of it: requests served one after
another, each with what it met and the one answer it wants, and what is left unfinished at the end.
-/

namespace Serving

open Lts

/-- Which requests want an answer, and what answers them where they met this, if anything. -/
structure Policy (α μ β : Type*) where
  wants : α → Bool
  answers : α → Option μ → β → Prop

/-- What passes between client and server. -/
inductive Event (α μ β : Type*) where
  | ask (a : α)
  /-- The request is worked on, and meets this. -/
  | meet (m : μ)
  | answer (b : β)
  | giveUp

/-- Where the server is. -/
inductive State (α μ : Type*) where
  | free
  | owes (a : α) (met : Option μ)
  | closed

variable {α μ β : Type*} {p : Policy α μ β}

open Classical in
/-- **What may come next.** -/
noncomputable def Policy.step (p : Policy α μ β) : State α μ → Event α μ β → Option (State α μ)
  | .free, .ask a => some (if p.wants a then .owes a none else .free)
  | .owes a none, .meet m => some (.owes a (some m))
  | .owes a met, .answer b => if p.answers a met b then some .free else none
  | .free, .giveUp | .owes _ _, .giveUp => some .closed
  | _, _ => none

theorem step_answer_eq_some {a : α} {met : Option μ} {b : β} {s : State α μ} :
    p.step (.owes a met) (.answer b) = some s ↔ p.answers a met b ∧ s = .free := by
  by_cases h : p.answers a met b
  · cases met <;> simp [Policy.step, h, eq_comm]
  · cases met <;> simp [Policy.step, h]

theorem step_giveUp {s : State α μ} (h : s ≠ .closed) : p.step s .giveUp = some .closed := by
  cases s with
  | free => rfl
  | owes _ met => cases met <;> rfl
  | closed => exact absurd rfl h

/-- A request with what it met and the answer it wants. -/
structure Served (p : Policy α μ β) where
  request : α
  met : Option μ
  response : Option β
  wanted : response.isSome = p.wants request
  /-- A request that wants no answer is not worked on. -/
  idle : response = none → met = none
  answers : ∀ b, response = some b → p.answers request met b

/-- A request that has not been answered. -/
def asked (request : α) (met : Option μ) : List (Event α μ β) := .ask request :: met.toList.map .meet

/-- How a request passes. -/
def Served.events (s : Served p) : List (Event α μ β) :=
  asked s.request s.met ++ s.response.toList.map .answer

/-- What is left unfinished in a state. -/
inductive Unfinished (p : Policy α μ β) : State α μ → List (Event α μ β) → Prop
  | free : Unfinished p .free []
  | owes {a : α} (met : Option μ) (hwants : p.wants a = true) :
      Unfinished p (.owes a met) (asked a met)
  | idle : Unfinished p .closed [.giveUp]
  | closed (a : α) (met : Option μ) : Unfinished p .closed (asked a met ++ [.giveUp])

/-- **Accepted traffic is requests served one after another.** -/
theorem exec_served {events : List (Event α μ β)} {s : State α μ}
    (h : exec p.step .free events = some s) :
    ∃ (served : List (Served p)) (rest : List (Event α μ β)),
      events = served.flatMap Served.events ++ rest ∧ Unfinished p s rest := by
  induction events using List.reverseRecOn generalizing s with
  | nil =>
      obtain rfl := Option.some.inj h
      exact ⟨[], [], rfl, .free⟩
  | append_singleton events e ih =>
      obtain ⟨s₀, h₀, hlast⟩ := exec_append_eq_some.mp h
      obtain ⟨s', hs, hend⟩ := exec_cons_eq_some.mp hlast
      obtain rfl := Option.some.inj hend
      obtain ⟨served, rest, rfl, hrest⟩ := ih h₀
      cases hrest with
      | free =>
          cases e with
          | ask a =>
              obtain rfl := Option.some.inj hs
              cases hwants : p.wants a with
              | true => exact ⟨served, [.ask a], by simp, .owes none hwants⟩
              | false =>
                  refine ⟨served ++ [⟨a, none, none, hwants.symm, fun _ => rfl,
                    fun b hb => by cases hb⟩], [], ?_, .free⟩
                  simp [Served.events, asked]
          | meet m => cases hs
          | answer b => cases hs
          | giveUp =>
              obtain rfl := Option.some.inj hs
              exact ⟨served, [.giveUp], by simp, .idle⟩
      | @owes a met hwants =>
          cases e with
          | ask a' => cases met <;> cases hs
          | meet m =>
              cases met with
              | none =>
                  obtain rfl := Option.some.inj hs
                  exact ⟨served, asked a (some m), by simp [asked], .owes (some m) hwants⟩
              | some m' => cases hs
          | answer b =>
              obtain ⟨hanswers, rfl⟩ := step_answer_eq_some.mp hs
              refine ⟨served ++ [⟨a, met, some b, hwants.symm, fun h => (by cases h),
                fun b' hb => Option.some.inj hb ▸ hanswers⟩], [], ?_, .free⟩
              simp [Served.events]
          | giveUp =>
              have hs : some State.closed = some s' := by cases met <;> exact hs
              obtain rfl := Option.some.inj hs
              exact ⟨served, asked a met ++ [.giveUp], by simp, .closed a met⟩
      | idle | closed => cases e <;> cases hs

end Serving
