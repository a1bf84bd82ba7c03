import Mathlib.Order.Basic

/-!
# Bisection for the largest accepted size

The loop

    lo, hi, best = 1, n, None
    while lo <= hi:
        mid = (lo + hi) // 2
        if probe(mid) is accepted: best = its result; lo = mid + 1
        else: hi = mid - 1

over an arbitrary probe, which may itself fail. The number of rounds is bounded by
the width of the interval, which is the fuel.
-/

namespace Search

variable {ε β : Type}

/-- The loop body, `fuel` rounds at most. -/
def bisect (probe : Nat → Except ε (Option β)) :
    Nat → Nat → Nat → Option β → Except ε (Option β)
  | 0, _, _, best => .ok best
  | fuel + 1, lo, hi, best =>
      if lo ≤ hi then
        let mid := (lo + hi) / 2
        match probe mid with
        | .error e => .error e
        | .ok (some b) => bisect probe fuel (mid + 1) hi (some b)
        | .ok none => bisect probe fuel lo (mid - 1) best
      else .ok best

/-- The whole search over sizes `1 … n`. -/
def search (probe : Nat → Except ε (Option β)) (n : Nat) : Except ε (Option β) :=
  bisect probe n 1 n none

/-- The search with a probe that cannot fail. -/
def searchPure (probe : Nat → Option β) (n : Nat) : Option β :=
  match search (ε := Empty) (fun mid => .ok (probe mid)) n with
  | .ok best => best

/-- Whatever the search returns was accepted by the probe. -/
theorem bisect_accepted {probe : Nat → Except ε (Option β)} {P : β → Prop}
    (hp : ∀ mid b, probe mid = .ok (some b) → P b) {fuel lo hi : Nat} {best : Option β} {r : β}
    (hbest : ∀ b, best = some b → P b) (h : bisect probe fuel lo hi best = .ok (some r)) : P r := by
  induction fuel generalizing lo hi best with
  | zero => exact hbest r (by simpa [bisect] using h)
  | succ fuel ih =>
      unfold bisect at h
      split at h
      · dsimp only at h
        split at h
        · exact absurd h (by simp)
        · rename_i b hb
          exact ih (fun x hx => Option.some.inj hx ▸ hp _ b hb) h
        · exact ih hbest h
      · exact hbest r (by simpa using h)

theorem search_accepted {probe : Nat → Except ε (Option β)} {P : β → Prop}
    (hp : ∀ mid b, probe mid = .ok (some b) → P b) {n : Nat} {r : β}
    (h : search probe n = .ok (some r)) : P r :=
  bisect_accepted hp (fun _ hb => absurd hb (by simp)) h

/-- Whatever stops the search stopped the probe. -/
theorem bisect_error {probe : Nat → Except ε (Option β)} {fuel lo hi : Nat} {best : Option β} {e : ε}
    (h : bisect probe fuel lo hi best = .error e) : ∃ mid, probe mid = .error e := by
  induction fuel generalizing lo hi best with
  | zero => cases h
  | succ fuel ih =>
      unfold bisect at h
      split at h
      · dsimp only at h
        split at h
        · rename_i hprobe
          cases h
          exact ⟨_, hprobe⟩
        · exact ih h
        · exact ih h
      · cases h

theorem searchPure_accepted {probe : Nat → Option β} {P : β → Prop}
    (hp : ∀ mid b, probe mid = some b → P b) {n : Nat} {r : β}
    (h : searchPure probe n = some r) : P r := by
  have hfound : search (fun mid => (.ok (probe mid) : Except Empty (Option β))) n = .ok (some r) := by
    unfold searchPure at h
    split at h
    rename_i best hbest
    rw [hbest, h]
  exact search_accepted (fun mid b hb => hp mid b (Except.ok.inj hb)) hfound

end Search
