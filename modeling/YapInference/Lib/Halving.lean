import YapInference.Lib.Search

/-!
# The sizes a bisection tries

A bisection whose probe is monotone finds the largest accepted size. Nothing makes a
probe monotone here, and then the answer depends on the sizes the loop happens to try.
Which those are on the way to a given size is a matter of halving alone. So the loop ends
with the answer at a size exactly when, on the halving path to it, everything up to it is
accepted and everything above it rejected, and that is the largest accepted size of all as
long as nothing below it on its path is rejected.
-/

namespace Search

variable {ε β : Type} {probe : Nat → Except ε (Option β)}

/-- The halving path to a size: what the loop tries when it accepts up to `target`. -/
def pathFrom (target : Nat) : Nat → Nat → Nat → List Nat
  | 0, _, _ => []
  | fuel + 1, lo, hi =>
      if lo ≤ hi then
        let mid := (lo + hi) / 2
        mid :: if mid ≤ target then pathFrom target fuel (mid + 1) hi
          else pathFrom target fuel lo (mid - 1)
      else []

/-- The halving path from the sizes `1 … n` to one of them. -/
def path (target n : Nat) : List Nat := pathFrom target n 1 n

/-- Halving ends at `k`: everything on the path to it is accepted up to `k`, and rejected above. -/
def Settles (accepted rejected : Nat → Prop) (n k : Nat) : Prop :=
  1 ≤ k ∧ k ≤ n ∧ ∀ m ∈ path k n, (m ≤ k → accepted m) ∧ (k < m → rejected m)

/-! ## One round -/

theorem bisect_of_le {fuel lo hi : Nat} {best : Option β} (h : lo ≤ hi) :
    bisect probe (fuel + 1) lo hi best
      = match probe ((lo + hi) / 2) with
        | .error e => .error e
        | .ok (some b) => bisect probe fuel ((lo + hi) / 2 + 1) hi (some b)
        | .ok none => bisect probe fuel lo ((lo + hi) / 2 - 1) best :=
  if_pos h

theorem bisect_of_lt {fuel lo hi : Nat} {best : Option β} (h : hi < lo) :
    bisect probe fuel lo hi best = .ok best := by
  cases fuel with
  | zero => rfl
  | succ fuel => rw [bisect, if_neg (by omega)]

theorem pathFrom_of_le {target fuel lo hi : Nat} (h : lo ≤ hi) :
    pathFrom target (fuel + 1) lo hi
      = (lo + hi) / 2 :: if (lo + hi) / 2 ≤ target then pathFrom target fuel ((lo + hi) / 2 + 1) hi
          else pathFrom target fuel lo ((lo + hi) / 2 - 1) := by
  rw [pathFrom, if_pos h]

theorem mem_pathFrom {target fuel lo hi m : Nat} (h : m ∈ pathFrom target fuel lo hi) :
    lo ≤ m ∧ m ≤ hi := by
  induction fuel generalizing lo hi with
  | zero => exact absurd h (by simp [pathFrom])
  | succ fuel ih =>
      rcases Nat.lt_or_ge hi lo with hlt | hle
      · exact absurd h (by simp [pathFrom, Nat.not_le.mpr hlt])
      · rw [pathFrom_of_le hle] at h
        rcases List.mem_cons.mp h with rfl | h
        · omega
        · split at h
          · have := ih h
            omega
          · have := ih h
            omega

/-! ## The loop follows a path -/

/-- A path gets to where it leads. -/
theorem mem_pathFrom_self {target fuel lo hi : Nat} (hlo : 1 ≤ lo) (hfuel : hi + 1 ≤ lo + fuel)
    (hge : lo ≤ target) (hle : target ≤ hi) : target ∈ pathFrom target fuel lo hi := by
  induction fuel generalizing lo hi with
  | zero => omega
  | succ fuel ih =>
      rw [pathFrom_of_le (by omega)]
      rcases Nat.lt_trichotomy ((lo + hi) / 2) target with hlt | heq | hgt
      · rw [if_pos (by omega)]
        exact List.mem_cons_of_mem _ (ih (by omega) (by omega) (by omega) hle)
      · rw [heq]
        exact List.mem_cons_self ..
      · rw [if_neg (by omega)]
        exact List.mem_cons_of_mem _ (ih hlo (by omega) hge (by omega))

theorem mem_path_self {target n : Nat} (hpos : 1 ≤ target) (hle : target ≤ n) :
    target ∈ path target n :=
  mem_pathFrom_self (Nat.le_refl 1) (by omega) hpos hle

/-- Rounds left over change nothing: the loop ends because the interval is empty. -/
theorem bisect_fuel {fuel lo hi : Nat} {best : Option β} (hlo : 1 ≤ lo) (h : hi + 1 ≤ lo + fuel)
    (extra : Nat) : bisect probe (fuel + extra) lo hi best = bisect probe fuel lo hi best := by
  induction fuel generalizing lo hi best with
  | zero => rw [bisect_of_lt (by omega), bisect_of_lt (by omega)]
  | succ fuel ih =>
      rcases Nat.lt_or_ge hi lo with hlt | hle
      · rw [bisect_of_lt hlt, bisect_of_lt hlt]
      · rw [Nat.add_right_comm, bisect_of_le hle, bisect_of_le hle]
        cases probe ((lo + hi) / 2) with
        | error e => rfl
        | ok found =>
            cases found with
            | none => exact ih hlo (by omega)
            | some b => exact ih (by omega) (by omega)

/-- **A loop whose probe accepts, on the path to `target`, up to `target` and no further,
ends there.** -/
theorem bisect_reaches {fuel lo hi target : Nat} {best : Option β} {b : β} (hlo : 1 ≤ lo)
    (hfuel : hi + 1 ≤ lo + fuel) (hle : target ≤ hi) (hge : lo ≤ target + 1)
    (hdone : target < lo → best = some b) (htarget : probe target = .ok (some b))
    (haccept : ∀ m ∈ pathFrom target fuel lo hi, m ≤ target → ∃ b', probe m = .ok (some b'))
    (hreject : ∀ m ∈ pathFrom target fuel lo hi, target < m → probe m = .ok none) :
    bisect probe fuel lo hi best = .ok (some b) := by
  induction fuel generalizing lo hi best with
  | zero => rw [bisect_of_lt (by omega), hdone (by omega)]
  | succ fuel ih =>
      rcases Nat.lt_or_ge hi lo with hlt | hlohi
      · rw [bisect_of_lt hlt, hdone (by omega)]
      · rw [bisect_of_le hlohi]
        rw [pathFrom_of_le hlohi] at haccept hreject
        rcases Nat.lt_or_ge target ((lo + hi) / 2) with hover | hunder
        · rw [if_neg (by omega)] at haccept hreject
          rw [hreject _ (List.mem_cons_self ..) hover]
          exact ih hlo (by omega) (by omega) hge hdone
            (fun m hm => haccept m (List.mem_cons_of_mem _ hm))
            (fun m hm => hreject m (List.mem_cons_of_mem _ hm))
        · rw [if_pos hunder] at haccept hreject
          obtain ⟨b', hb'⟩ := haccept _ (List.mem_cons_self ..) hunder
          rw [hb']
          refine ih (by omega) (by omega) hle (by omega) ?_
            (fun m hm => haccept m (List.mem_cons_of_mem _ hm))
            (fun m hm => hreject m (List.mem_cons_of_mem _ hm))
          intro hpassed
          -- only a round that tried the target itself passes it
          have hmid : (lo + hi) / 2 = target := by omega
          rw [hmid, htarget] at hb'
          exact (Option.some.inj (Except.ok.inj hb')) ▸ rfl

/-- **A loop that returns has followed the path to its answer**: it found nothing, or its answer
is that of a size it accepted, with nothing rejected below it and nothing accepted above. -/
theorem bisect_path {fuel lo hi : Nat} {best r : Option β} (hlo : 1 ≤ lo)
    (h : bisect probe fuel lo hi best = .ok r) :
    (r = best ∧ ∀ m ∈ pathFrom (lo - 1) fuel lo hi, probe m = .ok none)
      ∨ ∃ k b, lo ≤ k ∧ k ≤ hi ∧ probe k = .ok (some b) ∧ r = some b
          ∧ ∀ m ∈ pathFrom k fuel lo hi,
              (m ≤ k → ∃ b', probe m = .ok (some b')) ∧ (k < m → probe m = .ok none) := by
  induction fuel generalizing lo hi best with
  | zero => exact Or.inl ⟨(Except.ok.inj h).symm, by simp [pathFrom]⟩
  | succ fuel ih =>
      rcases Nat.lt_or_ge hi lo with hlt | hle
      · rw [bisect_of_lt hlt] at h
        exact Or.inl ⟨(Except.ok.inj h).symm, by simp [pathFrom, Nat.not_le.mpr hlt]⟩
      · rw [bisect_of_le hle] at h
        simp only [pathFrom_of_le hle]
        cases hprobe : probe ((lo + hi) / 2) with
        | error e => rw [hprobe] at h; cases h
        | ok found =>
            rw [hprobe] at h
            cases found with
            | none =>
                -- everything tried after a rejection is smaller
                rcases ih hlo h with ⟨hr, hall⟩ | ⟨k, b, hk, hk', hb, hr, hall⟩
                · refine Or.inl ⟨hr, fun m hm => ?_⟩
                  rw [if_neg (by omega)] at hm
                  rcases List.mem_cons.mp hm with rfl | hm
                  · exact hprobe
                  · exact hall m hm
                · refine Or.inr ⟨k, b, hk, by omega, hb, hr, fun m hm => ?_⟩
                  rw [if_neg (by omega)] at hm
                  rcases List.mem_cons.mp hm with rfl | hm
                  · exact ⟨fun _ => by omega, fun _ => hprobe⟩
                  · exact hall m hm
            | some b' =>
                -- everything tried after an acceptance is larger
                rcases ih (by omega) h with ⟨hr, hall⟩ | ⟨k, b, hk, hk', hb, hr, hall⟩
                · refine Or.inr ⟨_, b', by omega, by omega, hprobe, hr, fun m hm => ?_⟩
                  rw [if_pos (Nat.le_refl _)] at hm
                  rcases List.mem_cons.mp hm with rfl | hm
                  · exact ⟨fun _ => ⟨b', hprobe⟩, fun h => absurd h (Nat.lt_irrefl _)⟩
                  · have habove := (mem_pathFrom hm).1
                    exact ⟨fun h => by omega, fun _ => hall m hm⟩
                · refine Or.inr ⟨k, b, by omega, hk', hb, hr, fun m hm => ?_⟩
                  rw [if_pos (by omega)] at hm
                  rcases List.mem_cons.mp hm with rfl | hm
                  · exact ⟨fun _ => ⟨b', hprobe⟩, fun h => by omega⟩
                  · exact hall m hm

/-- **The answer of a search is that of the size halving settles on.** -/
theorem search_eq_some_iff {n : Nat} {b : β} :
    search probe n = .ok (some b)
      ↔ ∃ k, Settles (fun m => ∃ b', probe m = .ok (some b')) (fun m => probe m = .ok none) n k
          ∧ probe k = .ok (some b) := by
  constructor
  · intro h
    rcases bisect_path (Nat.le_refl 1) h with ⟨hr, -⟩ | ⟨k, b', hk, hkn, hb', hr, hall⟩
    · cases hr
    · cases hr
      exact ⟨k, ⟨hk, hkn, hall⟩, hb'⟩
  · intro h
    obtain ⟨k, hsettles, hb⟩ := h
    obtain ⟨hk, hkn, hall⟩ := hsettles
    exact bisect_reaches (Nat.le_refl 1) (by omega) hkn (by omega) (fun hlt => by omega) hb
      (fun m hm => (hall m hm).1) (fun m hm => (hall m hm).2)

/-- **When the answer is a good one**: on the path to every size whose answer is a bad one,
something up to it is not accepted or something above it is not rejected. -/
theorem search_good_iff (probe : Nat → Except ε (Option β)) (n : Nat) (good : β → Prop) :
    (∀ b, search probe n = .ok (some b) → good b)
      ↔ ∀ k, 1 ≤ k → k ≤ n → ∀ b, probe k = .ok (some b) → ¬ good b →
          ∃ m ∈ path k n, (m ≤ k ∧ ∀ b', probe m ≠ .ok (some b')) ∨ (k < m ∧ probe m ≠ .ok none) := by
  constructor
  · intro hgood k hk hkn b hb hbad
    by_contra hnone
    -- with nothing in the way halving ends there
    refine hbad (hgood b (search_eq_some_iff.mpr
      ⟨k, ⟨hk, hkn, fun m hm => ⟨fun hle => ?_, fun hlt => ?_⟩⟩, hb⟩))
    · by_contra hother
      exact hnone ⟨m, hm, Or.inl ⟨hle, fun b' hb' => hother ⟨b', hb'⟩⟩⟩
    · by_contra hother
      exact hnone ⟨m, hm, Or.inr ⟨hlt, hother⟩⟩
  · intro hpath b h
    by_contra hbad
    obtain ⟨k, hsettles, hb⟩ := search_eq_some_iff.mp h
    obtain ⟨hk, hkn, hall⟩ := hsettles
    obtain ⟨m, hm, hbelow | habove⟩ := hpath k hk hkn b hb hbad
    · obtain ⟨b', hb'⟩ := (hall m hm).1 hbelow.1
      exact hbelow.2 b' hb'
    · exact habove.2 ((hall m hm).2 habove.1)

/-! ## Against a linear scan -/

/-- The largest accepted size up to `n`, looked for from the top. -/
def scan (probe : Nat → Option β) : Nat → Option β
  | 0 => none
  | n + 1 =>
      match probe (n + 1) with
      | some b => some b
      | none => scan probe n

/-- The largest accepted size among `1 … n`. -/
structure IsLongest (probe : Nat → Option β) (n target : Nat) : Prop where
  pos : 1 ≤ target
  le : target ≤ n
  accepted : (probe target).isSome = true
  /-- Nothing above it is accepted. -/
  above : ∀ m, target < m → m ≤ n → probe m = none

theorem scan_cases (probe : Nat → Option β) (n : Nat) :
    (scan probe n = none ∧ ∀ m, 1 ≤ m → m ≤ n → probe m = none)
      ∨ ∃ target, IsLongest probe n target ∧ scan probe n = probe target := by
  induction n with
  | zero => exact Or.inl ⟨rfl, fun m h h' => by omega⟩
  | succ n ih =>
      rw [scan]
      cases hprobe : probe (n + 1) with
      | some b =>
          refine Or.inr ⟨n + 1, ⟨by omega, Nat.le_refl _, by rw [hprobe]; rfl, ?_⟩, hprobe.symm⟩
          intro m h h'
          omega
      | none =>
          have hextend : ∀ m, m ≤ n + 1 → (m ≤ n → probe m = none) → probe m = none := by
            intro m hm hrest
            rcases Nat.lt_or_ge n m with hlt | hle
            · rw [show m = n + 1 by omega, hprobe]
            · exact hrest hle
          rcases ih with ⟨hnone, hall⟩ | ⟨target, hlong, hscan⟩
          · exact Or.inl ⟨hnone, fun m h hm => hextend m hm (hall m h)⟩
          · exact Or.inr ⟨target, ⟨hlong.pos, by have := hlong.le; omega, hlong.accepted,
              fun m h hm => hextend m hm (hlong.above m h)⟩, hscan⟩

theorem IsLongest.unique {probe : Nat → Option β} {n s t : Nat} (hs : IsLongest probe n s)
    (ht : IsLongest probe n t) : s = t := by
  rcases Nat.lt_trichotomy s t with h | h | h
  · have := ht.accepted
    rw [hs.above t h ht.le] at this
    cases this
  · exact h
  · have := hs.accepted
    rw [ht.above s h hs.le] at this
    cases this

/-- What is asked of every largest size is asked of the one there is. -/
theorem IsLongest.forall_iff {probe : Nat → Option β} {n t : Nat} (h : IsLongest probe n t)
    {P : Nat → Prop} : (∀ s, IsLongest probe n s → P s) ↔ P t :=
  ⟨fun hall => hall t h, fun ht _ hs => hs.unique h ▸ ht⟩

theorem scan_of_isLongest {probe : Nat → Option β} {n target : Nat}
    (h : IsLongest probe n target) : scan probe n = probe target := by
  rcases scan_cases probe n with ⟨-, hnone⟩ | ⟨t, ht, hscan⟩
  · have := h.accepted
    rw [hnone target h.pos h.le] at this
    cases this
  · rw [hscan, ht.unique h]

/-- The loop of a search whose probe cannot fail. -/
theorem search_pure (probe : Nat → Option β) (n : Nat) :
    search (ε := Empty) (fun mid => .ok (probe mid)) n = .ok (searchPure probe n) := by
  unfold searchPure
  split
  rename_i best hbest
  exact hbest

/-- Halving over what a probe that cannot fail accepts ends at `k`. -/
abbrev SettlesOn (probe : Nat → Option β) (n k : Nat) : Prop :=
  Settles (fun m => (probe m).isSome = true) (fun m => probe m = none) n k

theorem searchPure_eq_some_iff {probe : Nat → Option β} {n : Nat} {b : β} :
    searchPure probe n = some b ↔ ∃ k, SettlesOn probe n k ∧ probe k = some b := by
  have hsearch := @search_eq_some_iff Empty β (fun m => .ok (probe m)) n b
  rw [search_pure] at hsearch
  simpa only [SettlesOn, Except.ok.injEq, Option.isSome_iff_exists] using hsearch

theorem searchPure_good_iff (probe : Nat → Option β) (n : Nat) (good : β → Prop) :
    (∀ b, searchPure probe n = some b → good b)
      ↔ ∀ k, 1 ≤ k → k ≤ n → ∀ b, probe k = some b → ¬ good b →
          ∃ m ∈ path k n, (m ≤ k ∧ probe m = none) ∨ (k < m ∧ (probe m).isSome = true) := by
  have hgood := search_good_iff (ε := Empty) (fun m => .ok (probe m)) n good
  rw [search_pure] at hgood
  simpa only [Except.ok.injEq, ne_eq, ← Option.eq_none_iff_forall_ne_some,
    Option.isSome_iff_ne_none] using hgood

/-- What a probe that may fail accepts. -/
def accepts (probe : Nat → Except ε (Option β)) (m : Nat) : Option β :=
  match probe m with
  | .ok r => r
  | .error _ => none

/-- A loop that returns made no use of failures. -/
theorem bisect_accepts {fuel lo hi : Nat} {best r : Option β}
    (h : bisect probe fuel lo hi best = .ok r) :
    bisect (ε := Empty) (fun m => .ok (accepts probe m)) fuel lo hi best = .ok r := by
  induction fuel generalizing lo hi best with
  | zero => exact congrArg Except.ok (Except.ok.inj h)
  | succ fuel ih =>
      rcases Nat.lt_or_ge hi lo with hlt | hle
      · rw [bisect_of_lt hlt] at h ⊢
        exact congrArg Except.ok (Except.ok.inj h)
      · rw [bisect_of_le hle] at h ⊢
        cases hprobe : probe ((lo + hi) / 2) with
        | error e => rw [hprobe] at h; cases h
        | ok found =>
            have hsame : accepts probe ((lo + hi) / 2) = found := by rw [accepts, hprobe]
            rw [hprobe] at h
            rw [hsame]
            cases found with
            | none => exact ih h
            | some b => exact ih h

theorem search_accepts {n : Nat} {r : Option β} (h : search probe n = .ok r) :
    searchPure (accepts probe) n = r := by
  have hpure := search_pure (accepts probe) n
  rw [search, bisect_accepts h] at hpure
  exact (Except.ok.inj hpure).symm

theorem accepts_eq_some {m : Nat} {b : β} : accepts probe m = some b ↔ probe m = .ok (some b) := by
  unfold accepts
  cases probe m <;> simp

/-- Nothing above the largest accepted size is in the way of halving to it. -/
theorem IsLongest.settlesOn_iff {probe : Nat → Option β} {n target : Nat}
    (h : IsLongest probe n target) :
    SettlesOn probe n target ↔ ∀ m ∈ path target n, m < target → (probe m).isSome = true := by
  constructor
  · exact fun hsettles m hm hlt => (hsettles.2.2 m hm).1 (Nat.le_of_lt hlt)
  · intro hbelow
    refine ⟨h.pos, h.le, fun m hm => ⟨fun hle => ?_, fun hlt => h.above m hlt (mem_pathFrom hm).2⟩⟩
    rcases Nat.lt_or_eq_of_le hle with hlt | rfl
    · exact hbelow m hm hlt
    · exact h.accepted

/-- **The search agrees with the scan exactly when nothing on the halving path to the
largest accepted size is rejected below it**, or halving settles instead on a smaller size that
happens to give the same answer. -/
theorem searchPure_eq_scan_iff (probe : Nat → Option β) (n : Nat) :
    searchPure probe n = scan probe n
      ↔ ∀ target, IsLongest probe n target →
          (∀ m ∈ path target n, m < target → (probe m).isSome = true)
            ∨ ∃ k < target, SettlesOn probe n k ∧ probe k = probe target := by
  constructor
  · intro heq target hlong
    obtain ⟨b, hb⟩ := Option.isSome_iff_exists.mp hlong.accepted
    rw [scan_of_isLongest hlong, hb] at heq
    obtain ⟨k, hsettles, hk⟩ := searchPure_eq_some_iff.mp heq
    have hkt : k ≤ target := by
      by_contra hlt
      rw [hlong.above k (by omega) hsettles.2.1] at hk
      cases hk
    rcases Nat.lt_or_eq_of_le hkt with hlt | rfl
    · exact Or.inr ⟨k, hlt, hsettles, hk.trans hb.symm⟩
    · exact Or.inl (hlong.settlesOn_iff.mp hsettles)
  · intro hpath
    rcases scan_cases probe n with ⟨hscan, hnone⟩ | ⟨target, hlong, hscan⟩
    · rw [hscan, Option.eq_none_iff_forall_ne_some]
      intro b hb
      obtain ⟨k, hsettles, hk⟩ := searchPure_eq_some_iff.mp hb
      rw [hnone k hsettles.1 hsettles.2.1] at hk
      cases hk
    · obtain ⟨b, hb⟩ := Option.isSome_iff_exists.mp hlong.accepted
      rw [hscan, hb, searchPure_eq_some_iff]
      rcases hpath target hlong with hbelow | ⟨k, -, hsettles, hsame⟩
      · exact ⟨target, hlong.settlesOn_iff.mpr hbelow, hb⟩
      · exact ⟨k, hsettles, hsame.trans hb⟩

end Search
