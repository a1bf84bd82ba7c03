import Mathlib.Data.Rat.Defs
import Mathlib.Algebra.Order.Ring.Rat
import YapInference.Lib.Text

/-!
# Python values: dictionaries, floats and JSON

Dictionaries are association lists in insertion order, with the three operations
the code uses: reading a key, assigning one and popping one. A float is an exact rational, an
infinity or a NaN: every finite binary64 value is a rational, so comparison is
exact, and the only rounding that has to be defined is the conversion from an
integer of any size, which is also the only conversion that can fail.
-/

namespace Py

/-! ## Dictionaries -/

/-- A `dict`, in insertion order. -/
abbrev Dict (κ ν : Type) := List (κ × ν)

namespace Dict

variable {κ ν : Type} [DecidableEq κ]

/-- `d.get(k)`. -/
def get? : Dict κ ν → κ → Option ν
  | [], _ => none
  | (k', v) :: d, k => if k' = k then some v else get? d k

/-- `d[k] = v`: an existing key keeps its place. -/
def set : Dict κ ν → κ → ν → Dict κ ν
  | [], k, v => [(k, v)]
  | (k', v') :: d, k, v => if k' = k then (k, v) :: d else (k', v') :: set d k v

/-- `d.keys()`. -/
def keys (d : Dict κ ν) : List κ := d.map Prod.fst

/-- `d.pop(k, None)`. -/
def erase (d : Dict κ ν) (k : κ) : Dict κ ν := d.filter fun p => p.1 ≠ k

@[simp] theorem get?_set_self (d : Dict κ ν) (k : κ) (v : ν) : get? (set d k v) k = some v := by
  induction d with
  | nil => simp [set, get?]
  | cons p d ih =>
      obtain ⟨k', v'⟩ := p
      by_cases h : k' = k
      · simp [set, get?, h]
      · simp [set, get?, h, ih]

theorem get?_set_ne (d : Dict κ ν) {k k₁ : κ} (v : ν) (h : k ≠ k₁) :
    get? (set d k v) k₁ = get? d k₁ := by
  induction d with
  | nil => simp [set, get?, h]
  | cons p d ih =>
      obtain ⟨k', v'⟩ := p
      by_cases hk : k' = k
      · subst hk; simp [set, get?, h]
      · by_cases hk₁ : k' = k₁
        · subst hk₁; simp [set, get?, hk]
        · simp [set, get?, hk, hk₁, ih]

theorem mem_keys_set {d : Dict κ ν} {k k₁ : κ} {v : ν} :
    k₁ ∈ keys (set d k v) ↔ k₁ = k ∨ k₁ ∈ keys d := by
  unfold keys
  induction d with
  | nil => simp [set]
  | cons p d ih =>
      obtain ⟨k', v'⟩ := p
      by_cases h : k' = k
      · simp [set, h]
      · rw [set, if_neg h, List.map_cons, List.mem_cons, ih, List.map_cons, List.mem_cons]
        exact or_left_comm

/-- An assignment adds no key twice. -/
theorem nodup_keys_set {d : Dict κ ν} (k : κ) (v : ν) (h : (keys d).Nodup) :
    (keys (set d k v)).Nodup := by
  induction d with
  | nil => simp [set, keys]
  | cons p d ih =>
      obtain ⟨k', v'⟩ := p
      obtain ⟨hnot, hrest⟩ := List.nodup_cons.mp h
      by_cases hk : k' = k
      · rw [set, if_pos hk]
        exact hk ▸ h
      · rw [set, if_neg hk]
        refine List.nodup_cons.mpr ⟨fun hmem => ?_, ih hrest⟩
        rcases mem_keys_set.mp hmem with heq | hmem
        · exact hk heq
        · exact hnot hmem

theorem mem_of_get? {d : Dict κ ν} {k : κ} {v : ν} (h : get? d k = some v) : (k, v) ∈ d := by
  induction d with
  | nil => exact absurd h (by simp [get?])
  | cons p d ih =>
      obtain ⟨k', v'⟩ := p
      unfold get? at h
      split at h
      · rename_i heq
        obtain rfl := Option.some.inj h
        exact heq ▸ List.mem_cons_self
      · exact List.mem_cons_of_mem _ (ih h)

/-- Where no key is there twice, an entry is the value of its key. -/
theorem get?_of_mem {d : Dict κ ν} {k : κ} {v : ν} (h : (keys d).Nodup) (hmem : (k, v) ∈ d) :
    get? d k = some v := by
  induction d with
  | nil => exact absurd hmem List.not_mem_nil
  | cons p d ih =>
      obtain ⟨k', v'⟩ := p
      obtain ⟨hnot, hrest⟩ := List.nodup_cons.mp h
      rcases List.mem_cons.mp hmem with heq | hmem
      · obtain ⟨rfl, rfl⟩ := Prod.mk.inj heq
        rw [get?, if_pos rfl]
      · have hkey : k ∈ keys d := List.mem_map.mpr ⟨(k, v), hmem, rfl⟩
        have hne : k' ≠ k := fun heq => hnot (heq ▸ hkey)
        rw [get?, if_neg hne]
        exact ih hrest hmem

@[simp] theorem get?_erase_self (d : Dict κ ν) (k : κ) : get? (erase d k) k = none := by
  induction d with
  | nil => rfl
  | cons p d ih =>
      obtain ⟨k', v'⟩ := p
      by_cases h : k' = k
      · simpa [erase, h] using ih
      · simpa [erase, get?, h] using ih

theorem get?_erase_ne (d : Dict κ ν) {k k₁ : κ} (h : k ≠ k₁) : get? (erase d k) k₁ = get? d k₁ := by
  induction d with
  | nil => rfl
  | cons p d ih =>
      obtain ⟨k', v'⟩ := p
      by_cases hk : k' = k
      · subst hk; simpa [erase, get?, h] using ih
      · by_cases hk₁ : k' = k₁
        · subst hk₁; simp [erase, get?, Ne.symm h]
        · simpa [erase, get?, hk, hk₁] using ih

end Dict

/-! ## Floats -/

/-- A Python `float`. -/
inductive PyFloat where
  | finite (q : ℚ)
  | inf (negative : Bool)
  | nan
  deriving DecidableEq

namespace PyFloat

/-- `a <= b`; every comparison with a NaN is false. -/
def le : PyFloat → PyFloat → Bool
  | nan, _ => false
  | _, nan => false
  | inf true, _ => true
  | _, inf false => true
  | inf false, _ => false
  | _, inf true => false
  | finite a, finite b => decide (a ≤ b)

/-- `float.is_integer`. -/
def isInteger : PyFloat → Bool
  | finite q => q.den == 1
  | _ => false

/-- Round a natural number to 53 significant bits, ties to even. -/
def roundNat (a : Nat) : Nat :=
  let s := a.log2 - 52
  let q := a / 2 ^ s
  let r := a % 2 ^ s
  let up := 2 * r > 2 ^ s || (2 * r == 2 ^ s && q % 2 == 1)
  (if s ≠ 0 && up then q + 1 else q) * 2 ^ s

/-- `float(n)`: `none` is the `OverflowError` of an integer too large to round to
a finite value. -/
def ofInt (n : Int) : Option PyFloat :=
  let a := roundNat n.natAbs
  if 2 ^ 1024 ≤ a then none else some (finite (if n < 0 then -(a : ℚ) else (a : ℚ)))

/-! ### The largest integer -/

/-- The significand of a number of `s + 53` bits, and what rounding does to it. -/
theorem roundNat_eq {a s : Nat} (hs : a.log2 = s + 52) :
    ∃ up : Nat, (up = 1 ↔ s ≠ 0 ∧ (2 ^ s < 2 * (a % 2 ^ s)
        ∨ (2 * (a % 2 ^ s) = 2 ^ s ∧ a / 2 ^ s % 2 = 1))) ∧ up ≤ 1
      ∧ roundNat a = (a / 2 ^ s + up) * 2 ^ s := by
  have hsub : a.log2 - 52 = s := by omega
  unfold roundNat
  rw [hsub]
  dsimp only
  split
  · rename_i hup
    exact ⟨1, by simpa using hup, le_refl _, rfl⟩
  · rename_i hup
    exact ⟨0, by simpa using hup, Nat.zero_le _, by rw [Nat.add_zero]⟩

theorem roundNat_of_lt {a : Nat} (ha : a < 2 ^ 53) : roundNat a = a := by
  have hlog : a.log2 - 52 = 0 := by
    by_cases h0 : a = 0
    · subst h0; rfl
    · have := (Nat.log2_lt h0).mpr ha
      omega
  simp [roundNat, hlog]

/-- The significand is 53 bits long. -/
theorem significand_bounds {a s : Nat} (hs : a.log2 = s + 52) :
    2 ^ 52 ≤ a / 2 ^ s ∧ a / 2 ^ s < 2 ^ 53 := by
  have h0 : a ≠ 0 := by
    intro h
    subst h
    exact absurd hs (by simp)
  have hlow : 2 ^ (s + 52) ≤ a := hs ▸ Nat.log2_self_le h0
  have hhigh : a < 2 ^ (s + 52 + 1) := (Nat.log2_lt h0).mp (by omega)
  constructor
  · rw [Nat.le_div_iff_mul_le (Nat.two_pow_pos s), ← Nat.pow_add, Nat.add_comm 52 s]
    exact hlow
  · rw [Nat.div_lt_iff_lt_mul (Nat.two_pow_pos s), ← Nat.pow_add, Nat.add_comm 53 s]
    exact hhigh

/-- A number rounds up to the next power of two from half a unit in the last place below it. -/
theorem two_pow_le_roundNat {a s : Nat} (hs : a.log2 = s + 1 + 52) :
    2 ^ (s + 1 + 53) ≤ roundNat a ↔ 2 ^ (s + 1 + 53) - 2 ^ s ≤ a := by
  obtain ⟨up, hup, hle, hround⟩ := roundNat_eq hs
  have hhigh := (significand_bounds hs).2
  have hunit : 2 ^ (s + 1) = 2 * 2 ^ s := by rw [pow_succ, Nat.mul_comm]
  have hdiv := Nat.div_add_mod a (2 ^ (s + 1))
  have hmod := Nat.mod_lt a (Nat.two_pow_pos (s + 1))
  have hpos := Nat.two_pow_pos s
  have htop : 2 ^ (s + 1 + 53) = 2 ^ 53 * 2 ^ (s + 1) := by rw [pow_add, Nat.mul_comm]
  rw [hround, htop, Nat.mul_le_mul_right_iff (Nat.two_pow_pos (s + 1))]
  rw [hunit] at hup hdiv hmod hhigh ⊢
  generalize a / (2 * 2 ^ s) = q at *
  generalize a % (2 * 2 ^ s) = r at *
  generalize 2 ^ s = u at *
  by_cases hq : q = 2 ^ 53 - 1
  · subst hq
    have hodd : (2 ^ 53 - 1) % 2 = 1 := rfl
    have hhalf : up = 1 ↔ u ≤ r := by
      rw [hup]
      omega
    omega
  · have hq' : 2 * u * q ≤ 2 * u * (2 ^ 53 - 2) := Nat.mul_le_mul_left _ (by omega)
    omega

/-- Rounding does not cross a power of two, -/
theorem roundNat_le_two_pow {a m : Nat} (ha : a < 2 ^ (m + 53)) : roundNat a ≤ 2 ^ (m + 53) := by
  rcases lt_or_ge a (2 ^ 53) with hsmall | hlarge
  · rw [roundNat_of_lt hsmall]
    exact ha.le
  · have h0 : a ≠ 0 := by
      intro h
      subst h
      exact absurd hlarge (by decide)
    have hlog : 53 ≤ a.log2 := (Nat.le_log2 h0).mpr hlarge
    have hlt : a.log2 < m + 53 := (Nat.log2_lt h0).mpr ha
    have hs : a.log2 = (a.log2 - 52) + 52 := by omega
    obtain ⟨up, -, hup, hround⟩ := roundNat_eq hs
    have hhigh := (significand_bounds hs).2
    rw [hround]
    calc (a / 2 ^ (a.log2 - 52) + up) * 2 ^ (a.log2 - 52)
        ≤ 2 ^ 53 * 2 ^ (a.log2 - 52) := Nat.mul_le_mul_right _ (by omega)
      _ = 2 ^ (a.log2 - 52 + 53) := by rw [pow_add, Nat.mul_comm]
      _ ≤ 2 ^ (m + 53) := Nat.pow_le_pow_right (by omega) (by omega)

/-- from either side. -/
theorem two_pow_le_roundNat_of_le {a m : Nat} (ha : 2 ^ (m + 53) ≤ a) :
    2 ^ (m + 53) ≤ roundNat a := by
  have h0 : a ≠ 0 := (Nat.lt_of_lt_of_le (Nat.two_pow_pos _) ha).ne'
  have hlog : m + 53 ≤ a.log2 := (Nat.le_log2 h0).mpr ha
  have hs : a.log2 = (a.log2 - 52) + 52 := by omega
  obtain ⟨up, -, -, hround⟩ := roundNat_eq hs
  have hlow := (significand_bounds hs).1
  rw [hround]
  calc 2 ^ (m + 53) ≤ 2 ^ (a.log2 - 52 + 52) := Nat.pow_le_pow_right (by omega) (by omega)
    _ = 2 ^ 52 * 2 ^ (a.log2 - 52) := by rw [pow_add, Nat.mul_comm]
    _ ≤ (a / 2 ^ (a.log2 - 52) + up) * 2 ^ (a.log2 - 52) := Nat.mul_le_mul_right _ (by omega)

theorem two_pow_le_roundNat_iff (a k : Nat) :
    2 ^ (k + 1 + 53) ≤ roundNat a ↔ 2 ^ (k + 1 + 53) - 2 ^ k ≤ a := by
  have htop : 2 ^ (k + 1 + 53) = 2 * 2 ^ (k + 53) := by rw [← pow_succ', Nat.add_right_comm]
  have hunit : 2 ^ k ≤ 2 ^ (k + 53) := Nat.pow_le_pow_right (by omega) (by omega)
  have hpos := Nat.two_pow_pos k
  rcases lt_or_ge a (2 ^ (k + 53)) with hlow | hlow
  · have := roundNat_le_two_pow hlow
    omega
  · rcases lt_or_ge a (2 ^ (k + 1 + 53)) with hhigh | hhigh
    · have h0 : a ≠ 0 := (Nat.lt_of_lt_of_le (Nat.two_pow_pos _) hlow).ne'
      have hlog : a.log2 = k + 1 + 52 := by
        have hle : k + 53 ≤ a.log2 := (Nat.le_log2 h0).mpr hlow
        have hlt : a.log2 < k + 1 + 53 := (Nat.log2_lt h0).mpr hhigh
        omega
      exact two_pow_le_roundNat hlog
    · exact iff_of_true (two_pow_le_roundNat_of_le hhigh) (Nat.le_trans (Nat.sub_le _ _) hhigh)

/-- **Which integers are too large for a float**: those that round to `2 ^ 1024`. -/
theorem ofInt_eq_none_iff (n : Int) : ofInt n = none ↔ 2 ^ 1024 - 2 ^ 970 ≤ n.natAbs := by
  have hround := two_pow_le_roundNat_iff n.natAbs 970
  rw [show 970 + 1 + 53 = 1024 from rfl] at hround
  rw [← hround]
  unfold ofInt
  dsimp only
  split
  · rename_i h
    exact iff_of_true rfl h
  · rename_i h
    exact iff_of_false (Option.some_ne_none _) h

end PyFloat

/-! ## JSON -/

/-- What `json.loads` returns. -/
inductive Json where
  | null
  | bool (b : Bool)
  | int (n : Int)
  | float (x : PyFloat)
  | str (s : Text)
  | list (xs : List Json)
  | obj (d : List (Text × Json))

namespace Json

/-- What holds of the scalars, of a list when it holds of the items, and of an object when it holds
of the values, holds of everything. -/
theorem induct {P : Json → Prop} (null : P null) (bool : ∀ b, P (bool b)) (int : ∀ n, P (int n))
    (float : ∀ x, P (float x)) (str : ∀ s, P (str s))
    (list : ∀ xs, (∀ x ∈ xs, P x) → P (list xs))
    (obj : ∀ d : List (Text × Json), (∀ p ∈ d, P p.2) → P (obj d)) (v : Json) : P v :=
  @Json.rec P (fun xs => ∀ x ∈ xs, P x) (fun d => ∀ p ∈ d, P p.2) (fun p => P p.2)
    null bool int float str list obj
    (fun _ h => absurd h List.not_mem_nil)
    (fun _ _ hx hxs => List.forall_mem_cons.mpr ⟨hx, hxs⟩)
    (fun _ h => absurd h List.not_mem_nil)
    (fun _ _ hp hd => List.forall_mem_cons.mpr ⟨hp, hd⟩)
    (fun _ _ hv => hv) v

/-- A value occurs in another, at any depth. -/
inductive Inside (v : Json) : Json → Prop
  | self : Inside v v
  | item {x : Json} {xs : List Json} (hx : x ∈ xs) (h : Inside v x) : Inside v (list xs)
  | value {p : Text × Json} {d : List (Text × Json)} (hp : p ∈ d) (h : Inside v p.2) :
      Inside v (obj d)

/-- Truth of a value, as `or` and `if` test it. -/
def truthy : Json → Bool
  | null => false
  | bool b => b
  | int n => n != 0
  | float x => x != .finite 0
  | str s => !s.isEmpty
  | list xs => !xs.isEmpty
  | obj d => !d.isEmpty

/-- `d.get(k)`, where an absent key and an explicit `null` are both `None`. -/
def get? (d : Dict Text Json) (k : Text) : Option Json :=
  match Dict.get? d k with
  | some null => none
  | v => v

/-- A field the schema declares as `str | None`. -/
def getText (d : Dict Text Json) (k : Text) : Option Text :=
  match get? d k with
  | some (str s) => some s
  | _ => none

end Json

end Py
