/-
The arithmetic of `float` (IEEE 754 binary32) as far as sums and comparisons need it.

A finite value is an integer multiple of the smallest subnormal 2^-149, so it is kept as that integer: `fin z` stands
for z · 2^-149. The magnitudes that occur are those with at most 24 significant bits below 2^128
(`Representable`), and the field of `fin` says so: a value that is not a float cannot be built. `+` is the exact sum
rounded to nearest, ties to even (`rnd`), overflowing to an infinity. The two zeros are one value here: no operation
below tells them apart.

- `rnd_rnd`: rounding is idempotent, so a rounded sum is representable.
- `Binary32` is an `AddZeroClass`: adding zero changes nothing, whatever the other summand.
-/
import Mathlib.Tactic
import Mathlib.Data.Nat.Log

namespace Rubbos.Core

/-- the weight 2^k of the last of the 24 significant bits of the magnitude n -/
def ulpExp (n : ℕ) : ℕ := n.log2 - 23

/-- round a magnitude to 24 significant bits, to nearest, ties to even -/
def rnd (n : ℕ) : ℕ :=
  if 2 * (n % 2 ^ ulpExp n) < 2 ^ ulpExp n ∨ 2 * (n % 2 ^ ulpExp n) = 2 ^ ulpExp n ∧ n / 2 ^ ulpExp n % 2 = 0 then
    n / 2 ^ ulpExp n * 2 ^ ulpExp n
  else (n / 2 ^ ulpExp n + 1) * 2 ^ ulpExp n

theorem rnd_of_dvd {n : ℕ} (h : 2 ^ ulpExp n ∣ n) : rnd n = n := by
  have hr : n % 2 ^ ulpExp n = 0 := Nat.mod_eq_zero_of_dvd h
  unfold rnd
  rw [if_pos (Or.inl (by rw [hr]; positivity))]
  exact Nat.div_mul_cancel h

theorem ulpExp_mul_le {m k : ℕ} (hm : m < 2 ^ 24) : ulpExp (m * 2 ^ k) ≤ k := by
  unfold ulpExp
  rcases Nat.eq_zero_or_pos m with rfl | hpos
  · simp
  · have hlog : (m * 2 ^ k).log2 < 24 + k := by
      rw [Nat.log2_lt (by positivity), pow_add]
      exact Nat.mul_lt_mul_of_pos_right hm (by positivity)
    omega

/-- a magnitude of at most 24 significant bits is kept -/
theorem rnd_mul {m k : ℕ} (hm : m ≤ 2 ^ 24) : rnd (m * 2 ^ k) = m * 2 ^ k := by
  apply rnd_of_dvd
  rcases Nat.lt_or_ge m (2 ^ 24) with hlt | hge
  · exact (pow_dvd_pow 2 (ulpExp_mul_le hlt)).trans (Dvd.intro_left m rfl)
  · -- the carry out of the last significand bit: 2^24 · 2^k = 2^23 · 2^(k+1)
    have he : m * 2 ^ k = 2 ^ 23 * 2 ^ (k + 1) := by
      rw [le_antisymm hm hge, ← pow_add, ← pow_add]; congr 1; omega
    rw [he]
    exact (pow_dvd_pow 2 (ulpExp_mul_le (by norm_num))).trans (Dvd.intro_left _ rfl)

theorem div_ulp_lt (n : ℕ) : n / 2 ^ ulpExp n < 2 ^ 24 := by
  rw [Nat.div_lt_iff_lt_mul (by positivity), ← pow_add]
  refine lt_of_lt_of_le (Nat.lt_log2_self (n := n)) (Nat.pow_le_pow_right (by norm_num) ?_)
  unfold ulpExp; omega

theorem rnd_eq_mul (n : ℕ) : ∃ m ≤ 2 ^ 24, rnd n = m * 2 ^ ulpExp n := by
  have hq := div_ulp_lt n
  unfold rnd
  split_ifs
  · exact ⟨_, hq.le, rfl⟩
  · exact ⟨_, hq, rfl⟩

theorem rnd_rnd (n : ℕ) : rnd (rnd n) = rnd n := by
  obtain ⟨m, hm, h⟩ := rnd_eq_mul n
  rw [h]
  exact rnd_mul hm

/-- 2^128, the first power of two beyond the finite floats, in units of 2^-149 -/
def overflow : ℕ := 2 ^ 128 * 2 ^ 149

/-- n · 2^-149 is the magnitude of a finite float -/
def Representable (n : ℕ) : Prop := rnd n = n ∧ n < overflow

instance (n : ℕ) : Decidable (Representable n) := by unfold Representable; infer_instance

inductive Binary32 where
  | nan
  | inf (neg : Bool)
  /-- z · 2^-149 -/
  | fin (z : ℤ) (repr : Representable z.natAbs)
deriving DecidableEq

namespace Binary32

/-- the float nearest to z · 2^-149, an infinity beyond the largest finite one -/
def ofExact (z : ℤ) : Binary32 :=
  if h : rnd z.natAbs < overflow then
    .fin (z.sign * rnd z.natAbs) (by
      have hrepr : Representable (rnd z.natAbs) := ⟨rnd_rnd _, h⟩
      rcases lt_trichotomy z 0 with hz | rfl | hz
      · simpa [Int.sign_eq_neg_one_of_neg hz] using hrepr
      · exact ⟨by decide, by simp [overflow]⟩
      · simpa [Int.sign_eq_one_of_pos hz] using hrepr)
  else .inf (decide (z < 0))

def add : Binary32 → Binary32 → Binary32
  | .nan, _ => .nan
  | _, .nan => .nan
  | .inf a, .inf b => if a = b then .inf a else .nan
  | .inf a, .fin _ _ => .inf a
  | .fin _ _, .inf b => .inf b
  | .fin x _, .fin y _ => ofExact (x + y)

/-- `x < y`: false as soon as one side is not a number -/
def blt : Binary32 → Binary32 → Bool
  | .nan, _ => false
  | _, .nan => false
  | .inf a, .inf b => a && !b
  | .inf a, .fin _ _ => a
  | .fin _ _, .inf b => !b
  | .fin x _, .fin y _ => decide (x < y)

instance : Zero Binary32 := ⟨.fin 0 (by decide)⟩

/-- 1 = 2^149 · 2^-149 -/
instance : One Binary32 :=
  ⟨.fin (2 ^ 149) ⟨by simpa using rnd_mul (m := 1) (k := 149) (by norm_num), by simp [overflow]⟩⟩

instance : Add Binary32 := ⟨add⟩
instance : LT Binary32 := ⟨fun x y => blt x y = true⟩
instance : LE Binary32 := ⟨fun x y => blt x y = true ∨ x = y ∧ x ≠ .nan⟩
instance : DecidableLT Binary32 := fun x y => inferInstanceAs (Decidable (blt x y = true))
instance : DecidableLE Binary32 := fun x y => inferInstanceAs (Decidable (blt x y = true ∨ x = y ∧ x ≠ .nan))

theorem ofExact_of_representable {z : ℤ} (h : Representable z.natAbs) : ofExact z = .fin z h := by
  have hz : z.sign * (rnd z.natAbs : ℤ) = z := by rw [h.1]; exact Int.sign_mul_natAbs z
  unfold ofExact
  rw [dif_pos (by rw [h.1]; exact h.2)]
  simp only [fin.injEq]
  exact hz

instance : AddZeroClass Binary32 where
  zero_add x := by
    change add (.fin 0 _) x = x
    cases x with
    | nan => rfl
    | inf b => rfl
    | fin z h => simp only [add, zero_add]; exact ofExact_of_representable h
  add_zero x := by
    change add x (.fin 0 _) = x
    cases x with
    | nan => rfl
    | inf b => rfl
    | fin z h => simp only [add, add_zero]; exact ofExact_of_representable h

theorem not_lt_of_le {x y : Binary32} (h : y ≤ x) : ¬ x < y := by
  intro hlt
  change blt x y = true at hlt
  rcases h with h | ⟨rfl, -⟩
  · cases x <;> cases y <;> simp_all [blt]
    omega
  · cases y <;> simp [blt] at hlt

end Binary32

end Rubbos.Core
