/-
Casts of a number to an integer.

All languages cut the fraction off. In C the result must be in the range of the type; in Java it is then moved into the range.

- `toInt_le`: a cast makes a number that is not negative no larger.
-/
import Mathlib.Data.Rat.Floor
import Mathlib.Tactic

namespace Rubbos.Core

/-- the number without its fraction -/
def truncate (x : ℚ) : ℤ := if x < 0 then ⌈x⌉ else ⌊x⌋

/-- Java's `(int)x` -/
def toInt (x : ℚ) : ℤ := max (-2 ^ 31) (min (2 ^ 31 - 1) (truncate x))

/-- Java's `(long)x` -/
def toLong (x : ℚ) : ℤ := max (-2 ^ 63) (min (2 ^ 63 - 1) (truncate x))

@[simp] theorem truncate_intCast (n : ℤ) : truncate n = n := by
  unfold truncate
  split <;> simp

theorem truncate_of_nonneg {x : ℚ} (h : 0 ≤ x) : truncate x = ⌊x⌋ := if_neg (not_lt.2 h)

theorem toInt_intCast {n : ℤ} (hlow : -2 ^ 31 ≤ n) (hhigh : n ≤ 2 ^ 31 - 1) : toInt n = n := by
  rw [toInt, truncate_intCast, min_eq_right hhigh, max_eq_right hlow]

theorem toInt_nonneg {x : ℚ} (h : 0 ≤ x) : 0 ≤ toInt x := by
  have hfloor : 0 ≤ truncate x := by
    rw [truncate_of_nonneg h]
    exact Int.floor_nonneg.2 h
  refine le_max_of_le_right (le_min ?_ hfloor)
  norm_num

/-- a cast makes a number that is not negative no larger -/
theorem toInt_le {x : ℚ} (h : 0 ≤ x) : (toInt x : ℚ) ≤ x := by
  have hfloor : (0 : ℤ) ≤ min (2 ^ 31 - 1) (truncate x) := by
    rw [truncate_of_nonneg h]
    exact le_min (by norm_num) (Int.floor_nonneg.2 h)
  have hle : toInt x ≤ ⌊x⌋ := by
    rw [toInt, max_eq_right (le_trans (by norm_num) hfloor), ← truncate_of_nonneg h]
    exact min_le_right _ _
  exact (Int.cast_le.2 hle).trans (Int.floor_le x)

theorem toInt_le_max (x : ℚ) : toInt x ≤ 2 ^ 31 - 1 := max_le (by norm_num) (min_le_left _ _)

theorem toLong_natCast {n : ℕ} (h : n < 2 ^ 63) : toLong n = n := by
  have htrunc : truncate (n : ℚ) = n := by
    have := truncate_intCast n
    push_cast at this
    exact this
  rw [toLong, htrunc, min_eq_right (by omega), max_eq_right (by omega)]

theorem toLong_le_max (x : ℚ) : toLong x ≤ 2 ^ 63 - 1 := max_le (by norm_num) (min_le_left _ _)

end Rubbos.Core
