/-
Arithmetic with a rounded result.

A `Rounding` is what a program may rely on when its numbers are floats: the result of an operation is the exact result,
rounded; rounding keeps the order, does nothing to a number that is rounded already, and turns an integer into an integer.
`exact` is arithmetic without rounding.
-/
import Mathlib.Data.Rat.Floor
import Mathlib.Tactic

namespace Rubbos.Core

structure Rounding where
  fl : ℚ → ℚ
  mono : Monotone fl
  idem : ∀ x, fl (fl x) = fl x
  int : ∀ n : ℤ, ∃ m : ℤ, fl n = m
  zero : fl 0 = 0

namespace Rounding

/-- nothing is rounded -/
def exact : Rounding where
  fl := fun x => x
  mono := fun _ _ h => h
  idem := fun _ => rfl
  int := fun n => ⟨n, rfl⟩
  zero := rfl

@[simp] theorem exact_fl (x : ℚ) : exact.fl x = x := rfl

variable (R : Rounding) {x y : ℚ}

theorem nonneg (h : 0 ≤ x) : 0 ≤ R.fl x := by
  rw [← R.zero]
  exact R.mono h

/-- adding something that is not negative to a rounded number does not make it smaller -/
theorem le_add (hx : R.fl x = x) (hy : 0 ≤ y) : x ≤ R.fl (x + y) := by
  calc x = R.fl x := hx.symm
    _ ≤ R.fl (x + y) := R.mono (by linarith)

end Rounding

end Rubbos.Core
