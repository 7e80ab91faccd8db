/-
An interval cut at the points of a sequence.

The part of [s, e] between two cuts is `max 0 (min e d - max s c)` long. Moving each cut into the interval (`clamp`) makes the
part a difference, so the parts between the cuts of a monotone sequence add up to a difference as well.

- `between_eq`: a part as a difference.
- `sum_between`, `sum_between_covers`: the parts together.
-/
import Mathlib.Algebra.BigOperators.Intervals
import Mathlib.Algebra.Order.Field.Basic
import Mathlib.Tactic

namespace Rubbos.Core.Cuts

section

variable {K : Type*} [LinearOrder K] {s e c d : K}

/-- the point of [s, e] that is closest to x -/
def clamp (s e x : K) : K := max s (min e x)

theorem clamp_of_le (h : c ≤ s) : clamp s e c = s := max_eq_left ((min_le_right _ _).trans h)

theorem clamp_of_ge (hse : s ≤ e) (h : e ≤ d) : clamp s e d = e := by
  rw [clamp, min_eq_left h, max_eq_right hse]

end

variable {K : Type*} [Field K] [LinearOrder K] {s e c d : K}

/-- the length of [s, e] between c and d -/
def between (s e c d : K) : K := max 0 (min e d - max s c)

theorem between_nonneg : 0 ≤ between s e c d := le_max_left _ _

variable [IsStrictOrderedRing K]

theorem between_of_le (h : e ≤ c) : between s e c d = 0 := by
  refine max_eq_left ?_
  linarith [min_le_left e d, le_max_right s c]

theorem between_of_ge (h : d ≤ s) : between s e c d = 0 := by
  refine max_eq_left ?_
  linarith [min_le_right e d, le_max_left s c]

theorem between_of_empty (h : e ≤ s) : between s e c d = 0 := by
  refine max_eq_left ?_
  linarith [min_le_left e d, le_max_left s c]

/-- lengths on another scale -/
theorem mul_between {k : K} (hk : 0 ≤ k) : k * between s e c d = between (s * k) (e * k) (c * k) (d * k) := by
  have hmin : min e d * k = min (e * k) (d * k) := min_mul_of_nonneg e d hk
  have hmax : max s c * k = max (s * k) (c * k) := max_mul_of_nonneg s c hk
  unfold between
  rw [mul_max_of_nonneg _ _ hk, mul_zero, mul_comm, sub_mul, hmin, hmax]

theorem between_pos (hse : s < e) (hcd : c < d) (hse' : s < d) (hce : c < e) : 0 < between s e c d := by
  refine lt_max_of_lt_right ?_
  rw [sub_pos, max_lt_iff, lt_min_iff, lt_min_iff]
  exact ⟨⟨hse, hse'⟩, hce, hcd⟩

theorem between_eq (hse : s ≤ e) (hcd : c ≤ d) : between s e c d = clamp s e d - clamp s e c := by
  unfold between clamp
  rcases le_total e c with hec | hce
  · have hed : e ≤ d := hec.trans hcd
    rw [min_eq_left hed, min_eq_left hec, max_eq_right hse, sub_self]
    refine max_eq_left ?_
    linarith [le_max_right s c]
  rcases le_total d s with hds | hsd
  · have hcs : c ≤ s := hcd.trans hds
    rw [min_eq_right (hds.trans hse), min_eq_right hce, max_eq_left hds, max_eq_left hcs, sub_self]
    exact max_eq_left (by linarith)
  rw [min_eq_right hce, max_eq_right (le_min hse hsd)]
  refine max_eq_right ?_
  rw [sub_nonneg]
  exact max_le (le_min hse hsd) (le_min hce hcd)

variable {p : ℕ → K}

/-- the parts between the first cuts of a sequence -/
theorem sum_between (hse : s ≤ e) (hp : Monotone p) (n : ℕ) :
    ∑ i ∈ Finset.range n, between s e (p i) (p (i + 1)) = clamp s e (p n) - clamp s e (p 0) := by
  rw [← Finset.sum_range_sub (fun i => clamp s e (p i)) n]
  exact Finset.sum_congr rfl fun i _ => between_eq hse (hp (Nat.le_succ i))

/-- **The parts add up to the interval** if the cuts cover it. -/
theorem sum_between_covers (hse : s ≤ e) (hp : Monotone p) {n : ℕ} (hfirst : p 0 ≤ s) (hlast : e ≤ p n) :
    ∑ i ∈ Finset.range n, between s e (p i) (p (i + 1)) = e - s := by
  rw [sum_between hse hp, clamp_of_le hfirst, clamp_of_ge hse hlast]

end Rubbos.Core.Cuts
