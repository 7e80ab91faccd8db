/-
One `nextState` in exact arithmetic (`TransitionTable.java`).

The model of `TransitionTable` over any ordered field. With entries that are not negative, the sums that the loop runs through
do not decrease, so that the first sum above the step is the only place where the step lies between two sums that follow each
other.

- `select_iff`: the loop, from any row on.
- `select_steps`: the steps that select a row.
- `nextState_exact`: what one call selects, returns and does to the history.
-/
import Mathlib.Algebra.Order.BigOperators.Group.Finset
import Mathlib.Algebra.Order.Field.Basic
import Mathlib.Algebra.Order.Field.Rat
import Mathlib.Order.Interval.Set.Basic
import Rubbos.Client.TransitionTable

namespace Rubbos.Client.TransitionTable

open Rubbos.Core

section Exact

variable {F : Type} [Field F] {t : Table F} {s s' : St} {c : ℤ} {step : F} {i j left : ℕ} {r : Ret}

/-- the entries of column c above row i, added up -/
def cumul (t : Table F) (c : ℤ) (i : ℕ) : F := ∑ j ∈ Finset.range i, (t.entry c j).getD 0

theorem cumul_zero : cumul t c 0 = 0 := Finset.sum_range_zero _

theorem cumul_succ {p : F} (h : t.entry c i = some p) : cumul t c (i + 1) = cumul t c i + p := by
  rw [cumul, Finset.sum_range_succ, h]
  rfl

variable [LinearOrder F]

/-- the step lies between the sums before and behind row i -/
def Covers (t : Table F) (c : ℤ) (step : F) (i : ℕ) : Prop :=
  i < t.nbRows ∧ cumul t c i ≤ step ∧ step < cumul t c (i + 1)

/-- no probability is negative -/
def NonNegative (t : Table F) : Prop := ∀ c i, 0 ≤ t.transitions c i

/-! ## The call -/

/-- a call from inside the matrix does not throw, where the matrix has a column for every row but the last two -/
theorem nextState_ok (hc : 0 ≤ s.currentState ∧ s.currentState < t.nbColumns) (hstep : 0 ≤ step)
    (hrows : t.nbRows = t.nbColumns + 2) : ∃ x, nextState t s step = .ok x := by
  obtain ⟨sel, hsel, hrow⟩ := select_spec hc step t.nbRows 0 0 (by omega) (not_lt.2 hstep)
  have hrange : 0 ≤ sel.getD s.currentState ∧ sel.getD s.currentState < t.nbRows := by
    cases sel with
    | none => exact ⟨hc.1, by rw [Option.getD_none]; omega⟩
    | some k => exact (hrow k rfl).1
  unfold nextState
  simp only [hsel]
  split_ifs with hback hend
  · cases s.previousStates with
    | nil => exact ⟨_, rfl⟩
    | cons p ps => exact ⟨_, rfl⟩
  · exact ⟨_, rfl⟩
  · obtain ⟨b, hb⟩ := entry_isSome.2 ⟨(by omega : 0 ≤ sel.getD s.currentState ∧ sel.getD s.currentState < t.nbColumns),
      (by omega : (0 : ℤ) ≤ t.nbRows - 2 ∧ (t.nbRows : ℤ) - 2 < t.nbRows)⟩
    simp only [hb]
    split_ifs
    · exact ⟨_, rfl⟩
    · exact ⟨_, rfl⟩

/-- what a call answers and leaves in the history, by the state that the loop has reached -/
theorem nextState_history {sel : Option ℤ} (hsel : select t s.currentState step t.nbRows 0 0 = .ok sel)
    (h : nextState t s step = .ok (s', r)) :
    r.value = s'.currentState ∧
      (sel.getD s.currentState ≠ t.nbRows - 2 → sel.getD s.currentState ≠ t.nbRows - 1 →
        s'.currentState = sel.getD s.currentState ∧ ∃ b, t.entry s'.currentState (t.nbRows - 2) = some b ∧
          s'.previousStates = if b = 0 then [] else s.currentState :: s.previousStates) := by
  obtain ⟨sel', hsel', hcases⟩ := nextState_cases h
  obtain rfl : sel = sel' := Except.ok.inj (hsel.symm.trans hsel')
  rcases hcases with ⟨hback, -, rfl, rfl⟩ | ⟨hback, p, ps, -, rfl, rfl⟩ | ⟨hend, rfl, rfl⟩ |
    ⟨-, -, b, hb, ⟨h0, rfl, rfl⟩ | ⟨h0, rfl, rfl⟩⟩
  · exact ⟨rfl, fun h _ => absurd hback h⟩
  · exact ⟨rfl, fun h _ => absurd hback h⟩
  · exact ⟨rfl, fun _ h => absurd hend h⟩
  · exact ⟨rfl, fun _ _ => ⟨rfl, b, hb, (if_pos h0).symm⟩⟩
  · exact ⟨rfl, fun _ _ => ⟨rfl, b, hb, (if_neg h0).symm⟩⟩

/-! ## The sums -/

theorem entry_nonneg (ht : NonNegative t) (c i : ℤ) : 0 ≤ (t.entry c i).getD 0 := by
  unfold Table.entry
  split_ifs
  · exact ht _ _
  · exact le_rfl

/-- a row that is selected has a probability -/
theorem Covers.entry_ne_zero (hc : 0 ≤ c ∧ c < t.nbColumns) (h : Covers t c step i) :
    ∃ p, t.entry c i = some p ∧ p ≠ 0 := by
  have hrow := h.1
  obtain ⟨p, hp⟩ := entry_isSome.2 ⟨hc, (by omega : (0 : ℤ) ≤ i ∧ (i : ℤ) < t.nbRows)⟩
  refine ⟨p, hp, ?_⟩
  rintro rfl
  have hlt := h.2.1.trans_lt h.2.2
  rw [cumul_succ hp, add_zero] at hlt
  exact lt_irrefl _ hlt

variable [IsStrictOrderedRing F]

theorem cumul_mono (ht : NonNegative t) (c : ℤ) : Monotone (cumul t c) :=
  monotone_nat_of_le_succ fun i => by
    rw [cumul, cumul, Finset.sum_range_succ]
    exact le_add_of_nonneg_right (entry_nonneg ht c i)

/-- a step lies between two sums only once -/
theorem Covers.unique (ht : NonNegative t) (hi : Covers t c step i) (hj : Covers t c step j) : i = j := by
  rcases Nat.lt_trichotomy i j with hlt | heq | hgt
  · exact absurd ((cumul_mono ht c hlt).trans hj.2.1) (not_le.2 hi.2.2)
  · exact heq
  · exact absurd ((cumul_mono ht c hgt).trans hi.2.1) (not_le.2 hj.2.2)

/-! ## The loop -/

/-- the loop from row i on, with the sum of the rows above it: it breaks at the row that covers the step, and at no row if
there is none. By induction on the rows that are left. -/
theorem select_iff (ht : NonNegative t) (hc : 0 ≤ c ∧ c < t.nbColumns) (hi : i + left = t.nbRows)
    (hstep : cumul t c i ≤ step) :
    ∃ sel, select t c step left i (cumul t c i) = .ok sel ∧
      ((∃ k : ℕ, sel = some (k : ℤ) ∧ Covers t c step k) ∨ (sel = none ∧ ∀ k, ¬ Covers t c step k)) := by
  induction left generalizing i with
  | zero =>
    refine ⟨none, rfl, .inr ⟨rfl, fun k hk => ?_⟩⟩
    have hle : k + 1 ≤ i := by
      have := hk.1
      omega
    exact absurd ((hk.2.2.trans_le (cumul_mono ht c hle)).trans_le hstep) (lt_irrefl step)
  | succ left ih =>
    obtain ⟨p, hp⟩ := entry_isSome.2 ⟨hc, (by omega : (0 : ℤ) ≤ i ∧ (i : ℤ) < t.nbRows)⟩
    simp only [select, hp, ← cumul_succ hp]
    split_ifs with hlt
    · exact ⟨some i, rfl, .inl ⟨i, rfl, by omega, hstep, hlt⟩⟩
    · exact ih (by omega) (not_lt.1 hlt)

theorem select_spec_exact (ht : NonNegative t) (hc : 0 ≤ c ∧ c < t.nbColumns) (hstep : 0 ≤ step) :
    ∃ sel, select t c step t.nbRows 0 0 = .ok sel ∧ (∀ i : ℕ, sel = some (i : ℤ) ↔ Covers t c step i) ∧
      (sel = none ↔ ∀ i, ¬ Covers t c step i) := by
  obtain ⟨sel, hsel, hcases⟩ := select_iff ht hc (by omega : 0 + t.nbRows = t.nbRows) (cumul_zero.trans_le hstep)
  rw [cumul_zero] at hsel
  refine ⟨sel, hsel, ?_⟩
  rcases hcases with ⟨k, rfl, hk⟩ | ⟨rfl, hnone⟩
  · refine ⟨fun i => ?_, iff_of_false (by simp) fun h => h k hk⟩
    rw [Option.some.injEq, Nat.cast_inj]
    exact ⟨fun heq => heq ▸ hk, fun hi => hk.unique ht hi⟩
  · exact ⟨fun i => iff_of_false (by simp) (hnone i), iff_of_true rfl hnone⟩

/-- the steps in [0, 1) that select row i are an interval, from the sum of the rows above it on, as long as its entry -/
theorem select_steps (ht : NonNegative t) (hc : 0 ≤ c ∧ c < t.nbColumns) {p : F} (hp : t.entry c i = some p) :
    {x | (0 ≤ x ∧ x < 1) ∧ select t c x t.nbRows 0 0 = .ok (some (i : ℤ))} =
      Set.Ico (cumul t c i) (min (cumul t c i + p) 1) := by
  have hi := (entry_isSome.1 ⟨p, hp⟩).2.2
  ext x
  rw [Set.mem_ofPred_eq, Set.mem_Ico, lt_min_iff, ← cumul_succ hp]
  constructor
  · rintro ⟨⟨h0, h1⟩, hselect⟩
    obtain ⟨sel, hsel, hiff, -⟩ := select_spec_exact ht hc h0
    have hcovers := (hiff i).1 (Except.ok.inj (hsel.symm.trans hselect))
    exact ⟨hcovers.2.1, hcovers.2.2, h1⟩
  · rintro ⟨hle, hlt, h1⟩
    have h0 : 0 ≤ x := (cumul_zero (t := t) (c := c) ▸ cumul_mono ht c (Nat.zero_le i)).trans hle
    obtain ⟨sel, hsel, hiff, -⟩ := select_spec_exact ht hc h0
    exact ⟨⟨h0, h1⟩, hsel.trans (congrArg _ ((hiff i).2 ⟨by omega, hle, hlt⟩))⟩

/-! ## One call -/

/-- **One call.** For every table without negative entries, every current state with a column and every step in [0, 1): the row
that is selected is the one whose sums the step lies between, if there is one, and so never one with the entry 0; the steps
that select a row are an interval as long as its entry, cut at 1; with no such row the state stays. The answer is the state
after the call. Unless the state is Back or End of Session, the history is emptied if the new state has no Back probability, and
else the state that was left is put on it. -/
theorem nextState_exact (t : Table F) (ht : NonNegative t) (s : St)
    (hc : 0 ≤ s.currentState ∧ s.currentState < t.nbColumns) (step : F) (hstep : 0 ≤ step ∧ step < 1) :
    ∃ sel, select t s.currentState step t.nbRows 0 0 = .ok sel ∧
      (∀ i : ℕ, sel = some (i : ℤ) ↔ Covers t s.currentState step i) ∧
      (sel = none ↔ ∀ i, ¬ Covers t s.currentState step i) ∧
      (∀ i : ℕ, t.entry s.currentState i = some 0 → sel ≠ some (i : ℤ)) ∧
      (∀ (i : ℕ) (p : F), t.entry s.currentState i = some p →
        {x | (0 ≤ x ∧ x < 1) ∧ select t s.currentState x t.nbRows 0 0 = .ok (some (i : ℤ))} =
          Set.Ico (cumul t s.currentState i) (min (cumul t s.currentState i + p) 1)) ∧
      (t.nbRows = t.nbColumns + 2 → ∃ x, nextState t s step = .ok x) ∧
      ∀ s' r, nextState t s step = .ok (s', r) → r.value = s'.currentState ∧
        (sel.getD s.currentState ≠ t.nbRows - 2 → sel.getD s.currentState ≠ t.nbRows - 1 →
          s'.currentState = sel.getD s.currentState ∧ ∃ b, t.entry s'.currentState (t.nbRows - 2) = some b ∧
            s'.previousStates = if b = 0 then [] else s.currentState :: s.previousStates) := by
  obtain ⟨sel, hsel, hrow, hnone⟩ := select_spec_exact ht hc hstep.1
  refine ⟨sel, hsel, hrow, hnone, fun i hzero hi => ?_, fun i p hp => select_steps ht hc hp, nextState_ok hc hstep.1,
    fun s' r h => nextState_history hsel h⟩
  obtain ⟨p, hp, hne⟩ := ((hrow i).1 hi).entry_ne_zero hc
  exact hne (Option.some.inj (hp.symm.trans hzero))

end Exact

/-- the home page leads to state 1 or stays, each with 1/2; state 1 goes back with 1/2 -/
def halves : Table ℚ := ⟨2, 4, fun c i => if c.val = 0 then (if i.val = 1 then 1 / 2 else 0) else if i.val = 2 then 1 / 2 else 0⟩

theorem halves_nonNegative : NonNegative halves := by
  intro c i
  simp only [halves]
  split_ifs <;> norm_num

/-- from the home page, the steps below 1/2 lead to state 1 -/
theorem half_of_the_steps :
    {x : ℚ | (0 ≤ x ∧ x < 1) ∧ select halves 0 x 4 0 0 = .ok (some 1)} = Set.Ico 0 (1 / 2) := by
  obtain ⟨-, -, -, -, -, hsteps, -⟩ := nextState_exact halves halves_nonNegative fresh (by decide) (1 / 4) (by norm_num)
  have hcumul : cumul halves fresh.currentState 1 = 0 := by
    rw [cumul, Finset.sum_range_one]
    rfl
  have hmin : min (0 + 1 / 2 : ℚ) 1 = 1 / 2 := by norm_num
  have hset := hsteps 1 (1 / 2) rfl
  rwa [hcumul, hmin] at hset

end Rubbos.Client.TransitionTable
