/-
The numbers of the statistics tables (`Stats.display_stats`).

`int` and `long` wrap around, an integer division by zero throws; a quotient of floats is the exact quotient here. `counts`
is the number of requests for the percentages of the table, but then the errors, which are among the requests, are added
to it: the throughput, the average of all and the percentages of the transaction details count each failed request twice.

- `sum_toInt`: the sums of the table, when they are in range.
- `displayStats_eq`: what is printed when there are requests.
- `display_exact_iff`: when all numbers are exact, for the table and for all that is printed.
Witness `display_exact_hour`. Counterexample `display_overflows`: three million requests.
-/
import Mathlib.Algebra.BigOperators.Fin
import Rubbos.Client.Stats
import Rubbos.Client.TimeManagement

namespace Rubbos.Client.DisplayStats

open TimeManagement

/-! ## Model -/

/-- an integer division by zero -/
structure ArithmeticException where

/-- `a / b` -/
def divide (a b : Int64) : Except ArithmeticException Int64 := if b = 0 then .error ⟨⟩ else .ok (a / b)

/-- `a / (float)b`, without rounding -/
def quotient (a b : ℤ) : ℚ := a / b

/-- a line of the table -/
structure Row (n : ℕ) where
  state : Fin n
  percent : ℚ
  count : Int32
  error : Int32
  minTime : Int64
  maxTime : Int64
  average : ℚ

/-- the lines under the table -/
structure Total where
  counts : Int32
  errors : Int32
  average : Int64
  throughput : Int64
  nbSessions : Int32
  totalTime : Int64
  averageSessionTime : Int64

/-- a state of the transaction details: its transactions with their end times -/
structure Detail (n : ℕ) where
  state : Fin n
  transactions : List (Int64 × Int64)
  percent : ℚ

structure Report (n : ℕ) where
  rows : List (Row n)
  total : Option Total
  details : List (Detail n)

variable {n : ℕ}

/-- the loop that adds an int of all states -/
def sum (s : Stats n) (f : Entry → Int32) : Int32 := (List.finRange n).foldl (fun c i => c + f (s.entries i)) 0

/-- the loop that adds the times of all states -/
def sumTime (s : Stats n) : Int64 := (List.finRange n).foldl (fun t i => t + (s.entries i).totalTime) 0

/-- the states that are not left out -/
def shown (s : Stats n) (exclude0Stat : Bool) : List (Fin n) :=
  (List.finRange n).filter fun i => (exclude0Stat ∧ (s.entries i).count ≠ 0) ∨ ¬ exclude0Stat

def percentOf (counts count : Int32) : ℚ :=
  if 0 < counts ∧ 0 < count then quotient (100 * count).toInt counts.toInt else 0

def rowOf (s : Stats n) (counts : Int32) (i : Fin n) : Row n :=
  let e := s.entries i
  let success := e.count - e.error
  { state := i
    percent := percentOf counts e.count
    count := e.count
    error := e.error
    minTime := if e.minTime ≠ Int64.maxValue then e.minTime else 0
    maxTime := e.maxTime
    average := if 0 < success then quotient e.totalTime.toInt success.toInt else 0 }

def detailOf (s : Stats n) (counts : Int32) (i : Fin n) : Detail n :=
  ⟨i, (s.entries i).transactions, percentOf counts (s.entries i).count⟩

/-- the lines under the table; counts already has the errors -/
def totalOf (s : Stats n) (requests errors counts : Int32) (sessionTime : Int64) : Except ArithmeticException Total := do
  let average ← divide (sumTime s) counts.toInt64
  let throughput ← divide (1000 * counts).toInt64 sessionTime
  return {
    counts := requests
    errors := errors
    average := average
    throughput := throughput
    nbSessions := s.nbSessions
    totalTime := s.sessionsTime / 1000
    averageSessionTime := if 0 < s.nbSessions then s.sessionsTime / s.nbSessions.toInt64 / 1000 else 0 }

def displayStats (s : Stats n) (sessionTime : Int64) (exclude0Stat : Bool) : Except ArithmeticException (Report n) := do
  let counts := sum s Entry.count
  let errors := sum s Entry.error
  let rows := (shown s exclude0Stat).map (rowOf s counts)
  if 0 < counts then
    let total ← totalOf s counts errors (counts + errors) sessionTime
    return ⟨rows, some total, (shown s exclude0Stat).map (detailOf s (counts + errors))⟩
  else return ⟨rows, none, (shown s exclude0Stat).map (detailOf s counts)⟩

/-! ## Exactness -/

/-- the sum of an int of all states, without overflow -/
def exactSum (s : Stats n) (f : Entry → Int32) : ℤ := ∑ i, (f (s.entries i)).toInt

/-- ints that are not negative, with sums in range -/
structure InRange (s : Stats n) : Prop where
  count : ∀ i, 0 ≤ (s.entries i).count.toInt
  error : ∀ i, 0 ≤ (s.entries i).error.toInt
  counts : exactSum s Entry.count < 2 ^ 31
  errors : exactSum s Entry.error < 2 ^ 31

/-- the values of the table are the exact ones; an average is asked for where there are other requests than failed ones -/
structure TableExact (s : Stats n) (duration : ℤ) (r : Report n) : Prop where
  percent : ∀ row ∈ r.rows, row.percent = 100 * (s.entries row.state).count.toInt / exactSum s Entry.count
  average : ∀ row ∈ r.rows, (s.entries row.state).count.toInt ≠ (s.entries row.state).error.toInt →
    row.average = (s.entries row.state).totalTime.toInt /
      ((s.entries row.state).count.toInt - (s.entries row.state).error.toInt)
  throughput : ∀ t, r.total = some t →
    t.throughput.toInt = ⌊(1000 * exactSum s Entry.count : ℚ) / duration⌋ ∧ 0 ≤ t.throughput.toInt

/-- the percentages of the transaction details are exact -/
def DetailsExact (s : Stats n) (r : Report n) : Prop :=
  ∀ d ∈ r.details, d.percent = 100 * (s.entries d.state).count.toInt / exactSum s Entry.count

/-- the ints that are computed, besides the sums, as they should be -/
def intermediates (s : Stats n) (exclude0Stat : Bool) : List ℤ :=
  (shown s exclude0Stat).map (fun i => (s.entries i).count.toInt - (s.entries i).error.toInt) ++
    if 0 < exactSum s Entry.count then
      ((shown s exclude0Stat).filter fun i => 0 < (s.entries i).count).map (fun i => 100 * (s.entries i).count.toInt) ++
        [exactSum s Entry.count + exactSum s Entry.error, 1000 * (exactSum s Entry.count + exactSum s Entry.error)]
    else []

def NoOverflow (s : Stats n) (exclude0Stat : Bool) : Prop := ∀ x ∈ intermediates s exclude0Stat, -2 ^ 31 ≤ x ∧ x < 2 ^ 31

/-- the duration of a phase -/
def durationOf (startDate endDate : GregorianCalendar) : Int64 := Int64.ofInt (diffTimeInMs startDate endDate)

/-! ## Sums -/

theorem foldl_toInt (f : Fin n → Int32) (is : List (Fin n)) (c : Int32) (hf : ∀ i, 0 ≤ (f i).toInt) (hc : 0 ≤ c.toInt)
    (hsum : c.toInt + (is.map fun i => (f i).toInt).sum < 2 ^ 31) :
    (is.foldl (fun c i => c + f i) c).toInt = c.toInt + (is.map fun i => (f i).toInt).sum := by
  induction is generalizing c with
  | nil => simp
  | cons i is ih =>
    have hrest : 0 ≤ (is.map fun i => (f i).toInt).sum :=
      List.sum_nonneg fun x hx => by
        obtain ⟨j, -, rfl⟩ := List.mem_map.1 hx
        exact hf j
    rw [List.map_cons, List.sum_cons] at hsum
    have hi := hf i
    have hadd : (c + f i).toInt = c.toInt + (f i).toInt := by
      rw [Int32.toInt_add]
      exact Int.bmod_eq_of_le (by omega) (by omega)
    rw [List.foldl_cons, ih (c + f i) (by omega) (by rw [hadd]; omega), hadd, List.map_cons, List.sum_cons]
    ring

variable {s : Stats n}

/-- the sum of ints that are not negative, when it is in range -/
theorem sum_toInt {f : Entry → Int32} (hf : ∀ i, 0 ≤ (f (s.entries i)).toInt) (hsum : exactSum s f < 2 ^ 31) :
    (sum s f).toInt = exactSum s f := by
  have hexact : exactSum s f = ((List.finRange n).map fun i => (f (s.entries i)).toInt).sum := by
    rw [exactSum, ← List.sum_ofFn, List.ofFn_eq_map]
  have hzero : (0 : Int32).toInt = 0 := Int32.toInt_zero
  rw [hexact] at hsum ⊢
  rw [sum, foldl_toInt (fun i => f (s.entries i)) _ 0 hf hzero.ge (by rw [hzero, zero_add]; exact hsum), hzero, zero_add]

theorem exactSum_nonneg {f : Entry → Int32} (hf : ∀ i, 0 ≤ (f (s.entries i)).toInt) : 0 ≤ exactSum s f :=
  Finset.sum_nonneg fun i _ => hf i

theorem le_exactSum {f : Entry → Int32} (hf : ∀ i, 0 ≤ (f (s.entries i)).toInt) (i : Fin n) :
    (f (s.entries i)).toInt ≤ exactSum s f :=
  Finset.single_le_sum (fun j _ => hf j) (Finset.mem_univ i)

/-! ## The numbers of a line -/

theorem toInt_nonneg_iff {x : Int32} : 0 < x ↔ 0 < x.toInt := by
  rw [Int32.lt_iff_toInt_lt, Int32.toInt_zero]

/-- a percentage whose product is in range -/
theorem percentOf_eq {counts count : Int32} (hcounts : 0 < counts.toInt) (hcount : 0 ≤ count.toInt)
    (hfit : 100 * count.toInt < 2 ^ 31) : percentOf counts count = 100 * count.toInt / counts.toInt := by
  unfold percentOf
  by_cases hpos : 0 < count
  · have hproduct : (100 * count).toInt = 100 * count.toInt := by
      rw [Int32.toInt_mul]
      exact Int.bmod_eq_of_le (by simp; omega) (by simp; omega)
    rw [if_pos ⟨toInt_nonneg_iff.2 hcounts, hpos⟩, quotient, hproduct]
    push_cast
    rfl
  · have hzero : count.toInt = 0 := by
      rw [toInt_nonneg_iff] at hpos
      omega
    rw [if_neg fun h => hpos h.2, hzero]
    simp

theorem percentOf_zero {counts count : Int32} (hcounts : counts.toInt = 0) : percentOf counts count = 0 :=
  if_neg fun h => by
    have := toInt_nonneg_iff.1 h.1
    omega

variable {i : Fin n}

theorem success_toInt (h : InRange s) (i : Fin n) :
    ((s.entries i).count - (s.entries i).error).toInt = (s.entries i).count.toInt - (s.entries i).error.toInt := by
  have hcount := h.count i
  have herror := h.error i
  have hcount' := (s.entries i).count.toInt_lt
  have herror' := (s.entries i).error.toInt_lt
  rw [Int32.toInt_sub]
  exact Int.bmod_eq_of_le (by omega) (by omega)

/-- an average is exact, unless there are more errors than requests: then it is printed as 0 -/
theorem average_exact_iff (h : InRange s) {counts : Int32} (i : Fin n) :
    ((s.entries i).count.toInt ≠ (s.entries i).error.toInt → (rowOf s counts i).average =
      (s.entries i).totalTime.toInt / ((s.entries i).count.toInt - (s.entries i).error.toInt)) ↔
    ((s.entries i).count.toInt < (s.entries i).error.toInt → (s.entries i).totalTime.toInt = 0) := by
  have hsuccess := success_toInt h i
  unfold rowOf
  simp only
  rcases lt_trichotomy (s.entries i).count.toInt (s.entries i).error.toInt with hlt | heq | hgt
  · have hneg : ¬ 0 < (s.entries i).count - (s.entries i).error := by
      rw [toInt_nonneg_iff, hsuccess]
      omega
    have hne : ((s.entries i).count.toInt : ℚ) - (s.entries i).error.toInt ≠ 0 := by
      rw [sub_ne_zero]
      exact_mod_cast hlt.ne
    rw [if_neg hneg]
    constructor
    · intro hexact _
      have hzero := (hexact hlt.ne).symm
      rw [div_eq_zero_iff] at hzero
      exact_mod_cast hzero.resolve_right hne
    · intro hzero _
      rw [hzero hlt]
      simp
  · exact ⟨fun _ hlt => absurd heq hlt.ne, fun _ hne => absurd heq hne⟩
  · have hpos : 0 < (s.entries i).count - (s.entries i).error := by
      rw [toInt_nonneg_iff, hsuccess]
      omega
    rw [if_pos hpos, quotient, hsuccess]
    push_cast
    exact ⟨fun _ hlt => absurd hgt hlt.not_gt, fun _ _ => rfl⟩

/-! ## What is printed -/

section Print

variable {sessionTime : Int64} {exclude0Stat : Bool}

theorem displayStats_of_empty (h : InRange s) (hzero : exactSum s Entry.count = 0) :
    displayStats s sessionTime exclude0Stat = .ok ⟨(shown s exclude0Stat).map (rowOf s (sum s Entry.count)), none,
      (shown s exclude0Stat).map (detailOf s (sum s Entry.count))⟩ := by
  have hcounts := sum_toInt h.count h.counts
  unfold displayStats
  simp only
  rw [if_neg (by rw [toInt_nonneg_iff]; omega)]
  rfl

theorem totalOf_ok (s : Stats n) (requests errors : Int32) {counts : Int32} (hcounts : counts.toInt64 ≠ 0) (htime : sessionTime ≠ 0) :
    ∃ t, totalOf s requests errors counts sessionTime = .ok t ∧ t.throughput = (1000 * counts).toInt64 / sessionTime := by
  unfold totalOf divide
  rw [if_neg hcounts, if_neg htime]
  exact ⟨_, rfl, rfl⟩

theorem totalOf_no_time (s : Stats n) (requests errors counts : Int32) :
    totalOf s requests errors counts 0 = .error ⟨⟩ := by
  have hzero : ∀ a, divide a 0 = .error ⟨⟩ := fun _ => if_pos rfl
  unfold totalOf
  cases divide (sumTime s) counts.toInt64 with
  | error e => rfl
  | ok average =>
    rw [hzero]
    rfl

/-- with requests, whose products are in range -/
theorem displayStats_eq (exclude0Stat : Bool) (h : InRange s) (hpos : 0 < exactSum s Entry.count)
    (hfit : 1000 * (exactSum s Entry.count + exactSum s Entry.error) < 2 ^ 31) (hne : sessionTime ≠ 0)
    (htime : 0 ≤ sessionTime.toInt) :
    ∃ t counts, counts.toInt = exactSum s Entry.count + exactSum s Entry.error ∧
      t.throughput.toInt = 1000 * (exactSum s Entry.count + exactSum s Entry.error) / sessionTime.toInt ∧
      displayStats s sessionTime exclude0Stat = .ok ⟨(shown s exclude0Stat).map (rowOf s (sum s Entry.count)), some t,
        (shown s exclude0Stat).map (detailOf s counts)⟩ := by
  have hcounts := sum_toInt h.count h.counts
  have herrors := sum_toInt h.error h.errors
  have hnonneg := exactSum_nonneg h.error
  have hsum : (sum s Entry.count + sum s Entry.error).toInt = exactSum s Entry.count + exactSum s Entry.error := by
    rw [Int32.toInt_add, hcounts, herrors]
    exact Int.bmod_eq_of_le (by omega) (by omega)
  have hdivisor : (sum s Entry.count + sum s Entry.error).toInt64 ≠ 0 := by
    intro hzero
    have htoInt := congrArg Int64.toInt hzero
    rw [Int32.toInt_toInt64, hsum, Int64.toInt_zero] at htoInt
    omega
  have hproduct : (1000 * (sum s Entry.count + sum s Entry.error)).toInt64.toInt =
      1000 * (exactSum s Entry.count + exactSum s Entry.error) := by
    rw [Int32.toInt_toInt64, Int32.toInt_mul, hsum]
    exact Int.bmod_eq_of_le (by simp; omega) (by simp; omega)
  have hquotient : ((1000 * (sum s Entry.count + sum s Entry.error)).toInt64 / sessionTime).toInt =
      1000 * (exactSum s Entry.count + exactSum s Entry.error) / sessionTime.toInt := by
    have hminus : sessionTime ≠ -1 := by
      rintro rfl
      exact absurd htime (by decide)
    rw [Int64.toInt_div_of_ne_right _ _ hminus, hproduct, Int.tdiv_eq_ediv_of_nonneg (by omega)]
  obtain ⟨t, ht, hthroughput⟩ := totalOf_ok s (sum s Entry.count) (sum s Entry.error) hdivisor hne
  refine ⟨t, sum s Entry.count + sum s Entry.error, hsum, by rw [hthroughput, hquotient], ?_⟩
  unfold displayStats
  simp only
  rw [if_pos (by rw [toInt_nonneg_iff]; omega), ht]
  rfl

/-- with requests, in no time -/
theorem displayStats_no_time (h : InRange s) (hpos : 0 < exactSum s Entry.count) :
    displayStats s 0 exclude0Stat = .error ⟨⟩ := by
  have hcounts := sum_toInt h.count h.counts
  unfold displayStats
  simp only
  rw [if_pos (by rw [toInt_nonneg_iff]; omega), totalOf_no_time]
  rfl

end Print

/-- requests in time and small enough numbers, without an error that moves the throughput to another integer -/
structure SmallNumbers (s : Stats n) (startDate endDate : GregorianCalendar) : Prop where
  time : ¬ SameDate startDate endDate
  product : 1000 * (exactSum s Entry.count + exactSum s Entry.error) < 2 ^ 31
  throughput : 1000 * (exactSum s Entry.count + exactSum s Entry.error) / diffTimeInMs startDate endDate =
    1000 * exactSum s Entry.count / diffTimeInMs startDate endDate

/-- a state with more errors than requests has no time -/
def NoStrayErrors (s : Stats n) (exclude0Stat : Bool) : Prop :=
  ∀ i ∈ shown s exclude0Stat, (s.entries i).count.toInt < (s.entries i).error.toInt → (s.entries i).totalTime.toInt = 0

section Exact

variable {exclude0Stat : Bool} {startDate endDate : GregorianCalendar}

theorem durationOf_toInt (startDate endDate : GregorianCalendar) :
    (durationOf startDate endDate).toInt = diffTimeInMs startDate endDate := by
  obtain ⟨hlow, hhigh⟩ := diffTimeInMs_range startDate endDate
  exact Int64.toInt_ofInt_of_le (by omega) hhigh

theorem durationOf_ne_zero : durationOf startDate endDate ≠ 0 ↔ ¬ SameDate startDate endDate := by
  rw [← diffTimeInMs_eq_zero_iff, ← durationOf_toInt, ← Int64.toInt_zero, Int64.toInt_inj]

/-- the quotient that a throughput should be -/
theorem floor_throughput (a : ℤ) (startDate endDate : GregorianCalendar) :
    ⌊(1000 * a : ℚ) / (diffTimeInMs startDate endDate : ℤ)⌋ = 1000 * a / diffTimeInMs startDate endDate := by
  obtain ⟨d, hd⟩ := Int.eq_ofNat_of_zero_le (diffTimeInMs_range startDate endDate).1
  rw [hd]
  have hfloor := Rat.floor_intCast_div_natCast (1000 * a) d
  push_cast at hfloor ⊢
  exact hfloor

/-- the percentages of the table -/
theorem percent_exact (h : InRange s) (hpos : 0 < exactSum s Entry.count)
    (hfit : 1000 * (exactSum s Entry.count + exactSum s Entry.error) < 2 ^ 31) (i : Fin n) :
    percentOf (sum s Entry.count) (s.entries i).count = 100 * (s.entries i).count.toInt / exactSum s Entry.count := by
  have hcounts := sum_toInt h.count h.counts
  have hle : (s.entries i).count.toInt ≤ exactSum s Entry.count := le_exactSum h.count i
  have herrors : 0 ≤ exactSum s Entry.error := exactSum_nonneg h.error
  rw [percentOf_eq (by omega) (h.count i) (by omega), hcounts]

theorem noOverflow_of_fit (h : InRange s)
    (hfit : 0 < exactSum s Entry.count → 1000 * (exactSum s Entry.count + exactSum s Entry.error) < 2 ^ 31) :
    NoOverflow s exclude0Stat := by
  intro x hx
  have herrors : 0 ≤ exactSum s Entry.error := exactSum_nonneg h.error
  rcases List.mem_append.1 hx with hx | hx
  · obtain ⟨i, -, rfl⟩ := List.mem_map.1 hx
    have hcount := h.count i
    have herror := h.error i
    have hcount' := (s.entries i).count.toInt_lt
    have herror' := (s.entries i).error.toInt_lt
    omega
  · split_ifs at hx with hpos
    · have hproduct := hfit hpos
      rcases List.mem_append.1 hx with hx | hx
      · obtain ⟨i, -, rfl⟩ := List.mem_map.1 hx
        have hcount := h.count i
        have hle : (s.entries i).count.toInt ≤ exactSum s Entry.count := le_exactSum h.count i
        omega
      · rcases List.mem_pair.1 hx with rfl | rfl <;> omega
    · cases hx

theorem fit_of_noOverflow (h : NoOverflow s exclude0Stat) (hpos : 0 < exactSum s Entry.count) :
    1000 * (exactSum s Entry.count + exactSum s Entry.error) < 2 ^ 31 := by
  refine (h (1000 * (exactSum s Entry.count + exactSum s Entry.error)) ?_).2
  unfold intermediates
  rw [if_pos hpos]
  exact List.mem_append_right _ (List.mem_append_right _ (List.mem_cons_of_mem _ List.mem_cons_self))

/-- without requests every percentage is 0 -/
theorem count_eq_zero (h : InRange s) (hzero : exactSum s Entry.count = 0) (i : Fin n) : (s.entries i).count.toInt = 0 := by
  have hcount := h.count i
  have hle : (s.entries i).count.toInt ≤ exactSum s Entry.count := le_exactSum h.count i
  omega

theorem noStrayErrors_of_exact (h : InRange s) {counts : Int32} {duration : ℤ} {total : Option Total} {details : List (Detail n)}
    (hexact : TableExact s duration ⟨(shown s exclude0Stat).map (rowOf s counts), total, details⟩) :
    NoStrayErrors s exclude0Stat := by
  intro i hi
  exact (average_exact_iff h i).1 (hexact.average _ (List.mem_map_of_mem hi))

theorem average_of_noStrayErrors (h : InRange s) {counts : Int32} (hstray : NoStrayErrors s exclude0Stat) :
    ∀ row ∈ (shown s exclude0Stat).map (rowOf s counts),
      (s.entries row.state).count.toInt ≠ (s.entries row.state).error.toInt → row.average =
        (s.entries row.state).totalTime.toInt / ((s.entries row.state).count.toInt - (s.entries row.state).error.toInt) := by
  intro row hrow
  obtain ⟨i, hi, rfl⟩ := List.mem_map.1 hrow
  exact (average_exact_iff h i).2 (hstray i hi)

/-- some state has requests, and is shown -/
theorem exists_shown (exclude0Stat : Bool) (hpos : 0 < exactSum s Entry.count) :
    ∃ i ∈ shown s exclude0Stat, 0 < (s.entries i).count.toInt := by
  obtain ⟨i, -, hi⟩ := Finset.exists_lt_of_sum_lt (show ∑ i : Fin n, (0 : ℤ) < ∑ i, (s.entries i).count.toInt by
    rw [Finset.sum_const_zero]
    exact hpos)
  refine ⟨i, List.mem_filter.2 ⟨List.mem_finRange i, ?_⟩, hi⟩
  have hne : (s.entries i).count ≠ 0 := by
    intro hzero
    rw [hzero] at hi
    exact absurd hi (by decide)
  cases exclude0Stat with
  | true => simp [hne]
  | false => simp

/-- the details divide by a number in which the errors are twice -/
theorem details_exact_iff (exclude0Stat : Bool) (h : InRange s) (hpos : 0 < exactSum s Entry.count)
    (hfit : 1000 * (exactSum s Entry.count + exactSum s Entry.error) < 2 ^ 31) {counts : Int32}
    (hcounts : counts.toInt = exactSum s Entry.count + exactSum s Entry.error) :
    (∀ d ∈ (shown s exclude0Stat).map (detailOf s counts),
      d.percent = 100 * (s.entries d.state).count.toInt / exactSum s Entry.count) ↔ exactSum s Entry.error = 0 := by
  have herrors : 0 ≤ exactSum s Entry.error := exactSum_nonneg h.error
  have hpercent (i : Fin n) : (detailOf s counts i).percent =
      100 * (s.entries i).count.toInt / ((exactSum s Entry.count + exactSum s Entry.error : ℤ) : ℚ) := by
    have hle : (s.entries i).count.toInt ≤ exactSum s Entry.count := le_exactSum h.count i
    rw [← hcounts]
    exact percentOf_eq (by omega) (h.count i) (by omega)
  constructor
  · intro hexact
    obtain ⟨i, hi, hcount⟩ := exists_shown exclude0Stat hpos
    have heq := hexact _ (List.mem_map_of_mem hi)
    rw [hpercent] at heq
    have hnum : (100 * (s.entries i).count.toInt : ℚ) ≠ 0 := by
      have : ((s.entries i).count.toInt : ℚ) ≠ 0 := by exact_mod_cast hcount.ne'
      simpa using this
    have hrequests : (exactSum s Entry.count : ℚ) ≠ 0 := by exact_mod_cast hpos.ne'
    have hboth : ((exactSum s Entry.count + exactSum s Entry.error : ℤ) : ℚ) ≠ 0 := by
      have : exactSum s Entry.count + exactSum s Entry.error ≠ 0 := by omega
      exact_mod_cast this
    have hden : (exactSum s Entry.count : ℚ) = (exactSum s Entry.count + exactSum s Entry.error : ℤ) :=
      mul_left_cancel₀ hnum ((div_eq_div_iff hboth hrequests).1 heq)
    have : exactSum s Entry.count = exactSum s Entry.count + exactSum s Entry.error := by exact_mod_cast hden
    omega
  · intro hzero d hd
    obtain ⟨i, -, rfl⟩ := List.mem_map.1 hd
    rw [hpercent, hzero, add_zero]
    rfl

/-- the table is printed, without an exception and without overflow, and its numbers are exact -/
def TablePrinted (s : Stats n) (startDate endDate : GregorianCalendar) (exclude0Stat : Bool) : Prop :=
  (∃ r, displayStats s (durationOf startDate endDate) exclude0Stat = .ok r ∧
    TableExact s (diffTimeInMs startDate endDate) r) ∧ NoOverflow s exclude0Stat

/-- the same with the percentages of the transaction details -/
def AllPrinted (s : Stats n) (startDate endDate : GregorianCalendar) (exclude0Stat : Bool) : Prop :=
  (∃ r, displayStats s (durationOf startDate endDate) exclude0Stat = .ok r ∧
    TableExact s (diffTimeInMs startDate endDate) r ∧ DetailsExact s r) ∧ NoOverflow s exclude0Stat

/-- without requests there is nothing to divide -/
theorem printed_of_empty (startDate endDate : GregorianCalendar) (exclude0Stat : Bool) (h : InRange s)
    (hzero : exactSum s Entry.count = 0) :
    (TablePrinted s startDate endDate exclude0Stat ↔ NoStrayErrors s exclude0Stat) ∧
      (AllPrinted s startDate endDate exclude0Stat ↔ NoStrayErrors s exclude0Stat) := by
  have hcounts : (sum s Entry.count).toInt = 0 := by rw [sum_toInt h.count h.counts, hzero]
  have hoverflow : NoOverflow s exclude0Stat := noOverflow_of_fit h fun hpos => by omega
  have hpercent (i : Fin n) : percentOf (sum s Entry.count) (s.entries i).count =
      100 * (s.entries i).count.toInt / exactSum s Entry.count := by
    rw [percentOf_zero hcounts, count_eq_zero h hzero i]
    simp
  unfold TablePrinted AllPrinted
  rw [displayStats_of_empty h hzero]
  have htable : NoStrayErrors s exclude0Stat → TableExact s (diffTimeInMs startDate endDate)
      ⟨(shown s exclude0Stat).map (rowOf s (sum s Entry.count)), none,
        (shown s exclude0Stat).map (detailOf s (sum s Entry.count))⟩ := by
    intro hstray
    refine ⟨?_, average_of_noStrayErrors h hstray, fun t ht => by cases ht⟩
    intro row hrow
    obtain ⟨i, -, rfl⟩ := List.mem_map.1 hrow
    exact hpercent i
  constructor
  · constructor
    · rintro ⟨⟨r, hr, hexact⟩, -⟩
      cases hr
      exact noStrayErrors_of_exact h hexact
    · exact fun hstray => ⟨⟨_, rfl, htable hstray⟩, hoverflow⟩
  · constructor
    · rintro ⟨⟨r, hr, hexact, -⟩, -⟩
      cases hr
      exact noStrayErrors_of_exact h hexact
    · intro hstray
      refine ⟨⟨_, rfl, htable hstray, ?_⟩, hoverflow⟩
      intro d hd
      obtain ⟨i, -, rfl⟩ := List.mem_map.1 hd
      exact hpercent i

/-- with requests that fit, what is printed is exact up to the throughput -/
theorem table_exact_iff (exclude0Stat : Bool) (details : List (Detail n)) (h : InRange s)
    (hpos : 0 < exactSum s Entry.count)
    (hfit : 1000 * (exactSum s Entry.count + exactSum s Entry.error) < 2 ^ 31) {t : Total}
    (ht : t.throughput.toInt =
      1000 * (exactSum s Entry.count + exactSum s Entry.error) / diffTimeInMs startDate endDate) :
    TableExact s (diffTimeInMs startDate endDate)
      ⟨(shown s exclude0Stat).map (rowOf s (sum s Entry.count)), some t, details⟩ ↔
    1000 * (exactSum s Entry.count + exactSum s Entry.error) / diffTimeInMs startDate endDate =
      1000 * exactSum s Entry.count / diffTimeInMs startDate endDate ∧ NoStrayErrors s exclude0Stat := by
  constructor
  · intro hexact
    refine ⟨?_, noStrayErrors_of_exact h hexact⟩
    rw [← ht, ← floor_throughput]
    exact (hexact.throughput t rfl).1
  · intro ⟨hthroughput, hstray⟩
    refine ⟨?_, average_of_noStrayErrors h hstray, ?_⟩
    · intro row hrow
      obtain ⟨i, -, rfl⟩ := List.mem_map.1 hrow
      exact percent_exact h hpos hfit i
    · rintro t' ⟨⟩
      rw [ht, floor_throughput]
      have herrors : 0 ≤ exactSum s Entry.error := exactSum_nonneg h.error
      exact ⟨hthroughput, Int.ediv_nonneg (by omega) (diffTimeInMs_range startDate endDate).1⟩

/-- **When the printed numbers are exact.** The table is, when there are no requests or the phase takes time, a thousand
times the requests and errors are an int, and the errors do not move the throughput; the transaction details are too when
there are no errors. In both cases no state may have more errors than requests and a time. -/
theorem display_exact_iff (s : Stats n) (h : InRange s) (startDate endDate : GregorianCalendar) (exclude0Stat : Bool) :
    (TablePrinted s startDate endDate exclude0Stat ↔
      (0 < exactSum s Entry.count → SmallNumbers s startDate endDate) ∧ NoStrayErrors s exclude0Stat) ∧
    (AllPrinted s startDate endDate exclude0Stat ↔
      (0 < exactSum s Entry.count → SmallNumbers s startDate endDate ∧ exactSum s Entry.error = 0) ∧
        NoStrayErrors s exclude0Stat) := by
  have hcount : 0 ≤ exactSum s Entry.count := exactSum_nonneg h.count
  by_cases hpos : 0 < exactSum s Entry.count
  swap
  · obtain ⟨htable, hall⟩ := printed_of_empty startDate endDate exclude0Stat h (by omega)
    exact ⟨htable.trans ⟨fun hs => ⟨fun hp => absurd hp hpos, hs⟩, fun hs => hs.2⟩,
      hall.trans ⟨fun hs => ⟨fun hp => absurd hp hpos, hs⟩, fun hs => hs.2⟩⟩
  have htime : 0 ≤ (durationOf startDate endDate).toInt := by
    rw [durationOf_toInt]
    exact (diffTimeInMs_range startDate endDate).1
  by_cases hsame : SameDate startDate endDate
  · -- the phase takes no time, and the throughput divides by it
    have hzero : durationOf startDate endDate = 0 := by
      by_contra hne
      exact durationOf_ne_zero.1 hne hsame
    unfold TablePrinted AllPrinted
    rw [hzero, displayStats_no_time h hpos]
    constructor
    · exact ⟨fun ⟨⟨r, hr, _⟩, _⟩ => (by cases hr), fun hs => absurd hsame (hs.1 hpos).time⟩
    · exact ⟨fun ⟨⟨r, hr, _⟩, _⟩ => (by cases hr), fun hs => absurd hsame (hs.1 hpos).1.time⟩
  by_cases hfit : 1000 * (exactSum s Entry.count + exactSum s Entry.error) < 2 ^ 31
  swap
  · constructor
    · exact ⟨fun hp => absurd (fit_of_noOverflow hp.2 hpos) hfit, fun hs => absurd (hs.1 hpos).product hfit⟩
    · exact ⟨fun hp => absurd (fit_of_noOverflow hp.2 hpos) hfit, fun hs => absurd (hs.1 hpos).1.product hfit⟩
  obtain ⟨t, counts, hcounts, hthroughput, heq⟩ :=
    displayStats_eq exclude0Stat h hpos hfit (durationOf_ne_zero.2 hsame) htime
  rw [durationOf_toInt] at hthroughput
  have hoverflow : NoOverflow s exclude0Stat := noOverflow_of_fit h fun _ => hfit
  have htable := table_exact_iff exclude0Stat ((shown s exclude0Stat).map (detailOf s counts)) h hpos hfit hthroughput
  have hdetails := details_exact_iff exclude0Stat h hpos hfit hcounts
  unfold TablePrinted AllPrinted
  rw [heq]
  constructor
  · constructor
    · rintro ⟨⟨r, hr, hexact⟩, -⟩
      cases hr
      obtain ⟨hsmall, hstray⟩ := htable.1 hexact
      exact ⟨fun _ => ⟨hsame, hfit, hsmall⟩, hstray⟩
    · exact fun ⟨hsmall, hstray⟩ => ⟨⟨_, rfl, htable.2 ⟨(hsmall hpos).throughput, hstray⟩⟩, hoverflow⟩
  · constructor
    · rintro ⟨⟨r, hr, hexact, hdetail⟩, -⟩
      cases hr
      obtain ⟨hsmall, hstray⟩ := htable.1 hexact
      exact ⟨fun _ => ⟨⟨hsame, hfit, hsmall⟩, hdetails.1 hdetail⟩, hstray⟩
    · exact fun ⟨hsmall, hstray⟩ => ⟨⟨_, rfl, htable.2 ⟨(hsmall hpos).1.throughput, hstray⟩, hdetails.2 (hsmall hpos).2⟩, hoverflow⟩

end Exact

/-! ## Two phases -/

/-- one state with so many requests and errors -/
def oneState (count error : Int32) : Stats 1 := ⟨fun _ => { Entry.fresh with count := count, error := error }, 0, 0⟩

theorem exactSum_oneState (count error : Int32) : exactSum (oneState count error) Entry.count = count.toInt ∧
    exactSum (oneState count error) Entry.error = error.toInt :=
  ⟨Fin.sum_univ_one _, Fin.sum_univ_one _⟩

theorem inRange_oneState {count error : Int32} (hcount : 0 ≤ count.toInt) (herror : 0 ≤ error.toInt) :
    InRange (oneState count error) where
  count := fun _ => hcount
  error := fun _ => herror
  counts := (exactSum_oneState count error).1 ▸ count.toInt_lt
  errors := (exactSum_oneState count error).2 ▸ error.toInt_lt

/-- three requests, one of them failed, in an hour: the table is exact, the details are not -/
theorem display_exact_hour : TablePrinted (oneState 3 1) newYearsEve newYearsDay false ∧
    ¬ AllPrinted (oneState 3 1) newYearsEve newYearsDay false := by
  have hrange : InRange (oneState 3 1) := inRange_oneState (by decide) (by decide)
  obtain ⟨htable, hall⟩ := display_exact_iff (oneState 3 1) hrange newYearsEve newYearsDay false
  have hsum : exactSum (oneState 3 1) Entry.count = 3 ∧ exactSum (oneState 3 1) Entry.error = 1 := exactSum_oneState 3 1
  have hdiff : diffTimeInMs newYearsEve newYearsDay = 3600500 := by decide
  refine ⟨htable.2 ⟨fun _ => ⟨?_, ?_, ?_⟩, ?_⟩, fun h => ?_⟩
  · rw [← diffTimeInMs_eq_zero_iff, hdiff]
    decide
  · rw [hsum.1, hsum.2]
    decide
  · rw [hsum.1, hsum.2, hdiff]
    decide
  · intro i _ hlt
    exact absurd (show (3 : Int32).toInt < (1 : Int32).toInt from hlt) (by decide)
  · have herrors := ((hall.1 h).1 (by rw [hsum.1]; decide)).2
    rw [hsum.2] at herrors
    exact absurd herrors (by decide)

/-- **Three million requests have a negative throughput.** -/
theorem display_overflows : ¬ ∀ (s : Stats 1) (startDate endDate : GregorianCalendar), InRange s →
    startDate.timeInMillis ≤ endDate.timeInMillis → TablePrinted s startDate endDate false := by
  intro h
  have hrange : InRange (oneState 3000000 0) := inRange_oneState (by decide) (by decide)
  obtain ⟨⟨r, hr, hexact⟩, -⟩ := h (oneState 3000000 0) newYearsEve newYearsDay hrange (by decide)
  have hthroughput : (displayStats (oneState 3000000 0) (durationOf newYearsEve newYearsDay) false).toOption.bind
      (fun r => r.total.map Total.throughput) = some (-359) := by decide +kernel
  rw [hr] at hthroughput
  obtain ⟨t, ht, hvalue⟩ := Option.map_eq_some_iff.1 hthroughput
  have hnonneg := (hexact.throughput t ht).2
  rw [hvalue] at hnonneg
  exact absurd hnonneg (by decide)

end Rubbos.Client.DisplayStats
