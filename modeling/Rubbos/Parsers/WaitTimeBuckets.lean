/-
The rows and the buckets of the wait time tool (`WaitTime.cpp`), in exact arithmetic.

The tool reads its file twice with `fscanf`, row by row until EOF. The first time it takes the least start time, the second time it
distributes the duration of every row that is not for a html page over buckets of 50 ms: a cursor goes from the start of the row to
its end in steps of a bucket, and every bucket that it meets gets its part. The buckets are aligned to the least start time and the
cursor is not.

- `rowLoop_eq`: the loop over the buckets of a row.
- `distributes_iff`: one row.
- `conserves_iff`: the whole file.

`WaitTimeLoops` is about the same loops in doubles, and if they end.

Counterexample: `last_part_lost`.
-/
import Rubbos.Core.Casts
import Rubbos.Core.CLib
import Rubbos.Core.Cuts
import Rubbos.Core.Decimal
import Rubbos.Core.Scanf

namespace Rubbos.Parsers.WaitTimeBuckets

open Rubbos.Core CLib Scanf Cuts

/-! ## Model -/

/-- `"%d,%lf,%lf,%s,%lf"` -/
def format : List Directive :=
  [.conversion decimal, .literal ',', .conversion floating, .literal ',', .conversion floating, .literal ',', .conversion word,
    .literal ',', .conversion floating]

/-- what a call writes to the variables; the word is a C string with a comma in it, and fits `char category[100]` -/
structure Row where
  startTime : ℚ
  endTime : ℚ
  category : Text
  noNul : NUL ∉ category
  comma : ',' ∈ category
  short : category.length < 100
deriving DecidableEq

/-- the value of an item of `%lf`, if it is a decimal number -/
def number (item : Text) : Option ℚ :=
  match readDecimal item with
  | some (v, []) => some v
  | _ => none

/-- "%s" takes the rest of the line, so four items at most -/
def readRow : List Text → Option Row
  | [_, startTime, endTime, category] => do
    let startTime ← number startTime
    let endTime ← number endTime
    if h : NUL ∉ category ∧ ',' ∈ category ∧ category.length < 100 then
      some ⟨startTime, endTime, category, h.1, h.2.1, h.2.2⟩
    else none
  | _ => none

/-- the rows of a file of complete rows -/
def readRows : (fuel : ℕ) → Text → Option (List Row)
  | 0, _ => none
  | fuel + 1, file =>
    let r := scan format file
    if r.eof then some []
    else do
      let row ← readRow r.items
      let rows ← readRows fuel r.rest
      return row :: rows

def maxInt : ℚ := 2147483647

/-- the first loop, and `floor(min)` -/
def minTime (rows : List Row) : ℚ :=
  ⌊rows.foldl (fun min r => if r.startTime < min then r.startTime else min) maxInt⌋

def window : ℚ := 50

def BucketSize : ℕ := 100000

structure Buckets where
  maxBucket : ℤ
  bucketNum : ℕ → ℚ
  bucketSum : ℕ → ℚ

/-- the writes of an iteration; behind the end of the arrays they are undefined -/
def Buckets.add (B : Buckets) (bucket : ℤ) (proportionalDuration : ℚ) : Option Buckets :=
  if 0 ≤ bucket ∧ bucket < BucketSize then
    some
      { maxBucket := if B.maxBucket < bucket then bucket else B.maxBucket
        bucketNum := Function.update B.bucketNum bucket.toNat (B.bucketNum bucket.toNat + 1)
        bucketSum := Function.update B.bucketSum bucket.toNat (B.bucketSum bucket.toNat + proportionalDuration) }
  else none

/-- `atof` behind the comma -/
def Row.duration (r : Row) : ℚ := atof (r.category.dropWhile (· ≠ ',')).tail

/-- `strstr(category, "html") != NULL` -/
def Row.Html (r : Row) : Prop := "html".toList <:+: r.category

instance (r : Row) : Decidable r.Html := inferInstanceAs (Decidable (_ <:+: _))

/-- `while(startTimeCopy < endTime)` -/
def rowLoop (min : ℚ) (r : Row) (startTimeCopy : ℚ) (B : Buckets) : Option Buckets :=
  if startTimeCopy < r.endTime then do
    let bucket := truncate ((startTimeCopy - min) * 1000 / window)
    let minInterval := min + window / 1000 * bucket
    let maxInterval := minInterval + window / 1000
    let minInterval := if minInterval < r.startTime then r.startTime else minInterval
    let maxInterval := if r.endTime < maxInterval then r.endTime else maxInterval
    let proportional := (maxInterval - minInterval) / (r.endTime - r.startTime)
    let B ← B.add bucket (proportional * r.duration)
    rowLoop min r (startTimeCopy + window / 1000) B
  else some B
termination_by ⌈(r.endTime - startTimeCopy) * 20⌉.toNat
decreasing_by
  have hstep : (r.endTime - (startTimeCopy + window / 1000)) * 20 = (r.endTime - startTimeCopy) * 20 - 1 := by
    unfold window
    ring
  have hpos : 0 < ⌈(r.endTime - startTimeCopy) * 20⌉ := Int.ceil_pos.2 (by linarith)
  rw [hstep, Int.ceil_sub_one]
  omega

/-- the body of the second loop -/
def processRow (min : ℚ) (B : Buckets) (r : Row) : Option Buckets :=
  if r.Html then some B else rowLoop min r r.startTime B

def emptyBuckets : Buckets := ⟨0, fun _ => 0, fun _ => 0⟩

/-- the second loop -/
def account (rows : List Row) : Option Buckets := rows.foldlM (processRow (minTime rows)) emptyBuckets

/-! ## The loop over the buckets of a row -/

/-- the length of a bucket in seconds, `(double)(window)/1000.0` -/
theorem width : window / 1000 = 1 / 20 := by norm_num [window]

/-- the bucket of the start of a row -/
def firstBucket (min : ℚ) (r : Row) : ℕ := ⌊(r.startTime - min) * 20⌋₊

/-- how many buckets the cursor meets -/
def steps (r : Row) : ℕ := ⌈(r.endTime - r.startTime) * 20⌉₊

/-- the part of the duration that a bucket should get -/
def share (min : ℚ) (r : Row) (b : ℕ) : ℚ :=
  r.duration * between r.startTime r.endTime (min + b * (window / 1000)) (min + (b + 1 : ℕ) * (window / 1000)) /
    (r.endTime - r.startTime)

variable {min : ℚ} {r : Row} {B B' : Buckets}

/-- the writes of the iterations from the i-th on, one bucket after the other -/
def visit (min : ℚ) (r : Row) (i n : ℕ) (B : Buckets) : Option Buckets :=
  (List.range' i n).foldlM (fun B i => B.add (firstBucket min r + i : ℕ) (share min r (firstBucket min r + i))) B

/-- the cursor goes through the buckets one by one -/
theorem truncate_cursor (hmin : min ≤ r.startTime) (i : ℕ) :
    truncate ((r.startTime + i * (window / 1000) - min) * 1000 / window) = (firstBucket min r + i : ℕ) := by
  have hnonneg : 0 ≤ (r.startTime - min) * 20 := mul_nonneg (sub_nonneg.2 hmin) (by norm_num)
  have hscale : (r.startTime + i * (window / 1000) - min) * 1000 / window = (r.startTime - min) * 20 + (i : ℕ) := by
    unfold window
    ring
  have hpos : ¬ (r.startTime - min) * 20 + (i : ℕ) < 0 := by
    have : (0 : ℚ) ≤ (i : ℕ) := Nat.cast_nonneg i
    linarith
  rw [truncate, hscale, if_neg hpos, Int.floor_add_natCast, firstBucket, ← Int.natCast_floor_eq_floor hnonneg]
  push_cast
  rfl

/-- the cursor is in its bucket -/
theorem cursor_bounds (hmin : min ≤ r.startTime) (i : ℕ) :
    min + (firstBucket min r + i : ℕ) * (window / 1000) ≤ r.startTime + i * (window / 1000) ∧
      r.startTime + i * (window / 1000) < min + (firstBucket min r + i + 1 : ℕ) * (window / 1000) := by
  have hnonneg : 0 ≤ (r.startTime - min) * 20 := mul_nonneg (sub_nonneg.2 hmin) (by norm_num)
  have hlow : (firstBucket min r : ℚ) ≤ (r.startTime - min) * 20 := Nat.floor_le hnonneg
  have hhigh : (r.startTime - min) * 20 < firstBucket min r + 1 := Nat.lt_floor_add_one _
  rw [width]
  push_cast
  constructor <;> linarith

theorem rowLoop_step (hmin : min ≤ r.startTime) {i : ℕ} (hi : r.startTime + i * (window / 1000) < r.endTime) (B : Buckets) :
    rowLoop min r (r.startTime + i * (window / 1000)) B =
      (B.add (firstBucket min r + i : ℕ) (share min r (firstBucket min r + i))).bind
        (rowLoop min r (r.startTime + (i + 1 : ℕ) * (window / 1000))) := by
  obtain ⟨hlow, hhigh⟩ := cursor_bounds hmin i
  have hcursor : r.startTime ≤ r.startTime + i * (window / 1000) :=
    le_add_of_nonneg_right (mul_nonneg (Nat.cast_nonneg i) (by norm_num [window]))
  have hnext : r.startTime + i * (window / 1000) + window / 1000 = r.startTime + (i + 1 : ℕ) * (window / 1000) := by
    push_cast
    ring
  have hright : min + (firstBucket min r + i : ℕ) * (window / 1000) + window / 1000 =
      min + (firstBucket min r + i + 1 : ℕ) * (window / 1000) := by
    push_cast
    ring
  have hleft : min + window / 1000 * ((firstBucket min r + i : ℕ) : ℤ) = min + (firstBucket min r + i : ℕ) * (window / 1000) := by
    push_cast
    ring
  rw [rowLoop, if_pos hi]
  simp only [truncate_cursor hmin, hnext, hright, hleft]
  generalize hc : min + (firstBucket min r + i : ℕ) * (window / 1000) = c at hlow
  generalize hd : min + (firstBucket min r + i + 1 : ℕ) * (window / 1000) = d at hhigh
  have hmax : (if c < r.startTime then r.startTime else c) = max r.startTime c := by
    split
    · next h => exact (max_eq_left h.le).symm
    · next h => exact (max_eq_right (not_lt.1 h)).symm
  have hmin' : (if r.endTime < d then r.endTime else d) = Min.min r.endTime d := by
    split
    · next h => exact (min_eq_left h.le).symm
    · next h => exact (min_eq_right (not_lt.1 h)).symm
  have hpart : between r.startTime r.endTime c d = Min.min r.endTime d - max r.startTime c :=
    max_eq_right (sub_nonneg.2 (max_le (le_min (hcursor.trans hi.le) (hcursor.trans hhigh.le))
      (le_min (hlow.trans hi.le) (hlow.trans hhigh.le))))
  have hshare : (Min.min r.endTime d - max r.startTime c) / (r.endTime - r.startTime) * r.duration =
      share min r (firstBucket min r + i) := by
    rw [share, hc, hd, hpart]
    ring
  rw [hmax, hmin', hshare]
  rfl

/-- **The loop of a row** visits so many buckets from the one of its start on. -/
theorem rowLoop_eq (hmin : min ≤ r.startTime) (n : ℕ) {i : ℕ} (hi : i + n = steps r) (B : Buckets) :
    rowLoop min r (r.startTime + i * (window / 1000)) B = visit min r i n B := by
  induction n generalizing i B with
  | zero =>
    have hle : (r.endTime - r.startTime) * 20 ≤ i := by
      have hceil := Nat.le_ceil ((r.endTime - r.startTime) * 20)
      rwa [← steps, ← hi, add_zero] at hceil
    have hend : ¬ r.startTime + i * (window / 1000) < r.endTime := by
      rw [width]
      linarith
    rw [rowLoop, if_neg hend]
    rfl
  | succ n ih =>
    have hsteps : (i : ℚ) < (r.endTime - r.startTime) * 20 := by
      rw [← Nat.lt_ceil, ← steps]
      omega
    have hlt : r.startTime + i * (window / 1000) < r.endTime := by
      rw [width]
      linarith
    rw [rowLoop_step hmin hlt, visit, List.range'_succ, List.foldlM_cons]
    have hnext : i + 1 + n = steps r := by omega
    congr 1
    funext B
    exact ih hnext B

theorem add_bucket {b : ℕ} {x : ℚ} : B.add b x = some B' ↔ b < BucketSize ∧
    B' = { maxBucket := if B.maxBucket < b then b else B.maxBucket
           bucketNum := Function.update B.bucketNum b (B.bucketNum b + 1)
           bucketSum := Function.update B.bucketSum b (B.bucketSum b + x) } := by
  unfold Buckets.add
  by_cases hb : b < BucketSize
  · have hin : (0 : ℤ) ≤ b ∧ (b : ℤ) < BucketSize := by omega
    rw [if_pos hin, Option.some.injEq]
    exact ⟨fun h => ⟨hb, h.symm⟩, fun h => h.2.symm⟩
  · have hout : ¬ ((0 : ℤ) ≤ b ∧ (b : ℤ) < BucketSize) := by omega
    rw [if_neg hout]
    exact ⟨fun h => (nomatch h), fun h => absurd h.1 hb⟩

theorem visit_succ (n : ℕ) : visit min r 0 (n + 1) B =
    (visit min r 0 n B).bind fun B => B.add (firstBucket min r + n : ℕ) (share min r (firstBucket min r + n)) := by
  have hlast (B : Buckets) : [0 + 1 * n].foldlM (fun B i => B.add (firstBucket min r + i : ℕ) (share min r (firstBucket min r + i))) B =
      B.add (firstBucket min r + n : ℕ) (share min r (firstBucket min r + n)) := by
    rw [zero_add, one_mul, List.foldlM_cons]
    exact bind_pure _
  rw [visit, List.range'_concat, List.foldlM_append, visit]
  exact congrArg _ (funext hlast)

/-- the visits stay in the arrays -/
theorem visit_spec (min : ℚ) (r : Row) (n : ℕ) (B : Buckets) :
    (∃ B', visit min r 0 n B = some B') ↔ n = 0 ∨ firstBucket min r + n ≤ BucketSize := by
  induction n with
  | zero => exact ⟨fun _ => .inl rfl, fun _ => ⟨B, rfl⟩⟩
  | succ n ih =>
    rw [visit_succ]
    constructor
    · rintro ⟨B', h⟩
      obtain ⟨mid, -, hadd⟩ := Option.bind_eq_some_iff.1 h
      have hbound := (add_bucket.1 hadd).1
      exact .inr (by omega)
    · intro h
      obtain ⟨mid, hmid⟩ := ih.2 (.inr (by omega))
      rw [hmid, Option.bind_some]
      exact ⟨_, add_bucket.2 ⟨by omega, rfl⟩⟩

/-- every bucket that is visited gets its part -/
theorem visit_sum {n : ℕ} (h : visit min r 0 n B = some B') (b : ℕ) : B'.bucketSum b =
    B.bucketSum b + if firstBucket min r ≤ b ∧ b < firstBucket min r + n then share min r b else 0 := by
  induction n generalizing B' with
  | zero =>
    have hno : ¬ (firstBucket min r ≤ b ∧ b < firstBucket min r + 0) := by omega
    rw [if_neg hno, add_zero, ← Option.some.inj h]
  | succ n ih =>
    rw [visit_succ] at h
    obtain ⟨mid, hmid, hadd⟩ := Option.bind_eq_some_iff.1 h
    obtain ⟨-, rfl⟩ := add_bucket.1 hadd
    simp only
    by_cases hb : b = firstBucket min r + n
    · subst hb
      have hin : firstBucket min r ≤ firstBucket min r + n ∧ firstBucket min r + n < firstBucket min r + (n + 1) := by omega
      have hbefore : ¬ (firstBucket min r ≤ firstBucket min r + n ∧ firstBucket min r + n < firstBucket min r + n) := by omega
      rw [Function.update_self, ih hmid, if_pos hin, if_neg hbefore, add_zero]
    · have hsame : (firstBucket min r ≤ b ∧ b < firstBucket min r + (n + 1)) ↔
          (firstBucket min r ≤ b ∧ b < firstBucket min r + n) := by omega
      rw [Function.update_of_ne hb, ih hmid]
      simp only [hsame]

/-! ## One row -/

/-- the duration of a row is distributed: every bucket gets its part, and all of them together get the duration -/
def Distributes (min : ℚ) (r : Row) : Prop :=
  ∀ B, ∃ B', rowLoop min r r.startTime B = some B' ∧ (∀ b, B'.bucketSum b = B.bucketSum b + share min r b) ∧
    ∑ b ∈ Finset.range BucketSize, (B'.bucketSum b - B.bucketSum b) = r.duration

/-- the cursor meets the bucket of the end, and no bucket behind the arrays -/
def Complete (min : ℚ) (r : Row) : Prop :=
  firstBucket min r + steps r ≤ BucketSize ∧ (r.duration = 0 ∨ (r.endTime - min) * 20 ≤ (firstBucket min r + steps r : ℕ))

instance (min : ℚ) (r : Row) : Decidable (Complete min r) := inferInstanceAs (Decidable (_ ∧ _))

theorem share_of_zero (h : r.duration = 0) (b : ℕ) : share min r b = 0 := by
  rw [share, h, zero_mul, zero_div]

/-- the parts of all buckets, if they cover the row -/
theorem sum_share (hmin : min ≤ r.startTime) (hlt : r.startTime < r.endTime) {n : ℕ} (h : (r.endTime - min) * 20 ≤ n) :
    ∑ b ∈ Finset.range n, share min r b = r.duration := by
  have hlen : r.endTime - r.startTime ≠ 0 := (sub_pos.2 hlt).ne'
  have hmono : Monotone fun b : ℕ => min + b * (window / 1000) := by
    intro b b' hbb
    have hcast : (b : ℚ) ≤ b' := by exact_mod_cast hbb
    simp only [width]
    linarith
  have hfirst : min + ((0 : ℕ) : ℚ) * (window / 1000) ≤ r.startTime := by
    push_cast
    linarith
  have hlast : r.endTime ≤ min + (n : ℚ) * (window / 1000) := by
    rw [width]
    linarith
  calc ∑ b ∈ Finset.range n, share min r b
      = r.duration * (∑ b ∈ Finset.range n,
          between r.startTime r.endTime (min + b * (window / 1000)) (min + (b + 1 : ℕ) * (window / 1000))) /
          (r.endTime - r.startTime) := by
        rw [Finset.mul_sum, Finset.sum_div]
        rfl
    _ = r.duration * (r.endTime - r.startTime) / (r.endTime - r.startTime) := by
        rw [sum_between_covers hlt.le hmono hfirst hlast]
    _ = r.duration := mul_div_cancel_right₀ _ hlen

/-- the bucket behind the last one that is visited, if the row goes on -/
theorem share_ne_zero (hmin : min ≤ r.startTime) (hlt : r.startTime < r.endTime) (hduration : r.duration ≠ 0)
    (hlost : ((firstBucket min r + steps r : ℕ) : ℚ) < (r.endTime - min) * 20) :
    share min r (firstBucket min r + steps r) ≠ 0 := by
  have hlen : r.endTime - r.startTime ≠ 0 := (sub_pos.2 hlt).ne'
  have hhigh := (cursor_bounds hmin (steps r)).2
  have hstep : (0 : ℚ) ≤ steps r := Nat.cast_nonneg _
  rw [width] at hhigh
  have hpart : 0 < between r.startTime r.endTime (min + (firstBucket min r + steps r : ℕ) * (window / 1000))
      (min + (firstBucket min r + steps r + 1 : ℕ) * (window / 1000)) := by
    rw [width]
    refine between_pos hlt ?_ ?_ ?_
    · push_cast
      linarith
    · linarith
    · linarith
  exact div_ne_zero (mul_ne_zero hduration hpart.ne') hlen

/-- the buckets that are not visited, if there is nothing left -/
theorem share_outside (hmin : min ≤ r.startTime) (hcovered : r.duration = 0 ∨ (r.endTime - min) * 20 ≤ (firstBucket min r + steps r : ℕ))
    {b : ℕ} (hb : ¬ (firstBucket min r ≤ b ∧ b < firstBucket min r + steps r)) : share min r b = 0 := by
  rcases hcovered with hnone | hcovered
  · exact share_of_zero hnone b
  have hpart : between r.startTime r.endTime (min + b * (window / 1000)) (min + (b + 1 : ℕ) * (window / 1000)) = 0 := by
    by_cases hfirst : firstBucket min r ≤ b
    · have hlast : ((firstBucket min r + steps r : ℕ) : ℚ) ≤ b := by exact_mod_cast not_lt.1 fun h => hb ⟨hfirst, h⟩
      refine between_of_le ?_
      rw [width]
      linarith
    · have hle : ((b + 1 : ℕ) : ℚ) ≤ firstBucket min r := by exact_mod_cast not_le.1 hfirst
      have hlow := (cursor_bounds hmin 0).1
      rw [width] at hlow
      refine between_of_ge ?_
      rw [width]
      push_cast at hlow hle ⊢
      linarith
  rw [share, hpart, mul_zero, zero_div]

/-- **A row is distributed** exactly if its loop is complete. -/
theorem distributes_iff (hmin : min ≤ r.startTime) (hlt : r.startTime < r.endTime) : Distributes min r ↔ Complete min r := by
  have hzero : r.startTime + (0 : ℕ) * (window / 1000) = r.startTime := by simp
  have hloop (B : Buckets) : rowLoop min r r.startTime B = visit min r 0 (steps r) B := by
    have := rowLoop_eq hmin (steps r) (Nat.zero_add _) B
    rwa [hzero] at this
  have hsteps : steps r ≠ 0 := by
    rw [steps, ← Nat.pos_iff_ne_zero, Nat.ceil_pos]
    linarith
  constructor
  · intro h
    obtain ⟨B', hrun, hparts, -⟩ := h emptyBuckets
    rw [hloop] at hrun
    have hbound := ((visit_spec min r (steps r) emptyBuckets).1 ⟨B', hrun⟩).resolve_left hsteps
    refine ⟨hbound, ?_⟩
    by_contra hlost
    rw [not_or, not_le] at hlost
    -- the bucket behind the last one that is visited has a part of the row
    have hmissed := visit_sum hrun (firstBucket min r + steps r)
    have hno : ¬ (firstBucket min r ≤ firstBucket min r + steps r ∧
        firstBucket min r + steps r < firstBucket min r + steps r) := by omega
    rw [hparts, if_neg hno, add_right_inj] at hmissed
    exact share_ne_zero hmin hlt hlost.1 hlost.2 hmissed
  · rintro ⟨hbound, hcovered⟩ B
    obtain ⟨B', hrun⟩ := (visit_spec min r (steps r) B).2 (.inr hbound)
    have hparts (b : ℕ) : B'.bucketSum b = B.bucketSum b + share min r b := by
      rw [visit_sum hrun]
      split
      · rfl
      · next hb => rw [share_outside hmin hcovered hb]
    refine ⟨B', by rw [hloop, hrun], hparts, ?_⟩
    have hsum : ∑ b ∈ Finset.range BucketSize, (B'.bucketSum b - B.bucketSum b) = ∑ b ∈ Finset.range BucketSize, share min r b :=
      Finset.sum_congr rfl fun b _ => by rw [hparts, add_sub_cancel_left]
    rw [hsum]
    rcases hcovered with hnone | hcovered
    · rw [hnone]
      exact Finset.sum_eq_zero fun b _ => share_of_zero hnone b
    · refine sum_share hmin hlt (hcovered.trans ?_)
      exact_mod_cast hbound

/-! ## The file -/

variable {rows : List Row}

/-- the durations of the rows are conserved: of each row, and of the file -/
structure Conserves (rows : List Row) : Prop where
  row : ∀ r ∈ rows, ¬ r.Html → r.startTime < r.endTime → Distributes (minTime rows) r
  file : ∃ B, account rows = some B ∧
    ∑ b ∈ Finset.range BucketSize, B.bucketSum b = ((rows.filter fun r => ¬ r.Html).map Row.duration).sum

/-- the rows that take no time -/
def Idle (r : Row) : Prop := ¬ r.Html ∧ ¬ r.startTime < r.endTime

instance (r : Row) : Decidable (Idle r) := inferInstanceAs (Decidable (_ ∧ _))

theorem foldl_min_le (rows : List Row) (m : ℚ) :
    rows.foldl (fun min r => if r.startTime < min then r.startTime else min) m ≤ m ∧
      ∀ r ∈ rows, rows.foldl (fun min r => if r.startTime < min then r.startTime else min) m ≤ r.startTime := by
  induction rows generalizing m with
  | nil => exact ⟨le_rfl, fun r hr => (nomatch hr)⟩
  | cons r rows ih =>
    obtain ⟨hle, hrows⟩ := ih (if r.startTime < m then r.startTime else m)
    have hboth : (if r.startTime < m then r.startTime else m) ≤ m ∧ (if r.startTime < m then r.startTime else m) ≤ r.startTime := by
      split
      · next h => exact ⟨h.le, le_rfl⟩
      · next h => exact ⟨le_rfl, not_lt.1 h⟩
    refine ⟨hle.trans hboth.1, fun r' hr' => ?_⟩
    rcases List.mem_cons.1 hr' with rfl | hr'
    · exact hle.trans hboth.2
    · exact hrows r' hr'

/-- no row starts before the least start time -/
theorem minTime_le (hr : r ∈ rows) : minTime rows ≤ r.startTime :=
  (Int.floor_le _).trans ((foldl_min_le rows maxInt).2 r hr)

/-- what a row adds to the buckets -/
def spent (r : Row) : ℚ := if ¬ r.Html ∧ r.startTime < r.endTime then r.duration else 0

theorem processRow_spends (hrow : ¬ r.Html → r.startTime < r.endTime → Distributes min r) (B : Buckets) :
    ∃ B', processRow min B r = some B' ∧ ∑ b ∈ Finset.range BucketSize, (B'.bucketSum b - B.bucketSum b) = spent r := by
  unfold processRow spent
  by_cases hhtml : r.Html
  · rw [if_pos hhtml, if_neg fun h => h.1 hhtml]
    exact ⟨B, rfl, by simp⟩
  by_cases hlt : r.startTime < r.endTime
  · rw [if_neg hhtml, if_pos ⟨hhtml, hlt⟩]
    obtain ⟨B', hrun, -, hsum⟩ := hrow hhtml hlt B
    exact ⟨B', hrun, hsum⟩
  · rw [if_neg hhtml, if_neg fun h => hlt h.2, rowLoop, if_neg hlt]
    exact ⟨B, rfl, by simp⟩

theorem run_spends (hrows : ∀ r ∈ rows, ¬ r.Html → r.startTime < r.endTime → Distributes min r) (B : Buckets) :
    ∃ B', rows.foldlM (processRow min) B = some B' ∧
      ∑ b ∈ Finset.range BucketSize, (B'.bucketSum b - B.bucketSum b) = (rows.map spent).sum := by
  induction rows generalizing B with
  | nil => exact ⟨B, rfl, by simp⟩
  | cons r rows ih =>
    obtain ⟨mid, hmid, hspent⟩ := processRow_spends (hrows r List.mem_cons_self) B
    obtain ⟨B', hrun, hsum⟩ := ih (fun r' hr' => hrows r' (List.mem_cons_of_mem r hr')) mid
    refine ⟨B', by rw [List.foldlM_cons, hmid]; exact hrun, ?_⟩
    rw [List.map_cons, List.sum_cons, ← hspent, ← hsum, ← Finset.sum_add_distrib]
    exact Finset.sum_congr rfl fun b _ => by ring

/-- the durations of the rows: spent, or of rows that take no time -/
theorem sum_durations (rows : List Row) :
    ((rows.filter fun r => ¬ r.Html).map Row.duration).sum = (rows.map spent).sum + ((rows.filter Idle).map Row.duration).sum := by
  induction rows with
  | nil => simp
  | cons r rows ih =>
    rw [List.map_cons, List.sum_cons]
    by_cases hhtml : r.Html
    · have hidle : ¬ Idle r := fun h => h.1 hhtml
      have hspent : spent r = 0 := if_neg fun h => h.1 hhtml
      rw [List.filter_cons_of_neg (by simpa using hhtml), List.filter_cons_of_neg (by simpa using hidle), hspent, zero_add, ih]
    rw [List.filter_cons_of_pos (by simpa using hhtml), List.map_cons, List.sum_cons, ih]
    by_cases hlt : r.startTime < r.endTime
    · have hidle : ¬ Idle r := fun h => h.2 hlt
      have hspent : spent r = r.duration := if_pos ⟨hhtml, hlt⟩
      rw [List.filter_cons_of_neg (by simpa using hidle), hspent, add_assoc]
    · have hidle : Idle r := ⟨hhtml, hlt⟩
      have hspent : spent r = 0 := if_neg fun h => hlt h.2
      rw [List.filter_cons_of_pos (by simpa using hidle), List.map_cons, List.sum_cons, hspent, zero_add, add_left_comm]

/-- the rows of a file -/
theorem conserves_rows_iff (rows : List Row) :
    Conserves rows ↔ (∀ r ∈ rows, ¬ r.Html → r.startTime < r.endTime → Complete (minTime rows) r) ∧
      ((rows.filter Idle).map Row.duration).sum = 0 := by
  have hcomplete : (∀ r ∈ rows, ¬ r.Html → r.startTime < r.endTime → Distributes (minTime rows) r) ↔
      ∀ r ∈ rows, ¬ r.Html → r.startTime < r.endTime → Complete (minTime rows) r :=
    forall₂_congr fun r hr => imp_congr_right fun _ => forall_congr' fun hlt => distributes_iff (minTime_le hr) hlt
  have hfile (h : ∀ r ∈ rows, ¬ r.Html → r.startTime < r.endTime → Distributes (minTime rows) r) :
      (∃ B, account rows = some B ∧
        ∑ b ∈ Finset.range BucketSize, B.bucketSum b = ((rows.filter fun r => ¬ r.Html).map Row.duration).sum) ↔
        ((rows.filter Idle).map Row.duration).sum = 0 := by
    obtain ⟨B, hrun, hsum⟩ := run_spends h emptyBuckets
    have hsum' : ∑ b ∈ Finset.range BucketSize, B.bucketSum b = (rows.map spent).sum := by
      rw [← hsum]
      exact Finset.sum_congr rfl fun b _ => (sub_zero _).symm
    have hrun' : account rows = some B := hrun
    simp only [hrun', Option.some.injEq, exists_eq_left', sum_durations, hsum', left_eq_add]
  constructor
  · rintro ⟨hrow, hsum⟩
    exact ⟨hcomplete.1 hrow, (hfile hrow).1 hsum⟩
  · rintro ⟨hrow, hidle⟩
    exact ⟨hcomplete.2 hrow, (hfile (hcomplete.2 hrow)).2 hidle⟩

/-- **The durations of a file are conserved** exactly if the loop of every row that takes time is complete, and the durations of
those that take none add up to nothing. -/
theorem conserves_iff (file : Text) :
    (∀ rows, readRows (file.length + 1) file = some rows → Conserves rows) ↔
      ∀ rows, readRows (file.length + 1) file = some rows →
        (∀ r ∈ rows, ¬ r.Html → r.startTime < r.endTime → Complete (minTime rows) r) ∧
          ((rows.filter Idle).map Row.duration).sum = 0 :=
  forall₂_congr fun rows _ => conserves_rows_iff rows

/-- a row of 95 ms, 40 ms behind the beginning of a bucket -/
def shiftedFile : Text := "1,1000.040,1000.135,viewStory,95\n".toList

def shiftedRow : Row := ⟨1000.04, 1000.135, "viewStory,95".toList, by decide, by decide, by decide⟩

/-- **The last part** of a row that does not start with a bucket is lost. -/
theorem last_part_lost : ¬ ∀ rows, readRows (shiftedFile.length + 1) shiftedFile = some rows → Conserves rows := by
  intro h
  have hread : readRows (shiftedFile.length + 1) shiftedFile = some [shiftedRow] := by decide +kernel
  have hcomplete := ((conserves_rows_iff _).1 (h _ hread)).1 shiftedRow List.mem_cons_self (by decide +kernel) (by decide +kernel)
  exact absurd hcomplete (by decide +kernel)

end Rubbos.Parsers.WaitTimeBuckets
