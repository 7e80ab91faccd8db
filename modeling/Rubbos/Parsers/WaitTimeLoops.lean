/-
The loops of the wait time tool (`WaitTime.cpp`) as a machine, with doubles.

Both reading loops call `fscanf` until it answers EOF. A call that converts fewer items than the format has leaves the other
variables as they are. The body of the second loop has a loop of its own: a cursor goes from the start of the row to its end in
steps of 50 ms, and every iteration writes to the bucket of the cursor.

A step that C leaves undefined has no next state: a category that does not fit its array, a category without a comma that is looked
at, a number of a bucket that is no int or not in the arrays. What is in the variables before the first call is a parameter.

- `reading_ends_iff`: when the loops end.
- `addUp_width_iff`: when a cursor gets to the end of its row.

Counterexamples: `header_never_ends`, `cursor_never_moves`.
-/
import Rubbos.Core.Binary64
import Rubbos.Parsers.WaitTimeBuckets

namespace Rubbos.Parsers.WaitTimeLoops

open Rubbos.Core CLib Scanf Binary64
open WaitTimeBuckets (format window BucketSize maxInt)

/-! ## Model -/

/-- the variables that the calls write and the loops read; `category` is the string in the array -/
structure Vars where
  startTime : Binary64
  endTime : Binary64
  category : Text

/-- what a call writes -/
def Vars.fill (v : Vars) : (items : List Text) → Vars
  | [] | [_] => v
  | [_, startTime] => { v with startTime := strtod startTime }
  | [_, startTime, endTime] => { v with startTime := strtod startTime, endTime := strtod endTime }
  | _ :: startTime :: endTime :: category :: _ => ⟨strtod startTime, strtod endTime, category.takeWhile (· ≠ NUL)⟩

/-- `char category[100]` -/
def Fits (items : List Text) : Prop := ∀ category ∈ items[3]?, category.length < 100

instance (items : List Text) : Decidable (Fits items) := inferInstanceAs (Decidable (∀ category ∈ items[3]?, _))

/-- `strstr(category, "html") != NULL` -/
def Vars.Html (v : Vars) : Prop := "html".toList <:+: v.category

instance (v : Vars) : Decidable v.Html := inferInstanceAs (Decidable (_ <:+: _))

/-- `atof` behind the comma -/
def Vars.duration (v : Vars) : Binary64 := ofExact (atof (v.category.dropWhile (· ≠ ',')).tail)

/-- `(double)(window)/1000.0` -/
def width : Binary64 := ofExact window / ofExact 1000

structure Buckets where
  maxBucket : ℤ
  bucketNum : ℕ → Binary64
  bucketSum : ℕ → Binary64

def emptyBuckets : Buckets := ⟨0, fun _ => ofExact 0, fun _ => ofExact 0⟩

def bucketOf (min startTimeCopy : Binary64) : Option ℤ := toInt32 ((startTimeCopy - min) * ofExact 1000 / ofExact window)

/-- the cursor is in a bucket of the arrays -/
def InArrays (min startTimeCopy : Binary64) : Prop := ∃ bucket ∈ bucketOf min startTimeCopy, 0 ≤ bucket ∧ bucket < BucketSize

/-- the writes of an iteration; behind the end of the arrays they are undefined -/
def Buckets.add (B : Buckets) (bucket : ℤ) (proportionalDuration : Binary64) : Option Buckets :=
  if 0 ≤ bucket ∧ bucket < BucketSize then
    some
      { maxBucket := if B.maxBucket < bucket then bucket else B.maxBucket
        bucketNum := Function.update B.bucketNum bucket.toNat (B.bucketNum bucket.toNat + ofExact 1)
        bucketSum := Function.update B.bucketSum bucket.toNat (B.bucketSum bucket.toNat + proportionalDuration) }
  else none

/-- the body of `while(startTimeCopy < endTime)`, up to the step of the cursor -/
def addPart (v : Vars) (min startTimeCopy : Binary64) (B : Buckets) : Option Buckets := do
  let bucket ← bucketOf min startTimeCopy
  let minInterval := min + width * ofExact bucket
  let maxInterval := minInterval + width
  let minInterval := if minInterval < v.startTime then v.startTime else minInterval
  let maxInterval := if v.endTime < maxInterval then v.endTime else maxInterval
  let proportional := (maxInterval - minInterval) / (v.endTime - v.startTime)
  B.add bucket (proportional * v.duration)

/-- the heads of the loops: the first, the second, the one inside the second, and what follows -/
inductive State
  | first (fp : Text) (v : Vars) (min : Binary64)
  | second (fp : Text) (v : Vars) (min : Binary64) (B : Buckets)
  | row (fp : Text) (v : Vars) (min startTimeCopy : Binary64) (B : Buckets)
  | behind (min : Binary64) (B : Buckets)

/-- from a head of a loop to the next one; the largest start time is only printed -/
def step (file : Text) : State → Option State
  | .first fp v min =>
    let r := scan format fp
    -- rewind(fp), and category is cleared
    if r.eof then some (.second file { v with category := [] } min.floor emptyBuckets)
    else if Fits r.items then
      let v := v.fill r.items
      some (.first r.rest v (if v.startTime < min then v.startTime else min))
    else none
  | .second fp v min B =>
    let r := scan format fp
    if r.eof then some (.behind min B)
    else if Fits r.items then
      let v := v.fill r.items
      if v.Html then some (.second r.rest v min B)
      else if ',' ∈ v.category then some (.row r.rest v min v.startTime B)
      else none
    else none
  | .row fp v min startTimeCopy B =>
    if startTimeCopy < v.endTime then (addPart v min startTimeCopy B).map (.row fp v min (startTimeCopy + width))
    else some (.second fp v min B)
  | .behind min B => some (.behind min B)

/-- a run gets behind the loops, in steps that are all defined -/
inductive Terminates (file : Text) : State → Prop
  | behind (min : Binary64) (B : Buckets) : Terminates file (.behind min B)
  | step {s s' : State} (h : step file s = some s') (hs' : Terminates file s') : Terminates file s

/-- the loops end, and every call takes something of the file or is the last one -/
structure ReadingEnds (file : Text) (v : Vars) : Prop where
  progress : Ends format file
  terminates : Terminates file (.first file v (ofExact maxInt))

/-- what the calls of a loop convert, up to EOF -/
def records : (fuel : ℕ) → Text → List (List Text)
  | 0, _ => []
  | fuel + 1, fp =>
    let r := scan format fp
    if r.eof then [] else r.items :: records fuel r.rest

/-- the variables behind each of the calls -/
def rows : Vars → List (List Text) → List Vars
  | _, [] => []
  | v, items :: rest => v.fill items :: rows (v.fill items) rest

/-- the least start time of rows, and of what was the least before -/
def least (rows : List Vars) (min : Binary64) : Binary64 :=
  rows.foldl (fun min v => if v.startTime < min then v.startTime else min) min

/-- the variables behind the calls of the first loop -/
def firstRows (file : Text) (v : Vars) : List Vars := rows v (records (file.length + 1) file)

/-- `min` behind the first loop -/
def minTime (file : Text) (v : Vars) : Binary64 := (least (firstRows file v) (ofExact maxInt)).floor

/-- the variables behind the calls of the second loop -/
def secondRows (file : Text) (v : Vars) : List Vars :=
  rows { (firstRows file v).getLastD v with category := [] } (records (file.length + 1) file)

/-- the loop of a row ends -/
def RowEnds (min : Binary64) (v : Vars) : Prop :=
  ',' ∈ v.category ∧ (∀ n, addUp width v.startTime n < v.endTime → InArrays min (addUp width v.startTime n)) ∧
    (v.startTime < v.endTime → ¬ v.startTime < ofExact (-2 ^ 49) ∧ ¬ ofExact (2 ^ 49) < v.endTime)

/-! ## Runs -/

variable {file fp : Text} {v : Vars} {min : Binary64} {B : Buckets} {s s' : State}

theorem terminates_step (h : step file s = some s') : Terminates file s ↔ Terminates file s' := by
  constructor
  · intro hs
    cases hs with
    | behind min B =>
      cases h
      exact .behind min B
    | step hnext hs' => rwa [← Option.some.inj (hnext.symm.trans h)]
  · exact .step h

theorem not_terminates (hs : ∀ min B, s ≠ .behind min B) (h : step file s = none) : ¬ Terminates file s := by
  intro hterm
  cases hterm with
  | behind min B => exact hs min B rfl
  | step hnext _ => cases hnext.symm.trans h

/-! ## The loop of a row -/

/-- a bucket of 50 ms is a step that moves a sum below 2^49 -/
theorem width_step : ∃ w, ∃ hw : Step 49 w, width = finite w hw.double := by
  have hwidth : nearest (50 / 1000) = 3602879701896397 / 2 ^ 56 := by decide +kernel
  have hdouble : IsDouble (3602879701896397 / 2 ^ 56) := by decide +kernel
  have hstep : Step 49 (3602879701896397 / 2 ^ 56) := ⟨by norm_num, by norm_num, by norm_num, by norm_num, hdouble⟩
  have hnum : IsDouble 50 := by decide +kernel
  have hden : IsDouble 1000 := by decide +kernel
  refine ⟨_, hstep, ?_⟩
  calc width = finite 50 hnum / finite 1000 hden := by rw [width, window, ofExact_of_double hnum, ofExact_of_double hden]
    _ = ofExact (50 / 1000) := finite_div hnum hden (by norm_num)
    _ = finite _ hdouble := ofExact_eq hwidth hdouble

/-- **The cursor of a row** gets to its end. -/
theorem addUp_width_iff (c e : Binary64) :
    (∃ n, ¬ addUp width c n < e) ↔ (c < e → ¬ c < ofExact (-2 ^ 49) ∧ ¬ ofExact (2 ^ 49) < e) := by
  obtain ⟨w, hw, hwidth⟩ := width_step
  rw [hwidth]
  exact_mod_cast addUp_ends_iff hw

theorem addPart_some_iff (v : Vars) (min c : Binary64) (B : Buckets) : (∃ B', addPart v min c B = some B') ↔ InArrays min c := by
  unfold addPart InArrays
  cases bucketOf min c with
  | none => simp
  | some bucket => simp [Buckets.add]

/-- the loop of a row goes through the buckets of its cursor -/
theorem terminates_row {P : Prop} {min c : Binary64} (hP : ∀ B, Terminates file (.second fp v min B) ↔ P) :
    Terminates file (.row fp v min c B) ↔
      (∃ n, ¬ addUp width c n < v.endTime ∧ ∀ i < n, InArrays min (addUp width c i)) ∧ P := by
  constructor
  · intro h
    generalize hs : State.row fp v min c B = s at h
    induction h generalizing c B with
    | behind => cases hs
    | @step s s' hstep hs' ih =>
      subst hs
      by_cases hlt : c < v.endTime
      · simp only [step, if_pos hlt, Option.map_eq_some_iff] at hstep
        obtain ⟨B', hpart, rfl⟩ := hstep
        obtain ⟨⟨n, hend, hin⟩, hrest⟩ := ih rfl
        refine ⟨⟨n + 1, by rwa [← addUp_succ], fun i hi => ?_⟩, hrest⟩
        cases i with
        | zero => exact (addPart_some_iff v min c B).1 ⟨B', hpart⟩
        | succ i =>
          rw [← addUp_succ]
          exact hin i (by omega)
      · simp only [step, if_neg hlt, Option.some.injEq] at hstep
        subst hstep
        exact ⟨⟨0, hlt, fun i hi => absurd hi (Nat.not_lt_zero i)⟩, (hP B).1 hs'⟩
  · rintro ⟨⟨n, hend, hin⟩, hrest⟩
    induction n generalizing c B with
    | zero =>
      have hstep : step file (.row fp v min c B) = some (.second fp v min B) := if_neg hend
      exact (terminates_step hstep).2 ((hP B).2 hrest)
    | succ n ih =>
      by_cases hlt : c < v.endTime
      · obtain ⟨B', hpart⟩ := (addPart_some_iff v min c B).2 (hin 0 n.succ_pos)
        have hstep : step file (.row fp v min c B) = some (.row fp v min (c + width) B') := by
          simp only [step, if_pos hlt, hpart, Option.map_some]
        refine (terminates_step hstep).2 (ih (by rwa [addUp_succ]) fun i hi => ?_)
        rw [addUp_succ]
        exact hin (i + 1) (by omega)
      · have hstep : step file (.row fp v min c B) = some (.second fp v min B) := if_neg hlt
        exact (terminates_step hstep).2 ((hP B).2 hrest)

/-- the loop of a row ends exactly if the cursor stays in the arrays and gets to the end -/
theorem row_ends_iff {c e : Binary64} :
    (∃ n, ¬ addUp width c n < e ∧ ∀ i < n, InArrays min (addUp width c i)) ↔
      (∀ n, addUp width c n < e → InArrays min (addUp width c n)) ∧
        (c < e → ¬ c < ofExact (-2 ^ 49) ∧ ¬ ofExact (2 ^ 49) < e) := by
  rw [← addUp_width_iff]
  constructor
  · rintro ⟨n, hend, hin⟩
    refine ⟨fun m hm => hin m ?_, n, hend⟩
    by_contra hge
    obtain ⟨w, hw, hwidth⟩ := width_step
    rw [hwidth] at hend hm
    exact addUp_not_lt hw (not_lt.1 hge) hend hm
  · rintro ⟨hin, hends⟩
    classical
    exact ⟨Nat.find hends, Nat.find_spec hends, fun i hi => hin i (not_not.1 (Nat.find_min hends hi))⟩

/-! ## The loops of calls -/

theorem position_rest (fp : Text) (n : ℕ) : position format (scan format fp).rest n = position format fp (n + 1) := by
  induction n with
  | zero => rfl
  | succ n ih =>
    rw [position, ih]
    rfl

/-- every call from here on begins in front of what can be a number -/
def AllBegin (fp : Text) : Prop := ∀ n, Begins decimal (position format fp n)

theorem AllBegin.rest (h : AllBegin fp) : AllBegin (scan format fp).rest := by
  intro n
  rw [position_rest]
  exact h (n + 1)

/-- a call answers EOF, or it takes something -/
theorem AllBegin.call (h : AllBegin fp) :
    (scan format fp).eof = true ∨ (scan format fp).eof = false ∧ (scan format fp).rest.length < fp.length := by
  by_cases hs : skip fp = []
  · exact .inl (scan_of_blank hs)
  · exact .inr (scan_of_begins (h 0) hs)

/-- the first loop -/
theorem terminates_first {fuel : ℕ} (h : AllBegin fp) (hfuel : fp.length < fuel) :
    Terminates file (.first fp v min) ↔ (∀ items ∈ records fuel fp, Fits items) ∧
      Terminates file (.second file { (rows v (records fuel fp)).getLastD v with category := [] }
        (least (rows v (records fuel fp)) min).floor emptyBuckets) := by
  induction fuel generalizing fp v min with
  | zero => exact absurd hfuel (Nat.not_lt_zero _)
  | succ fuel ih =>
    rcases h.call with heof | ⟨hgoes, hlt⟩
    · have hstep : step file (.first fp v min) = some (.second file { v with category := [] } min.floor emptyBuckets) := by
        simp only [step, if_pos heof]
      have hnone : records (fuel + 1) fp = [] := by simp only [records, if_pos heof]
      rw [terminates_step hstep, hnone]
      simp [rows, least]
    · have hsome : records (fuel + 1) fp = (scan format fp).items :: records fuel (scan format fp).rest := by
        simp [records, hgoes]
      rw [hsome, List.forall_mem_cons]
      by_cases hfits : Fits (scan format fp).items
      · have hstep : step file (.first fp v min) = some (.first (scan format fp).rest (v.fill (scan format fp).items)
            (if (v.fill (scan format fp).items).startTime < min then (v.fill (scan format fp).items).startTime else min)) := by
          simp [step, hgoes, hfits]
        rw [terminates_step hstep, ih h.rest (by omega)]
        simp only [hfits, true_and, rows, List.getLastD_cons, least, List.foldl_cons]
      · have hstep : step file (.first fp v min) = none := by simp [step, hgoes, hfits]
        have hno := not_terminates (by simp) hstep
        simp only [hno, hfits, false_and]

/-- the second loop -/
theorem terminates_second {fuel : ℕ} (h : AllBegin fp) (hfuel : fp.length < fuel) :
    Terminates file (.second fp v min B) ↔ (∀ items ∈ records fuel fp, Fits items) ∧
      ∀ r ∈ rows v (records fuel fp), ¬ r.Html → RowEnds min r := by
  induction fuel generalizing fp v B with
  | zero => exact absurd hfuel (Nat.not_lt_zero _)
  | succ fuel ih =>
    rcases h.call with heof | ⟨hgoes, hlt⟩
    · have hstep : step file (.second fp v min B) = some (.behind min B) := by simp only [step, if_pos heof]
      have hnone : records (fuel + 1) fp = [] := by simp only [records, if_pos heof]
      rw [terminates_step hstep, hnone]
      simp [rows, Terminates.behind]
    · have hsome : records (fuel + 1) fp = (scan format fp).items :: records fuel (scan format fp).rest := by
        simp [records, hgoes]
      rw [hsome, List.forall_mem_cons]
      simp only [rows, List.forall_mem_cons]
      have hrest (B : Buckets) := ih (v := v.fill (scan format fp).items) (B := B) h.rest (by omega)
      generalize hv : v.fill (scan format fp).items = v' at hrest ⊢
      by_cases hfits : Fits (scan format fp).items
      swap
      · have hstep : step file (.second fp v min B) = none := by simp [step, hgoes, hfits]
        have hno := not_terminates (by simp) hstep
        simp only [hno, hfits, false_and]
      by_cases hhtml : v'.Html
      · have hstep : step file (.second fp v min B) = some (.second (scan format fp).rest v' min B) := by
          simp [step, hgoes, hfits, hv, hhtml]
        rw [terminates_step hstep, hrest]
        simp [hfits, hhtml]
      by_cases hcomma : ',' ∈ v'.category
      · have hstep : step file (.second fp v min B) = some (.row (scan format fp).rest v' min v'.startTime B) := by
          simp [step, hgoes, hfits, hv, hhtml, hcomma]
        rw [terminates_step hstep, terminates_row hrest, row_ends_iff]
        simp only [hfits, true_and, hhtml, not_false_eq_true, forall_const, RowEnds, hcomma]
        exact and_left_comm
      · have hstep : step file (.second fp v min B) = none := by simp [step, hgoes, hfits, hv, hhtml, hcomma]
        have hno := not_terminates (by simp) hstep
        simp [hno, hhtml, RowEnds, hcomma]

/-- both loops, if every call takes something -/
theorem terminates_iff (h : AllBegin file) : Terminates file (.first file v (ofExact maxInt)) ↔
    (∀ items ∈ records (file.length + 1) file, Fits items) ∧ ∀ r ∈ secondRows file v, ¬ r.Html → RowEnds (minTime file v) r := by
  rw [terminates_first h (Nat.lt_succ_self _), terminates_second h (Nat.lt_succ_self _), ← and_assoc, and_self]
  rfl

theorem progress_iff (file : Text) : Ends format file ↔ AllBegin file := loop_ends_iff (A := decimal) format.tail file rfl

/-- **The reading loops end** exactly if
- no call begins in front of what is neither a digit nor a sign,
- every category fits its array, and
- every row that is not for a html page has a comma behind its end time, its cursor stays in the arrays, and it begins at -2^49 or
  later and ends at 2^49 or before, if it takes time. -/
theorem reading_ends_iff (file : Text) (v : Vars) :
    ReadingEnds file v ↔
      (∀ n c, (skip (position format file n)).head? = some c → c.isDigit ∨ c = '+' ∨ c = '-') ∧
        (∀ items ∈ records (file.length + 1) file, Fits items) ∧
        ∀ r ∈ secondRows file v, ¬ r.Html → RowEnds (minTime file v) r := by
  have hfirst (c : Char) : (decimal.next decimal.start c).isSome ↔ c.isDigit ∨ c = '+' ∨ c = '-' := by
    simp only [decimal]
    split_ifs with hsign hdigit
    · simp [hsign]
    · simp [hdigit]
    · simp [hsign, hdigit]
  have hbegin : AllBegin file ↔ ∀ n c, (skip (position format file n)).head? = some c → c.isDigit ∨ c = '+' ∨ c = '-' := by
    unfold AllBegin Begins
    simp only [hfirst]
  rw [← hbegin]
  constructor
  · rintro ⟨hends, hterm⟩
    have h := (progress_iff file).1 hends
    exact ⟨h, (terminates_iff h).1 hterm⟩
  · rintro ⟨h, hrows⟩
    exact ⟨(progress_iff file).2 h, (terminates_iff h).2 hrows⟩

/-- a file with a heading -/
def headedFile : Text := "reqid,startTime,endTime,category,rt\n1,1000.010,1000.080,viewStory,70\n".toList

/-- **The heading** is looked at for ever. -/
theorem header_never_ends : ¬ ∃ v, ReadingEnds headedFile v := by
  rintro ⟨v, h⟩
  have hbegins := (progress_iff headedFile).1 h.progress 0 'r' (by decide)
  exact absurd hbegins (by decide)

/-- a file with a row far before 1970 -/
def distantFile : Text := "1,-1e17,-9e16,viewStory,5\n".toList

/-- **The cursor** of such a row never moves. -/
theorem cursor_never_moves : ¬ ∃ v, ReadingEnds distantFile v := by
  rintro ⟨v, h⟩
  have hbegins := (progress_iff distantFile).1 h.progress
  have hrecords : records (distantFile.length + 1) distantFile =
      [["1".toList, "-1e17".toList, "-9e16".toList, "viewStory,5".toList]] := by decide +kernel
  have hrows : secondRows distantFile v = [⟨strtod "-1e17".toList, strtod "-9e16".toList, "viewStory,5".toList⟩] := by
    rw [secondRows, hrecords]
    rfl
  have hrow := ((terminates_iff hbegins).1 h.terminates).2 _ (by rw [hrows]; exact List.mem_singleton_self _) (by decide)
  exact absurd (hrow.2.2 (by decide +kernel)).1 (by decide +kernel)

end Rubbos.Parsers.WaitTimeLoops
