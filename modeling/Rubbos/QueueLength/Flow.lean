/-
The flow of requests through the profiles of `BO.py`, in exact arithmetic.

The starts and the ends are counted in the bucket of their time, and a stay is cut into shares of the buckets it goes
through. So what has started and not ended before a bucket is the number of requests that are there when it begins, and
the multiplicity of the bucket differs from it by no more than the starts and the ends in the bucket. The helpers write
every change to "total" as well, so a row with the model "total" itself counts twice.

- `sum_sharesCut`: the share of a stay in a bucket is the length of their overlap.
- `share_bounds`: one request.
- `flow_balance_iff`: the law holds for the rows of one model exactly if the model is in the list, and it is not "total" or no
  row goes on into another bucket.
-/
import Rubbos.QueueLength.InvalidRows
import Rubbos.QueueLength.Totals

namespace Rubbos.QueueLength.BO

open Rubbos.Core Python

/-! ## Shares -/

/-- for how long a stay from x to y is in the bucket b, in buckets -/
def overlap (x y : ℚ) (b : ℤ) : ℚ := max 0 (min y (b + 1) - max x b)

/-- the amounts of shares in a bucket -/
def sumIn (l : List (ℤ × ℚ)) (b : ℤ) : ℚ := ((l.filter fun s => s.1 = b).map Prod.snd).sum

theorem sumIn_append (l l' : List (ℤ × ℚ)) (b : ℤ) : sumIn (l ++ l') b = sumIn l b + sumIn l' b := by
  simp [sumIn]

theorem sumIn_cons (s : ℤ × ℚ) (l : List (ℤ × ℚ)) (b : ℤ) : sumIn (s :: l) b = (if s.1 = b then s.2 else 0) + sumIn l b := by
  by_cases hb : s.1 = b <;> simp [sumIn, hb]

/-- the whole buckets -/
theorem sumIn_whole (c : ℤ) (n : ℕ) (b : ℤ) :
    sumIn ((List.range n).map fun (i : ℕ) => (c + i, (1 : ℚ))) b = if c ≤ b ∧ b < c + n then 1 else 0 := by
  induction n with
  | zero =>
    have hno : ¬ (c ≤ b ∧ b < c + (0 : ℕ)) := by omega
    rw [if_neg hno]
    rfl
  | succ n ih =>
    rw [List.range_succ, List.map_append, sumIn_append, ih, List.map_singleton, sumIn_cons]
    have hnil : sumIn [] b = 0 := rfl
    rw [hnil, add_zero]
    push_cast
    split_ifs <;> first | omega | norm_num

theorem overlap_of_le {x y : ℚ} {b : ℤ} (h : y ≤ b) : overlap x y b = 0 := by
  refine max_eq_left ?_
  have hmin : min y (b + 1) ≤ b := (min_le_left _ _).trans h
  linarith [le_max_right x (b : ℚ)]

theorem overlap_of_ge {x y : ℚ} {b : ℤ} (h : (b : ℚ) + 1 ≤ x) : overlap x y b = 0 := by
  refine max_eq_left ?_
  linarith [min_le_right y ((b : ℚ) + 1), le_max_left x (b : ℚ)]

theorem overlap_le_one (x y : ℚ) (b : ℤ) : overlap x y b ≤ 1 := by
  refine max_le zero_le_one ?_
  linarith [min_le_right y ((b : ℚ) + 1), le_max_right x (b : ℚ)]

theorem overlap_of_spans {x y : ℚ} {b : ℤ} (hx : x ≤ b) (hy : (b : ℚ) + 1 ≤ y) : overlap x y b = 1 := by
  rw [overlap, min_eq_right hy, max_eq_right hx]
  norm_num

/-- a stay that goes through a boundary has a part of its first bucket, whole buckets and a part of its last one -/
theorem overlap_of_parts {x y : ℚ} {c d : ℤ} (hx : (c : ℚ) - 1 < x ∧ x ≤ c) (hy : (d : ℚ) ≤ y ∧ y < d + 1) (hcd : c ≤ d) (b : ℤ) :
    overlap x y b = (if c - 1 = b then c - x else 0) + ((if d = b then y - d else 0) + if c ≤ b ∧ b < d then 1 else 0) := by
  have hcd' : (c : ℚ) ≤ d := by exact_mod_cast hcd
  rcases lt_or_ge b (c - 1) with hb | hb
  · have hb' : (b : ℚ) + 1 ≤ c - 1 := by exact_mod_cast hb
    rw [overlap_of_ge (by linarith), if_neg hb.ne', if_neg (by omega), if_neg (by omega)]
    norm_num
  rcases hb.eq_or_lt with rfl | hb
  · have hmin : min y ((c - 1 : ℤ) + 1) = c := by
      push_cast
      rw [sub_add_cancel]
      exact min_eq_right (hcd'.trans hy.1)
    have hmax : max x ((c - 1 : ℤ) : ℚ) = x := by
      push_cast
      exact max_eq_left hx.1.le
    rw [if_pos rfl, if_neg (by omega), if_neg (by omega), add_zero, add_zero, overlap, hmin, hmax]
    exact max_eq_right (sub_nonneg.2 hx.2)
  have hcb : (c : ℚ) ≤ b := by exact_mod_cast (by omega : c ≤ b)
  rw [if_neg hb.ne, zero_add]
  rcases lt_trichotomy b d with hbd | rfl | hbd
  · have hbd' : (b : ℚ) + 1 ≤ d := by exact_mod_cast hbd
    rw [overlap_of_spans (by linarith) (by linarith), if_neg hbd.ne', if_pos (by omega), zero_add]
  · rw [if_pos rfl, if_neg (by omega), add_zero, overlap, min_eq_left hy.2.le, max_eq_right (hx.2.trans hcb)]
    exact max_eq_right (sub_nonneg.2 hy.1)
  · have hbd' : (d : ℚ) + 1 ≤ b := by exact_mod_cast hbd
    rw [overlap_of_le (by linarith), if_neg hbd.ne, if_neg (by omega), add_zero]

/-- a stay within a bucket -/
theorem overlap_within {x y : ℚ} {d : ℤ} (hx : (d : ℚ) ≤ x) (hxy : x ≤ y) (hy : y < d + 1) (b : ℤ) :
    overlap x y b = if d = b then y - x else 0 := by
  rcases lt_trichotomy b d with hbd | rfl | hbd
  · have hbd' : (b : ℚ) + 1 ≤ d := by exact_mod_cast hbd
    rw [overlap_of_ge (by linarith), if_neg hbd.ne']
  · rw [if_pos rfl, overlap, min_eq_left hy.le, max_eq_left hx, max_eq_right (by linarith)]
  · have hbd' : (d : ℚ) + 1 ≤ b := by exact_mod_cast hbd
    rw [overlap_of_le (by linarith), if_neg hbd.ne]

/-- a stay cut into the buckets: a part of its first bucket, a part of its last one and whole buckets, or a part of one; the first
part is left out if it would be before the first bucket -/
def parts (first : ℤ) (x y : ℚ) : List (ℤ × ℚ) :=
  if ⌈x⌉ ≤ ⌊y⌋ then
    (if first ≤ ⌈x⌉ - 1 then [(⌈x⌉ - 1, ⌈x⌉ - x)] else []) ++
      (⌊y⌋, y - ⌊y⌋) :: (List.range (⌊y⌋ - ⌈x⌉).toNat).map fun (i : ℕ) => (⌈x⌉ + i, 1)
  else [(⌊y⌋, y - x)]

/-- what is cut off for a bucket is the length of the overlap -/
theorem sumIn_parts {first : ℤ} {x y : ℚ} (hfirst : (first : ℚ) ≤ x) (hle : x ≤ y) (b : ℤ) :
    sumIn (parts first x y) b = overlap x y b := by
  have hx : (⌈x⌉ : ℚ) - 1 < x ∧ x ≤ ⌈x⌉ := ⟨by linarith [Int.ceil_lt_add_one x], Int.le_ceil x⟩
  have hy : (⌊y⌋ : ℚ) ≤ y ∧ y < ⌊y⌋ + 1 := ⟨Int.floor_le y, Int.lt_floor_add_one y⟩
  have hnil : sumIn [] b = 0 := rfl
  unfold parts
  split_ifs with hcf hbefore
  · have hlast : ⌈x⌉ + ((⌊y⌋ - ⌈x⌉).toNat : ℤ) = ⌊y⌋ := by omega
    rw [sumIn_append, sumIn_cons, sumIn_cons, sumIn_whole, hlast, hnil, add_zero, overlap_of_parts hx hy hcf]
  · -- the stay begins with the first bucket, so there is no part before
    have hlast : ⌈x⌉ + ((⌊y⌋ - ⌈x⌉).toNat : ℤ) = ⌊y⌋ := by omega
    have hceil : (⌈x⌉ : ℚ) ≤ first := by exact_mod_cast (by omega : ⌈x⌉ ≤ first)
    have hxc : (⌈x⌉ : ℚ) - x = 0 := by linarith [hx.2]
    rw [List.nil_append, sumIn_cons, sumIn_whole, hlast, overlap_of_parts hx hy hcf, hxc, ite_self, zero_add]
  · have hdx : (⌊y⌋ : ℚ) ≤ x := by
      have hlt : (⌊y⌋ : ℚ) ≤ ⌈x⌉ - 1 := by exact_mod_cast (by omega : ⌊y⌋ ≤ ⌈x⌉ - 1)
      linarith [hx.1]
    rw [sumIn_cons, hnil, add_zero, overlap_within hdx hle hy.2]

variable {o : Options}

theorem sharesCut_eq_parts (s e : ℚ) :
    sharesCut .exact o s e = parts (10 * o.startTime) (s * multiCountInSec) (e * multiCountInSec) := by
  have hsub : (e - s) * multiCountInSec = e * multiCountInSec - s * multiCountInSec := sub_mul _ _ _
  unfold sharesCut parts
  simp only [Rounding.exact_fl, stime10, hsub, Int.cast_le]

/-- **The share of a stay in a bucket** is the length of their overlap. -/
theorem sum_sharesCut {s e : ℚ} (hs : stimeEpoch o ≤ s) (hse : s ≤ e) (b : ℤ) :
    sumIn (sharesCut .exact o s e) b = overlap (s * multiCountInSec) (e * multiCountInSec) b := by
  have hten : (0 : ℚ) ≤ multiCountInSec := by norm_num [multiCountInSec]
  have hstart : ((10 * o.startTime : ℤ) : ℚ) ≤ s * multiCountInSec := by
    rw [← stime10]
    exact mul_le_mul_of_nonneg_right hs hten
  have hle : s * multiCountInSec ≤ e * multiCountInSec := mul_le_mul_of_nonneg_right hse hten
  rw [sharesCut_eq_parts, sumIn_parts hstart hle]

/-! ## One request -/

/-- a request that is there when a bucket begins fills it, unless it ends in it; one that is not there has a part of it only if
it starts in it -/
theorem share_bounds {x y : ℚ} (b : ℤ) :
    (if x < b ∧ (b : ℚ) ≤ y then 1 else 0) - (if ⌊y⌋ = b then 1 else 0) ≤ overlap x y b ∧
      overlap x y b ≤ (if x < b ∧ (b : ℚ) ≤ y then 1 else 0) + (if ⌊x⌋ = b then 1 else 0) := by
  have hnonneg : 0 ≤ overlap x y b := le_max_left _ _
  have hone := overlap_le_one x y b
  have hstart : (0 : ℚ) ≤ if ⌊x⌋ = b then 1 else 0 := by split <;> norm_num
  have hend : (0 : ℚ) ≤ if ⌊y⌋ = b then 1 else 0 := by split <;> norm_num
  by_cases hthere : x < b ∧ (b : ℚ) ≤ y
  · rw [if_pos hthere]
    refine ⟨?_, by linarith⟩
    by_cases hy : ⌊y⌋ = b
    · rw [if_pos hy]
      linarith
    · have hle : b + 1 ≤ ⌊y⌋ := by
        have := Int.le_floor.2 hthere.2
        omega
      have hspan : (b : ℚ) + 1 ≤ y := by exact_mod_cast Int.le_floor.1 hle
      rw [overlap_of_spans hthere.1.le hspan]
      linarith
  · rw [if_neg hthere]
    refine ⟨by linarith, ?_⟩
    by_cases hx : ⌊x⌋ = b
    · rw [if_pos hx]
      linarith
    · have hzero : overlap x y b = 0 := by
        rcases lt_or_ge x b with hlt | hge
        · exact overlap_of_le (le_of_not_ge fun hle => hthere ⟨hlt, hle⟩)
        · have hle : b + 1 ≤ ⌊x⌋ := by
            have := Int.le_floor.2 hge
            omega
          exact overlap_of_ge (by exact_mod_cast Int.le_floor.1 hle)
      rw [hzero]
      linarith

/-- the bucket of a time is counted before b exactly if the time is before b -/
theorem sum_before {x : ℚ} {a b : ℤ} (ha : a ≤ ⌊x⌋) :
    (∑ k ∈ Finset.Ico a b, if ⌊x⌋ = k then (1 : ℚ) else 0) = if x < b then 1 else 0 := by
  simp [Finset.sum_ite_eq, ha, Int.floor_lt]

/-! ## Sums over the rows -/

variable {α : Type} {float : ReadFloat} {lines : List Text} {st p p' : Profiles} {model m : Text}

/-- the rows of the lines that can be read -/
def rowsOf (float : ReadFloat) (lines : List Text) : List Row := lines.filterMap fun line => (parseLine float line).toOption.join

/-- a number of the row of a line -/
def ofLine (float : ReadFloat) (g : Row → ℚ) (line : Text) : ℚ :=
  match parseLine float line with
  | .ok (some r) => g r
  | _ => 0

theorem sum_rowsOf (g : Row → ℚ) (lines : List Text) :
    (lines.map (ofLine float g)).sum = ((rowsOf float lines).map g).sum := by
  induction lines with
  | nil => rfl
  | cons line lines ih =>
    unfold rowsOf at ih ⊢
    rw [List.map_cons, List.sum_cons, ih, List.filterMap_cons, ofLine]
    cases parseLine float line with
    | error e => simp [Except.toOption]
    | ok row => cases row <;> simp [Except.toOption]

/-- how much a row adds to the entry of a model -/
def Meter.amountFor (M : Meter o α) (m : Text) (b : ℤ) (r : Row) : ℚ := times r.model m * M.amountOf b r

theorem Meter.entry_processLine (M : Meter o α) {line : Text} (hm : m ∈ models o) (b : ℤ) (hp : Keyed o p)
    (h : processLine .exact o float p line = .ok p') :
    entry M.number (M.table p') m b = entry M.number (M.table p) m b + ofLine float (M.amountFor m b) line := by
  unfold ofLine
  rcases processLine_ok.1 h with ⟨hrow, rfl⟩ | ⟨r, hrow, h⟩
  · simp [hrow]
  · obtain ⟨hfits, rfl⟩ := processRow_ok.1 h
    rw [M.table_rowEffect, entry_change (M.adds r) (M.keys p hp) (M.fits p r hfits) hm b]
    simp only [hrow]
    rfl

/-- **The entry of a model** is the sum of what the rows add to it. -/
theorem Meter.entry_mainLoop (M : Meter o α) (hm : m ∈ models o) (h : mainLoop .exact o float lines = .ok st) (b : ℤ) :
    entry M.number (M.table st) m b = entry M.number (M.table (initialProfiles .exact o)) m b +
      ((rowsOf float lines).map (M.amountFor m b)).sum := by
  have hsum := foldlM_sum (f := processLine .exact o float)
    (fun _ _ _ hp hstep => ⟨keyed_processLine hp hstep, M.entry_processLine hm b hp hstep⟩) keyed_initial h
  rw [hsum, sum_rowsOf]

theorem entry_initial {g : α → ℚ} {v : α} (hv : g v = 0) (b : ℤ) : entry g (initial .exact o v) m b = 0 := by
  unfold entry initial
  split <;> simp [hv]

/-! ## The law -/

/-- the row is in the window, and ends when it starts or later -/
def Inside (o : Options) (r : Row) : Prop :=
  stimeEpoch o ≤ r.stime ∧ r.stime ≤ r.etime ∧ r.etime ≤ etimeEpoch .exact o

/-- what has started and not ended in the buckets of the window before b -/
noncomputable def inFlight (o : Options) (st : Profiles) (model : Text) (b : ℤ) : ℚ :=
  ∑ k ∈ Finset.Ico (10 * o.startTime) b,
    (entry (fun n : ℕ => (n : ℚ)) st.httpInput model k - entry (fun n : ℕ => (n : ℚ)) st.httpOutput model k)

/-- the rows that are there when the bucket b begins -/
def there (rows : List Row) (b : ℤ) : ℕ := rows.countP fun r => r.stime < b / multiCountInSec ∧ b / multiCountInSec ≤ r.etime

structure FlowLaw (o : Options) (rows : List Row) (model : Text) (st : Profiles) (b : ℤ) : Prop where
  count : inFlight o st model b = there rows b
  lower : inFlight o st model b - entry (fun n : ℕ => (n : ℚ)) st.httpOutput model b ≤ entry (fun x => x) st.httpMulti model b
  upper : entry (fun x => x) st.httpMulti model b ≤ inFlight o st model b + entry (fun n : ℕ => (n : ℚ)) st.httpInput model b

/-- one row that starts and ends: it is in flight while it is there -/
theorem sum_inFlight {r : Row} (hr : Inside o r) (b : ℤ) :
    (∑ k ∈ Finset.Ico (10 * o.startTime) b, ((if ⌊r.stime * multiCountInSec⌋ = k then (1 : ℚ) else 0) -
      if ⌊r.etime * multiCountInSec⌋ = k then 1 else 0)) =
      if r.stime < b / multiCountInSec ∧ b / multiCountInSec ≤ r.etime then 1 else 0 := by
  have hten : (0 : ℚ) < multiCountInSec := by norm_num [multiCountInSec]
  have hfirst : ∀ t, stimeEpoch o ≤ t → 10 * o.startTime ≤ ⌊t * multiCountInSec⌋ := by
    intro t ht
    rw [Int.le_floor, ← stime10]
    exact mul_le_mul_of_nonneg_right ht hten.le
  rw [Finset.sum_sub_distrib, sum_before (hfirst _ hr.1), sum_before (hfirst _ (hr.1.trans hr.2.1))]
  simp only [lt_div_iff₀ hten, div_le_iff₀ hten]
  have hle : r.stime * multiCountInSec ≤ r.etime * multiCountInSec := mul_le_mul_of_nonneg_right hr.2.1 hten.le
  by_cases hstart : r.stime * multiCountInSec < b
  · by_cases hend : r.etime * multiCountInSec < b
    · simp [hstart, hend]
    · simp [hstart, hend, not_lt.1 hend]
  · have hend : ¬ r.etime * multiCountInSec < b := fun hlt => hstart (hle.trans_lt hlt)
    simp [hstart, hend]

/-- the number of the rows that are there, as a sum -/
theorem there_eq_sum (rows : List Row) (b : ℤ) :
    (there rows b : ℚ) = (rows.map fun r =>
      if r.stime * multiCountInSec < b ∧ (b : ℚ) ≤ r.etime * multiCountInSec then (1 : ℚ) else 0).sum := by
  have hten : (0 : ℚ) < multiCountInSec := by norm_num [multiCountInSec]
  induction rows with
  | nil => simp [there]
  | cons r rows ih =>
    rw [List.map_cons, List.sum_cons, ← ih]
    simp [there, List.countP_cons, lt_div_iff₀ hten, div_le_iff₀ hten, add_comm]

section

variable (hmodel : model ∈ models o) (hrows : ∀ r ∈ rowsOf float lines, r.model = model ∧ Inside o r)
  (h : mainLoop .exact o float lines = .ok st)

include hmodel hrows h

/-- the entries of the model of the rows: twice the sums if it is "total" -/
theorem entry_of_rows (M : Meter o α) (g : Row → ℚ) {b : ℤ}
    (hzero : entry M.number (M.table (initialProfiles .exact o)) model b = 0)
    (hg : ∀ r, Inside o r → M.amountOf b r = g r) :
    entry M.number (M.table st) model b = times model model * ((rowsOf float lines).map g).sum := by
  rw [M.entry_mainLoop hmodel h b, hzero, zero_add, ← List.sum_map_mul_left]
  refine congrArg List.sum (List.map_congr_left fun r hr => ?_)
  obtain ⟨hm, hin⟩ := hrows r hr
  rw [Meter.amountFor, hm, hg r hin]

theorem entry_input (b : ℤ) :
    entry (fun n : ℕ => (n : ℚ)) st.httpInput model b =
      times model model * ((rowsOf float lines).map fun r => if ⌊r.stime * multiCountInSec⌋ = b then (1 : ℚ) else 0).sum := by
  refine entry_of_rows hmodel hrows h (inputMeter o) _ (entry_initial Nat.cast_zero b) fun r hr => ?_
  have hseen := seen_of_le hr.1 (hr.2.1.trans hr.2.2)
  exact (amountIn_inOut _ _ _).trans (if_congr (and_iff_right hseen) rfl rfl)

theorem entry_output (b : ℤ) :
    entry (fun n : ℕ => (n : ℚ)) st.httpOutput model b =
      times model model * ((rowsOf float lines).map fun r => if ⌊r.etime * multiCountInSec⌋ = b then (1 : ℚ) else 0).sum := by
  refine entry_of_rows hmodel hrows h (outputMeter o) _ (entry_initial Nat.cast_zero b) fun r hr => ?_
  have hseen := seen_of_le (hr.1.trans hr.2.1) hr.2.2
  exact (amountIn_inOut _ _ _).trans (if_congr (and_iff_right hseen) rfl rfl)

theorem entry_multi (b : ℤ) :
    entry (fun x => x) st.httpMulti model b = times model model *
      ((rowsOf float lines).map fun r => overlap (r.stime * multiCountInSec) (r.etime * multiCountInSec) b).sum := by
  refine entry_of_rows hmodel hrows h (multiMeter o) _ (entry_initial (g := fun x : ℚ => x) (v := 0) rfl b) fun r hr => ?_
  have hov : Overlaps .exact o r.stime r.etime :=
    ⟨not_lt.2 (hr.1.trans hr.2.1), not_lt.2 (max_le (hr.2.1.trans hr.2.2) ((hr.1.trans hr.2.1).trans hr.2.2))⟩
  rw [amountOf_multi, shares, if_pos hov, max_eq_left hr.1, min_eq_left hr.2.2]
  exact sum_sharesCut hr.1 hr.2.1 b

/-- what is in flight: the rows that are there, counted twice for "total" -/
theorem inFlight_eq (b : ℤ) :
    inFlight o st model b = times model model * there (rowsOf float lines) b := by
  have hsum : ∀ rows : List Row, (∀ r ∈ rows, Inside o r) →
      (∑ k ∈ Finset.Ico (10 * o.startTime) b,
        ((rows.map fun r => if ⌊r.stime * multiCountInSec⌋ = k then (1 : ℚ) else 0).sum -
          (rows.map fun r => if ⌊r.etime * multiCountInSec⌋ = k then (1 : ℚ) else 0).sum)) = there rows b := by
    intro rows hin
    induction rows with
    | nil => simp [there]
    | cons r rows ih =>
      obtain ⟨hr, hrest⟩ := List.forall_mem_cons.1 hin
      have hcount : (there (r :: rows) b : ℚ) = there rows b +
          if r.stime < b / multiCountInSec ∧ b / multiCountInSec ≤ r.etime then 1 else 0 := by
        simp [there, List.countP_cons]
      rw [hcount, ← ih hrest, ← sum_inFlight hr b, ← Finset.sum_add_distrib]
      refine Finset.sum_congr rfl fun k _ => ?_
      rw [List.map_cons, List.map_cons, List.sum_cons, List.sum_cons]
      ring
  unfold inFlight
  rw [← hsum _ fun r hr => (hrows r hr).2, Finset.mul_sum]
  refine Finset.sum_congr rfl fun k _ => ?_
  rw [entry_input hmodel hrows h, entry_output hmodel hrows h, mul_sub]

/-- the bounds hold for every model -/
theorem flow_bounds (b : ℤ) :
    inFlight o st model b - entry (fun n : ℕ => (n : ℚ)) st.httpOutput model b ≤ entry (fun x => x) st.httpMulti model b ∧
      entry (fun x => x) st.httpMulti model b ≤ inFlight o st model b + entry (fun n : ℕ => (n : ℚ)) st.httpInput model b := by
  have htimes : (0 : ℚ) ≤ times model model := Nat.cast_nonneg _
  rw [inFlight_eq hmodel hrows h b, entry_input hmodel hrows h b, entry_output hmodel hrows h b, entry_multi hmodel hrows h b,
    there_eq_sum, sub_le_iff_le_add, ← mul_add, ← mul_add, ← List.sum_map_add, ← List.sum_map_add]
  refine ⟨mul_le_mul_of_nonneg_left ?_ htimes, mul_le_mul_of_nonneg_left ?_ htimes⟩
  · exact List.sum_le_sum fun r _ => sub_le_iff_le_add.1 (share_bounds b).1
  · exact List.sum_le_sum fun r _ => (share_bounds b).2

end

theorem mem_rowsOf {r : Row} : r ∈ rowsOf float lines ↔ ∃ line ∈ lines, parseLine float line = .ok (some r) := by
  unfold rowsOf
  rw [List.mem_filterMap]
  refine exists_congr fun line => and_congr_right fun _ => ?_
  cases parseLine float line with
  | error e => simp [Except.toOption]
  | ok row => simp [Except.toOption]

theorem touches_of_inside {r : Row} (hr : Inside o r) : Touches o r := .inl (seen_of_le hr.1 (hr.2.1.trans hr.2.2))

theorem entry_unknown {g : α → ℚ} {dic : Table α} (hkeys : HasKeys o dic) (hm : m ∉ models o) (b : ℤ) : entry g dic m b = 0 := by
  cases hv : dic m b with
  | none => simp [entry, hv]
  | some v => exact absurd (isSome_initial.1 ((hkeys m b).1 (by simp [hv]))).1 hm

/-- without rows nothing is in flight, also for a model that has no entries -/
theorem flowLaw_of_no_rows (hm : m ∉ models o) (h : mainLoop .exact o float lines = .ok st) (b : ℤ) : FlowLaw o [] m st b := by
  have hkeyed : Keyed o st := foldlM_induct (fun _ _ _ _ => keyed_processLine) keyed_initial h
  have hin := fun k => entry_unknown (g := fun n : ℕ => (n : ℚ)) hkeyed.input hm k
  have hout := fun k => entry_unknown (g := fun n : ℕ => (n : ℚ)) hkeyed.output hm k
  have hmulti := entry_unknown (g := fun x => x) hkeyed.multi hm b
  have hnone : inFlight o st m b = 0 := by simp [inFlight, hin, hout]
  exact ⟨by simp [hnone, there], by simp [hnone, hout, hmulti], by simp [hnone, hin, hmulti]⟩

/-- **Flow balance.** For the rows of one model that are inside the window, all of them are processed and the law holds in every
bucket of the window exactly if the model is in the list, unless there are no rows, and no row of the model "total" is there when
a bucket begins. -/
theorem flow_balance_iff (o : Options) (float : ReadFloat) (lines : List Text) (model : Text)
    (hread : ∀ line ∈ lines, ∃ row, parseLine float line = .ok row)
    (hrows : ∀ r ∈ rowsOf float lines, r.model = model ∧ Inside o r) :
    (∃ st, mainLoop .exact o float lines = .ok st ∧ ∀ b, InWindow o b → FlowLaw o (rowsOf float lines) model st b) ↔
      (rowsOf float lines ≠ [] → model ∈ models o) ∧
        (model = total → ∀ b, InWindow o b → there (rowsOf float lines) b = 0) := by
  constructor
  · intro ⟨st, h, hlaw⟩
    constructor
    · intro hne
      obtain ⟨r, hr⟩ := List.exists_mem_of_ne_nil _ hne
      obtain ⟨line, hline, hrow⟩ := mem_rowsOf.1 hr
      obtain ⟨row, hrow', hmodel⟩ := mainLoop_ok_iff.1 ⟨st, h⟩ line hline
      rw [hrow] at hrow'
      rw [← (hrows r hr).1]
      exact hmodel r (Except.ok.inj hrow').symm (touches_of_inside (hrows r hr).2)
    · intro htotal b hb
      subst htotal
      -- "total" counts every row twice
      have hcount := (hlaw b hb).count
      rw [inFlight_eq (total_mem_models o) hrows h b] at hcount
      have htwo : times total total = 2 := rfl
      rw [htwo] at hcount
      push_cast at hcount
      have hzero : (there (rowsOf float lines) b : ℚ) = 0 := by linarith
      exact_mod_cast hzero
  · intro ⟨hknown, htotal⟩
    obtain ⟨st, h⟩ : ∃ st, mainLoop .exact o float lines = .ok st := by
      refine mainLoop_ok_iff.2 fun line hline => ?_
      obtain ⟨row, hrow⟩ := hread line hline
      refine ⟨row, hrow, fun r hr _ => ?_⟩
      have hmem : r ∈ rowsOf float lines := mem_rowsOf.2 ⟨line, hline, hr ▸ hrow⟩
      rw [(hrows r hmem).1]
      exact hknown (List.ne_nil_of_mem hmem)
    refine ⟨st, h, fun b hb => ?_⟩
    by_cases hmodel : model ∈ models o
    · obtain ⟨hlower, hupper⟩ := flow_bounds hmodel hrows h b
      refine ⟨?_, hlower, hupper⟩
      rw [inFlight_eq hmodel hrows h b]
      by_cases heq : model = total
      · rw [htotal heq b hb]
        norm_num
      · have hone : times model model = 1 := by simp [times, heq]
        rw [hone, Nat.cast_one, one_mul]
    · have hnil : rowsOf float lines = [] := not_ne_iff.1 fun hne => hmodel (hknown hne)
      rw [hnil]
      exact flowLaw_of_no_rows hmodel h b

/-- a request from the middle of one bucket to the middle of the next but one, and one within a bucket -/
def flowLines : List Text :=
  ["1417392005.250,1417392005.450,html,200.000\n", "1417392005.300,1417392005.300,html,0.000\n"].map String.toList

theorem html_flows :
    ∃ st, mainLoop .exact aMinute decimalFloat flowLines = .ok st ∧
      ∀ b, InWindow aMinute b → FlowLaw aMinute (rowsOf decimalFloat flowLines) "html".toList st b := by
  have hrows : rowsOf decimalFloat flowLines =
      [⟨1417392005.25, 1417392005.45, "html".toList⟩, ⟨1417392005.3, 1417392005.3, "html".toList⟩] := by decide +kernel
  refine (flow_balance_iff aMinute decimalFloat flowLines "html".toList ?_ ?_).2 ⟨fun _ => by decide +kernel, fun h => ?_⟩
  · have hread : ∀ line ∈ flowLines, (parseLine decimalFloat line).isOk = true := by decide +kernel
    intro line hline
    cases hrow : parseLine decimalFloat line with
    | ok row => exact ⟨row, rfl⟩
    | error e =>
      have := hread line hline
      rw [hrow] at this
      cases this
  · rw [hrows]
    unfold Inside
    decide +kernel
  · exact absurd h (by decide +kernel)

/-- the same request under the model "total" is in flight twice -/
def totalLines : List Text := ["1417392005.250,1417392005.450,total,200.000\n".toList]

theorem total_flows_twice :
    ∃ st, mainLoop .exact aMinute decimalFloat totalLines = .ok st ∧ InWindow aMinute 14173920053 ∧
      inFlight aMinute st total 14173920053 = 2 ∧ there (rowsOf decimalFloat totalLines) 14173920053 = 1 ∧
      ¬ FlowLaw aMinute (rowsOf decimalFloat totalLines) total st 14173920053 := by
  have hrows : rowsOf decimalFloat totalLines = [⟨1417392005.25, 1417392005.45, total⟩] := by decide +kernel
  obtain ⟨st, h⟩ : ∃ st, mainLoop .exact aMinute decimalFloat totalLines = .ok st := by
    cases hst : mainLoop .exact aMinute decimalFloat totalLines with
    | ok st => exact ⟨st, rfl⟩
    | error e =>
      have hok : (mainLoop .exact aMinute decimalFloat totalLines).toBool = true := by decide +kernel
      rw [hst] at hok
      cases hok
  have hthere : there (rowsOf decimalFloat totalLines) 14173920053 = 1 := by
    rw [hrows]
    decide +kernel
  have hinside : ∀ r ∈ rowsOf decimalFloat totalLines, r.model = total ∧ Inside aMinute r := by
    rw [hrows]
    unfold Inside
    decide +kernel
  have htwo : inFlight aMinute st total 14173920053 = 2 := by
    rw [inFlight_eq (total_mem_models aMinute) hinside h, hthere]
    norm_num [times]
  refine ⟨st, h, by unfold InWindow; decide +kernel, htwo, hthere, fun hlaw => ?_⟩
  have hcount := hlaw.count
  rw [htwo, hthere] at hcount
  norm_num at hcount

end Rubbos.QueueLength.BO
