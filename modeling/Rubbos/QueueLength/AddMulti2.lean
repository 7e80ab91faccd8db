/-
`addMulti2` of `BO.py` at any resolution, in exact arithmetic.

The function cuts the stay of a request at the window, and then into the buckets: a part of the first bucket, a part of the last
one and whole buckets between them, or the one part if both ends are in the same bucket. Every part is added to `dic['total']` and
then to `dic[model]`, which is the same dictionary if the model is "total".

- `addMulti2_exact`: the function of the tool is the one of ten buckets in a second.
- `parts_window`: nothing is written outside of the window.
- `sum_overlap`: the parts add up to the stay.
- `profile_accounts_iff`: every bucket gets the length of its part exactly if the model is in the table, and is not "total" (unless nothing
  of the stay is in the window).

Counterexample: `total_twice`.
-/
import Rubbos.Core.Cuts
import Rubbos.QueueLength.Flow

namespace Rubbos.QueueLength.AddMulti2

open Rubbos.Core Python BO Cuts

/-! ## Model -/

/-- the arguments of `addMulti2` that are the same in every call -/
structure Window where
  stimeEpoch : ℤ
  etimeEpoch : ℚ
  multiCountInSec : ℕ
  le : (stimeEpoch : ℚ) ≤ etimeEpoch
  pos : 0 < multiCountInSec

/-- `addMulti2` without rounding -/
def addMulti2 (W : Window) (addFrom addTo : ℚ) (model : Text) (dicMulti : BO.Table ℚ) : Except PyExc (BO.Table ℚ) :=
  addMulti2At .exact W.stimeEpoch W.etimeEpoch W.multiCountInSec addFrom addTo model dicMulti

/-- the keys that `main` gives a table: the models, and the buckets of the seconds from `int(stime_epoch)` to `int(etime_epoch)` -/
def Keys (W : Window) (models : List Text) (dic : BO.Table ℚ) : Prop :=
  ∀ m b, (dic m b).isSome ↔ m ∈ models ∧ W.stimeEpoch * W.multiCountInSec ≤ b ∧
    b ≤ trunc W.etimeEpoch * W.multiCountInSec + (W.multiCountInSec - 1)

variable {W : Window} {f t : ℚ} {model m : Text} {models : List Text} {dic dic' : BO.Table ℚ} {b : ℤ}

/-- a bucket that begins in the window -/
def Window.Has (W : Window) (b : ℤ) : Prop := W.stimeEpoch * W.multiCountInSec ≤ b ∧ b ≤ ⌊W.etimeEpoch * W.multiCountInSec⌋

/-- what a bucket should get: the length of its part of the stay in the window, in buckets -/
def share (W : Window) (f t : ℚ) (b : ℤ) : ℚ :=
  W.multiCountInSec *
    between (max f W.stimeEpoch) (min t W.etimeEpoch) (b / W.multiCountInSec) ((b + 1) / W.multiCountInSec)

/-- what `addMulti2` is for -/
structure Accounts (W : Window) (f t : ℚ) (model : Text) (dic dic' : BO.Table ℚ) : Prop where
  inWindow : ∀ m, m = total ∨ m = model → ∀ b, W.Has b → dic' m b = (dic m b).map (· + share W f t b)
  elsewhere : ∀ m b, ¬ ((m = total ∨ m = model) ∧ W.Has b) → dic' m b = dic m b
  sum : ∀ m, m = total ∨ m = model →
    ∑ b ∈ Finset.Icc (W.stimeEpoch * (W.multiCountInSec : ℤ)) ⌊W.etimeEpoch * W.multiCountInSec⌋,
      ((dic' m b).getD 0 - (dic m b).getD 0) = W.multiCountInSec * between f t W.stimeEpoch W.etimeEpoch

/-- `addMulti2` does not return early -/
def Overlaps (W : Window) (f t : ℚ) : Prop := ¬ t < W.stimeEpoch ∧ ¬ W.etimeEpoch < max f W.stimeEpoch

instance (W : Window) (f t : ℚ) : Decidable (Overlaps W f t) := inferInstanceAs (Decidable (_ ∧ _))

/-! ## The tool -/

/-- the window of the tool -/
def windowOf (o : Options) (h : BO.stimeEpoch o ≤ BO.etimeEpoch .exact o) : Window :=
  ⟨o.startTime, BO.etimeEpoch .exact o, 10, h, by norm_num⟩

/-- **The tool's own function** is this one, with ten buckets in a second. -/
theorem addMulti2_exact {o : Options} (h : BO.stimeEpoch o ≤ BO.etimeEpoch .exact o) :
    BO.addMulti2 .exact o f t model dic = addMulti2 (windowOf o h) f t model dic := by
  have hten : multiCountInSec = ((10 : ℕ) : ℚ) := by norm_num [multiCountInSec]
  rw [BO.addMulti2, hten]
  rfl

/-! ## Changes -/

/-- the changes of a stay between the cuts -/
def changes (W : Window) (f t : ℚ) : List (ℤ × ℚ) :=
  parts (W.stimeEpoch * W.multiCountInSec) (f * W.multiCountInSec) (t * W.multiCountInSec)

theorem addCut_eq (W : Window) (f t : ℚ) (dic : BO.Table ℚ) :
    addCut .exact W.stimeEpoch W.multiCountInSec f t model dic =
      bumpAll model ((changes W f t).map fun s => (s.1, plus .exact s.2)) dic := by
  have hfirst (k : ℤ) : ((W.stimeEpoch : ℚ) * W.multiCountInSec ≤ k) ↔ W.stimeEpoch * W.multiCountInSec ≤ k := by
    exact_mod_cast Iff.rfl
  unfold addCut changes parts
  simp only [Rounding.exact_fl, hfirst]
  split_ifs with h h'
  · rw [List.singleton_append, List.map_cons, bumpAll_cons]
    congr 1
    funext dic
    exact bumpBoth_addWhole _ _ _ _ dic
  · exact bumpBoth_addWhole _ _ _ _ dic
  · rw [List.map_singleton, bumpAll_singleton, sub_mul]

/-- the cuts at the window -/
theorem addMulti2_eq (W : Window) (f t : ℚ) (dic : BO.Table ℚ) : addMulti2 W f t model dic =
    if Overlaps W f t then
      bumpAll model ((changes W (max f W.stimeEpoch) (min t W.etimeEpoch)).map fun s => (s.1, plus .exact s.2)) dic
    else .ok dic := by
  have hfrom : (if f < W.stimeEpoch then (W.stimeEpoch : ℚ) else f) = max f W.stimeEpoch := by
    split
    · next h => exact (max_eq_right h.le).symm
    · next h => exact (max_eq_left (not_lt.1 h)).symm
  have hto : (if W.etimeEpoch < t then W.etimeEpoch else t) = min t W.etimeEpoch := by
    split
    · next h => exact (min_eq_right h.le).symm
    · next h => exact (min_eq_left (not_lt.1 h)).symm
  unfold addMulti2 addMulti2At
  simp only [hfrom, hto]
  by_cases hbefore : t < W.stimeEpoch
  · have hno : ¬ Overlaps W f t := fun hov => hov.1 hbefore
    rw [if_pos hbefore, if_neg hno]
  · by_cases hbehind : W.etimeEpoch < max f W.stimeEpoch
    · have hno : ¬ Overlaps W f t := fun hov => hov.2 hbehind
      rw [if_neg hbefore, if_pos hbehind, if_neg hno]
    · have hov : Overlaps W f t := ⟨hbefore, hbehind⟩
      rw [if_neg hbefore, if_neg hbehind, if_pos hov, addCut_eq]

/-- an entry behind changes -/
theorem effect_parts (l : List (ℤ × ℚ)) (m : Text) (b : ℤ) (v : ℚ) :
    effect model (l.map fun s => (s.1, plus .exact s.2)) m b v = v + times model m * sumIn l b := by
  have hadd : ∀ c ∈ l.map fun s => (s.1, plus Rounding.exact s.2), ∀ v, c.2 v = v + c.2 0 := by
    intro c hc v
    obtain ⟨s, -, rfl⟩ := List.mem_map.1 hc
    simp [plus]
  have hsum : amountIn (fun c : ℤ × (ℚ → ℚ) => c.2 0) (l.map fun s => (s.1, plus Rounding.exact s.2)) b = sumIn l b := by
    unfold amountIn sumIn
    rw [List.filter_map, List.map_map]
    refine congrArg List.sum (List.map_congr_left fun s _ => ?_)
    simp [plus]
  rw [← hsum]
  exact effect_add (g := fun x => x) hadd m b v

/-- **Nothing is written** outside of the window. -/
theorem parts_window {first : ℤ} {x y : ℚ} (hfirst : (first : ℚ) ≤ x) (hle : x ≤ y) {s : ℤ × ℚ} (hs : s ∈ parts first x y) :
    first ≤ s.1 ∧ s.1 ≤ ⌊y⌋ := by
  have hceil : first ≤ ⌈x⌉ := by exact_mod_cast hfirst.trans (Int.le_ceil x)
  have hfloor : first ≤ ⌊y⌋ := Int.le_floor.2 (hfirst.trans hle)
  unfold parts at hs
  split_ifs at hs with hcf hbefore
  · rcases List.mem_cons.1 hs with rfl | hs
    · exact ⟨hbefore, by simp only; omega⟩
    rcases List.mem_cons.1 hs with rfl | hs
    · exact ⟨hfloor, le_rfl⟩
    obtain ⟨i, hi, rfl⟩ := List.mem_map.1 hs
    have := List.mem_range.1 hi
    exact ⟨by simp only; omega, by simp only; omega⟩
  · rcases List.mem_cons.1 hs with rfl | hs
    · exact ⟨hfloor, le_rfl⟩
    obtain ⟨i, hi, rfl⟩ := List.mem_map.1 hs
    have := List.mem_range.1 hi
    exact ⟨by simp only; omega, by simp only; omega⟩
  · rw [List.mem_singleton.1 hs]
    exact ⟨hfloor, le_rfl⟩

theorem parts_ne_nil (first : ℤ) (x y : ℚ) : parts first x y ≠ [] := by
  unfold parts
  split_ifs <;> simp

/-! ## Lengths -/

/-- **The parts of a stay** between two buckets add up to it. -/
theorem sum_overlap {x y : ℚ} (hle : x ≤ y) {first last : ℤ} (hfirst : (first : ℚ) ≤ x) (hlast : ⌊y⌋ ≤ last) :
    ∑ b ∈ Finset.Icc first last, overlap x y b = y - x := by
  have hmono : Monotone fun i : ℕ => (first : ℚ) + i := fun i j hij => by
    have : (i : ℚ) ≤ j := by exact_mod_cast hij
    simp only
    linarith
  have hy : y ≤ first + ((last + 1 - first).toNat : ℕ) := by
    have hlt : ⌊y⌋ + 1 ≤ first + ((last + 1 - first).toNat : ℤ) := by omega
    calc y ≤ ((⌊y⌋ + 1 : ℤ) : ℚ) := by push_cast; exact (Int.lt_floor_add_one y).le
      _ ≤ ((first + ((last + 1 - first).toNat : ℤ) : ℤ) : ℚ) := by exact_mod_cast hlt
      _ = first + ((last + 1 - first).toNat : ℕ) := by push_cast; rfl
  calc ∑ b ∈ Finset.Icc first last, overlap x y b
      = ∑ i ∈ Finset.range (last + 1 - first).toNat, between x y ((first : ℚ) + i) ((first : ℚ) + (i + 1 : ℕ)) := by
        rw [Int.Icc_eq_finset_map, Finset.sum_map]
        refine Finset.sum_congr rfl fun i _ => ?_
        simp [overlap, between, add_assoc]
    _ = y - x := sum_between_covers hle hmono (by simpa using hfirst) hy

theorem share_eq (W : Window) (f t : ℚ) (b : ℤ) :
    share W f t b = overlap (max f W.stimeEpoch * W.multiCountInSec) (min t W.etimeEpoch * W.multiCountInSec) b := by
  have hpos : (0 : ℚ) < W.multiCountInSec := by exact_mod_cast W.pos
  rw [share, mul_between hpos.le, div_mul_cancel₀ _ hpos.ne', div_mul_cancel₀ _ hpos.ne']
  rfl

/-- a stay that reaches the window, between the cuts -/
theorem cuts_of_overlaps (hft : f ≤ t) (hov : Overlaps W f t) :
    ((W.stimeEpoch * W.multiCountInSec : ℤ) : ℚ) ≤ max f W.stimeEpoch * W.multiCountInSec ∧
    max f W.stimeEpoch * W.multiCountInSec ≤ min t W.etimeEpoch * W.multiCountInSec ∧
    ⌊min t W.etimeEpoch * W.multiCountInSec⌋ ≤ ⌊W.etimeEpoch * W.multiCountInSec⌋ := by
  have hpos : (0 : ℚ) ≤ W.multiCountInSec := Nat.cast_nonneg _
  have hE := not_lt.1 hov.2
  refine ⟨?_, ?_, ?_⟩
  · push_cast
    exact mul_le_mul_of_nonneg_right (le_max_right _ _) hpos
  · refine mul_le_mul_of_nonneg_right (le_min (max_le hft (not_lt.1 hov.1)) hE) hpos
  · exact Int.floor_le_floor (mul_le_mul_of_nonneg_right (min_le_right _ _) hpos)

/-- a stay that does not reach it has no part in it -/
theorem between_of_not_overlaps (hov : ¬ Overlaps W f t) : min t W.etimeEpoch ≤ max f W.stimeEpoch := by
  by_contra hlt
  rw [not_le, max_lt_iff, lt_min_iff, lt_min_iff] at hlt
  exact hov ⟨not_lt.2 hlt.2.1.le, not_lt.2 (max_le hlt.1.2.le hlt.2.2.le)⟩

theorem has_keys (hkeys : Keys W models dic) (hm : m ∈ models) (hb : W.Has b) : (dic m b).isSome := by
  have hpos : (0 : ℚ) < W.multiCountInSec := by exact_mod_cast W.pos
  have htrunc : ⌊W.etimeEpoch⌋ ≤ trunc W.etimeEpoch := by
    unfold trunc
    split
    · exact Int.floor_le_ceil _
    · exact le_rfl
  have hlast : ⌊W.etimeEpoch * W.multiCountInSec⌋ < (⌊W.etimeEpoch⌋ + 1) * W.multiCountInSec := by
    rw [Int.floor_lt]
    push_cast
    exact mul_lt_mul_of_pos_right (Int.lt_floor_add_one _) hpos
  have hmul : (⌊W.etimeEpoch⌋ + 1) * (W.multiCountInSec : ℤ) ≤ (trunc W.etimeEpoch + 1) * W.multiCountInSec :=
    mul_le_mul_of_nonneg_right (by omega) (by omega)
  refine (hkeys m b).2 ⟨hm, hb.1, ?_⟩
  have := hb.2
  simp only [add_mul, one_mul] at hmul hlast
  omega

/-! ## The profile -/

/-- the parts of the buckets in the window add up to the stay in the window -/
theorem sum_share (hft : f ≤ t) :
    ∑ b ∈ Finset.Icc (W.stimeEpoch * (W.multiCountInSec : ℤ)) ⌊W.etimeEpoch * W.multiCountInSec⌋, share W f t b =
      W.multiCountInSec * between f t W.stimeEpoch W.etimeEpoch := by
  by_cases hov : Overlaps W f t
  · obtain ⟨hfirst, hle, hlast⟩ := cuts_of_overlaps hft hov
    have hcuts : max f W.stimeEpoch ≤ min t W.etimeEpoch := by
      have hpos : (0 : ℚ) < W.multiCountInSec := by exact_mod_cast W.pos
      exact le_of_mul_le_mul_right hle hpos
    calc ∑ b ∈ Finset.Icc (W.stimeEpoch * (W.multiCountInSec : ℤ)) ⌊W.etimeEpoch * W.multiCountInSec⌋, share W f t b
        = min t W.etimeEpoch * W.multiCountInSec - max f W.stimeEpoch * W.multiCountInSec := by
          simp only [share_eq]
          exact sum_overlap hle hfirst hlast
      _ = W.multiCountInSec * (min t W.etimeEpoch - max f W.stimeEpoch) := by ring
      _ = W.multiCountInSec * between f t W.stimeEpoch W.etimeEpoch := by
          rw [between, max_eq_right (sub_nonneg.2 hcuts)]
  · have hempty := between_of_not_overlaps hov
    have hnone : between f t (W.stimeEpoch : ℚ) W.etimeEpoch = 0 := max_eq_left (sub_nonpos.2 hempty)
    simp only [share, between_of_empty hempty, hnone, mul_zero, Finset.sum_const_zero]

theorem share_of_not_overlaps (hov : ¬ Overlaps W f t) (b : ℤ) : share W f t b = 0 := by
  rw [share, between_of_empty (between_of_not_overlaps hov), mul_zero]

/-- a bucket outside of the window has no part of the stay -/
theorem share_outside (hb : ¬ W.Has b) : share W f t b = 0 := by
  have hpos : (0 : ℚ) < W.multiCountInSec := by exact_mod_cast W.pos
  have hzero : between (max f W.stimeEpoch) (min t W.etimeEpoch) ((b : ℚ) / W.multiCountInSec) ((b + 1) / W.multiCountInSec) = 0 := by
    by_cases hfirst : W.stimeEpoch * W.multiCountInSec ≤ b
    · have hlast : ⌊W.etimeEpoch * W.multiCountInSec⌋ < b := not_le.1 fun h => hb ⟨hfirst, h⟩
      refine between_of_le ((min_le_right _ _).trans ?_)
      rw [le_div_iff₀ hpos]
      exact (Int.floor_lt.1 hlast).le
    · have hle : b + 1 ≤ W.stimeEpoch * W.multiCountInSec := by omega
      refine between_of_ge (le_trans ?_ (le_max_right _ _))
      rw [div_le_iff₀ hpos]
      exact_mod_cast hle
  rw [share, hzero, mul_zero]

/-- what is written, bucket by bucket -/
theorem addMulti2_ok (hft : f ≤ t) (hkeys : Keys W models dic) (htotal : total ∈ models) :
    addMulti2 W f t model dic = .ok dic' ↔ (Overlaps W f t → model ∈ models) ∧
      dic' = change dic fun m b v => v + times model m * share W f t b := by
  rw [addMulti2_eq]
  by_cases hov : Overlaps W f t
  · obtain ⟨hfirst, hle, hlast⟩ := cuts_of_overlaps hft hov
    have heffect : change dic (effect model
          ((changes W (max f W.stimeEpoch) (min t W.etimeEpoch)).map fun s => (s.1, plus .exact s.2))) =
        change dic fun m b v => v + times model m * share W f t b := by
      congr 1
      funext m b v
      rw [effect_parts, share_eq, changes, sumIn_parts hfirst hle]
    rw [if_pos hov, bumpAll_ok, heffect]
    refine and_congr_left fun _ => ⟨fun h _ => ?_, fun hmodel c hc => ?_⟩
    · obtain ⟨s, hs⟩ := List.exists_mem_of_ne_nil _
        (parts_ne_nil (W.stimeEpoch * W.multiCountInSec) (max f W.stimeEpoch * W.multiCountInSec)
          (min t W.etimeEpoch * W.multiCountInSec))
      have hkey := (h _ (List.mem_map_of_mem hs)).2
      exact ((hkeys model s.1).1 hkey).1
    · obtain ⟨s, hs, rfl⟩ := List.mem_map.1 hc
      have hwindow := parts_window hfirst hle hs
      have hhas : W.Has s.1 := ⟨hwindow.1, hwindow.2.trans hlast⟩
      exact ⟨has_keys hkeys htotal hhas, has_keys hkeys (hmodel hov) hhas⟩
  · have hsame : (change dic fun m b v => v + times model m * share W f t b) = dic := by
      funext m b
      simp only [change, share_of_not_overlaps hov, mul_zero, add_zero]
      exact Option.map_id'
    rw [if_neg hov, hsame, Except.ok.injEq]
    exact ⟨fun h => ⟨fun h' => absurd h' hov, h.symm⟩, fun h => h.2.symm⟩

/-- the whole of what is written for a model -/
theorem sum_change (hft : f ≤ t) (hkeys : Keys W models dic) (hm : m ∈ models) :
    ∑ b ∈ Finset.Icc (W.stimeEpoch * (W.multiCountInSec : ℤ)) ⌊W.etimeEpoch * W.multiCountInSec⌋,
      (((change dic fun m b v => v + times model m * share W f t b) m b).getD 0 - (dic m b).getD 0) =
      times model m * (W.multiCountInSec * between f t W.stimeEpoch W.etimeEpoch) := by
  rw [← sum_share hft, Finset.mul_sum]
  refine Finset.sum_congr rfl fun b hb => ?_
  obtain ⟨v, hv⟩ := Option.isSome_iff_exists.1 (has_keys hkeys hm (Finset.mem_Icc.1 hb))
  simp [change, hv]

theorem share_nonneg (b : ℤ) : 0 ≤ share W f t b := mul_nonneg (Nat.cast_nonneg _) between_nonneg

/-- a stay that has no length in the window has none in a bucket -/
theorem share_of_empty (hft : f ≤ t) (h : between f t (W.stimeEpoch : ℚ) W.etimeEpoch = 0) (b : ℤ) : share W f t b = 0 := by
  by_cases hb : W.Has b
  · have hsum := sum_share (W := W) hft
    rw [h, mul_zero, Finset.sum_eq_zero_iff_of_nonneg fun b _ => share_nonneg b] at hsum
    exact hsum b (Finset.mem_Icc.2 hb)
  · exact share_outside hb

/-- "total" is written twice for itself -/
theorem empty_of_total (hft : f ≤ t) (hkeys : Keys W models dic) (htotal : total ∈ models)
    (hacc : Accounts W f t total dic (change dic fun m b v => v + times total m * share W f t b)) :
    between f t (W.stimeEpoch : ℚ) W.etimeEpoch = 0 := by
  have hpos : (0 : ℚ) < W.multiCountInSec := by exact_mod_cast W.pos
  have htwice : (times total total : ℚ) = 2 := by norm_num [times]
  have hsum := hacc.sum total (.inl rfl)
  rw [sum_change hft hkeys htotal, htwice] at hsum
  have hzero : (W.multiCountInSec : ℚ) * between f t W.stimeEpoch W.etimeEpoch = 0 := by linarith
  exact (mul_eq_zero.1 hzero).resolve_left hpos.ne'

/-- **The profile gets the stay**, bucket by bucket and for "total" as for the model, exactly if the model has its entries in the
table (where it is needed), and is not "total" itself unless nothing of the stay is in the window. -/
theorem profile_accounts_iff (hft : f ≤ t) (hkeys : Keys W models dic) (htotal : total ∈ models) :
    (∃ dic', addMulti2 W f t model dic = .ok dic' ∧ Accounts W f t model dic dic') ↔
      (Overlaps W f t → model ∈ models) ∧ (model = total → between f t W.stimeEpoch W.etimeEpoch = 0) := by
  constructor
  · rintro ⟨dic', hrun, hacc⟩
    obtain ⟨hmodel, rfl⟩ := (addMulti2_ok hft hkeys htotal).1 hrun
    refine ⟨hmodel, ?_⟩
    rintro rfl
    exact empty_of_total hft hkeys htotal hacc
  · rintro ⟨hmodel, hnone⟩
    refine ⟨_, (addMulti2_ok hft hkeys htotal).2 ⟨hmodel, rfl⟩, ?_⟩
    have hshare : ∀ m, m = total ∨ m = model → ∀ b, times model m * share W f t b = share W f t b := by
      intro m hm b
      by_cases htot : model = total
      · rw [share_of_empty hft (hnone htot), mul_zero]
      · have honce : times model m = 1 := by
          rcases hm with rfl | rfl
          · simp [times, Ne.symm htot]
          · simp [times, htot]
        rw [honce, Nat.cast_one, one_mul]
    refine ⟨fun m hm b _ => ?_, fun m b hmb => ?_, fun m hm => ?_⟩
    · simp only [change, hshare m hm b]
    · have hzero : times model m * share W f t b = 0 := by
        by_cases hb : W.Has b
        · have hm : ¬ (m = total ∨ m = model) := fun hm => hmb ⟨hm, hb⟩
          rw [not_or] at hm
          simp [times, hm.1, hm.2]
        · rw [share_outside hb, mul_zero]
      simp only [change, hzero, add_zero]
      exact Option.map_id'
    · rw [← sum_share hft]
      refine Finset.sum_congr rfl fun b hb => ?_
      simp only [change, hshare m hm b]
      cases hv : dic m b with
      | some v => simp
      | none =>
        -- only the model can be missing, and then nothing of the stay is in the window
        have hmissing : ¬ Overlaps W f t := by
          intro hov
          have hmem : m ∈ models := by
            rcases hm with rfl | rfl
            · exact htotal
            · exact hmodel hov
          have hkey := has_keys hkeys hmem (Finset.mem_Icc.1 hb)
          rw [hv] at hkey
          cases hkey
        simp [share_of_not_overlaps hmissing]

/-- a second from 10.00 s on, a hundred buckets -/
def aSecond : Window := ⟨10, 11, 100, by norm_num, by norm_num⟩

/-- a table with "total" and "html" -/
def table : BO.Table ℚ := fun m b => if (m = total ∨ m = "html".toList) ∧ 1000 ≤ b ∧ b ≤ 1199 then some 0 else none

theorem table_keys : Keys aSecond [total, "html".toList] table := by
  intro m b
  have htrunc : trunc (11 : ℚ) = 11 := by norm_num [trunc]
  simp only [table, aSecond, htrunc]
  split
  · next h => simp_all
  · next h =>
    simp_all

theorem html_accounts : ∃ dic', addMulti2 aSecond 10.203 10.417 "html".toList table = .ok dic' ∧
    Accounts aSecond 10.203 10.417 "html".toList table dic' := by
  have hhtml : "html".toList ≠ total := by decide
  exact (profile_accounts_iff (by norm_num) table_keys (by simp)).2 ⟨fun _ => by simp, fun h => absurd h hhtml⟩

/-- **Twice**: the stay of a request whose category is "total". -/
theorem total_twice : ¬ ∃ dic', addMulti2 aSecond 10.203 10.417 total table = .ok dic' ∧
    Accounts aSecond 10.203 10.417 total table dic' := by
  rintro ⟨dic', hrun, hacc⟩
  obtain ⟨-, rfl⟩ := (addMulti2_ok (by norm_num) table_keys (by simp)).1 hrun
  have hempty := empty_of_total (by norm_num) table_keys (by simp) hacc
  norm_num [between, aSecond] at hempty

end Rubbos.QueueLength.AddMulti2
