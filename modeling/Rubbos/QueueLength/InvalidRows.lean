/-
Rows whose end is before their start, in the profiles of `BO.py`.

`main` prints such a row, but only after it has counted its start and its end and added its stay, which is then a negative
amount. A row that is wholly outside the window is left out by the helpers themselves.

- `reported_unseen`: a reported row whose start and end are not in the window changes no table.
- `share_nonneg`: the shares of a row that is not reported are not negative.
- `profiles_valid_iff`: no multiplicity is negative, the total is at least that of the long requests and reported rows leave
  no trace, exactly if no reported row has its start or its end in the window.
-/
import Rubbos.QueueLength.BO

namespace Rubbos.QueueLength.BO

open Rubbos.Core Python

variable {R : Rounding} {o : Options} {float : ReadFloat} {lines : List Text} {p p' st : Profiles} {r : Row}

/-- the line is printed -/
def Reported (R : Rounding) (float : ReadFloat) (line : Text) : Prop :=
  ∃ r, parseLine float line = .ok (some r) ∧ r.reqRS R < 0

instance (R : Rounding) (float : ReadFloat) (line : Text) : Decidable (Reported R float line) :=
  match h : parseLine float line with
  | .ok (some r) => decidable_of_iff (r.reqRS R < 0) (by simp [Reported, h])
  | .ok none => isFalse (by simp [Reported, h])
  | .error e => isFalse (by simp [Reported, h])

/-- what the tables should be after the lines -/
structure Valid (R : Rounding) (o : Options) (float : ReadFloat) (lines : List Text) (st : Profiles) : Prop where
  multi_nonneg : ∀ model b v, st.httpMulti model b = some v → 0 ≤ v
  long_le_total : ∀ b t l, st.httpMulti total b = some t → st.httpMultiLongReqs total b = some l → l ≤ t
  adjustLoad_nonneg : ∀ b t l, st.httpMulti total b = some t → st.httpMultiLongReqs total b = some l → 0 ≤ R.fl (t - l)
  reported_nothing : mainLoop R o float (lines.filter fun line => ¬ Reported R float line) = .ok st

/-! ## A reported row outside the window -/

theorem etime_lt_stime (h : r.reqRS R < 0) : r.etime < r.stime := by
  by_contra hle
  have hnonneg : 0 ≤ r.reqRS R := R.nonneg (by linarith)
  linarith

/-- the window starts with a whole second, so with a bucket -/
theorem stimeEpoch_le_bucket {t : ℚ} (h : stimeEpoch o ≤ t) : R.fl (stimeEpoch o * multiCountInSec) ≤ bucket R t := by
  have hint : stimeEpoch o * multiCountInSec = (o.startTime * 10 : ℤ) := by
    push_cast
    rfl
  have hmono : R.fl (stimeEpoch o * multiCountInSec) ≤ R.fl (t * multiCountInSec) := by
    refine R.mono ?_
    unfold multiCountInSec
    linarith
  obtain ⟨n, hn⟩ := R.int (o.startTime * 10)
  rw [hint, hn] at hmono ⊢
  exact_mod_cast Int.le_floor.2 hmono

theorem etimeEpoch_lt_of_bucket {t : ℚ} (h : R.fl (etimeEpoch R o * multiCountInSec) < bucket R t) : etimeEpoch R o < t := by
  by_contra hle
  have hmono : R.fl (t * multiCountInSec) ≤ R.fl (etimeEpoch R o * multiCountInSec) := by
    refine R.mono ?_
    unfold multiCountInSec
    linarith
  have hfloor : (bucket R t : ℚ) ≤ R.fl (t * multiCountInSec) := Int.floor_le _
  linarith

/-- a row with its end before its start overlaps the window only if it ends in it -/
theorem not_overlaps (hneg : r.reqRS R < 0) (hend : ¬ Seen R o r.etime) : ¬ Overlaps R o r.stime r.etime := by
  intro ⟨hstart, hfrom⟩
  have hlt := etime_lt_stime hneg
  have hbucket := stimeEpoch_le_bucket (R := R) (not_lt.1 hstart)
  have hlate : R.fl (etimeEpoch R o * multiCountInSec) < bucket R r.etime := by
    by_contra hin
    exact hend ⟨not_lt.2 hbucket, hin⟩
  have hend := etimeEpoch_lt_of_bucket hlate
  exact hfrom (lt_max_of_lt_left (hend.trans hlt))

theorem reported_unseen (hneg : r.reqRS R < 0) (hstart : ¬ Seen R o r.stime) (hend : ¬ Seen R o r.etime) :
    processRow R o p r = .ok p := by
  have hshort : ¬ 3 < r.reqRS R := by linarith
  rw [processRow_eq]
  simp [inOut, stay, shares, longStay, response, hstart, hend, not_overlaps hneg hend, hneg, hshort, bind, Except.bind, pure,
    Except.pure]

/-! ## Counting the rows -/

/-- how much a row adds at one of its times, in a bucket for "total" -/
def rowWeight (R : Rounding) (o : Options) (time : Row → ℚ) (b : ℤ) (r : Row) : ℕ :=
  if Seen R o (time r) ∧ bucket R (time r) = b then times r.model total else 0

def weight (R : Rounding) (o : Options) (float : ReadFloat) (time : Row → ℚ) (b : ℤ) (line : Text) : ℕ :=
  match parseLine float line with
  | .ok (some r) => rowWeight R o time b r
  | _ => 0

theorem count_inOut {time : Row → ℚ} {dic : Table ℕ}
    (hkeys : ∀ c ∈ inOut R o (time r) (· + 1), (dic total c.1).isSome ∧ (dic r.model c.1).isSome) (b : ℤ) :
    (change dic (effect r.model (inOut R o (time r) (· + 1))) total b).getD 0 =
      (dic total b).getD 0 + rowWeight R o time b r := by
  unfold rowWeight
  by_cases hseen : Seen R o (time r)
  · simp only [inOut, hseen, if_true, List.mem_singleton, forall_eq, true_and] at hkeys ⊢
    by_cases hb : bucket R (time r) = b
    · subst hb
      obtain ⟨v, hv⟩ := Option.isSome_iff_exists.1 hkeys.1
      simp [change, hv, add_right_iterate]
    · cases hv : dic total b with
      | none => simp [change, hv, hb]
      | some v => simp [change, hv, hb]
  · simp only [inOut, hseen, if_false, false_and, add_zero, change_effect_nil]

theorem count_starts {line : Text} (b : ℤ) (h : processLine R o float p line = .ok p') :
    (p'.httpInput total b).getD 0 = (p.httpInput total b).getD 0 + weight R o float Row.stime b line := by
  unfold weight
  rcases processLine_ok.1 h with ⟨hrow, rfl⟩ | ⟨r, hrow, h⟩
  · simp [hrow]
  · obtain ⟨hfits, rfl⟩ := processRow_ok.1 h
    simp only [hrow]
    exact count_inOut hfits.input b

theorem count_ends {line : Text} (b : ℤ) (h : processLine R o float p line = .ok p') :
    (p'.httpOutput total b).getD 0 = (p.httpOutput total b).getD 0 + weight R o float Row.etime b line := by
  unfold weight
  rcases processLine_ok.1 h with ⟨hrow, rfl⟩ | ⟨r, hrow, h⟩
  · simp [hrow]
  · obtain ⟨hfits, rfl⟩ := processRow_ok.1 h
    simp only [hrow]
    exact count_inOut hfits.output b

/-- if the lines that q does not hold of can be left out, then each of them counts for nothing -/
theorem eq_zero_of_sum_filter {w : Text → ℕ} {q : Text → Prop} [DecidablePred q]
    (h : (lines.map w).sum = ((lines.filter q).map w).sum) {line : Text} (hline : line ∈ lines) (hq : ¬ q line) :
    w line = 0 := by
  have hsplit := List.sum_map_filter_add_sum_map_filter_not q w lines
  have hzero : ((lines.filter fun l => ¬ q l).map w).sum = 0 := by omega
  exact List.sum_eq_zero_iff.1 hzero _ (List.mem_map_of_mem (List.mem_filter.2 ⟨hline, by simp [hq]⟩))

/-- a time that adds nothing in any bucket is not in the window -/
theorem not_seen_of_weight {time : Row → ℚ} (h : ∀ b, rowWeight R o time b r = 0) : ¬ Seen R o (time r) := by
  intro hseen
  have hzero := h (bucket R (time r))
  unfold rowWeight times at hzero
  rw [if_pos ⟨hseen, rfl⟩, if_pos rfl] at hzero
  omega

/-- a line that can be left out, by the count of one of its times -/
theorem not_seen_of_count {time : Row → ℚ} {n : Profiles → ℤ → ℕ}
    (hcount : ∀ {p p' line} b, processLine R o float p line = .ok p' → n p' b = n p b + weight R o float time b line)
    {q : Text → Prop} [DecidablePred q] (h : mainLoop R o float lines = .ok st) (hno : mainLoop R o float (lines.filter q) = .ok st)
    {line : Text} (hline : line ∈ lines) (hq : ¬ q line) (hrow : parseLine float line = .ok (some r)) : ¬ Seen R o (time r) := by
  refine not_seen_of_weight fun b => ?_
  have hall := foldlM_sum (P := fun _ => True) (fun _ _ _ _ hstep => ⟨trivial, hcount b hstep⟩) trivial h
  have hrest := foldlM_sum (P := fun _ => True) (fun _ _ _ _ hstep => ⟨trivial, hcount b hstep⟩) trivial hno
  have hzero := eq_zero_of_sum_filter (Nat.add_left_cancel (hall.symm.trans hrest)) hline hq
  simpa only [weight, hrow] using hzero

theorem not_seen_of_reported (h : mainLoop R o float lines = .ok st)
    (hno : mainLoop R o float (lines.filter fun line => ¬ Reported R float line) = .ok st) {line : Text} (hline : line ∈ lines)
    (hrow : parseLine float line = .ok (some r)) (hneg : r.reqRS R < 0) : ¬ Seen R o r.stime ∧ ¬ Seen R o r.etime := by
  have hq : ¬ ¬ Reported R float line := not_not.2 ⟨r, hrow, hneg⟩
  exact ⟨not_seen_of_count (n := fun p b => (p.httpInput total b).getD 0) count_starts h hno hline hq hrow,
    not_seen_of_count (n := fun p b => (p.httpOutput total b).getD 0) count_ends h hno hline hq hrow⟩

/-! ## Shares -/

/-- the stay of a row that is not reported is not negative between the cuts -/
theorem stay_nonneg (h : 0 ≤ r.reqRS R) (hov : Overlaps R o r.stime r.etime) :
    0 ≤ R.fl (min r.etime (etimeEpoch R o) - max r.stime (stimeEpoch o)) := by
  obtain ⟨hto, hfrom⟩ := hov
  rw [not_lt] at hto hfrom
  obtain ⟨hs, hS⟩ := max_le_iff.1 hfrom
  rcases le_or_gt r.stime r.etime with hle | hlt
  · refine R.nonneg (sub_nonneg.2 (le_min ?_ hfrom))
    exact max_le hle hto
  · -- so close together that the difference is rounded to 0, and then no cut is made
    rw [min_eq_left (hlt.le.trans hs), max_eq_left (hto.trans hlt.le)]
    exact h

theorem share_nonneg (h : 0 ≤ r.reqRS R) {s : ℤ × ℚ} (hs : s ∈ shares R o r.stime r.etime) : 0 ≤ s.2 := by
  unfold shares at hs
  split at hs
  · next hov =>
    unfold sharesCut at hs
    simp only at hs
    split at hs
    · rcases List.mem_append.1 hs with hs | hs
      · split at hs
        · rw [List.mem_singleton.1 hs]
          exact R.nonneg (sub_nonneg.2 (Int.le_ceil _))
        · cases hs
      · rcases List.mem_cons.1 hs with rfl | hs
        · exact R.nonneg (sub_nonneg.2 (Int.floor_le _))
        · obtain ⟨i, -, rfl⟩ := List.mem_map.1 hs
          exact zero_le_one
    · rw [List.mem_singleton.1 hs]
      exact R.nonneg (mul_nonneg (stay_nonneg h hov) (by norm_num [multiCountInSec]))
  · cases hs

/-! ## Multiplicities -/

/-- what holds between the multiplicities as long as nothing negative is added -/
structure Sound (R : Rounding) (p : Profiles) : Prop where
  multi : ∀ model b v, p.httpMulti model b = some v → R.fl v = v ∧ 0 ≤ v
  long_le : ∀ b t l, p.httpMulti total b = some t → p.httpMultiLongReqs total b = some l → l ≤ t

theorem sound_initial : Sound R (initialProfiles R o) where
  multi := by
    intro model b v hv
    simp only [initialProfiles, initial, Option.ite_none_right_eq_some, Option.some.injEq] at hv
    rw [← hv.2]
    exact ⟨R.zero, le_rfl⟩
  long_le := by
    intro b t l ht hl
    simp only [initialProfiles, initial, Option.ite_none_right_eq_some, Option.some.injEq] at ht hl
    rw [← ht.2, ← hl.2]

theorem mem_stay {s e : ℚ} {c : ℤ × (ℚ → ℚ)} (hc : c ∈ stay R o s e) : ∃ x, (c.1, x) ∈ shares R o s e ∧ c.2 = plus R x := by
  obtain ⟨sh, hsh, rfl⟩ := List.mem_map.1 hc
  exact ⟨sh.2, hsh, rfl⟩

theorem sound_rowEffect (h : 0 ≤ r.reqRS R) (hp : Sound R p) : Sound R (rowEffect R o p r) where
  multi := by
    intro model b v hv
    obtain ⟨w, hw, rfl⟩ := Option.map_eq_some_iff.1 hv
    refine effect_induct (P := fun v => R.fl v = v ∧ 0 ≤ v) ?_ (hp.multi model b w hw)
    intro c hc v hv
    obtain ⟨x, hx, hcx⟩ := mem_stay hc
    rw [hcx]
    exact ⟨R.idem _, R.nonneg (add_nonneg hv.2 (share_nonneg h hx))⟩
  long_le := by
    intro b t l ht hl
    obtain ⟨t₀, ht₀, rfl⟩ := Option.map_eq_some_iff.1 ht
    obtain ⟨l₀, hl₀, rfl⟩ := Option.map_eq_some_iff.1 hl
    have hle := hp.long_le b t₀ l₀ ht₀ hl₀
    unfold longStay
    split
    · -- the same shares on both sides
      refine effect_rel (Q := fun t l => l ≤ t) ?_ hle
      intro c hc v w hvw
      obtain ⟨x, hx, hcx⟩ := mem_stay hc
      rw [hcx]
      exact R.mono (by linarith)
    · have hgrow : R.fl (effect r.model (stay R o r.stime r.etime) total b t₀) =
          effect r.model (stay R o r.stime r.etime) total b t₀ ∧
          l₀ ≤ effect r.model (stay R o r.stime r.etime) total b t₀ := by
        refine effect_induct (P := fun v => R.fl v = v ∧ l₀ ≤ v) ?_ ⟨(hp.multi total b t₀ ht₀).1, hle⟩
        intro c hc v hv
        obtain ⟨x, hx, hcx⟩ := mem_stay hc
        rw [hcx]
        exact ⟨R.idem _, hv.2.trans (R.le_add hv.1 (share_nonneg h hx))⟩
      exact hgrow.2

theorem sound_processLine {line : Text} (hline : ∀ r, parseLine float line = .ok (some r) → r.reqRS R < 0 →
    ¬ Seen R o r.stime ∧ ¬ Seen R o r.etime) (hp : Sound R p) (h : processLine R o float p line = .ok p') : Sound R p' := by
  rcases processLine_ok.1 h with ⟨-, rfl⟩ | ⟨r, hrow, h⟩
  · exact hp
  · rcases lt_or_ge (r.reqRS R) 0 with hneg | hnonneg
    · obtain ⟨hstart, hend⟩ := hline r hrow hneg
      rw [reported_unseen hneg hstart hend] at h
      exact Except.ok.inj h ▸ hp
    · obtain ⟨-, rfl⟩ := processRow_ok.1 h
      exact sound_rowEffect hnonneg hp

/-- **Profiles and invalid rows.** After the lines, the multiplicities are not negative, the total is at least that of the
long requests and the reported rows have left no trace, exactly if no reported row has its start or its end in the window. -/
theorem profiles_valid_iff (R : Rounding) (o : Options) (float : ReadFloat) (lines : List Text) (st : Profiles)
    (h : mainLoop R o float lines = .ok st) :
    Valid R o float lines st ↔ ∀ line ∈ lines, ∀ r, parseLine float line = .ok (some r) → r.reqRS R < 0 →
      ¬ Seen R o r.stime ∧ ¬ Seen R o r.etime := by
  constructor
  · intro hvalid line hline r hrow hneg
    exact not_seen_of_reported h hvalid.reported_nothing hline hrow hneg
  · intro hunseen
    have hsound : Sound R st := foldlM_induct
      (fun line hline p p' hp hstep => sound_processLine (hunseen line hline) hp hstep) sound_initial h
    refine ⟨fun model b v hv => (hsound.multi model b v hv).2, hsound.long_le, ?_, ?_⟩
    · intro b t l ht hl
      exact R.nonneg (sub_nonneg.2 (hsound.long_le b t l ht hl))
    · refine (foldlM_filter ?_ _).trans h
      intro line hline hq p
      obtain ⟨r, hrow, hneg⟩ : Reported R float line := by simpa using hq
      obtain ⟨hstart, hend⟩ := hunseen line hline r hrow hneg
      exact processLine_ok.2 (.inr ⟨r, hrow, reported_unseen hneg hstart hend⟩)

/-- the first minute of December 2014 -/
def aMinute : Options := ⟨1417392000, 1417392000, "RW".toList, "Tomcat".toList⟩

/-- a request in the window, and a row with its end before its start behind it -/
def goodLines : List Text :=
  ["1417392005.250,1417392005.500,html,250.000\n", "1417392070.500,1417392070.250,html,0.000\n"].map String.toList

theorem profiles_valid_behind_window :
    ∃ st, mainLoop .exact aMinute decimalFloat goodLines = .ok st ∧ Valid .exact aMinute decimalFloat goodLines st := by
  obtain ⟨st, h⟩ : ∃ st, mainLoop .exact aMinute decimalFloat goodLines = .ok st := by
    cases hst : mainLoop .exact aMinute decimalFloat goodLines with
    | ok st => exact ⟨st, rfl⟩
    | error e =>
      have hok : (mainLoop .exact aMinute decimalFloat goodLines).toBool = true := by decide +kernel
      rw [hst] at hok
      cases hok
  refine ⟨st, h, (profiles_valid_iff _ _ _ _ _ h).2 ?_⟩
  intro line hline r hrow hneg
  simp only [goodLines, List.map_cons, List.map_nil, List.mem_cons, List.not_mem_nil, or_false] at hline
  rcases hline with rfl | rfl
  · have hparse : parseLine decimalFloat "1417392005.250,1417392005.500,html,250.000\n".toList =
        .ok (some ⟨1417392005.25, 1417392005.5, "html".toList⟩) := by decide +kernel
    rw [hparse] at hrow
    cases hrow
    exact absurd hneg (by decide +kernel)
  · have hparse : parseLine decimalFloat "1417392070.500,1417392070.250,html,0.000\n".toList =
        .ok (some ⟨1417392070.5, 1417392070.25, "html".toList⟩) := by decide +kernel
    rw [hparse] at hrow
    cases hrow
    decide +kernel

/-- the same row in the window: a multiplicity below zero, and a start and an end that are counted -/
def badLines : List Text := ["1417392005.500,1417392005.250,html,0.000\n".toList]

theorem reported_row_counted :
    (mainLoop .exact aMinute decimalFloat badLines).map
      (fun st => (st.httpMulti total 14173920052, st.httpInput total 14173920055, st.httpOutput total 14173920052)) =
        .ok (some (-5 / 2), some 1, some 1) ∧
    ∀ st, mainLoop .exact aMinute decimalFloat badLines = .ok st → ¬ Valid .exact aMinute decimalFloat badLines st := by
  have hrun : (mainLoop .exact aMinute decimalFloat badLines).map
      (fun st => (st.httpMulti total 14173920052, st.httpInput total 14173920055, st.httpOutput total 14173920052)) =
        .ok (some (-5 / 2), some 1, some 1) := by decide +kernel
  refine ⟨hrun, ?_⟩
  intro st h hvalid
  rw [h] at hrun
  simp only [Except.map, Except.ok.injEq, Prod.mk.injEq] at hrun
  have hneg := hvalid.multi_nonneg total 14173920052 (-5 / 2) hrun.1
  norm_num at hneg

end Rubbos.QueueLength.BO
