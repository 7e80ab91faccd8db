/-
The entries for "total" in the profiles of `BO.py`, in exact arithmetic.

Every helper writes to the entry of "total" and to that of the model of the row, so that "total" should be the sum of the
other models. The tables have no entry for a model that is not in the list, and a row with the model "total" counts twice
for itself and for no other model.

- `rowFits_iff`: which rows find their keys: those that do not touch the window, and those whose model is in the list.
- `excess_change`: how far "total" is ahead of the other models after the changes of a row.
- `processed_iff`: every line is processed and "total" is the sum of the others, exactly if every line can be read and the
  rows that touch the window have models of the list other than "total".
-/
import Rubbos.QueueLength.BO

namespace Rubbos.QueueLength.BO

open Rubbos.Core Python

/-! ## Sums over the models -/

variable {α : Type}

/-- a number of an entry, 0 if there is none -/
def entry (g : α → ℚ) (dic : Table α) (m : Text) (b : ℤ) : ℚ := ((dic m b).map g).getD 0

/-- the models without "total" -/
def others (o : Options) : List Text := (models o).filter (· ≠ total)

/-- how far "total" is ahead of the sum of the others -/
def excess (o : Options) (g : α → ℚ) (dic : Table α) (b : ℤ) : ℚ :=
  entry g dic total b - ((others o).map fun m => entry g dic m b).sum

/-- in every bucket "total" is the sum of the others -/
def Balanced (o : Options) (g : α → ℚ) (dic : Table α) : Prop :=
  ∀ b, entry g dic total b = ((others o).map fun m => entry g dic m b).sum

structure AllBalanced (o : Options) (st : Profiles) : Prop where
  input : Balanced o (fun n : ℕ => (n : ℚ)) st.httpInput
  output : Balanced o (fun n : ℕ => (n : ℚ)) st.httpOutput
  multi : Balanced o (fun x => x) st.httpMulti
  inCount : Balanced o (fun c : Cell => (c.count : ℚ)) st.httpIn
  inSum : Balanced o Cell.sum st.httpIn
  outCount : Balanced o (fun c : Cell => (c.count : ℚ)) st.httpOutRs
  outSum : Balanced o Cell.sum st.httpOutRs

/-- every line is processed, and then the totals are right -/
def Processed (o : Options) (float : ReadFloat) (lines : List Text) : Prop :=
  ∃ st, mainLoop .exact o float lines = .ok st ∧ AllBalanced o st

/-- the row has its start, its end or a part of its stay in the window -/
def Touches (o : Options) (r : Row) : Prop :=
  Seen .exact o r.stime ∨ Seen .exact o r.etime ∨ Overlaps .exact o r.stime r.etime

instance (o : Options) (r : Row) : Decidable (Touches o r) := inferInstanceAs (Decidable (_ ∨ _ ∨ _))

/-- the model is in the list, and not for the total itself -/
def Known (o : Options) (r : Row) : Prop := r.model ∈ models o ∧ r.model ≠ total

instance (o : Options) (r : Row) : Decidable (Known o r) := inferInstanceAs (Decidable (_ ∧ _))

theorem models_nodup (o : Options) : (models o).Nodup := by
  unfold models
  split_ifs
  all_goals decide

theorem total_mem_models (o : Options) : total ∈ models o := by
  unfold models
  split_ifs
  all_goals decide

theorem mem_others {o : Options} {m : Text} : m ∈ others o ↔ m ∈ models o ∧ m ≠ total := by simp [others]

theorem sum_indicator {l : List Text} (hn : l.Nodup) (model : Text) :
    (l.map fun m => if m = model then (1 : ℚ) else 0).sum = if model ∈ l then 1 else 0 := by
  induction l with
  | nil => simp
  | cons m l ih =>
    obtain ⟨hm, hl⟩ := List.nodup_cons.1 hn
    by_cases h : m = model
    · subst h
      simp [hm, ih hl]
    · simp [h, Ne.symm h, ih hl]

/-- how often a change is made for the models other than "total" -/
theorem sum_times {o : Options} {model : Text} (h : model ∈ models o) :
    ((others o).map fun m => (times model m : ℚ)).sum = if model = total then 0 else 1 := by
  have htimes : ∀ m ∈ others o, (times model m : ℚ) = if m = model then 1 else 0 := by
    intro m hm
    simp [times, (mem_others.1 hm).2]
  have hnodup : (others o).Nodup := (models_nodup o).filter _
  rw [List.map_congr_left htimes, sum_indicator hnodup]
  simp [mem_others, h]

/-! ## The excess of "total" -/

/-- the tables have exactly the models of the list and the buckets of the window -/
def HasKeys (o : Options) (dic : Table α) : Prop := ∀ m b, (dic m b).isSome ↔ ((initial .exact o ()) m b).isSome

/-- the amounts of the changes in a bucket -/
def amountIn (k : ℤ × (α → α) → ℚ) (changes : List (ℤ × (α → α))) (b : ℤ) : ℚ :=
  ((changes.filter fun c => c.1 = b).map k).sum

section

variable {o : Options} {g : α → ℚ} {k : ℤ × (α → α) → ℚ} {changes : List (ℤ × (α → α))} {dic : Table α} {model : Text}

theorem isSome_initial {v : α} {m : Text} {b : ℤ} :
    (initial .exact o v m b).isSome ↔
      m ∈ models o ∧ 10 * trunc (stimeEpoch o) ≤ b ∧ b ≤ 10 * trunc (etimeEpoch .exact o) + 9 := by
  unfold initial
  split <;> simp_all

theorem iterate_add {f : α → α} {x : ℚ} (h : ∀ v, g (f v) = g v + x) (n : ℕ) (v : α) : g (f^[n] v) = g v + n * x := by
  induction n with
  | zero => simp
  | succ n ih =>
    rw [Function.iterate_succ_apply', h, ih]
    push_cast
    ring

theorem effect_add (h : ∀ c ∈ changes, ∀ v, g (c.2 v) = g v + k c) (m : Text) (b : ℤ) (v : α) :
    g (effect model changes m b v) = g v + times model m * amountIn k changes b := by
  induction changes generalizing v with
  | nil => simp [amountIn]
  | cons c changes ih =>
    rw [effect_cons, ih fun d hd => h d (List.mem_cons_of_mem c hd)]
    by_cases hb : c.1 = b
    · simp only [amountIn, hb, if_true, decide_true, List.filter_cons_of_pos, List.map_cons, List.sum_cons]
      rw [iterate_add (h c List.mem_cons_self)]
      ring
    · simp [amountIn, hb]

/-- an entry of a model of the list after the changes of a row -/
theorem entry_change (hadd : ∀ c ∈ changes, ∀ v, g (c.2 v) = g v + k c) (hkeys : HasKeys o dic)
    (hfits : ∀ c ∈ changes, (dic total c.1).isSome ∧ (dic model c.1).isSome) {m : Text} (hm : m ∈ models o) (b : ℤ) :
    entry g (change dic (effect model changes)) m b = entry g dic m b + times model m * amountIn k changes b := by
  cases hv : dic m b with
  | some v => simp [entry, change, hv, effect_add hadd]
  | none =>
    have hempty : changes.filter (fun c => c.1 = b) = [] := by
      simp only [List.filter_eq_nil_iff, decide_eq_true_eq]
      rintro c hc rfl
      have hwindow := (isSome_initial.1 ((hkeys _ _).1 (hfits c hc).1)).2
      have hsome := (hkeys m c.1).2 (isSome_initial.2 ⟨hm, hwindow⟩)
      rw [hv] at hsome
      cases hsome
    simp [entry, change, hv, amountIn, hempty]

/-- only the changes for "total" itself set it apart -/
theorem excess_change (hadd : ∀ c ∈ changes, ∀ v, g (c.2 v) = g v + k c) (hkeys : HasKeys o dic)
    (hfits : ∀ c ∈ changes, (dic total c.1).isSome ∧ (dic model c.1).isSome) (b : ℤ) :
    excess o g (change dic (effect model changes)) b =
      excess o g dic b + (if model = total then 2 else 0) * amountIn k changes b := by
  have hentry (m : Text) (hm : m ∈ models o) := entry_change hadd hkeys hfits hm b
  unfold excess
  rw [hentry total (total_mem_models o), List.map_congr_left fun m hm => hentry m (mem_others.1 hm).1,
    List.sum_map_add, List.sum_map_mul_right]
  rcases changes with _ | ⟨c, changes⟩
  · simp [amountIn]
  · have hmodel := (isSome_initial.1 ((hkeys _ _).1 (hfits c List.mem_cons_self).2)).1
    rw [sum_times hmodel]
    by_cases htotal : model = total
    · simp [times, htotal]
      ring
    · simp [times, htotal, Ne.symm htotal]

end

/-! ## The window -/

section

variable {o : Options} {r : Row} {p p' : Profiles} {b : ℤ}

/-- the buckets from the first second of the start to the last of the end -/
def InWindow (o : Options) (b : ℤ) : Prop := 10 * o.startTime ≤ b ∧ b ≤ 10 * o.endTime + 599

theorem etimeEpoch_exact : etimeEpoch .exact o = o.endTime + 59.999999 := rfl

theorem stime10 : stimeEpoch o * multiCountInSec = (10 * o.startTime : ℤ) := by
  unfold stimeEpoch multiCountInSec
  push_cast
  ring

theorem floor_etime10 : ⌊etimeEpoch .exact o * multiCountInSec⌋ = 10 * o.endTime + 599 := by
  rw [Int.floor_eq_iff, etimeEpoch_exact]
  unfold multiCountInSec
  push_cast
  constructor <;> norm_num <;> linarith

theorem trunc_stimeEpoch : trunc (stimeEpoch o) = o.startTime := by
  unfold trunc stimeEpoch
  split
  · exact Int.ceil_intCast _
  · exact Int.floor_intCast _

theorem le_trunc_etimeEpoch : o.endTime + 59 ≤ trunc (etimeEpoch .exact o) := by
  have hfloor : o.endTime + 59 ≤ ⌊etimeEpoch .exact o⌋ := by
    rw [Int.le_floor, etimeEpoch_exact]
    push_cast
    linarith
  unfold trunc
  split
  · exact hfloor.trans (Int.floor_le_ceil _)
  · exact hfloor

theorem isSome_of_window {dic : Table α} (hkeys : HasKeys o dic) {m : Text} (hm : m ∈ models o) (hb : InWindow o b) :
    (dic m b).isSome := by
  rw [hkeys, isSome_initial, trunc_stimeEpoch]
  have hend := le_trunc_etimeEpoch (o := o)
  obtain ⟨hlow, hhigh⟩ := hb
  exact ⟨hm, hlow, by omega⟩

theorem seen_iff {t : ℚ} : Seen .exact o t ↔ InWindow o (bucket .exact t) := by
  unfold Seen InWindow
  have hlow : ¬ (bucket .exact t : ℚ) < Rounding.exact.fl (stimeEpoch o * multiCountInSec) ↔
      10 * o.startTime ≤ bucket .exact t := by
    rw [not_lt, stime10]
    exact Int.cast_le
  have hhigh : ¬ Rounding.exact.fl (etimeEpoch .exact o * multiCountInSec) < bucket .exact t ↔
      bucket .exact t ≤ 10 * o.endTime + 599 := by
    rw [not_lt, ← floor_etime10, Int.le_floor]
    rfl
  rw [hlow, hhigh]

/-- a time between the start and the end of the window is seen -/
theorem seen_of_le {t : ℚ} (hlow : stimeEpoch o ≤ t) (hhigh : t ≤ etimeEpoch .exact o) : Seen .exact o t := by
  rw [seen_iff]
  constructor
  · rw [bucket, Int.le_floor, ← stime10]
    exact mul_le_mul_of_nonneg_right hlow (by norm_num [multiCountInSec])
  · rw [← floor_etime10]
    exact Int.floor_le_floor (mul_le_mul_of_nonneg_right hhigh (by norm_num [multiCountInSec]))

theorem inOut_window {t : ℚ} {f : α → α} {c : ℤ × (α → α)} (hc : c ∈ inOut .exact o t f) : InWindow o c.1 := by
  unfold inOut at hc
  split at hc
  · next hseen =>
    rw [List.mem_singleton.1 hc]
    exact seen_iff.1 hseen
  · cases hc

theorem shares_window {addFrom addTo : ℚ} {s : ℤ × ℚ} (hs : s ∈ shares .exact o addFrom addTo) : InWindow o s.1 := by
  unfold shares at hs
  split at hs
  · next hov =>
    obtain ⟨hto, hfrom⟩ := hov
    rw [not_lt] at hto hfrom
    have hS : stimeEpoch o ≤ etimeEpoch .exact o := (le_max_right _ _).trans hfrom
    have hceil : 10 * o.startTime ≤ ⌈max addFrom (stimeEpoch o) * multiCountInSec⌉ := by
      have hle : stimeEpoch o * multiCountInSec ≤ max addFrom (stimeEpoch o) * multiCountInSec :=
        mul_le_mul_of_nonneg_right (le_max_right _ _) (by norm_num [multiCountInSec])
      rw [stime10] at hle
      exact_mod_cast hle.trans (Int.le_ceil _)
    have hfloor : 10 * o.startTime ≤ ⌊min addTo (etimeEpoch .exact o) * multiCountInSec⌋ := by
      rw [Int.le_floor, ← stime10]
      exact mul_le_mul_of_nonneg_right (le_min hto hS) (by norm_num [multiCountInSec])
    have hlast : ⌊min addTo (etimeEpoch .exact o) * multiCountInSec⌋ ≤ 10 * o.endTime + 599 := by
      rw [← floor_etime10]
      exact Int.floor_le_floor (mul_le_mul_of_nonneg_right (min_le_right _ _) (by norm_num [multiCountInSec]))
    unfold sharesCut at hs
    simp only [Rounding.exact_fl, stime10] at hs
    split at hs
    · next hle =>
      rcases List.mem_append.1 hs with hs | hs
      · split at hs
        · next hfirst =>
          rw [List.mem_singleton.1 hs]
          have hfirst : 10 * o.startTime ≤ ⌈max addFrom (stimeEpoch o) * multiCountInSec⌉ - 1 := by exact_mod_cast hfirst
          exact ⟨hfirst, by dsimp only; omega⟩
        · cases hs
      · rcases List.mem_cons.1 hs with rfl | hs
        · exact ⟨hfloor, hlast⟩
        · obtain ⟨i, hi, rfl⟩ := List.mem_map.1 hs
          have hi := List.mem_range.1 hi
          constructor <;> dsimp only <;> omega
    · rw [List.mem_singleton.1 hs]
      exact ⟨hfloor, hlast⟩
  · cases hs

theorem stay_window {c : ℤ × (ℚ → ℚ)} {s e : ℚ} (hc : c ∈ stay .exact o s e) : InWindow o c.1 := by
  obtain ⟨sh, hsh, rfl⟩ := List.mem_map.1 hc
  exact shares_window hsh

/-! ## Rows that find their keys -/

structure Keyed (o : Options) (p : Profiles) : Prop where
  input : HasKeys o p.httpInput
  output : HasKeys o p.httpOutput
  multi : HasKeys o p.httpMulti
  long : HasKeys o p.httpMultiLongReqs
  responseIn : HasKeys o p.httpIn
  responseOut : HasKeys o p.httpOutRs

theorem hasKeys_initial (v : α) : HasKeys o (initial .exact o v) := by
  intro m b
  rw [isSome_initial, isSome_initial]

theorem hasKeys_change {dic : Table α} (h : HasKeys o dic) (g : Text → ℤ → α → α) : HasKeys o (change dic g) := by
  intro m b
  rw [isSome_change]
  exact h m b

theorem keyed_initial : Keyed o (initialProfiles .exact o) :=
  ⟨hasKeys_initial _, hasKeys_initial _, hasKeys_initial _, hasKeys_initial _, hasKeys_initial _, hasKeys_initial _⟩

theorem keyed_rowEffect (h : Keyed o p) : Keyed o (rowEffect .exact o p r) :=
  ⟨hasKeys_change h.input _, hasKeys_change h.output _, hasKeys_change h.multi _, hasKeys_change h.long _,
    hasKeys_change h.responseIn _, hasKeys_change h.responseOut _⟩

theorem mem_longStay {R : Rounding} {c : ℤ × (ℚ → ℚ)} (hc : c ∈ longStay R o r) : c ∈ stay R o r.stime r.etime := by
  unfold longStay at hc
  split at hc
  · exact hc
  · cases hc

theorem mem_response {R : Rounding} {t : ℚ} {c : ℤ × (Cell → Cell)} (hc : c ∈ response R o r t) :
    c ∈ inOut R o t (Cell.add R (r.reqRS R)) := by
  unfold response at hc
  split at hc
  · cases hc
  · exact hc

theorem seen_of_mem {R : Rounding} {t : ℚ} {f : α → α} {c : ℤ × (α → α)} (hc : c ∈ inOut R o t f) : Seen R o t := by
  by_contra h
  simp [inOut, h] at hc

theorem overlaps_of_mem {R : Rounding} {s e : ℚ} {c : ℤ × (ℚ → ℚ)} (hc : c ∈ stay R o s e) : Overlaps R o s e := by
  by_contra h
  simp [stay, shares, h] at hc

theorem shares_ne_nil {R : Rounding} {s e : ℚ} (h : Overlaps R o s e) : shares R o s e ≠ [] := by
  unfold shares sharesCut
  rw [if_pos h]
  simp only
  split <;> simp

/-- **The rows that find their keys** are those that do not touch the window and those whose model is in the list. -/
theorem rowFits_iff (hp : Keyed o p) : RowFits .exact o p r ↔ (Touches o r → r.model ∈ models o) := by
  constructor
  · intro hfits htouches
    have hmodel : ∀ {β : Type} {dic : Table β} {b : ℤ}, HasKeys o dic → (dic r.model b).isSome → r.model ∈ models o :=
      fun hkeys hsome => (isSome_initial.1 ((hkeys _ _).1 hsome)).1
    rcases htouches with hstart | hend | hov
    · exact hmodel hp.input (hfits.input _ (by rw [inOut, if_pos hstart]; exact List.mem_singleton_self _)).2
    · exact hmodel hp.output (hfits.output _ (by rw [inOut, if_pos hend]; exact List.mem_singleton_self _)).2
    · obtain ⟨s, hs⟩ := List.exists_mem_of_ne_nil _ (shares_ne_nil hov)
      exact hmodel hp.multi (hfits.multi _ (List.mem_map_of_mem hs)).2
  · intro hmodel
    have hsome : ∀ {β : Type} {dic : Table β} {b : ℤ}, HasKeys o dic → Touches o r → InWindow o b →
        (dic total b).isSome ∧ (dic r.model b).isSome :=
      fun hkeys htouches hb => ⟨isSome_of_window hkeys (total_mem_models o) hb, isSome_of_window hkeys (hmodel htouches) hb⟩
    exact
      { input := fun c hc => hsome hp.input (.inl (seen_of_mem hc)) (inOut_window hc)
        output := fun c hc => hsome hp.output (.inr (.inl (seen_of_mem hc))) (inOut_window hc)
        multi := fun c hc => hsome hp.multi (.inr (.inr (overlaps_of_mem hc))) (stay_window hc)
        long := fun c hc => hsome hp.long (.inr (.inr (overlaps_of_mem (mem_longStay hc)))) (stay_window (mem_longStay hc))
        responseIn := fun c hc => hsome hp.responseIn (.inl (seen_of_mem (mem_response hc))) (inOut_window (mem_response hc))
        responseOut := fun c hc =>
          hsome hp.responseOut (.inr (.inl (seen_of_mem (mem_response hc)))) (inOut_window (mem_response hc)) }

/-! ## The totals are right -/

theorem balanced_iff {g : α → ℚ} {dic : Table α} : Balanced o g dic ↔ ∀ b, excess o g dic b = 0 := by
  unfold Balanced excess
  simp only [sub_eq_zero]

theorem balanced_change {g : α → ℚ} {k : ℤ × (α → α) → ℚ} {changes : List (ℤ × (α → α))} {dic : Table α} {model : Text}
    (hadd : ∀ c ∈ changes, ∀ v, g (c.2 v) = g v + k c) (hkeys : HasKeys o dic)
    (hfits : ∀ c ∈ changes, (dic total c.1).isSome ∧ (dic model c.1).isSome) (hmodel : ∀ c ∈ changes, model ≠ total)
    (h : Balanced o g dic) : Balanced o g (change dic (effect model changes)) := by
  rw [balanced_iff] at h ⊢
  intro b
  rw [excess_change hadd hkeys hfits, h b, zero_add]
  rcases changes with _ | ⟨c, changes⟩
  · simp [amountIn]
  · simp [hmodel c List.mem_cons_self]

theorem inOut_add {t : ℚ} {f : α → α} {g : α → ℚ} {x : ℚ} (hf : ∀ v, g (f v) = g v + x) :
    ∀ c ∈ inOut .exact o t f, ∀ v, g (c.2 v) = g v + x := by
  intro c hc v
  unfold inOut at hc
  split at hc
  · rw [List.mem_singleton.1 hc]
    exact hf v
  · cases hc

theorem stay_add {s e : ℚ} : ∀ c ∈ stay .exact o s e, ∀ v, c.2 v = v + c.2 0 := by
  intro c hc v
  obtain ⟨sh, -, rfl⟩ := List.mem_map.1 hc
  simp [plus]

theorem response_count {t : ℚ} : ∀ c ∈ response .exact o r t, ∀ v, ((c.2 v).count : ℚ) = v.count + 1 := by
  intro c hc
  have hadd : ∀ v, ((Cell.add .exact (r.reqRS .exact) v).count : ℚ) = v.count + 1 := fun v => by simp [Cell.add]
  exact inOut_add (g := fun v : Cell => (v.count : ℚ)) hadd c (mem_response hc)

theorem response_sum {t : ℚ} : ∀ c ∈ response .exact o r t, ∀ v, (c.2 v).sum = v.sum + r.reqRS .exact := by
  intro c hc
  exact inOut_add (fun _ => rfl) c (mem_response hc)

theorem allBalanced_initial : AllBalanced o (initialProfiles .exact o) := by
  have hzero : ∀ {β : Type} (g : β → ℚ) (v : β), g v = 0 → Balanced o g (initial .exact o v) := by
    intro β g v hv b
    have hentry : ∀ m, entry g (initial .exact o v) m b = 0 := by
      intro m
      unfold entry initial
      split <;> simp [hv]
    simp [hentry]
  constructor <;> exact hzero _ _ (by simp)

/-- a row whose model is known, or that does not touch the window, keeps the totals right -/
theorem allBalanced_rowEffect (hp : Keyed o p) (hfits : RowFits .exact o p r) (hknown : Touches o r → Known o r)
    (h : AllBalanced o p) : AllBalanced o (rowEffect .exact o p r) := by
  have hstart : Seen .exact o r.stime → r.model ≠ total := fun hs => (hknown (.inl hs)).2
  have hend : Seen .exact o r.etime → r.model ≠ total := fun hs => (hknown (.inr (.inl hs))).2
  have hov : Overlaps .exact o r.stime r.etime → r.model ≠ total := fun hs => (hknown (.inr (.inr hs))).2
  exact
    { input := balanced_change (inOut_add fun v => by push_cast; rfl) hp.input hfits.input
        (fun c hc => hstart (seen_of_mem hc)) h.input
      output := balanced_change (inOut_add fun v => by push_cast; rfl) hp.output hfits.output
        (fun c hc => hend (seen_of_mem hc)) h.output
      multi := balanced_change stay_add hp.multi hfits.multi (fun c hc => hov (overlaps_of_mem hc)) h.multi
      inCount := balanced_change response_count hp.responseIn hfits.responseIn
        (fun c hc => hstart (seen_of_mem (mem_response hc))) h.inCount
      inSum := balanced_change response_sum hp.responseIn hfits.responseIn
        (fun c hc => hstart (seen_of_mem (mem_response hc))) h.inSum
      outCount := balanced_change response_count hp.responseOut hfits.responseOut
        (fun c hc => hend (seen_of_mem (mem_response hc))) h.outCount
      outSum := balanced_change response_sum hp.responseOut hfits.responseOut
        (fun c hc => hend (seen_of_mem (mem_response hc))) h.outSum }

variable {float : ReadFloat} {lines : List Text} {st : Profiles}

/-- the line can be read, and its row is of a known model or does not touch the window -/
def Readable (o : Options) (float : ReadFloat) (line : Text) : Prop :=
  ∃ row, parseLine float line = .ok row ∧ ∀ r, row = some r → Touches o r → Known o r

theorem keyed_processLine {line : Text} (hp : Keyed o p) (h : processLine .exact o float p line = .ok p') :
    Keyed o p' := by
  rcases processLine_ok.1 h with ⟨-, rfl⟩ | ⟨r, -, h⟩
  · exact hp
  · obtain ⟨-, rfl⟩ := processRow_ok.1 h
    exact keyed_rowEffect hp

/-- **The files that are processed**: every line can be read, and the models of the rows that touch the window are in the
list. -/
theorem mainLoop_ok_iff : (∃ st, mainLoop .exact o float lines = .ok st) ↔
    ∀ line ∈ lines, ∃ row, parseLine float line = .ok row ∧ ∀ r, row = some r → Touches o r → r.model ∈ models o := by
  constructor
  · intro ⟨st, h⟩ line hline
    obtain ⟨p, p', hp, hstep⟩ := exists_step_of_foldlM (fun _ _ _ _ => keyed_processLine) keyed_initial h hline
    rcases processLine_ok.1 hstep with ⟨hrow, -⟩ | ⟨r, hrow, hstep⟩
    · exact ⟨none, hrow, fun r hr => by cases hr⟩
    · obtain ⟨hfits, -⟩ := processRow_ok.1 hstep
      exact ⟨some r, hrow, fun r' hr' => Option.some.inj hr' ▸ (rowFits_iff hp).1 hfits⟩
  · intro h
    have hrun : ∃ st, mainLoop .exact o float lines = .ok st ∧ Keyed o st := by
      refine foldlM_ok_of_forall ?_ keyed_initial
      intro line hline p hkeyed
      obtain ⟨row, hrow, hmodel⟩ := h line hline
      cases row with
      | none => exact ⟨p, processLine_ok.2 (.inl ⟨hrow, rfl⟩), hkeyed⟩
      | some r =>
        have hfits := (rowFits_iff hkeyed).2 (hmodel r rfl)
        exact ⟨_, processLine_ok.2 (.inr ⟨r, hrow, processRow_ok.2 ⟨hfits, rfl⟩⟩), keyed_rowEffect hkeyed⟩
    obtain ⟨st, hst, -⟩ := hrun
    exact ⟨st, hst⟩

theorem allBalanced_processLine {line : Text} (hline : Readable o float line) (hp : Keyed o p ∧ AllBalanced o p)
    (h : processLine .exact o float p line = .ok p') : Keyed o p' ∧ AllBalanced o p' := by
  refine ⟨keyed_processLine hp.1 h, ?_⟩
  obtain ⟨row, hrow, hknown⟩ := hline
  rcases processLine_ok.1 h with ⟨-, rfl⟩ | ⟨r, hrow', h⟩
  · exact hp.2
  · obtain ⟨hfits, rfl⟩ := processRow_ok.1 h
    rw [hrow] at hrow'
    exact allBalanced_rowEffect hp.1 hfits (hknown r (Except.ok.inj hrow')) hp.2

theorem processed_of_readable (h : ∀ line ∈ lines, Readable o float line) : Processed o float lines := by
  obtain ⟨st, hst⟩ : ∃ st, mainLoop .exact o float lines = .ok st := by
    refine mainLoop_ok_iff.2 fun line hline => ?_
    obtain ⟨row, hrow, hknown⟩ := h line hline
    exact ⟨row, hrow, fun r hr ht => (hknown r hr ht).1⟩
  have hbal := foldlM_induct (fun line hline p p' hp hstep => allBalanced_processLine (h line hline) hp hstep)
    ⟨keyed_initial, allBalanced_initial⟩ hst
  exact ⟨st, hst, hbal.2⟩

/-! ## Rows of the model "total" -/

/-- twice an amount of the rows of the model "total" -/
def surplus (float : ReadFloat) (amount : Row → ℚ) (line : Text) : ℚ :=
  match parseLine float line with
  | .ok (some r) => if r.model = total then 2 * amount r else 0
  | _ => 0

/-- a table with the changes that rows make in it, and the number that is summed up -/
structure Meter (o : Options) (α : Type) where
  table : Profiles → Table α
  changes : Row → List (ℤ × (α → α))
  number : α → ℚ
  amount : ℤ × (α → α) → ℚ
  adds : ∀ r, ∀ c ∈ changes r, ∀ v, number (c.2 v) = number v + amount c
  table_rowEffect : ∀ p r, table (rowEffect .exact o p r) = change (table p) (effect r.model (changes r))
  keys : ∀ p, Keyed o p → HasKeys o (table p)
  fits : ∀ p r, RowFits .exact o p r → ∀ c ∈ changes r, (table p total c.1).isSome ∧ (table p r.model c.1).isSome
  initial : ∀ b, excess o number (table (initialProfiles .exact o)) b = 0

/-- the amount of a row in a bucket -/
def Meter.amountOf (M : Meter o α) (b : ℤ) (r : Row) : ℚ := amountIn M.amount (M.changes r) b

theorem Meter.excess_processLine (M : Meter o α) {line : Text} (b : ℤ) (hp : Keyed o p)
    (h : processLine .exact o float p line = .ok p') :
    excess o M.number (M.table p') b = excess o M.number (M.table p) b + surplus float (M.amountOf b) line := by
  unfold surplus
  rcases processLine_ok.1 h with ⟨hrow, rfl⟩ | ⟨r, hrow, h⟩
  · simp [hrow]
  · obtain ⟨hfits, rfl⟩ := processRow_ok.1 h
    rw [M.table_rowEffect, excess_change (M.adds r) (M.keys p hp) (M.fits p r hfits) b]
    simp only [hrow, Meter.amountOf]
    split <;> simp

/-- if "total" is right in the end, then the amounts of the rows of the model "total" add up to nothing -/
theorem Meter.sum_surplus (M : Meter o α) (h : mainLoop .exact o float lines = .ok st)
    (hbal : Balanced o M.number (M.table st)) (b : ℤ) : (lines.map (surplus float (M.amountOf b))).sum = 0 := by
  have hsum := foldlM_sum (f := processLine .exact o float)
    (fun _ _ _ hp hstep => ⟨keyed_processLine hp hstep, M.excess_processLine b hp hstep⟩) keyed_initial h
  rw [balanced_iff.1 hbal b, M.initial b, zero_add] at hsum
  exact hsum.symm

/-- a row of the model "total" has nothing in a bucket where no such row has a negative amount -/
theorem Meter.amountOf_nonpos (M : Meter o α) (h : mainLoop .exact o float lines = .ok st)
    (hbal : Balanced o M.number (M.table st)) {b : ℤ}
    (hnonneg : ∀ line ∈ lines, ∀ r, parseLine float line = .ok (some r) → r.model = total → 0 ≤ M.amountOf b r)
    {line : Text} (hline : line ∈ lines) (hrow : parseLine float line = .ok (some r)) (htotal : r.model = total) :
    M.amountOf b r ≤ 0 := by
  have hterms : ∀ x ∈ lines.map (surplus float (M.amountOf b)), 0 ≤ x := by
    intro x hx
    obtain ⟨l, hl, rfl⟩ := List.mem_map.1 hx
    unfold surplus
    split
    · next r hr =>
      split
      · next hm => linarith [hnonneg l hl r hr hm]
      · exact le_rfl
    · exact le_rfl
  have hle := List.single_le_sum hterms _ (List.mem_map_of_mem hline)
  rw [M.sum_surplus h hbal] at hle
  simp only [surplus, hrow, htotal, if_true] at hle
  linarith

/-- the starts, or the ends -/
def inputMeter (o : Options) : Meter o ℕ where
  table := Profiles.httpInput
  changes := fun r => inOut .exact o r.stime (· + 1)
  number := fun n => n
  amount := fun _ => 1
  adds := fun _ => inOut_add fun v => by push_cast; rfl
  table_rowEffect := fun _ _ => rfl
  keys := fun _ hp => hp.input
  fits := fun _ _ hfits => hfits.input
  initial := balanced_iff.1 allBalanced_initial.input

def outputMeter (o : Options) : Meter o ℕ where
  table := Profiles.httpOutput
  changes := fun r => inOut .exact o r.etime (· + 1)
  number := fun n => n
  amount := fun _ => 1
  adds := fun _ => inOut_add fun v => by push_cast; rfl
  table_rowEffect := fun _ _ => rfl
  keys := fun _ hp => hp.output
  fits := fun _ _ hfits => hfits.output
  initial := balanced_iff.1 allBalanced_initial.output

def multiMeter (o : Options) : Meter o ℚ where
  table := Profiles.httpMulti
  changes := fun r => stay .exact o r.stime r.etime
  number := fun x => x
  amount := fun c => c.2 0
  adds := fun _ => stay_add
  table_rowEffect := fun _ _ => rfl
  keys := fun _ hp => hp.multi
  fits := fun _ _ hfits => hfits.multi
  initial := balanced_iff.1 allBalanced_initial.multi

/-- what a time adds to its bucket -/
theorem amountIn_inOut (t : ℚ) (f : α → α) (b : ℤ) :
    amountIn (fun _ => 1) (inOut .exact o t f) b = if Seen .exact o t ∧ bucket .exact t = b then 1 else 0 := by
  unfold inOut amountIn
  by_cases hseen : Seen .exact o t <;> by_cases hb : bucket .exact t = b <;> simp [hseen, hb]

theorem not_seen_of_balanced (h : mainLoop .exact o float lines = .ok st) (hbal : AllBalanced o st) {line : Text}
    (hline : line ∈ lines) (hrow : parseLine float line = .ok (some r)) (htotal : r.model = total) :
    ¬ Seen .exact o r.stime ∧ ¬ Seen .exact o r.etime := by
  have hnonneg : ∀ (t : ℚ) (b : ℤ), 0 ≤ amountIn (fun _ => 1) (inOut .exact o t (· + 1 : ℕ → ℕ)) b := by
    intro t b
    rw [amountIn_inOut]
    split <;> norm_num
  constructor
  · intro hseen
    have hle := (inputMeter o).amountOf_nonpos h hbal.input (b := bucket .exact r.stime)
      (fun _ _ r' _ _ => hnonneg r'.stime _) hline hrow htotal
    have hone := amountIn_inOut (o := o) r.stime (· + 1 : ℕ → ℕ) (bucket .exact r.stime)
    rw [if_pos ⟨hseen, rfl⟩] at hone
    exact absurd (hone.symm.trans_le hle) (by norm_num)
  · intro hseen
    have hle := (outputMeter o).amountOf_nonpos h hbal.output (b := bucket .exact r.etime)
      (fun _ _ r' _ _ => hnonneg r'.etime _) hline hrow htotal
    have hone := amountIn_inOut (o := o) r.etime (· + 1 : ℕ → ℕ) (bucket .exact r.etime)
    rw [if_pos ⟨hseen, rfl⟩] at hone
    exact absurd (hone.symm.trans_le hle) (by norm_num)

/-- a row that touches the window with neither its start nor its end goes from before it to behind it -/
theorem spans_of_not_seen (hstart : ¬ Seen .exact o r.stime) (hend : ¬ Seen .exact o r.etime)
    (hov : Overlaps .exact o r.stime r.etime) : r.stime < stimeEpoch o ∧ etimeEpoch .exact o < r.etime := by
  obtain ⟨hto, hfrom⟩ := hov
  rw [not_lt] at hto hfrom
  constructor
  · by_contra hge
    exact hstart (seen_of_le (not_lt.1 hge) ((le_max_left _ _).trans hfrom))
  · by_contra hge
    exact hend (seen_of_le hto (not_lt.1 hge))

/-- the shares of such a row: what is left of the last bucket, and all of the others -/
theorem shares_of_spans (hS : stimeEpoch o ≤ etimeEpoch .exact o) (hstart : r.stime < stimeEpoch o)
    (hend : etimeEpoch .exact o < r.etime) :
    ∃ x, 0 ≤ x ∧ shares .exact o r.stime r.etime = (10 * o.endTime + 599, x) ::
      (List.range (10 * o.endTime + 599 - 10 * o.startTime).toNat).map fun (i : ℕ) => (10 * o.startTime + i, 1) := by
  have hov : Overlaps .exact o r.stime r.etime :=
    ⟨not_lt.2 (hS.trans hend.le), not_lt.2 (max_le (hstart.le.trans hS) hS)⟩
  have hle : 10 * o.startTime ≤ 10 * o.endTime + 599 := by
    rw [← floor_etime10, Int.le_floor, ← stime10]
    exact mul_le_mul_of_nonneg_right hS (by norm_num [multiCountInSec])
  refine ⟨etimeEpoch .exact o * multiCountInSec - (10 * o.endTime + 599 : ℤ), ?_, ?_⟩
  · rw [← floor_etime10]
    exact sub_nonneg.2 (Int.floor_le _)
  · have hfirst : ¬ ((10 * o.startTime : ℤ) : ℚ) ≤ (10 * o.startTime - 1 : ℤ) := by
      rw [Int.cast_le]
      omega
    rw [shares, if_pos hov, sharesCut, max_eq_right hstart.le, min_eq_right hend.le]
    simp only [Rounding.exact_fl, stime10, floor_etime10, Int.ceil_intCast, if_pos hle, if_neg hfirst, List.nil_append]

theorem amountOf_multi (b : ℤ) :
    (multiMeter o).amountOf b r = (((shares .exact o r.stime r.etime).filter fun s => s.1 = b).map Prod.snd).sum := by
  simp only [Meter.amountOf, amountIn, multiMeter, stay, List.filter_map, List.map_map]
  congr 1
  refine List.map_congr_left fun s _ => ?_
  simp [plus]

/-- a row that goes over the whole window has a whole share in the first bucket -/
theorem one_le_amountOf_multi (hS : stimeEpoch o ≤ etimeEpoch .exact o) (hstart : r.stime < stimeEpoch o)
    (hend : etimeEpoch .exact o < r.etime) : 1 ≤ (multiMeter o).amountOf (10 * o.startTime) r := by
  obtain ⟨x, hx, hshares⟩ := shares_of_spans hS hstart hend
  have hnonneg : ∀ s ∈ shares .exact o r.stime r.etime, 0 ≤ s.2 := by
    intro s hs
    rw [hshares] at hs
    rcases List.mem_cons.1 hs with rfl | hs
    · exact hx
    · obtain ⟨i, -, rfl⟩ := List.mem_map.1 hs
      exact zero_le_one
  have hfirst : (10 * o.startTime, (1 : ℚ)) ∈ shares .exact o r.stime r.etime := by
    have hlt : o.startTime < o.endTime + 60 := by
      have hle : (o.startTime : ℚ) ≤ o.endTime + 59.999999 := hS
      have hlt : (o.startTime : ℚ) < o.endTime + 60 := by linarith
      exact_mod_cast hlt
    rw [hshares]
    refine List.mem_cons_of_mem _ (List.mem_map.2 ⟨0, List.mem_range.2 (by omega), by simp⟩)
  rw [amountOf_multi]
  refine List.single_le_sum ?_ 1 (List.mem_map.2 ⟨_, List.mem_filter.2 ⟨hfirst, by simp⟩, rfl⟩)
  intro y hy
  obtain ⟨s, hs, rfl⟩ := List.mem_map.1 hy
  exact hnonneg s (List.mem_of_mem_filter hs)

theorem not_touches_of_balanced (h : mainLoop .exact o float lines = .ok st) (hbal : AllBalanced o st) {line : Text}
    (hline : line ∈ lines) (hrow : parseLine float line = .ok (some r)) (htotal : r.model = total) : ¬ Touches o r := by
  obtain ⟨hstart, hend⟩ := not_seen_of_balanced h hbal hline hrow htotal
  rintro (hseen | hseen | hov)
  · exact hstart hseen
  · exact hend hseen
  · have hS : stimeEpoch o ≤ etimeEpoch .exact o := (le_max_right _ _).trans (not_lt.1 hov.2)
    have hone : ∀ r', ¬ Seen .exact o r'.stime → ¬ Seen .exact o r'.etime → Overlaps .exact o r'.stime r'.etime →
        1 ≤ (multiMeter o).amountOf (10 * o.startTime) r' := by
      intro r' hs he hov'
      obtain ⟨hbefore, hbehind⟩ := spans_of_not_seen hs he hov'
      exact one_le_amountOf_multi hS hbefore hbehind
    have hle := (multiMeter o).amountOf_nonpos h hbal.multi (b := 10 * o.startTime) ?_ hline hrow htotal
    · linarith [hone r hstart hend hov]
    · intro line' hline' r' hrow' htotal'
      obtain ⟨hs, he⟩ := not_seen_of_balanced h hbal hline' hrow' htotal'
      by_cases hov' : Overlaps .exact o r'.stime r'.etime
      · linarith [hone r' hs he hov']
      · rw [amountOf_multi, shares, if_neg hov']
        simp

/-- **The totals.** Every line is processed and "total" is the sum of the other models in every bucket, exactly if every
line can be read and the rows that touch the window have models of the list other than "total". -/
theorem processed_iff : Processed o float lines ↔ ∀ line ∈ lines, Readable o float line := by
  constructor
  · intro ⟨st, h, hbal⟩ line hline
    obtain ⟨row, hrow, hmodel⟩ := mainLoop_ok_iff.1 ⟨st, h⟩ line hline
    refine ⟨row, hrow, fun r hr htouches => ⟨hmodel r hr htouches, fun htotal => ?_⟩⟩
    subst hr
    exact not_touches_of_balanced h hbal hline hrow htotal htouches
  · exact processed_of_readable

end

end Rubbos.QueueLength.BO
