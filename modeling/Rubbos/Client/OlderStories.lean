/-
The date of the older stories that are asked for (`UserSession.java`, case 6 of `computeURLFromState`).

A date of the past week is made by rolling back the day of the current date, and `roll` stays in the month: in the first days of
a month it comes to the last days of the same month. A date picked at random may be any day of three years from the oldest one
on, and only its year is kept from going beyond the current one. The year and the month are then raised or cut, and the day is
cut to a length of the month that is right in every year.

- `dayNumber_le_iff`: dates as days since a fixed one.
- `rollBack_iterate`, `olderStoriesDate_run`: the date as a function of the draws; `daysAgo`: the date it is meant to be.
- `older_stories_iff`: when the date is a day of the past, and one of the past week is as many days ago as it was meant to be.
Counterexample `rolled_ahead`: the third day of a month, five days rolled back.
-/
import Rubbos.Client.RequestedPage
import Rubbos.Client.TimeManagement

namespace Rubbos.Client.OlderStories

open Rubbos.Core TimeManagement

/-! ## Dates -/

def Valid (d : Date) : Prop := (1 ≤ d.month ∧ d.month ≤ 12) ∧ 1 ≤ d.day ∧ d.day ≤ monthLength d.month d.year

instance (d : Date) : Decidable (Valid d) := inferInstanceAs (Decidable ((_ ∧ _) ∧ _ ∧ _))

/-- the day, counted from a fixed one on -/
def dayNumber (d : Date) : ℤ := monthStart (12 * d.year + (d.month - 1)) + (d.day - 1)

variable {d d' : Date} {n : ℕ}

theorem lengthOf_eq (hd : Valid d) : lengthOf (12 * d.year + (d.month - 1)) = monthLength d.month d.year := by
  obtain ⟨⟨hlow, hhigh⟩, -⟩ := hd
  have hdiv : (12 * d.year + (d.month - 1)) / 12 = d.year := by omega
  have hmod : (12 * d.year + (d.month - 1)) % 12 + 1 = d.month := by omega
  rw [lengthOf, hdiv, hmod]

/-- the days of a month come before those of a later one -/
theorem dayNumber_lt_of_month_lt (hd : Valid d) (hd' : Valid d') (h : 12 * d.year + d.month < 12 * d'.year + d'.month) :
    dayNumber d < dayNumber d' := by
  have hnext := monthStart_add_le
    (show 12 * d.year + (d.month - 1) + 1 ≤ 12 * d'.year + (d'.month - 1) by omega)
  rw [monthStart_succ, lengthOf_eq hd] at hnext
  have hday := hd.2.2
  have hday' := hd'.2.1
  unfold dayNumber
  omega

theorem dayNumber_le_iff (hd : Valid d) (hd' : Valid d') : dayNumber d ≤ dayNumber d' ↔
    d.year < d'.year ∨ d.year = d'.year ∧ (d.month < d'.month ∨ d.month = d'.month ∧ d.day ≤ d'.day) := by
  have hmonth := hd.1
  have hmonth' := hd'.1
  rcases lt_trichotomy (12 * d.year + d.month) (12 * d'.year + d'.month) with hlt | heq | hgt
  · exact iff_of_true (dayNumber_lt_of_month_lt hd hd' hlt).le (by omega)
  · have hyear : d.year = d'.year := by omega
    have hsame : d.month = d'.month := by omega
    unfold dayNumber
    rw [hyear, hsame]
    omega
  · exact iff_of_false (dayNumber_lt_of_month_lt hd' hd hgt).not_ge (by omega)

theorem dayNumber_injective (hd : Valid d) (hd' : Valid d') (h : dayNumber d = dayNumber d') : d = d' := by
  have hle := (dayNumber_le_iff hd hd').1 h.le
  have hge := (dayNumber_le_iff hd' hd).1 h.ge
  obtain ⟨day, month, year⟩ := d
  obtain ⟨day', month', year'⟩ := d'
  simp only at hle hge
  simp only [Date.mk.injEq]
  omega

/-- the date n days ago, for small n -/
def daysAgo (n : ℕ) (d : Date) : Date :=
  if n < d.day then { d with day := d.day - n }
  else if d.month = 1 then ⟨d.day - n + 31, 12, d.year - 1⟩
  else ⟨d.day - n + monthLength (d.month - 1) d.year, d.month - 1, d.year⟩

theorem valid_daysAgo (hd : Valid d) (hn : n ≤ 28) : Valid (daysAgo n d) := by
  obtain ⟨⟨hmonth, hmonth'⟩, hday, hday'⟩ := hd
  unfold daysAgo
  split_ifs with hsame hfirst
  · exact ⟨⟨hmonth, hmonth'⟩, by simp only; omega, by simp only; omega⟩
  · refine ⟨⟨by norm_num, by norm_num⟩, by simp only; omega, ?_⟩
    have hlength : monthLength 12 (d.year - 1) = 31 := rfl
    simp only [hlength]
    omega
  · have hlength := (monthLength_range (d.month - 1) d.year).1
    exact ⟨⟨by simp only; omega, by simp only; omega⟩, by simp only; omega, by simp only; omega⟩

theorem dayNumber_daysAgo (hd : Valid d) (hn : n ≤ 28) : dayNumber (daysAgo n d) = dayNumber d - n := by
  by_cases hsame : n < d.day
  · unfold daysAgo dayNumber
    rw [if_pos hsame]
    ring
  · -- the month before has passed when this one begins
    have hmonth : 12 * d.year + (d.month - 1) = 12 * (daysAgo n d).year + ((daysAgo n d).month - 1) + 1 := by
      unfold daysAgo
      rw [if_neg hsame]
      split_ifs <;> simp only <;> omega
    have hday : (daysAgo n d).day = d.day - n + monthLength (daysAgo n d).month (daysAgo n d).year := by
      unfold daysAgo
      rw [if_neg hsame]
      split_ifs <;> rfl
    rw [dayNumber, dayNumber, hmonth, monthStart_succ, lengthOf_eq (valid_daysAgo hd hn), hday]
    ring

/-! ## The date of the draws -/

/-- the day goes round in its month -/
theorem rollBack_iterate (hd : Valid d) (hn : n ≤ 28) : Date.rollBack^[n] d =
    { d with day := if n < d.day then d.day - n else d.day - n + monthLength d.month d.year } := by
  obtain ⟨-, hlow, hhigh⟩ := hd
  have hlength := (monthLength_range d.month d.year).1
  induction n with
  | zero => simp [show (0 : ℤ) < d.day by omega]
  | succ n ih =>
    rw [Function.iterate_succ_apply', ih (by omega), Date.rollBack]
    simp only [Date.mk.injEq, and_true, Nat.cast_add, Nat.cast_one]
    split_ifs <;> omega

variable (e : Env)

/-- how far the date of the past week is meant to lie back -/
def daysBack (when_ : ℕ) : ℕ := min 7 (max 1 (when_ / 10))

/-- the date before it is corrected -/
def picked (r : ℕ → ℕ) : Date :=
  if 95 < r 0 % 100 then ⟨(r 1 % 31 : ℕ) + 1, (r 2 % 12 : ℕ) + 1, e.rubbos.oldestStoryYear + (r 3 % 3 : ℕ)⟩
  else Date.rollBack^[daysBack (r 0 % 100)] e.today

/-- the corrections of the year, the month and the day -/
def corrected (d : Date) : Date :=
  let year := if d.year > e.thisYear then e.thisYear else d.year
  let month := if year = e.rubbos.oldestStoryYear ∧ d.month ≤ e.rubbos.oldestStoryMonth
    then e.rubbos.oldestStoryMonth else d.month
  let day := if month = 2 then min d.day 28 else if month ∈ [4, 6, 9, 11] then min d.day 30 else d.day
  ⟨day, month, year⟩

theorem olderStoriesDate_run (r : ℕ → ℕ) : ∃ r', (olderStoriesDate e).run r = .ok (corrected e (picked e r), r') := by
  have hwhen : (nextInt 100).run r = pure (r 0 % 100, fun i => r (i + 1)) := nextInt_run (by norm_num) r
  unfold olderStoriesDate picked
  rw [StateT.run_bind, hwhen, pure_bind]
  split_ifs with hany
  · exact ⟨fun i => r (i + 4), rfl⟩
  · exact ⟨fun i => r (i + 1), rfl⟩

theorem corrected_year (d : Date) : (corrected e d).year = min d.year e.thisYear := by
  simp only [corrected]
  split_ifs <;> omega

theorem corrected_month (d : Date) : (corrected e d).month =
    if (corrected e d).year = e.rubbos.oldestStoryYear then max d.month e.rubbos.oldestStoryMonth else d.month := by
  simp only [corrected]
  split_ifs <;> omega

/-- the day is cut to the length of the month in a common year -/
theorem corrected_day (h : d.day ≤ 31) : (corrected e d).day = min d.day (monthLength (corrected e d).month 1) := by
  simp only [corrected]
  generalize (if (if d.year > e.thisYear then e.thisYear else d.year) = e.rubbos.oldestStoryYear ∧
    d.month ≤ e.rubbos.oldestStoryMonth then e.rubbos.oldestStoryMonth else d.month) = month
  unfold monthLength
  split_ifs <;> first | rfl | omega

theorem monthLength_common_le (month year : ℤ) : monthLength month 1 ≤ monthLength month year := by
  unfold monthLength
  split_ifs <;> omega

theorem valid_corrected (hday : 1 ≤ d.day ∧ d.day ≤ 31) (hmonth : 1 ≤ d.month) :
    Valid (corrected e d) ↔ (corrected e d).month ≤ 12 := by
  have hlow : 1 ≤ (corrected e d).month := by
    rw [corrected_month]
    split_ifs <;> omega
  have hlength := monthLength_common_le (corrected e d).month (corrected e d).year
  have hrange := monthLength_range (corrected e d).month 1
  unfold Valid
  rw [corrected_day e hday.2]
  omega

/-! ## Days of the past -/

/-- what the date is meant to be -/
structure Right (r : ℕ → ℕ) (d : Date) : Prop where
  valid : Valid d
  past : dayNumber d ≤ dayNumber e.today
  /-- in the branch of the past week -/
  exact : r 0 % 100 ≤ 95 → dayNumber d = dayNumber e.today - daysBack (r 0 % 100)

/-- a date k years after the oldest one is in the oldest year, when it is corrected -/
def OldestYear (k : ℤ) : Prop :=
  e.thisYear = e.rubbos.oldestStoryYear ∨ k = 0 ∧ e.rubbos.oldestStoryYear ≤ e.thisYear

/-- the date n days ago is in the month and is not corrected; or the current date is in January of the year after thisYear, and
the correction of the month goes to December of that year -/
def PastWeek (n : ℕ) : Prop :=
  (n < e.today.day ∧ e.today.year ≤ e.thisYear ∧
    ¬ (e.today.year = e.rubbos.oldestStoryYear ∧ e.today.month < e.rubbos.oldestStoryMonth)) ∨
  (e.today.day ≤ n ∧ e.today.month = 1 ∧ e.thisYear = e.today.year - 1 ∧ e.rubbos.oldestStoryYear = e.thisYear ∧
    e.rubbos.oldestStoryMonth = 12)

/-- the oldest month is one, and the date, k years after the oldest one, is not after the current date. A day that the month does
not have counts as its last. -/
def AnyDate (day month k : ℤ) : Prop :=
  (OldestYear e k → e.rubbos.oldestStoryMonth ≤ 12) ∧
  (e.rubbos.oldestStoryYear + k < e.today.year ∨ e.thisYear < e.today.year ∨
    (e.rubbos.oldestStoryYear + k = e.today.year ∨ e.thisYear = e.today.year) ∧
      month ≤ e.today.month ∧ (OldestYear e k → e.rubbos.oldestStoryMonth ≤ e.today.month) ∧
      (month = e.today.month ∨ OldestYear e k ∧ e.rubbos.oldestStoryMonth = e.today.month →
        day ≤ e.today.day ∨ monthLength e.today.month 1 ≤ e.today.day))

/-- the draws give a right date -/
def Dated (r : ℕ → ℕ) : Prop :=
  if 95 < r 0 % 100 then AnyDate e (r 1 % 31 + 1) (r 2 % 12 + 1) (r 3 % 3) else PastWeek e (daysBack (r 0 % 100))

theorem oldestYear_iff {k : ℤ} (hk : 0 ≤ k) :
    OldestYear e k ↔ min (e.rubbos.oldestStoryYear + k) e.thisYear = e.rubbos.oldestStoryYear := by
  unfold OldestYear
  omega

/-- a date of three years -/
theorem anyDate_iff (htoday : Valid e.today) {day month k : ℤ} (hday : 1 ≤ day ∧ day ≤ 31) (hmonth : 1 ≤ month ∧ month ≤ 12)
    (hk : 0 ≤ k) : (Valid (corrected e ⟨day, month, e.rubbos.oldestStoryYear + k⟩) ∧
      dayNumber (corrected e ⟨day, month, e.rubbos.oldestStoryYear + k⟩) ≤ dayNumber e.today) ↔ AnyDate e day month k := by
  have hvalid : Valid (corrected e ⟨day, month, e.rubbos.oldestStoryYear + k⟩) ↔
      (corrected e ⟨day, month, e.rubbos.oldestStoryYear + k⟩).month ≤ 12 := valid_corrected e hday hmonth.1
  have hy := corrected_year e ⟨day, month, e.rubbos.oldestStoryYear + k⟩
  have hm := corrected_month e ⟨day, month, e.rubbos.oldestStoryYear + k⟩
  have hd := corrected_day (d := ⟨day, month, e.rubbos.oldestStoryYear + k⟩) e hday.2
  have holdest := oldestYear_iff e hk
  simp only at hy hm hd
  rw [hy] at hm
  have hmax : (OldestYear e k → e.rubbos.oldestStoryMonth ≤ 12) ↔
      (corrected e ⟨day, month, e.rubbos.oldestStoryYear + k⟩).month ≤ 12 := by
    rw [holdest, hm]
    split_ifs <;> omega
  unfold AnyDate
  rw [hmax, ← hvalid]
  refine and_congr_right fun hv => ?_
  rw [dayNumber_le_iff hv htoday, hd, hy, holdest]
  generalize (corrected e ⟨day, month, e.rubbos.oldestStoryYear + k⟩).month = month' at hm
  by_cases hsame : month' = e.today.month
  · rw [hsame] at hm ⊢
    split_ifs at hm <;> omega
  · split_ifs at hm <;> omega

theorem date_eq_iff : d = d' ↔ d.year = d'.year ∧ d.month = d'.month ∧ d.day = d'.day := by
  obtain ⟨day, month, year⟩ := d
  obtain ⟨day', month', year'⟩ := d'
  simp only [Date.mk.injEq]
  tauto

/-- a date of the past week -/
theorem pastWeek_iff (htoday : Valid e.today) (hn : 1 ≤ n ∧ n ≤ 7) :
    corrected e (Date.rollBack^[n] e.today) = daysAgo n e.today ↔ PastWeek e n := by
  have hlength := monthLength_range e.today.month e.today.year
  rw [rollBack_iterate htoday (by omega), date_eq_iff]
  obtain ⟨⟨hlow, hhigh⟩, hday, hday'⟩ := htoday
  unfold PastWeek daysAgo
  by_cases hin : n < e.today.day
  · -- the day stays in the month, and is not cut
    have hcut : e.today.day - n ≤ monthLength e.today.month 1 := by
      unfold monthLength at *
      split_ifs at * <;> omega
    rw [if_pos hin, if_pos hin]
    have hy := corrected_year e ⟨e.today.day - n, e.today.month, e.today.year⟩
    have hm := corrected_month e ⟨e.today.day - n, e.today.month, e.today.year⟩
    rw [corrected_day e (by simp only; omega), hy]
    rw [hy] at hm
    simp only at hm ⊢
    generalize (corrected e ⟨e.today.day - n, e.today.month, e.today.year⟩).month = month' at hm
    by_cases hsame : month' = e.today.month
    · rw [hsame] at hm ⊢
      split_ifs at hm <;> omega
    · split_ifs at hm <;> omega
  · -- the day is one of the end of the month, so the month has to become the one before
    rw [if_neg hin, if_neg hin]
    generalize hrolled : e.today.day - n + monthLength e.today.month e.today.year = rolled
    have hy := corrected_year e ⟨rolled, e.today.month, e.today.year⟩
    have hm := corrected_month e ⟨rolled, e.today.month, e.today.year⟩
    rw [corrected_day e (by simp only; omega), hy]
    rw [hy] at hm
    simp only at hm ⊢
    by_cases hfirst : e.today.month = 1
    · have hjanuary : monthLength 1 e.today.year = 31 := rfl
      have hdecember : monthLength 12 1 = 31 := rfl
      rw [hfirst, hjanuary] at hrolled
      rw [if_pos hfirst]
      generalize (corrected e ⟨rolled, e.today.month, e.today.year⟩).month = month' at hm
      by_cases hlast : month' = 12
      · rw [hlast] at hm ⊢
        simp only [hdecember, true_and]
        split_ifs at hm <;> omega
      · split_ifs at hm <;> simp only <;> omega
    · rw [if_neg hfirst]
      simp only
      split_ifs at hm <;> omega

theorem right_iff (htoday : Valid e.today) (r : ℕ → ℕ) : Right e r (corrected e (picked e r)) ↔ Dated e r := by
  unfold Dated picked
  split_ifs with hany
  · have hday : 1 ≤ ((r 1 % 31 : ℕ) : ℤ) + 1 ∧ ((r 1 % 31 : ℕ) : ℤ) + 1 ≤ 31 := by omega
    have hmonth : 1 ≤ ((r 2 % 12 : ℕ) : ℤ) + 1 ∧ ((r 2 % 12 : ℕ) : ℤ) + 1 ≤ 12 := by omega
    have hdated := anyDate_iff e htoday hday hmonth (Int.natCast_nonneg (r 3 % 3))
    constructor
    · exact fun hright => by exact_mod_cast hdated.1 ⟨hright.valid, hright.past⟩
    · intro h
      obtain ⟨hvalid, hpast⟩ := hdated.2 (by exact_mod_cast h)
      exact ⟨hvalid, hpast, fun hle => absurd hany (by omega)⟩
  · have hn : 1 ≤ daysBack (r 0 % 100) ∧ daysBack (r 0 % 100) ≤ 7 := by
      unfold daysBack
      omega
    have hvalid := valid_daysAgo htoday (show daysBack (r 0 % 100) ≤ 28 by omega)
    have hnumber := dayNumber_daysAgo htoday (show daysBack (r 0 % 100) ≤ 28 by omega)
    rw [← pastWeek_iff e htoday hn]
    constructor
    · intro hright
      exact dayNumber_injective hright.valid hvalid ((hright.exact (by omega)).trans hnumber.symm)
    · intro heq
      rw [heq]
      exact ⟨hvalid, by omega, fun _ => hnumber⟩

/-- **The date that is asked for is right exactly if the draws and the current date make it so.** -/
theorem older_stories_iff {s s' : Session} {day month year page nbOfStories : ℤ} (htoday : Valid e.today)
    (hpage : (urlOfState e 6).run s = .ok (.page (.OlderStories day month year page nbOfStories), s')) :
    Right e s.rand ⟨day, month, year⟩ ↔ Dated e s.rand := by
  rw [← right_iff e htoday]
  obtain ⟨r', hrun⟩ := olderStoriesDate_run e s.rand
  unfold urlOfState at hpage
  obtain ⟨⟨d, s₁⟩, hd, hpage⟩ := bind_eq_ok.1 hpage
  change draw (olderStoriesDate e) s = _ at hd
  simp only [draw, hrun, Except.ok.injEq, Prod.mk.injEq] at hd
  obtain ⟨rfl, rfl⟩ := hd
  obtain ⟨⟨p, s₂⟩, -, hpage⟩ := bind_eq_ok.1 hpage
  cases hpage
  rfl

/-- a visitor of March 2015 -/
def inMarch (day : ℤ) : Env := { visitor with thisYear := 2015, today := ⟨day, 3, 2015⟩ }

/-- a session that asks for a date of five days ago -/
def fiveDaysBack : Session := { lost with lastHTMLReply := none, rand := fun _ => 50 }

theorem older_stories_iff_fifteenth : Right (inMarch 20) fiveDaysBack.rand ⟨15, 3, 2015⟩ :=
  (older_stories_iff (inMarch 20) (s := fiveDaysBack) (by decide) rfl).2
    (show PastWeek (inMarch 20) 5 from .inl (by decide))

/-- the fifth day before the third of March is asked for as the 29th -/
theorem rolled_ahead : (∃ s', (urlOfState (inMarch 3) 6).run fiveDaysBack = .ok (.page (.OlderStories 29 3 2015 0 5), s')) ∧
    ¬ Right (inMarch 3) fiveDaysBack.rand ⟨29, 3, 2015⟩ := by
  refine ⟨⟨_, rfl⟩, fun hright => absurd hright.past ?_⟩
  decide

end Rubbos.Client.OlderStories
