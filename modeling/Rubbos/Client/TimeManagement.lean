/-
The time between two dates (`TimeManagement.diffTimeInMs`).

The seven fields of the dates are subtracted one by one, and a negative difference borrows from the next field: the day
borrows the days of the month in which the time begins, and the year that a month borrows from is dropped. A month that is
left over counts 30 days. The calendar here is the Gregorian one, for all years; `timeInMillis` counts the days from a fixed
one on, so that the elapsed time is a difference of integers.

- `borrow_value`: borrowing does not change the value of two fields.
- `monthStart_add_le`: the months follow each other, and none has fewer than 28 days.
- `diffTimeInMs_exact`: up to 28 days the result is the elapsed time.
- `diffTimeInMs_eq_zero_iff`: it is 0 when only the years differ.
-/
import Rubbos.Client.UserSession

namespace Rubbos.Client.TimeManagement

/-! ## Model -/

/-- an instant in a time zone with a fixed offset; MONTH counts from 0 -/
structure GregorianCalendar where
  year : ℤ
  month : ℤ
  day : ℤ
  hour : ℤ
  minute : ℤ
  second : ℤ
  millis : ℤ
  zoneOffset : ℤ
  month_range : 0 ≤ month ∧ month ≤ 11
  day_range : 1 ≤ day ∧ day ≤ monthLength (month + 1) year
  hour_range : 0 ≤ hour ∧ hour ≤ 23
  minute_range : 0 ≤ minute ∧ minute ≤ 59
  second_range : 0 ≤ second ∧ second ≤ 59
  millis_range : 0 ≤ millis ∧ millis ≤ 999

/-- `get(YEAR)`: before the year 1 the years of the era BC are counted -/
def GregorianCalendar.getYear (c : GregorianCalendar) : ℤ := if 1 ≤ c.year then c.year else 1 - c.year

/-- `getActualMaximum(DAY_OF_MONTH)` -/
def GregorianCalendar.daysOfMonth (c : GregorianCalendar) : ℤ := monthLength (c.month + 1) c.year

/-- `if (low < 0) { low = low + base; high = high - 1; }` -/
def borrow (base low high : ℤ) : ℤ × ℤ := if low < 0 then (low + base, high - 1) else (low, high)

/-- all values are in the range of a long (`diffTimeInMs_range`) -/
def diffTimeInMs (startDate endDate : GregorianCalendar) : ℤ :=
  let year := endDate.getYear - startDate.getYear
  let month := endDate.month - startDate.month
  let day := endDate.day - startDate.day
  let hour := endDate.hour - startDate.hour
  let minute := endDate.minute - startDate.minute
  let second := endDate.second - startDate.second
  let millis := endDate.millis - startDate.millis
  let (millis, second) := borrow 1000 millis second
  let (second, minute) := borrow 60 second minute
  let (minute, hour) := borrow 60 minute hour
  let (hour, day) := borrow 24 hour day
  let (day, month) := borrow startDate.daysOfMonth day month
  -- the year is not used any more
  let (month, _) := borrow 12 month year
  millis + second * 1000 + minute * 60000 + hour * 3600000 + day * 24 * 3600000 + month * 30 * 24 * 3600000

/-! ## The calendar -/

/-- the days of the years before this one, from the year 1 on -/
def daysBeforeYear (year : ℤ) : ℤ := 365 * (year - 1) + (year - 1) / 4 - (year - 1) / 100 + (year - 1) / 400

/-- the days of the year before this month -/
def daysBeforeMonth (month year : ℤ) : ℤ := ((List.range month.toNat).map fun m : ℕ => monthLength (m + 1) year).sum

/-- the day on which a month begins, by its number since the year 0 -/
def monthStart (n : ℤ) : ℤ := daysBeforeYear (n / 12) + daysBeforeMonth (n % 12) (n / 12)

def lengthOf (n : ℤ) : ℤ := monthLength (n % 12 + 1) (n / 12)

namespace GregorianCalendar

variable (c : GregorianCalendar)

def monthNumber : ℤ := 12 * c.year + c.month

/-- the time of the day -/
def timeOfDay : ℤ := ((c.hour * 60 + c.minute) * 60 + c.second) * 1000 + c.millis

def dayNumber : ℤ := daysBeforeYear c.year + daysBeforeMonth c.month c.year + (c.day - 1)

/-- the instant, in milliseconds of UTC -/
def timeInMillis : ℤ := c.dayNumber * 86400000 + c.timeOfDay - c.zoneOffset

theorem monthNumber_div : c.monthNumber / 12 = c.year := by
  have := c.month_range
  unfold monthNumber
  omega

theorem monthNumber_mod : c.monthNumber % 12 = c.month := by
  have := c.month_range
  unfold monthNumber
  omega

theorem dayNumber_eq : c.dayNumber = monthStart c.monthNumber + (c.day - 1) := by
  rw [monthStart, monthNumber_div, monthNumber_mod]
  rfl

theorem daysOfMonth_eq : c.daysOfMonth = lengthOf c.monthNumber := by
  rw [lengthOf, monthNumber_div, monthNumber_mod]
  rfl

theorem timeOfDay_range : 0 ≤ c.timeOfDay ∧ c.timeOfDay < 86400000 := by
  have hhour := c.hour_range
  have hminute := c.minute_range
  have hsecond := c.second_range
  have hmillis := c.millis_range
  unfold timeOfDay
  omega

end GregorianCalendar

theorem monthLength_range (month year : ℤ) : 28 ≤ monthLength month year ∧ monthLength month year ≤ 31 := by
  unfold monthLength
  split_ifs <;> omega

theorem daysBeforeYear_succ (year : ℤ) : daysBeforeYear (year + 1) = daysBeforeYear year + daysBeforeMonth 12 year := by
  have hmonths : daysBeforeMonth 12 year = 365 + (monthLength 2 year - 28) := by
    have hrange : List.range (12 : ℤ).toNat = [0, 1, 2, 3, 4, 5, 6, 7, 8, 9, 10, 11] := rfl
    rw [daysBeforeMonth, hrange]
    simp [monthLength]
    omega
  rw [hmonths, daysBeforeYear, daysBeforeYear, monthLength, if_pos rfl]
  split_ifs with hleap <;> omega

theorem daysBeforeMonth_succ {month year : ℤ} (h : 0 ≤ month) :
    daysBeforeMonth (month + 1) year = daysBeforeMonth month year + monthLength (month + 1) year := by
  unfold daysBeforeMonth
  rw [show (month + 1).toNat = month.toNat + 1 by omega, List.range_succ, List.map_append, List.sum_append,
    List.map_singleton, List.sum_singleton, Int.toNat_of_nonneg h]

/-- a month begins when the one before it has passed -/
theorem monthStart_succ (n : ℤ) : monthStart (n + 1) = monthStart n + lengthOf n := by
  unfold monthStart lengthOf
  by_cases hlast : n % 12 = 11
  · have hdiv : (n + 1) / 12 = n / 12 + 1 := by omega
    have hmod : (n + 1) % 12 = 0 := by omega
    have htwelve : daysBeforeMonth (11 + 1) (n / 12) = daysBeforeMonth 11 (n / 12) + monthLength (11 + 1) (n / 12) :=
      daysBeforeMonth_succ (by norm_num)
    have hzero : daysBeforeMonth 0 (n / 12 + 1) = 0 := rfl
    calc daysBeforeYear ((n + 1) / 12) + daysBeforeMonth ((n + 1) % 12) ((n + 1) / 12)
        = daysBeforeYear (n / 12) + daysBeforeMonth (11 + 1) (n / 12) := by
          rw [hdiv, hmod, daysBeforeYear_succ, hzero, add_zero]
          rfl
      _ = daysBeforeYear (n / 12) + daysBeforeMonth (n % 12) (n / 12) + monthLength (n % 12 + 1) (n / 12) := by
          rw [htwelve, hlast, add_assoc]
  · have hdiv : (n + 1) / 12 = n / 12 := by omega
    have hmod : (n + 1) % 12 = n % 12 + 1 := by omega
    rw [hdiv, hmod, daysBeforeMonth_succ (by omega), add_assoc]

/-- no month has fewer than 28 days -/
theorem monthStart_add_le {n m : ℤ} (h : n ≤ m) : monthStart n + 28 * (m - n) ≤ monthStart m := by
  induction m, h using Int.leInduction with
  | base => simp
  | succ m _ ih =>
    have hlength : 28 ≤ lengthOf m := (monthLength_range _ _).1
    rw [monthStart_succ]
    omega

/-! ## The difference -/

/-- borrowing does not change the value of two fields -/
theorem borrow_value (base low high : ℤ) :
    (borrow base low high).1 + base * (borrow base low high).2 = low + base * high := by
  unfold borrow
  split_ifs
  · ring
  · rfl

theorem borrow_range {base low : ℤ} (hlow : -base ≤ low) (hhigh : low < base) (high : ℤ) :
    0 ≤ (borrow base low high).1 ∧ (borrow base low high).1 < base := by
  unfold borrow
  split_ifs <;> omega

/-- a borrow of two fields, as a lower field in its range and what is left of the higher one -/
theorem exists_borrow {base low : ℤ} (hlow : -base ≤ low) (hhigh : low < base) (high : ℤ) :
    ∃ l h, borrow base low high = (l, h) ∧ 0 ≤ l ∧ l < base ∧ l + base * h = low + base * high :=
  ⟨_, _, rfl, (borrow_range hlow hhigh high).1, (borrow_range hlow hhigh high).2, borrow_value base low high⟩

variable (startDate endDate : GregorianCalendar)

/-- the difference of the dates without their months -/
def dayDifference : ℤ := 86400000 * (endDate.day - startDate.day) + (endDate.timeOfDay - startDate.timeOfDay)

/-- after the borrowing of the times of the day, the fields are a time of the day and a number of days -/
theorem diffTimeInMs_eq : ∃ time day, 0 ≤ time ∧ time < 86400000 ∧
    time + 86400000 * day = dayDifference startDate endDate ∧
    diffTimeInMs startDate endDate =
      time + 86400000 * (borrow startDate.daysOfMonth day (endDate.month - startDate.month)).1 +
        2592000000 * (borrow 12 (borrow startDate.daysOfMonth day (endDate.month - startDate.month)).2
          (endDate.getYear - startDate.getYear)).1 := by
  have hmillis : -1000 ≤ endDate.millis - startDate.millis ∧ endDate.millis - startDate.millis < 1000 := by
    have := startDate.millis_range
    have := endDate.millis_range
    omega
  have hsecond : -59 ≤ endDate.second - startDate.second ∧ endDate.second - startDate.second < 60 := by
    have := startDate.second_range
    have := endDate.second_range
    omega
  have hminute : -59 ≤ endDate.minute - startDate.minute ∧ endDate.minute - startDate.minute < 60 := by
    have := startDate.minute_range
    have := endDate.minute_range
    omega
  have hhour : -23 ≤ endDate.hour - startDate.hour ∧ endDate.hour - startDate.hour < 24 := by
    have := startDate.hour_range
    have := endDate.hour_range
    omega
  obtain ⟨millis, second, e₁, l₁, u₁, v₁⟩ := exists_borrow hmillis.1 hmillis.2 (endDate.second - startDate.second)
  obtain ⟨second', minute, e₂, l₂, u₂, v₂⟩ :=
    exists_borrow (show -60 ≤ second by omega) (by omega) (endDate.minute - startDate.minute)
  obtain ⟨minute', hour, e₃, l₃, u₃, v₃⟩ :=
    exists_borrow (show -60 ≤ minute by omega) (by omega) (endDate.hour - startDate.hour)
  obtain ⟨hour', day, e₄, l₄, u₄, v₄⟩ :=
    exists_borrow (show -24 ≤ hour by omega) (by omega) (endDate.day - startDate.day)
  refine ⟨millis + second' * 1000 + minute' * 60000 + hour' * 3600000, day, by omega, by omega, ?_, ?_⟩
  · unfold dayDifference GregorianCalendar.timeOfDay
    linarith
  · unfold diffTimeInMs
    simp only [e₁, e₂, e₃, e₄]
    ring

/-- the elapsed time, in months that pass and days -/
theorem elapsed_eq (hzone : startDate.zoneOffset = endDate.zoneOffset) :
    endDate.timeInMillis - startDate.timeInMillis =
      86400000 * (monthStart endDate.monthNumber - monthStart startDate.monthNumber) + dayDifference startDate endDate := by
  unfold GregorianCalendar.timeInMillis dayDifference
  rw [endDate.dayNumber_eq, startDate.dayNumber_eq, hzone]
  ring

/-- dates less than 28 days apart are in one month or in two that follow each other -/
theorem month_cases (hle : startDate.timeInMillis ≤ endDate.timeInMillis)
    (hlt : endDate.timeInMillis - startDate.timeInMillis < 28 * 86400000)
    (hzone : startDate.zoneOffset = endDate.zoneOffset) :
    endDate.monthNumber = startDate.monthNumber ∨ endDate.monthNumber = startDate.monthNumber + 1 := by
  have helapsed := elapsed_eq startDate endDate hzone
  have hdays := startDate.day_range
  have hdaye := endDate.day_range
  have htimes := startDate.timeOfDay_range
  have htimee := endDate.timeOfDay_range
  have hstart : startDate.day ≤ lengthOf startDate.monthNumber := by
    rw [← startDate.daysOfMonth_eq]
    exact hdays.2
  have hend : endDate.day ≤ lengthOf endDate.monthNumber := by
    rw [← endDate.daysOfMonth_eq]
    exact hdaye.2
  unfold dayDifference at helapsed
  rcases lt_trichotomy endDate.monthNumber startDate.monthNumber with hbefore | hsame | hafter
  · -- the end is in an earlier month
    have hnext := monthStart_add_le (show endDate.monthNumber + 1 ≤ startDate.monthNumber by omega)
    rw [monthStart_succ] at hnext
    omega
  · exact .inl hsame
  · right
    by_contra hne
    -- a whole month lies between them
    have hnext := monthStart_add_le (show startDate.monthNumber + 1 + 1 ≤ endDate.monthNumber by omega)
    have hlength : 28 ≤ lengthOf (startDate.monthNumber + 1) := (monthLength_range _ _).1
    rw [monthStart_succ, monthStart_succ] at hnext
    omega

/-- **The elapsed time, up to 28 days.** -/
theorem diffTimeInMs_exact (hzone : startDate.zoneOffset = endDate.zoneOffset)
    (hle : startDate.timeInMillis ≤ endDate.timeInMillis)
    (hlt : endDate.timeInMillis - startDate.timeInMillis < 28 * 86400000) :
    diffTimeInMs startDate endDate = endDate.timeInMillis - startDate.timeInMillis := by
  have helapsed := elapsed_eq startDate endDate hzone
  obtain ⟨time, day, htime, htime', hvalue, hdiff⟩ := diffTimeInMs_eq startDate endDate
  have hstart := startDate.month_range
  have hend := endDate.month_range
  rw [hdiff]
  rcases month_cases startDate endDate hle hlt hzone with hsame | hnext
  · -- one month: neither the day nor the month borrows
    rw [hsame] at helapsed
    have hday : ¬ day < 0 := by omega
    have hmonth : endDate.month - startDate.month = 0 := by
      unfold GregorianCalendar.monthNumber at hsame
      omega
    simp only [borrow, if_neg hday, hmonth, lt_irrefl, if_false]
    omega
  · -- the next month: the day borrows the length of the first month
    rw [hnext, monthStart_succ, ← startDate.daysOfMonth_eq] at helapsed
    have hlength : 28 ≤ startDate.daysOfMonth := (monthLength_range _ _).1
    have hday : day < 0 := by omega
    simp only [borrow, if_pos hday]
    unfold GregorianCalendar.monthNumber at hnext
    split_ifs with hyear
    · have hmonth : endDate.month - startDate.month = -11 := by omega
      rw [hmonth]
      omega
    · have hmonth : endDate.month - startDate.month = 1 := by omega
      rw [hmonth]
      omega

/-- the last day of a year and the first of the next -/
def newYearsEve : GregorianCalendar :=
  ⟨1999, 11, 31, 23, 59, 59, 500, 3600000, by decide, by decide, by decide, by decide, by decide, by decide⟩

def newYearsDay : GregorianCalendar :=
  ⟨2000, 0, 1, 1, 0, 0, 0, 3600000, by decide, by decide, by decide, by decide, by decide, by decide⟩

theorem diffTimeInMs_exact_newYear : newYearsDay.timeInMillis - newYearsEve.timeInMillis = 3600500 ∧
    diffTimeInMs newYearsEve newYearsDay = newYearsDay.timeInMillis - newYearsEve.timeInMillis :=
  ⟨by decide, diffTimeInMs_exact newYearsEve newYearsDay rfl (by decide) (by decide)⟩

/-! ## Any two dates -/

theorem dayDifference_range : -(86400000 * startDate.daysOfMonth) < dayDifference startDate endDate ∧
    dayDifference startDate endDate < 31 * 86400000 := by
  have hstart := startDate.day_range
  have hend := endDate.day_range
  have hlength := (monthLength_range (endDate.month + 1) endDate.year).2
  have htimes := startDate.timeOfDay_range
  have htimee := endDate.timeOfDay_range
  unfold dayDifference GregorianCalendar.daysOfMonth
  omega

/-- what the borrowing ends with: no part is negative, and the difference is a small number -/
theorem diffTimeInMs_parts : ∃ time day month, (0 ≤ time ∧ time < 86400000) ∧ (0 ≤ day ∧ day ≤ 31) ∧ (0 ≤ month ∧ month ≤ 11) ∧
    diffTimeInMs startDate endDate = time + 86400000 * day + 2592000000 * month ∧
    (time = 0 → day = 0 → month = 0 →
      dayDifference startDate endDate = 0 ∧ endDate.month = startDate.month) := by
  obtain ⟨time, day, htime, htime', hvalue, hdiff⟩ := diffTimeInMs_eq startDate endDate
  have hrange := dayDifference_range startDate endDate
  have hlength := monthLength_range (startDate.month + 1) startDate.year
  have hstart := startDate.month_range
  have hend := endDate.month_range
  unfold GregorianCalendar.daysOfMonth at hrange hdiff
  unfold borrow at hdiff
  by_cases hday : day < 0
  · -- the day borrows, and is more than 0 then
    simp only [if_pos hday] at hdiff
    split_ifs at hdiff with hyear
    · exact ⟨time, _, _, ⟨htime, htime'⟩, by omega, by omega, hdiff, fun h₁ h₂ h₃ => by omega⟩
    · exact ⟨time, _, _, ⟨htime, htime'⟩, by omega, by omega, hdiff, fun h₁ h₂ h₃ => by omega⟩
  · simp only [if_neg hday] at hdiff
    split_ifs at hdiff with hyear
    · exact ⟨time, _, _, ⟨htime, htime'⟩, by omega, by omega, hdiff, fun h₁ h₂ h₃ => by omega⟩
    · exact ⟨time, _, _, ⟨htime, htime'⟩, by omega, by omega, hdiff, fun h₁ h₂ h₃ => by omega⟩

/-- the long arithmetic never leaves its range -/
theorem diffTimeInMs_range : 0 ≤ diffTimeInMs startDate endDate ∧ diffTimeInMs startDate endDate < 2 ^ 63 := by
  obtain ⟨time, day, month, htime, hday, hmonth, hdiff, -⟩ := diffTimeInMs_parts startDate endDate
  rw [hdiff]
  omega

/-- the dates agree but for the year -/
structure SameDate : Prop where
  month : endDate.month = startDate.month
  day : endDate.day = startDate.day
  hour : endDate.hour = startDate.hour
  minute : endDate.minute = startDate.minute
  second : endDate.second = startDate.second
  millis : endDate.millis = startDate.millis

theorem diffTimeInMs_eq_zero_iff : diffTimeInMs startDate endDate = 0 ↔ SameDate startDate endDate := by
  constructor
  · intro h
    obtain ⟨time, day, month, htime, hday, hmonth, hdiff, hzero⟩ := diffTimeInMs_parts startDate endDate
    obtain ⟨hdays, hmonths⟩ := hzero (by omega) (by omega) (by omega)
    have := startDate.hour_range
    have := endDate.hour_range
    have := startDate.minute_range
    have := endDate.minute_range
    have := startDate.second_range
    have := endDate.second_range
    have := startDate.millis_range
    have := endDate.millis_range
    unfold dayDifference GregorianCalendar.timeOfDay at hdays
    exact ⟨hmonths, by omega, by omega, by omega, by omega, by omega⟩
  · intro ⟨hmonth, hday, hhour, hminute, hsecond, hmillis⟩
    unfold diffTimeInMs
    simp only [hmonth, hday, hhour, hminute, hsecond, hmillis, sub_self, borrow, lt_irrefl, if_false]
    norm_num

end Rubbos.Client.TimeManagement
