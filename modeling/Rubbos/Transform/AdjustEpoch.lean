/-
Shifting epoch times by hours (`adjust_epoch` of `transform_time` in `multifile_parser.py`).

The time is turned into a naive local datetime, the hours are taken off, and the result is read back as a local time of the
host. What the two conversions of Python do is a `Zone`: the offset in force at a moment, and the moment as which a local time
is read, by the rule for fold = 0 (`LocalTime.Reads`). Arithmetic on times is exact; a datetime has microseconds, and a year
from 1 to 9999.

- `adjustEpoch_iff`: when a time is shifted by the hours and nothing else.
- `shiftsExactly_iff`: when a list of times is, and then keeps its order, and files with these times keep their rows apart.

Counterexample `hour_merged`: the hour that the clock shows twice.
-/
import Rubbos.Core.LocalTime
import Rubbos.Transform.MultifileParser

namespace Rubbos.Transform.AdjustEpoch

open Rubbos.Core Python LocalTime MultifileParser

/-! ## Model -/

/-- the time zone of the host -/
structure Zone where
  /-- the offset from UTC that `localtime` adds, in seconds -/
  utcoffset : ℤ → ℤ
  /-- the moment as which a local time is read -/
  mktime : ℤ → ℤ
  reads : ∀ l, Reads utcoffset l (mktime l)

/-- every bounded offset is that of a zone -/
noncomputable def Zone.ofOffset (utcoffset : ℤ → ℤ) (b : ℤ) (hlow : ∀ u, -b ≤ utcoffset u) (hhigh : ∀ u, utcoffset u ≤ b) :
    Zone where
  utcoffset := utcoffset
  mktime := fun l => (exists_reads hlow hhigh l).choose
  reads := fun l => (exists_reads hlow hhigh l).choose_spec

/-- the microseconds of local time of the years 1 to 9999 -/
def InYears (micros : ℤ) : Prop := -62135596800000000 ≤ micros ∧ micros < 253402300800000000

instance (micros : ℤ) : Decidable (InYears micros) := inferInstanceAs (Decidable (_ ∧ _))

/-- a naive datetime, as microseconds of local time since 1970 -/
structure Datetime where
  micros : ℤ
  inYears : InYears micros

def datetime (e : LibExc) (micros : ℤ) : Except LibExc Datetime :=
  if h : InYears micros then .ok ⟨micros, h⟩ else .error e

/-- rounding to microseconds, ties to even -/
def microseconds (t : ℚ) : ℤ :=
  let x := t * 1000000
  if x - ⌊x⌋ < 1 / 2 ∨ x - ⌊x⌋ = 1 / 2 ∧ ⌊x⌋ % 2 = 0 then ⌊x⌋ else ⌊x⌋ + 1

/-- `datetime.datetime.fromtimestamp(t)` -/
def fromtimestamp (z : Zone) (t : ℚ) : Except LibExc Datetime :=
  datetime .valueError (localtime z.utcoffset (microseconds t / 1000000) * 1000000 + microseconds t % 1000000)

/-- `d - datetime.timedelta(hours=h)` -/
def subHours (d : Datetime) (h : ℤ) : Except LibExc Datetime := datetime .overflowError (d.micros - h * 3600 * 1000000)

/-- `d.timestamp()` -/
def timestamp (z : Zone) (d : Datetime) : ℚ := z.mktime (d.micros / 1000000) + (d.micros % 1000000 : ℤ) / 1000000

/-- `adjust_epoch`, on numbers -/
def adjustEpoch (z : Zone) (h : ℤ) (t : ℚ) : Except LibExc ℚ := do
  let d ← fromtimestamp z t
  let newTime ← subHours d h
  return timestamp z newTime

/-- the library of a host in the zone; float and int are those of Python -/
def hostLibrary (lib : Library ℚ) (z : Zone) (float : Text → Except LibExc ℚ) (int : Text → Except LibExc ℤ) : Library ℚ :=
  { lib with
    adjustEpoch := fun timeAdjustment time => do
      let t ← float time
      let d ← fromtimestamp z t
      let h ← int timeAdjustment
      let newTime ← subHours d h
      return timestamp z newTime }

/-- the time of a row, as it is in the file -/
def rowTime (float : Text → Except LibExc ℚ) (header : List Text) (attrib : Text) (row : List Text) : Except PyExc ℚ := do
  let s ← getattr header row attrib
  (float s).mapError .library

/-! ## One time -/

variable {z : Zone} {h m : ℤ} {t k : ℚ} {ts : List ℚ}

/-- the time is a whole number of microseconds, both datetimes have a year, and the shifted one means the shifted time -/
def Kept (z : Zone) (h : ℤ) (t : ℚ) : Prop :=
  ∃ m : ℤ, t = m / 1000000 ∧ InYears (localtime z.utcoffset (m / 1000000) * 1000000 + m % 1000000) ∧
    InYears (localtime z.utcoffset (m / 1000000) * 1000000 + m % 1000000 - h * 3600 * 1000000) ∧
    SameReading z.utcoffset (m / 1000000) (m / 1000000 - 3600 * h)

theorem microseconds_of_whole (m : ℤ) : microseconds (m / 1000000) = m := by
  have hx : (m / 1000000 : ℚ) * 1000000 = m := by field_simp
  simp only [microseconds, hx, Int.floor_intCast, sub_self]
  rw [if_pos (.inl (by norm_num))]

theorem datetime_ok {e : LibExc} {micros : ℤ} {d : Datetime} : datetime e micros = .ok d ↔ d.micros = micros := by
  unfold datetime
  split_ifs with hyears
  · rw [Except.ok.injEq]
    constructor
    · rintro rfl
      rfl
    · rintro rfl
      rfl
  · refine iff_of_false (by simp) ?_
    rintro rfl
    exact hyears d.inYears

/-- the local time of the moment of a time, moved by the hours, and what is behind its second -/
theorem adjustEpoch_ok : adjustEpoch z h t = .ok k ↔
    InYears (localtime z.utcoffset (microseconds t / 1000000) * 1000000 + microseconds t % 1000000) ∧
      InYears (localtime z.utcoffset (microseconds t / 1000000) * 1000000 + microseconds t % 1000000 - h * 3600 * 1000000) ∧
      k = z.mktime (localtime z.utcoffset (microseconds t / 1000000) - 3600 * h) + (microseconds t % 1000000 : ℤ) / 1000000 := by
  unfold adjustEpoch fromtimestamp subHours
  generalize microseconds t = m
  have hsecond : (localtime z.utcoffset (m / 1000000) * 1000000 + m % 1000000 - h * 3600 * 1000000) / 1000000 =
      localtime z.utcoffset (m / 1000000) - 3600 * h := by omega
  have hmicro : (localtime z.utcoffset (m / 1000000) * 1000000 + m % 1000000 - h * 3600 * 1000000) % 1000000 = m % 1000000 := by
    omega
  constructor
  · intro hrun
    obtain ⟨d, hd, hrun⟩ := bind_eq_ok.1 hrun
    obtain ⟨newTime, hnew, hrun⟩ := bind_eq_ok.1 hrun
    cases hrun
    have hfrom := datetime_ok.1 hd
    have hsub := datetime_ok.1 hnew
    rw [hfrom] at hsub
    refine ⟨hfrom ▸ d.inYears, hsub ▸ newTime.inYears, ?_⟩
    rw [timestamp, hsub, hsecond, hmicro]
  · rintro ⟨hfrom, hsub, rfl⟩
    refine bind_eq_ok.2 ⟨⟨_, hfrom⟩, datetime_ok.2 rfl, bind_eq_ok.2 ⟨⟨_, hsub⟩, datetime_ok.2 rfl, ?_⟩⟩
    rw [timestamp, hsecond, hmicro]
    rfl

/-- a time is shifted by the hours exactly if it is kept -/
theorem adjustEpoch_iff : adjustEpoch z h t = .ok (t - 3600 * h) ↔ Kept z h t := by
  rw [adjustEpoch_ok]
  have hsame : ∀ m : ℤ, z.mktime (localtime z.utcoffset (m / 1000000) - 3600 * h) = m / 1000000 - 3600 * h ↔
      SameReading z.utcoffset (m / 1000000) (m / 1000000 - 3600 * h) := by
    intro m
    have hl : localtime z.utcoffset (m / 1000000) - 3600 * h = m / 1000000 - 3600 * h + z.utcoffset (m / 1000000) := by
      unfold localtime
      ring
    rw [hl, ← reads_iff_sameReading]
    constructor
    · intro heq
      have hreads := z.reads (m / 1000000 - 3600 * h + z.utcoffset (m / 1000000))
      rwa [heq] at hreads
    · exact fun hreads => reads_unique (z.reads _) hreads
  constructor
  · rintro ⟨hfrom, hsub, hk⟩
    -- the time is a second and a number of microseconds
    have ht : t = ((z.mktime (localtime z.utcoffset (microseconds t / 1000000) - 3600 * h) + 3600 * h) * 1000000 +
        microseconds t % 1000000 : ℤ) / 1000000 := by
      push_cast
      linarith
    have hm : microseconds t = (z.mktime (localtime z.utcoffset (microseconds t / 1000000) - 3600 * h) + 3600 * h) * 1000000 +
        microseconds t % 1000000 := by
      conv_lhs => rw [ht]
      exact microseconds_of_whole _
    have hread : z.mktime (localtime z.utcoffset (microseconds t / 1000000) - 3600 * h) =
        microseconds t / 1000000 - 3600 * h := by omega
    exact ⟨microseconds t, by rwa [← hm] at ht, hfrom, hsub, (hsame _).1 hread⟩
  · rintro ⟨m, rfl, hfrom, hsub, hread⟩
    rw [microseconds_of_whole]
    refine ⟨hfrom, hsub, ?_⟩
    rw [(hsame m).2 hread]
    have hsplit : (m : ℚ) = (m / 1000000 : ℤ) * 1000000 + (m % 1000000 : ℤ) := by exact_mod_cast (Int.ediv_mul_add_emod m 1000000).symm
    push_cast
    linarith

/-! ## A file -/

section File

variable {lib : Library ℚ} {float : Text → Except LibExc ℚ} {int : Text → Except LibExc ℤ} {defn : FileDefn}
  {header row : List Text} {attrib : Text}

theorem mapError_ok {ε ε' α : Type} {f : ε → ε'} {x : Except ε α} {a : α} : x.mapError f = .ok a ↔ x = .ok a := by
  cases x with
  | error e => simp [Except.mapError]
  | ok b => simp [Except.mapError]

/-- the key of a row is its time, shifted -/
theorem timeOf_host (hattrib : getTimestampKey defn = [attrib]) (hint : int defn.timeAdjustment = .ok h)
    (hk : timeOf (hostLibrary lib z float int) defn header row = .ok k) :
    ∃ t, rowTime float header attrib row = .ok t ∧ adjustEpoch z h t = .ok k := by
  unfold timeOf transformTime at hk
  rw [hattrib] at hk
  obtain ⟨fn, hfn, hk⟩ := bind_eq_ok.1 hk
  cases hfn
  obtain ⟨values, hvalues, hk⟩ := bind_eq_ok.1 hk
  rw [List.mapM_cons, List.mapM_nil] at hvalues
  obtain ⟨time, htime, hvalues⟩ := bind_eq_ok.1 hvalues
  cases hvalues
  obtain ⟨t, ht, hk⟩ := bind_eq_ok.1 (mapError_ok.1 hk)
  obtain ⟨d, hd, hk⟩ := bind_eq_ok.1 hk
  obtain ⟨h', hh, hk⟩ := bind_eq_ok.1 hk
  obtain rfl : h = h' := Except.ok.inj (hint.symm.trans hh)
  exact ⟨t, bind_eq_ok.2 ⟨time, htime, mapError_ok.2 ht⟩, bind_eq_ok.2 ⟨d, hd, hk⟩⟩

end File

/-! ## All times -/

/-- the times are shifted by the hours, and rows with different times keep different keys -/
structure ShiftsExactly (z : Zone) (h : ℤ) (ts : List ℚ) : Prop where
  exact : ∀ t ∈ ts, adjustEpoch z h t = .ok (t - 3600 * h)
  injective : ∀ t ∈ ts, ∀ t' ∈ ts, adjustEpoch z h t = adjustEpoch z h t' → t = t'
  ordered : ∀ t ∈ ts, ∀ t' ∈ ts, t < t' → ∃ k k', adjustEpoch z h t = .ok k ∧ adjustEpoch z h t' = .ok k' ∧ k < k'
  /-- in the data of a file with these times, there is a row under every key, and all rows under one key have one time -/
  separate : ∀ (lib : Library ℚ) (float : Text → Except LibExc ℚ) (int : Text → Except LibExc ℤ) (defn : FileDefn)
    (header : List Text) (attrib : Text) (rowPtr : Content) (d : Dict ℚ (Dict Text Text)),
    getTimestampKey defn = [attrib] → int defn.timeAdjustment = .ok h →
      (∀ row ∈ rowPtr.rows, ∀ t, rowTime float header attrib row = .ok t → t ∈ ts) →
      getDataFromFile (hostLibrary lib z float int) defn header rowPtr = .ok d →
      ∀ k ∈ d.keys, (∃ row, (k, row) ∈ timed (hostLibrary lib z float int) defn header rowPtr.rows) ∧
        ∃ t, ∀ row, (k, row) ∈ timed (hostLibrary lib z float int) defn header rowPtr.rows →
          rowTime float header attrib row = .ok t

theorem separate_of_injective (hinj : ∀ t ∈ ts, ∀ t' ∈ ts, adjustEpoch z h t = adjustEpoch z h t' → t = t')
    {lib : Library ℚ} {float : Text → Except LibExc ℚ} {int : Text → Except LibExc ℤ} {defn : FileDefn}
    {header : List Text} {attrib : Text} {rowPtr : Content} {d : Dict ℚ (Dict Text Text)}
    (hattrib : getTimestampKey defn = [attrib]) (hint : int defn.timeAdjustment = .ok h)
    (htimes : ∀ row ∈ rowPtr.rows, ∀ t, rowTime float header attrib row = .ok t → t ∈ ts)
    (hd : getDataFromFile (hostLibrary lib z float int) defn header rowPtr = .ok d) (hk : k ∈ d.keys) :
    (∃ row, (k, row) ∈ timed (hostLibrary lib z float int) defn header rowPtr.rows) ∧
      ∃ t, ∀ row, (k, row) ∈ timed (hostLibrary lib z float int) defn header rowPtr.rows →
        rowTime float header attrib row = .ok t := by
  have htime : ∀ row, (k, row) ∈ timed (hostLibrary lib z float int) defn header rowPtr.rows →
      ∃ t ∈ ts, rowTime float header attrib row = .ok t ∧ adjustEpoch z h t = .ok k := by
    intro row hrow
    obtain ⟨hmem, -, hkey⟩ := mem_timed.1 hrow
    obtain ⟨t, ht, hadjust⟩ := timeOf_host hattrib hint hkey
    exact ⟨t, htimes row hmem t ht, ht, hadjust⟩
  -- the key is that of some row, and the time of that row is the time of all
  obtain ⟨row, hrow⟩ := (mem_keys_getDataFromFile hd k).1 hk
  obtain ⟨t, hts, -, hadjust⟩ := htime row hrow
  refine ⟨⟨row, hrow⟩, t, fun row' hrow' => ?_⟩
  obtain ⟨t', hts', ht', hadjust'⟩ := htime row' hrow'
  rwa [hinj t hts t' hts' (hadjust.trans hadjust'.symm)]

/-- **Times are shifted by the hours, keep their order and keep rows apart exactly if all are kept.** -/
theorem shiftsExactly_iff (z : Zone) (h : ℤ) (ts : List ℚ) : ShiftsExactly z h ts ↔ ∀ t ∈ ts, Kept z h t := by
  constructor
  · exact fun hshift t ht => adjustEpoch_iff.1 (hshift.exact t ht)
  · intro hkept
    have hexact : ∀ t ∈ ts, adjustEpoch z h t = .ok (t - 3600 * h) := fun t ht => adjustEpoch_iff.2 (hkept t ht)
    have hinj : ∀ t ∈ ts, ∀ t' ∈ ts, adjustEpoch z h t = adjustEpoch z h t' → t = t' := by
      intro t ht t' ht' heq
      rw [hexact t ht, hexact t' ht', Except.ok.injEq] at heq
      exact sub_left_injective heq
    refine ⟨hexact, hinj, ?_, ?_⟩
    · intro t ht t' ht' hlt
      exact ⟨_, _, hexact t ht, hexact t' ht', sub_lt_sub_right hlt _⟩
    · intro lib float int defn header attrib rowPtr d hattrib hint htimes hd k hk
      exact separate_of_injective hinj hattrib hint htimes hd hk

/-- a clock that goes back by an hour, in the night of 26 October 2014 -/
def autumnOffset (u : ℤ) : ℤ := if u < 1414285200 then 7200 else 3600

/-- the local times of an hour are shown twice, none is skipped -/
theorem reads_autumn (l : ℤ) : Reads autumnOffset l (if l - 7200 < 1414285200 then l - 7200 else l - 3600) := by
  refine .inl ⟨?_, fun v hv => ?_⟩
  · unfold localtime autumnOffset
    split_ifs <;> omega
  · unfold localtime autumnOffset
    split_ifs at hv ⊢ <;> omega

def autumn : Zone := ⟨autumnOffset, _, reads_autumn⟩

/-- the local time from two to three is read as that before the change -/
theorem adjustEpoch_autumn {s : ℤ} (hs : s = 1414281600 ∨ s = 1414285200) :
    adjustEpoch autumn 0 ((s * 1000000 : ℤ) / 1000000) = .ok 1414281600 := by
  rw [adjustEpoch_ok, microseconds_of_whole]
  rcases hs with rfl | rfl <;> norm_num [InYears, autumn, autumnOffset, localtime]

/-- the second of the two hours falls on the first -/
theorem hour_merged : adjustEpoch autumn 0 1414281600 = .ok 1414281600 ∧ adjustEpoch autumn 0 1414285200 = .ok 1414281600 ∧
    ¬ ShiftsExactly autumn 0 [1414281600, 1414285200] := by
  have hfirst : adjustEpoch autumn 0 1414281600 = .ok 1414281600 := by
    have hadjust := adjustEpoch_autumn (.inl rfl)
    norm_num at hadjust
    exact hadjust
  have hsecond : adjustEpoch autumn 0 1414285200 = .ok 1414281600 := by
    have hadjust := adjustEpoch_autumn (.inr rfl)
    norm_num at hadjust
    exact hadjust
  refine ⟨hfirst, hsecond, fun hshift => ?_⟩
  have heq := hshift.injective _ List.mem_cons_self _ (List.mem_cons_of_mem _ List.mem_cons_self) (hfirst.trans hsecond.symm)
  norm_num at heq

end Rubbos.Transform.AdjustEpoch
