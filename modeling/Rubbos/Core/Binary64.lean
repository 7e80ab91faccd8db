/-
The arithmetic of `double` (IEEE 754 binary64), with rational values.

A result is the exact result, rounded to 53 significant bits, to nearest, ties to even (`nearest`); from 2^1024 on it is an
infinity. The last bit of a number is never below 2^-1074. A finite value that rounding changes cannot be built. The two zeros are
one value here, and a zero below is taken for +0. `strtod` reads what `%lf` accepts.

A sum that is collected in small steps stands still where a step is less than half of the last bit:

- `nearest_nearest`: a rounded number is not rounded again.
- `advances`: between -2^k and 2^k, a step between 2^(k-54) and 2^(k-53) makes a sum larger, and leads to 2^k at most.
- `stays_of_ge`, `stays_of_lt`: beyond, it changes nothing.
- `addUp_ends_iff`: what the sums get past.
-/
import Mathlib.Algebra.Order.Round
import Mathlib.Data.Int.Log
import Mathlib.Data.Rat.Floor
import Mathlib.Tactic
import Rubbos.Core.Casts
import Rubbos.Core.Decimal

namespace Rubbos.Core

/-! ## Rounding -/

/-- the nearest integer, ties to even -/
def roundEven (x : ℚ) : ℤ :=
  if Int.fract x < 1 / 2 ∨ Int.fract x = 1 / 2 ∧ ⌊x⌋ % 2 = 0 then ⌊x⌋ else ⌊x⌋ + 1

/-- the exponent of the last of the 53 significant bits of a number -/
def ulpExponent (x : ℚ) : ℤ := max (Int.log 2 |x| - 52) (-1074)

/-- the nearest number of 53 significant bits, ties to even -/
def nearest (x : ℚ) : ℚ := roundEven (x / 2 ^ ulpExponent x) * 2 ^ ulpExponent x

variable {x c w : ℚ}

theorem abs_roundEven_sub_le (x : ℚ) : |roundEven x - x| ≤ 1 / 2 := by
  have hsplit := Int.floor_add_fract x
  have hnonneg := Int.fract_nonneg x
  have hlt := Int.fract_lt_one x
  unfold roundEven
  rw [abs_le]
  split
  · next h =>
    have hhalf : Int.fract x ≤ 1 / 2 := h.elim le_of_lt fun h => h.1.le
    constructor <;> linarith
  · next h =>
    have hhalf : 1 / 2 ≤ Int.fract x := not_lt.1 fun h' => h (.inl h')
    push_cast
    constructor <;> linarith

/-- an integer that is closer than a half is the nearest one -/
theorem roundEven_of_near {n : ℤ} (h : |x - n| < 1 / 2) : roundEven x = n := by
  have hround := abs_roundEven_sub_le x
  have hlow : (n : ℚ) - 1 < roundEven x := by linarith [(abs_le.1 hround).1, (abs_lt.1 h).1]
  have hhigh : (roundEven x : ℚ) < n + 1 := by linarith [(abs_le.1 hround).2, (abs_lt.1 h).2]
  have hlow' : n - 1 < roundEven x := by exact_mod_cast hlow
  have hhigh' : roundEven x < n + 1 := by exact_mod_cast hhigh
  omega

theorem roundEven_intCast (n : ℤ) : roundEven n = n := roundEven_of_near (by simp)

theorem roundEven_le {n : ℤ} (h : x ≤ n) : roundEven x ≤ n := by
  have hround := (abs_le.1 (abs_roundEven_sub_le x)).2
  rcases h.lt_or_eq with hlt | rfl
  · have hle : (roundEven x : ℚ) < n + 1 := by linarith
    have hle' : roundEven x < n + 1 := by exact_mod_cast hle
    omega
  · exact (roundEven_intCast n).le

theorem le_roundEven {n : ℤ} (h : n ≤ x) : n ≤ roundEven x := by
  have hround := (abs_le.1 (abs_roundEven_sub_le x)).1
  rcases h.lt_or_eq with hlt | rfl
  · have hle : (n : ℚ) - 1 < roundEven x := by linarith
    have hle' : n - 1 < roundEven x := by exact_mod_cast hle
    omega
  · exact (roundEven_intCast n).ge

theorem ulp_pos (e : ℤ) : (0 : ℚ) < 2 ^ e := zpow_pos (by norm_num) e

theorem lt_ulpExponent (x : ℚ) : |x| < 2 ^ (ulpExponent x + 53) := by
  have hlog := Int.lt_zpow_succ_log_self (b := 2) (by norm_num) |x|
  push_cast at hlog
  refine hlog.trans_le (zpow_le_zpow_right₀ (by norm_num) ?_)
  have := le_max_left (Int.log 2 |x| - 52) (-1074)
  unfold ulpExponent
  omega

/-- a large number has a large last bit -/
theorem le_ulpExponent {k : ℤ} (h : (2 : ℚ) ^ k ≤ |x|) : k - 52 ≤ ulpExponent x := by
  have hpos : 0 < |x| := (ulp_pos k).trans_le h
  have hlog : k ≤ Int.log 2 |x| := (Int.zpow_le_iff_le_log (by norm_num) hpos).1 (by exact_mod_cast h)
  have := le_max_left (Int.log 2 |x| - 52) (-1074)
  unfold ulpExponent
  omega

/-- and a small one a small one -/
theorem ulpExponent_le {e : ℤ} (hx : x ≠ 0) (he : -1074 ≤ e) (h : |x| < 2 ^ (e + 53)) : ulpExponent x ≤ e := by
  have hlog : Int.log 2 |x| < e + 53 := (Int.lt_zpow_iff_log_lt (by norm_num) (abs_pos.2 hx)).1 (by exact_mod_cast h)
  exact max_le (by omega) he

/-- a multiple of the last bit is kept -/
theorem nearest_of_multiple {n : ℤ} (h : x = n * 2 ^ ulpExponent x) : nearest x = x := by
  have hdiv : x / 2 ^ ulpExponent x = n := (div_eq_iff (ulp_pos _).ne').2 h
  rw [nearest, hdiv, roundEven_intCast, ← h]

theorem multiple_of_le {n e e' : ℤ} (h : e' ≤ e) : ∃ m : ℤ, (n * 2 ^ e : ℚ) = m * 2 ^ e' := by
  obtain ⟨d, rfl⟩ := Int.le.dest h
  refine ⟨n * 2 ^ d, ?_⟩
  push_cast
  rw [zpow_add₀ (by norm_num), zpow_natCast]
  ring

theorem nearest_mul_of_lt {n e : ℤ} (hn : |n| < 2 ^ 53) (he : -1074 ≤ e) : nearest (n * 2 ^ e) = n * 2 ^ e := by
  rcases eq_or_ne ((n : ℚ) * 2 ^ e) 0 with hzero | hne
  · rw [hzero]
    exact nearest_of_multiple (n := 0) (by simp)
  have hbound : |(n * 2 ^ e : ℚ)| < 2 ^ (e + 53) := by
    have hcast : |(n : ℚ)| < 2 ^ 53 := by exact_mod_cast hn
    rw [abs_mul, abs_of_pos (ulp_pos e), add_comm, zpow_add₀ (by norm_num)]
    exact mul_lt_mul_of_pos_right (by exact_mod_cast hcast) (ulp_pos e)
  obtain ⟨m, hm⟩ := multiple_of_le (n := n) (ulpExponent_le hne he hbound)
  exact nearest_of_multiple hm

/-- a number of 53 significant bits is kept -/
theorem nearest_mul {n e : ℤ} (hn : |n| ≤ 2 ^ 53) (he : -1074 ≤ e) : nearest (n * 2 ^ e) = n * 2 ^ e := by
  rcases hn.lt_or_eq with hlt | heq
  · exact nearest_mul_of_lt hlt he
  -- one bit more, and the last one is 0
  obtain ⟨s, hs, hn⟩ : ∃ s : ℤ, |s * 2 ^ 52| < 2 ^ 53 ∧ (n : ℚ) * 2 ^ e = (s * 2 ^ 52 : ℤ) * 2 ^ (e + 1) := by
    rcases abs_eq (by norm_num) |>.1 heq with rfl | rfl
    · refine ⟨1, by norm_num, ?_⟩
      rw [zpow_add₀ (by norm_num)]
      push_cast
      ring
    · refine ⟨-1, by norm_num, ?_⟩
      rw [zpow_add₀ (by norm_num)]
      push_cast
      ring
  rw [hn]
  exact nearest_mul_of_lt hs (by omega)

theorem nearest_eq_mul (x : ℚ) : ∃ n : ℤ, |n| ≤ 2 ^ 53 ∧ nearest x = n * 2 ^ ulpExponent x := by
  have hbound : |x / 2 ^ ulpExponent x| < 2 ^ 53 := by
    rw [abs_div, abs_of_pos (ulp_pos _), div_lt_iff₀ (ulp_pos _), ← zpow_natCast, ← zpow_add₀ (by norm_num), add_comm]
    exact_mod_cast lt_ulpExponent x
  obtain ⟨hlow, hhigh⟩ := abs_lt.1 hbound
  refine ⟨_, abs_le.2 ⟨le_roundEven ?_, roundEven_le ?_⟩, rfl⟩
  · push_cast
    exact hlow.le
  · push_cast
    exact hhigh.le

/-- **A rounded number** is not rounded again. -/
theorem nearest_nearest (x : ℚ) : nearest (nearest x) = nearest x := by
  obtain ⟨n, hn, h⟩ := nearest_eq_mul x
  rw [h]
  exact nearest_mul hn (le_max_right _ _)

theorem abs_nearest_sub_le (x : ℚ) : |nearest x - x| ≤ 2 ^ (ulpExponent x - 1) := by
  have hx : x / 2 ^ ulpExponent x * 2 ^ ulpExponent x = x := div_mul_cancel₀ x (ulp_pos _).ne'
  have hsplit : nearest x - x = (roundEven (x / 2 ^ ulpExponent x) - x / 2 ^ ulpExponent x) * 2 ^ ulpExponent x := by
    rw [sub_mul, hx, nearest]
  have hhalf : (2 : ℚ) ^ (ulpExponent x - 1) = 1 / 2 * 2 ^ ulpExponent x := by
    rw [zpow_sub_one₀ (by norm_num)]
    ring
  rw [hsplit, abs_mul, abs_of_pos (ulp_pos _), hhalf]
  exact mul_le_mul_of_nonneg_right (abs_roundEven_sub_le _) (ulp_pos _).le

/-- a power of two that is not smaller stays not smaller -/
theorem nearest_le {k : ℤ} (hk : -1074 ≤ k) (h : |x| < 2 ^ k) : nearest x ≤ 2 ^ k := by
  rcases eq_or_ne x 0 with rfl | hne
  · have hzero : nearest 0 = 0 := nearest_of_multiple (n := 0) (by simp)
    rw [hzero]
    exact (ulp_pos k).le
  have hexp : ulpExponent x ≤ k := ulpExponent_le hne hk (h.trans (zpow_lt_zpow_right₀ (by norm_num) (by omega)))
  obtain ⟨m, hm⟩ := multiple_of_le (n := 1) hexp
  rw [Int.cast_one, one_mul] at hm
  rw [nearest, hm]
  refine mul_le_mul_of_nonneg_right ?_ (ulp_pos _).le
  refine Int.cast_le.2 (roundEven_le ?_)
  rw [div_le_iff₀ (ulp_pos _), ← hm]
  exact (abs_lt.1 h).2.le

/-! ## Sums -/

/-- a rounded number is a multiple of every bit that is not behind its last one -/
theorem multiple_of_nearest (hc : nearest c = c) {e : ℤ} (he : e ≤ ulpExponent c) : ∃ m : ℤ, c = m * 2 ^ e := by
  obtain ⟨m, hm⟩ := multiple_of_le (n := roundEven (c / 2 ^ ulpExponent c)) he
  refine ⟨m, ?_⟩
  rw [← hm]
  exact hc.symm

/-- a multiple of the last bit that is closer than half of it -/
theorem nearest_of_near {n : ℤ} (h : |x - n * 2 ^ ulpExponent x| < 2 ^ (ulpExponent x - 1)) :
    nearest x = n * 2 ^ ulpExponent x := by
  have hhalf : (2 : ℚ) ^ (ulpExponent x - 1) = 1 / 2 * 2 ^ ulpExponent x := by
    rw [zpow_sub_one₀ (by norm_num)]
    ring
  have hx : x / 2 ^ ulpExponent x * 2 ^ ulpExponent x = x := div_mul_cancel₀ x (ulp_pos _).ne'
  have hsplit : x - n * 2 ^ ulpExponent x = (x / 2 ^ ulpExponent x - n) * 2 ^ ulpExponent x := by
    rw [sub_mul, hx]
  have hnear : |x / 2 ^ ulpExponent x - n| < 1 / 2 := by
    rw [hsplit, abs_mul, abs_of_pos (ulp_pos _), hhalf] at h
    exact lt_of_mul_lt_mul_right h (ulp_pos _).le
  rw [nearest, roundEven_of_near hnear]

/-- the next number below a power of two -/
theorem le_pow_sub {k : ℤ} (hc : nearest c = c) (h : c < 2 ^ k) : c ≤ 2 ^ k - 2 ^ (k - 53) := by
  have hdouble : (2 : ℚ) ^ k = 2 ^ (k - 1) + 2 ^ (k - 1) := by
    rw [zpow_sub_one₀ (by norm_num)]
    ring
  rcases lt_or_ge c (2 ^ (k - 1)) with hlt | hge
  · have hle : (2 : ℚ) ^ (k - 53) ≤ 2 ^ (k - 1) := zpow_le_zpow_right₀ (by norm_num) (by omega)
    linarith
  · have hexp : k - 1 - 52 ≤ ulpExponent c := le_ulpExponent (hge.trans (le_abs_self c))
    have hbit : k - 53 ≤ ulpExponent c := by omega
    obtain ⟨m, hm⟩ := multiple_of_nearest hc hbit
    have hpow : (2 : ℚ) ^ k = 2 ^ 53 * 2 ^ (k - 53) := by
      rw [← zpow_natCast, ← zpow_add₀ (by norm_num)]
      congr 1
      push_cast
      ring
    have hm' : m < 2 ^ 53 := by
      have hlt : (m : ℚ) < 2 ^ 53 := by
        rw [hm, hpow] at h
        exact lt_of_mul_lt_mul_right h (ulp_pos _).le
      exact_mod_cast hlt
    have hm'' : (m : ℚ) ≤ 2 ^ 53 - 1 := by exact_mod_cast Int.le_sub_one_of_lt hm'
    calc c = m * 2 ^ (k - 53) := hm
      _ ≤ (2 ^ 53 - 1) * 2 ^ (k - 53) := mul_le_mul_of_nonneg_right hm'' (ulp_pos _).le
      _ = 2 ^ k - 2 ^ (k - 53) := by rw [hpow]; ring

/-- **Below 2^k**, a step of more than half of the last bit makes a sum larger, and leads to 2^k at most. -/
theorem advances {k : ℤ} (hk : -1021 ≤ k) (hc : nearest c = c) (hlow : -2 ^ k ≤ c) (hhigh : c < 2 ^ k)
    (hw : 2 ^ (k - 54) < w) (hw' : w < 2 ^ (k - 53)) :
    c + (w - 2 ^ (k - 54)) ≤ nearest (c + w) ∧ nearest (c + w) ≤ 2 ^ k := by
  have hstep := ulp_pos (k - 54)
  have hlast := le_pow_sub hc hhigh
  have habs : |c + w| < 2 ^ k := by
    rw [abs_lt]
    constructor <;> linarith
  have hsmall : k - 53 + 53 = k := by omega
  have herror : |nearest (c + w) - (c + w)| ≤ 2 ^ (k - 54) := by
    rcases eq_or_ne (c + w) 0 with hzero | hne
    · have hnone : nearest (c + w) = c + w := nearest_of_multiple (n := 0) (by simp [hzero])
      rw [hnone, sub_self, abs_zero]
      exact hstep.le
    · have hexp : ulpExponent (c + w) ≤ k - 53 := ulpExponent_le hne (by omega) (by rwa [hsmall])
      exact (abs_nearest_sub_le _).trans (zpow_le_zpow_right₀ (by norm_num) (by omega))
  exact ⟨by linarith [(abs_le.1 herror).1], nearest_le (by omega) habs⟩

/-- a step of less than half of the last bit, that leads to no other last bit -/
theorem stays {k : ℤ} (hc : nearest c = c) (hlow : 2 ^ k ≤ |c + w|) (hhigh : |c + w| < 2 ^ (ulpExponent c + 53)) (hw : 0 ≤ w)
    (hw' : w < 2 ^ (k - 53)) : nearest (c + w) = c := by
  have hne : c + w ≠ 0 := abs_pos.1 ((ulp_pos k).trans_le hlow)
  obtain ⟨n, hn⟩ := multiple_of_nearest hc (ulpExponent_le hne (le_max_right _ _) hhigh)
  have hexp := le_ulpExponent hlow
  have hhalf : w < 2 ^ (ulpExponent (c + w) - 1) := hw'.trans_le (zpow_le_zpow_right₀ (by norm_num) (by omega))
  have hnear : |c + w - n * 2 ^ ulpExponent (c + w)| < 2 ^ (ulpExponent (c + w) - 1) := by
    rw [← hn, add_sub_cancel_left, abs_of_nonneg hw]
    exact hhalf
  rw [nearest_of_near hnear, ← hn]

/-- **From 2^k on**, a step of less than half of the last bit changes nothing. -/
theorem stays_of_ge {k : ℤ} (hc : nearest c = c) (h : 2 ^ k ≤ c) (hw : 0 ≤ w) (hw' : w < 2 ^ (k - 53)) :
    nearest (c + w) = c := by
  have hpos : 0 < c := (ulp_pos k).trans_le h
  have hexp : k - 52 ≤ ulpExponent c := le_ulpExponent (h.trans (le_abs_self c))
  have hlt : c < 2 ^ (ulpExponent c + 53) := (le_abs_self c).trans_lt (lt_ulpExponent c)
  have hnext := le_pow_sub hc hlt
  have hstep : (2 : ℚ) ^ (k - 53) ≤ 2 ^ (ulpExponent c + 53 - 53) := zpow_le_zpow_right₀ (by norm_num) (by omega)
  have habs : |c + w| = c + w := abs_of_nonneg (by linarith)
  refine stays hc ?_ ?_ hw hw'
  · rw [habs]
    linarith
  · rw [habs]
    linarith

/-- **Below -2^k** as well. -/
theorem stays_of_lt {k : ℤ} (hc : nearest c = c) (h : c < -2 ^ k) (hw : 0 ≤ w) (hw' : w < 2 ^ (k - 53)) :
    nearest (c + w) = c := by
  have hpow := ulp_pos k
  have habs : |c| = -c := abs_of_neg (by linarith)
  -- the next number below
  obtain ⟨m, hm⟩ := multiple_of_nearest hc (le_ulpExponent (k := k) (by rw [habs]; linarith))
  have hsplit : (2 : ℚ) ^ k = 2 ^ 52 * 2 ^ (k - 52) := by
    rw [← zpow_natCast, ← zpow_add₀ (by norm_num)]
    congr 1
    push_cast
    ring
  have hlt : (m : ℚ) < -2 ^ 52 := by
    rw [hm, hsplit, ← neg_mul] at h
    exact lt_of_mul_lt_mul_right h (ulp_pos _).le
  have hle : m ≤ -2 ^ 52 - 1 := Int.le_sub_one_of_lt (by exact_mod_cast hlt)
  have hnext : c ≤ -2 ^ k - 2 ^ (k - 52) := by
    calc c = m * 2 ^ (k - 52) := hm
      _ ≤ (-2 ^ 52 - 1) * 2 ^ (k - 52) := mul_le_mul_of_nonneg_right (by exact_mod_cast hle) (ulp_pos _).le
      _ = -2 ^ k - 2 ^ (k - 52) := by rw [hsplit]; ring
  have hstep : (2 : ℚ) ^ (k - 53) ≤ 2 ^ (k - 52) := zpow_le_zpow_right₀ (by norm_num) (by omega)
  have habs' : |c + w| = -(c + w) := abs_of_neg (by linarith)
  refine stays hc ?_ ?_ hw hw'
  · rw [habs']
    linarith
  · have hbound := lt_ulpExponent c
    rw [habs] at hbound
    rw [habs']
    linarith

/-! ## Numbers -/

/-- a finite double has this value -/
def IsDouble (x : ℚ) : Prop := nearest x = x ∧ |x| < 2 ^ 1024

instance (x : ℚ) : Decidable (IsDouble x) := inferInstanceAs (Decidable (_ ∧ _))

inductive Binary64 where
  | nan
  | infinite (negative : Bool)
  | finite (x : ℚ) (double : IsDouble x)
deriving DecidableEq

namespace Binary64

/-- the double of an exact result, an infinity beyond the largest finite one -/
def ofExact (x : ℚ) : Binary64 :=
  if h : |nearest x| < 2 ^ 1024 then .finite (nearest x) ⟨nearest_nearest x, h⟩ else .infinite (x < 0)

def neg : Binary64 → Binary64
  | .nan => .nan
  | .infinite negative => .infinite !negative
  | .finite x _ => ofExact (-x)

def add : Binary64 → Binary64 → Binary64
  | .nan, _ | _, .nan => .nan
  | .infinite a, .infinite b => if a = b then .infinite a else .nan
  | .infinite a, .finite _ _ => .infinite a
  | .finite _ _, .infinite b => .infinite b
  | .finite x _, .finite y _ => ofExact (x + y)

def sub (a b : Binary64) : Binary64 := add a (neg b)

/-- an infinity times something else -/
def infiniteMul (a : Bool) (x : ℚ) : Binary64 := if x = 0 then .nan else .infinite (a != decide (x < 0))

def mul : Binary64 → Binary64 → Binary64
  | .nan, _ | _, .nan => .nan
  | .infinite a, .infinite b => .infinite (a != b)
  | .infinite a, .finite y _ => infiniteMul a y
  | .finite x _, .infinite b => infiniteMul b x
  | .finite x _, .finite y _ => ofExact (x * y)

/-- division; a zero below is taken for +0 -/
def div : Binary64 → Binary64 → Binary64
  | .nan, _ | _, .nan => .nan
  | .infinite _, .infinite _ => .nan
  | .infinite a, .finite y _ => .infinite (a != decide (y < 0))
  | .finite _ _, .infinite _ => ofExact 0
  | .finite x _, .finite y _ => if y = 0 then (if x = 0 then .nan else .infinite (x < 0)) else ofExact (x / y)

/-- `a < b`: false as soon as one side is not a number -/
def lt : Binary64 → Binary64 → Bool
  | .nan, _ | _, .nan => false
  | .infinite a, .infinite b => a && !b
  | .infinite a, .finite _ _ => a
  | .finite _ _, .infinite b => !b
  | .finite x _, .finite y _ => x < y

instance : Neg Binary64 := ⟨neg⟩
instance : Add Binary64 := ⟨add⟩
instance : Sub Binary64 := ⟨sub⟩
instance : Mul Binary64 := ⟨mul⟩
instance : Div Binary64 := ⟨div⟩
instance : LT Binary64 := ⟨fun a b => lt a b = true⟩
instance : DecidableLT Binary64 := fun a b => inferInstanceAs (Decidable (lt a b = true))

/-- `floor(a)` -/
def floor : Binary64 → Binary64
  | .finite x _ => ofExact ⌊x⌋
  | a => a

/-- `(int)a`; undefined if the integer does not fit -/
def toInt32 : Binary64 → Option ℤ
  | .finite x _ => if -2 ^ 31 ≤ truncate x ∧ truncate x < 2 ^ 31 then some (truncate x) else none
  | _ => none

/-! ## Reading -/

def hexDigit (c : Char) : ℕ := if c.isDigit then c.toNat - '0'.toNat else c.toLower.toNat - 'a'.toNat + 10

def hexDigits (t : Text) : ℕ := t.foldl (fun n c => 16 * n + hexDigit c) 0

/-- hexadecimal digits with a fraction and a binary exponent -/
def readHex (t : Text) : ℚ :=
  let mantissa := t.takeWhile (·.toLower ≠ 'p')
  let exponent := (t.dropWhile (·.toLower ≠ 'p')).tail
  let whole := mantissa.takeWhile (· ≠ '.')
  let frac := (mantissa.dropWhile (· ≠ '.')).tail
  let scale : ℚ := 2 ^ digits (dropSign exponent)
  hexDigits (whole ++ frac) / 16 ^ frac.length * if exponent.head? = some '-' then 1 / scale else scale

/-- the value of a number in a text, without its sign -/
def magnitude (t : Text) : Binary64 :=
  if (t.map Char.toLower).head? = some 'i' then .infinite false
  else if (t.map Char.toLower).head? = some 'n' then .nan
  else if (t.map Char.toLower).take 2 = ['0', 'x'] then ofExact (readHex (t.drop 2))
  else ofExact (atof t)

/-- `strtod`, of a text that is a number -/
def strtod (item : Text) : Binary64 :=
  if item.head? = some '-' then -magnitude (dropSign item) else magnitude (dropSign item)

/-! ## Adding up -/

/-- a sum that is collected in steps of w -/
def addUp (w c : Binary64) : ℕ → Binary64
  | 0 => c
  | n + 1 => addUp w c n + w

theorem addUp_succ (w c : Binary64) (n : ℕ) : addUp w (c + w) n = addUp w c (n + 1) := by
  induction n with
  | zero => rfl
  | succ n ih =>
    rw [addUp, ih]
    rfl

theorem ofExact_eq {x y : ℚ} (h : nearest x = y) (hy : IsDouble y) : ofExact x = .finite y hy := by
  subst h
  exact dif_pos hy.2

theorem ofExact_of_double {x : ℚ} (h : IsDouble x) : ofExact x = .finite x h := ofExact_eq h.1 h

theorem finite_div {x y : ℚ} (hx : IsDouble x) (hy : IsDouble y) (hne : y ≠ 0) : finite x hx / finite y hy = ofExact (x / y) := by
  change div _ _ = _
  rw [div, if_neg hne]

theorem isDouble_mul {n e : ℤ} (hn : |n| ≤ 2 ^ 53) (he : -1074 ≤ e) (hfits : |(n * 2 ^ e : ℚ)| < 2 ^ 1024) :
    IsDouble (n * 2 ^ e) :=
  ⟨nearest_mul hn he, hfits⟩

theorem isDouble_pow {k : ℤ} (hk : -1074 ≤ k) (hk' : k < 1024) : IsDouble (2 ^ k) := by
  have hone : ((1 : ℤ) : ℚ) * 2 ^ k = 2 ^ k := by rw [Int.cast_one, one_mul]
  have hfits : |((1 : ℤ) : ℚ) * 2 ^ k| < 2 ^ 1024 := by
    rw [hone, abs_of_pos (ulp_pos k), ← zpow_natCast]
    exact zpow_lt_zpow_right₀ (by norm_num) (by exact_mod_cast hk')
  rw [← hone]
  exact isDouble_mul (by norm_num) hk hfits

theorem isDouble_neg_pow {k : ℤ} (hk : -1074 ≤ k) (hk' : k < 1024) : IsDouble (-2 ^ k) := by
  have hone : ((-1 : ℤ) : ℚ) * 2 ^ k = -2 ^ k := by push_cast; ring
  have hfits : |((-1 : ℤ) : ℚ) * 2 ^ k| < 2 ^ 1024 := by
    rw [hone, abs_neg, abs_of_pos (ulp_pos k), ← zpow_natCast]
    exact zpow_lt_zpow_right₀ (by norm_num) (by exact_mod_cast hk')
  rw [← hone]
  exact isDouble_mul (by norm_num) hk hfits

/-- the steps that this section is about: the smallest that move a sum below 2^k -/
structure Step (k : ℤ) (w : ℚ) : Prop where
  low : -1021 ≤ k
  high : k < 1024
  moves : 2 ^ (k - 54) < w
  below : w < 2 ^ (k - 53)
  double : IsDouble w

variable {k : ℤ} {w : ℚ} {a e : Binary64}

/-- what a step does: beyond 2^k nothing -/
theorem add_step (hw : Step k w) {x : ℚ} (hx : IsDouble x) :
    ((x < -2 ^ k ∨ 2 ^ k ≤ x) ∧ finite x hx + finite w hw.double = finite x hx) ∨
      ((-2 ^ k ≤ x ∧ x < 2 ^ k) ∧ ∃ y, ∃ hy : IsDouble y, finite x hx + finite w hw.double = finite y hy ∧
        x + (w - 2 ^ (k - 54)) ≤ y ∧ y ≤ 2 ^ k) := by
  have hnonneg : 0 ≤ w := ((ulp_pos _).trans hw.moves).le
  have hadd (y : ℚ) (hy : IsDouble y) (h : nearest (x + w) = y) : finite x hx + finite w hw.double = finite y hy :=
    ofExact_eq h hy
  rcases lt_or_ge x (-2 ^ k) with hlow | hlow
  · exact .inl ⟨.inl hlow, hadd x hx (stays_of_lt hx.1 hlow hnonneg hw.below)⟩
  rcases lt_or_ge x (2 ^ k) with hhigh | hhigh
  · obtain ⟨hmore, hmost⟩ := advances hw.low hx.1 hlow hhigh hw.moves hw.below
    have hpow : (2 : ℚ) ^ k < 2 ^ 1024 := by
      rw [← zpow_natCast]
      exact zpow_lt_zpow_right₀ (by norm_num) (by exact_mod_cast hw.high)
    have hlarger : x ≤ nearest (x + w) := by linarith [hw.moves]
    have hfits : |nearest (x + w)| < 2 ^ 1024 :=
      abs_lt.2 ⟨(neg_lt_neg hpow).trans_le (hlow.trans hlarger), hmost.trans_lt hpow⟩
    exact .inr ⟨⟨hlow, hhigh⟩, _, ⟨nearest_nearest _, hfits⟩, hadd _ _ rfl, hmore, hmost⟩
  · exact .inl ⟨.inr hhigh, hadd x hx (stays_of_ge hx.1 hhigh hnonneg hw.below)⟩

/-- a sum never gets smaller -/
theorem add_step_not_lt (hw : Step k w) (h : ¬ a < e) : ¬ a + finite w hw.double < e := by
  cases a with
  | nan => exact h
  | infinite negative => exact h
  | finite x hx =>
    rcases add_step hw hx with ⟨-, hsame⟩ | ⟨-, y, hy, hmore, hle, -⟩
    · rwa [hsame]
    · rw [hmore]
      cases e with
      | nan => exact h
      | infinite negative => exact h
      | finite z hz =>
        intro hlt
        have hyz : y < z := of_decide_eq_true hlt
        have hxz : x < z := by linarith [hw.moves]
        exact h (decide_eq_true hxz)

theorem addUp_not_lt (hw : Step k w) {n m : ℕ} (hnm : n ≤ m) (h : ¬ addUp (finite w hw.double) a n < e) :
    ¬ addUp (finite w hw.double) a m < e := by
  induction hnm with
  | refl => exact h
  | step _ ih => exact add_step_not_lt hw ih

/-- a sum that begins below -2^k stays there, and one that may go beyond 2^k stops at it -/
theorem addUp_stays (hw : Step k w) (hlt : a < e) (hfar : a < ofExact (-2 ^ k) ∨ ofExact (2 ^ k) < e) (n : ℕ) :
    addUp (finite w hw.double) a n < e := by
  rw [ofExact_of_double (isDouble_pow (by linarith [hw.low]) hw.high),
    ofExact_of_double (isDouble_neg_pow (by linarith [hw.low]) hw.high)] at hfar
  rcases hfar with hfar | hfar
  · have hsame : a + finite w hw.double = a := by
      cases a with
      | nan => rfl
      | infinite negative => rfl
      | finite x hx =>
        have hx' : x < -2 ^ k := of_decide_eq_true hfar
        rcases add_step hw hx with ⟨-, hsame⟩ | ⟨⟨hlow, -⟩, -⟩
        · exact hsame
        · exact absurd hx' (not_lt.2 hlow)
    have hall : addUp (finite w hw.double) a n = a := by
      induction n with
      | zero => rfl
      | succ n ih => rw [addUp, ih, hsame]
    rwa [hall]
  · induction n with
    | zero => exact hlt
    | succ n ih =>
      rw [addUp]
      cases hb : addUp (finite w hw.double) a n with
      | nan => rw [hb] at ih; exact ih
      | infinite negative => rw [hb] at ih; exact ih
      | finite x hx =>
        rcases add_step hw hx with ⟨-, hsame⟩ | ⟨-, y, hy, hmore, -, hmost⟩
        · rwa [hsame, ← hb]
        · rw [hmore]
          cases e with
          | nan => exact hfar
          | infinite negative => exact hfar
          | finite z hz => exact decide_eq_true (hmost.trans_lt (of_decide_eq_true hfar))

/-- a sum between -2^k and 2^k goes on and on -/
theorem addUp_grows (hw : Step k w) {x z : ℚ} (hx : IsDouble x) (hz : IsDouble z) (hlow : -2 ^ k ≤ x) (hhigh : z ≤ 2 ^ k)
    (hbelow : ∀ n, addUp (finite w hw.double) (finite x hx) n < finite z hz) (n : ℕ) :
    ∃ y, ∃ hy : IsDouble y, addUp (finite w hw.double) (finite x hx) n = finite y hy ∧ x + n * (w - 2 ^ (k - 54)) ≤ y ∧ y < z := by
  have hgap : 0 < w - 2 ^ (k - 54) := sub_pos.2 hw.moves
  induction n with
  | zero => exact ⟨x, hx, rfl, by simp, of_decide_eq_true (hbelow 0)⟩
  | succ n ih =>
    obtain ⟨y, hy, hcur, hle, hlt⟩ := ih
    have hstart : x ≤ y := le_trans (le_add_of_nonneg_right (mul_nonneg n.cast_nonneg hgap.le)) hle
    have hnext := hbelow (n + 1)
    rw [addUp, hcur] at hnext ⊢
    rcases add_step hw hy with ⟨hout, -⟩ | ⟨-, y', hy', hmore, hstep, -⟩
    · rcases hout with hout | hout
      · exact absurd hout (not_lt.2 (hlow.trans hstart))
      · exact absurd (hlt.trans_le hhigh) (not_lt.2 hout)
    · rw [hmore] at hnext ⊢
      refine ⟨y', hy', rfl, ?_, of_decide_eq_true hnext⟩
      push_cast
      linarith

/-- **A sum gets past e** exactly if it begins at -2^k or later and e is 2^k or before, if it has to move at all. -/
theorem addUp_ends_iff (hw : Step k w) :
    (∃ n, ¬ addUp (finite w hw.double) a n < e) ↔ (a < e → ¬ a < ofExact (-2 ^ k) ∧ ¬ ofExact (2 ^ k) < e) := by
  constructor
  · rintro ⟨n, hn⟩ hlt
    constructor
    · exact fun hfar => hn (addUp_stays hw hlt (.inl hfar) n)
    · exact fun hfar => hn (addUp_stays hw hlt (.inr hfar) n)
  · intro h
    by_cases hlt : a < e
    swap
    · exact ⟨0, hlt⟩
    obtain ⟨hlow, hhigh⟩ := h hlt
    rw [ofExact_of_double (isDouble_neg_pow (by linarith [hw.low]) hw.high)] at hlow
    rw [ofExact_of_double (isDouble_pow (by linarith [hw.low]) hw.high)] at hhigh
    by_contra hnever
    push Not at hnever
    cases a with
    | nan => exact Bool.false_ne_true hlt
    | infinite negative =>
      cases negative
      · cases e <;> exact Bool.false_ne_true hlt
      · exact hlow rfl
    | finite x hx =>
      cases e with
      | nan => exact Bool.false_ne_true hlt
      | infinite negative =>
        cases negative
        · exact hhigh rfl
        · exact Bool.false_ne_true hlt
      | finite z hz =>
        have hlow' : -2 ^ k ≤ x := not_lt.1 fun h => hlow (decide_eq_true h)
        have hhigh' : z ≤ 2 ^ k := not_lt.1 fun h => hhigh (decide_eq_true h)
        -- the sum would grow without an end below z
        obtain ⟨n, hn⟩ := exists_nat_gt ((z - x) / (w - 2 ^ (k - 54)))
        obtain ⟨y, -, -, hle, hyz⟩ := addUp_grows hw hx hz hlow' hhigh' hnever n
        rw [div_lt_iff₀ (sub_pos.2 hw.moves)] at hn
        linarith

end Binary64

end Rubbos.Core
