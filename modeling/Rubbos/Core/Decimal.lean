/-
Decimal numbers in texts, read exactly.

`readDecimal` is the part that C's `strtod` and Java's `Double.parseDouble` have in common: a sign, digits with a fraction
and an exponent. `atof` reads the longest such number at the front of a text and ignores the rest. The hexadecimal
numbers, infinities and NaNs of C are left out, and nothing is rounded.

- `readDecimal_digits`, `atof_digits`: a text of digits has its value.
- `readDecimal_point`: so has one with a point.
-/
import Mathlib.Data.List.TakeWhile
import Rubbos.Core.Text

namespace Rubbos.Core

/-- the text without its sign -/
def dropSign (s : Text) : Text := if s.head? = some '-' ∨ s.head? = some '+' then s.tail else s

/-- the power of ten of an exponent, 1 if there is none, and the rest of the text -/
def readExponent (s : Text) : ℚ × Text :=
  let ds := (dropSign s.tail).takeWhile Char.isDigit
  if (s.head? = some 'e' ∨ s.head? = some 'E') ∧ ds ≠ [] then
    (if s.tail.head? = some '-' then 1 / 10 ^ digits ds else 10 ^ digits ds, (dropSign s.tail).dropWhile Char.isDigit)
  else (1, s)

/-- digits and a fraction, one of them not empty, and the rest of the text -/
def readMantissa (s : Text) : Option (ℚ × Text) :=
  let whole := s.takeWhile Char.isDigit
  let t := s.dropWhile Char.isDigit
  let frac := if t.head? = some '.' then t.tail.takeWhile Char.isDigit else []
  let t := if t.head? = some '.' then t.tail.dropWhile Char.isDigit else t
  if whole = [] ∧ frac = [] then none else some (digits (whole ++ frac) / 10 ^ frac.length, t)

/-- a number at the front of a text, and the rest of the text -/
def readDecimal (s : Text) : Option (ℚ × Text) :=
  (readMantissa (dropSign s)).map fun (v, t) =>
    ((if s.head? = some '-' then -v else v) * (readExponent t).1, (readExponent t).2)

/-- `atof(s)`: 0 if there is no number -/
def atof (s : Text) : ℚ := ((readDecimal (s.dropWhile isSpace)).map (·.1)).getD 0

theorem head_ne_sign {t : Text} (ht : ∀ c ∈ t, c.isDigit) : t.head? ≠ some '-' ∧ t.head? ≠ some '+' := by
  constructor
  · intro h
    exact absurd (ht '-' (List.mem_of_head? h)) (by decide)
  · intro h
    exact absurd (ht '+' (List.mem_of_head? h)) (by decide)

theorem dropSign_digits {t : Text} (ht : ∀ c ∈ t, c.isDigit) : dropSign t = t := by
  simp [dropSign, head_ne_sign ht]

theorem readMantissa_digits {t : Text} (hne : t ≠ []) (ht : ∀ c ∈ t, c.isDigit) :
    readMantissa t = some ((digits t : ℚ), []) := by
  have htake : t.takeWhile Char.isDigit = t := List.takeWhile_eq_self_iff.2 ht
  have hdrop : t.dropWhile Char.isDigit = [] := List.dropWhile_eq_nil_iff.2 ht
  simp [readMantissa, htake, hdrop, hne]

theorem readDecimal_digits {t : Text} (hne : t ≠ []) (ht : ∀ c ∈ t, c.isDigit) :
    readDecimal t = some ((digits t : ℚ), []) := by
  rw [readDecimal, dropSign_digits ht, readMantissa_digits hne ht]
  simp [readExponent, (head_ne_sign ht).1]

theorem readMantissa_point {w f : Text} (hne : w ≠ []) (hw : ∀ c ∈ w, c.isDigit) (hf : ∀ c ∈ f, c.isDigit) :
    readMantissa (w ++ '.' :: f) = some ((digits (w ++ f) : ℚ) / 10 ^ f.length, []) := by
  have htake : (w ++ '.' :: f).takeWhile Char.isDigit = w := by
    rw [List.takeWhile_append_of_pos hw]
    simp
  have hdrop : (w ++ '.' :: f).dropWhile Char.isDigit = '.' :: f := by
    rw [List.dropWhile_append_of_pos hw]
    rfl
  have hfTake : f.takeWhile Char.isDigit = f := List.takeWhile_eq_self_iff.2 hf
  have hfDrop : f.dropWhile Char.isDigit = [] := List.dropWhile_eq_nil_iff.2 hf
  simp [readMantissa, htake, hdrop, hfTake, hfDrop, hne]

/-- digits with a point and a fraction -/
theorem readDecimal_point {w f : Text} (hne : w ≠ []) (hw : ∀ c ∈ w, c.isDigit) (hf : ∀ c ∈ f, c.isDigit) :
    readDecimal (w ++ '.' :: f) = some ((digits (w ++ f) : ℚ) / 10 ^ f.length, []) := by
  obtain ⟨c, t, rfl⟩ := List.exists_cons_of_ne_nil hne
  have hsign := head_ne_sign hw
  have hdrop : dropSign (c :: t ++ '.' :: f) = c :: t ++ '.' :: f := by
    unfold dropSign
    rw [if_neg]
    simpa using hsign
  have hminus : c ≠ '-' := by simpa using hsign.1
  rw [readDecimal, hdrop, readMantissa_point (List.cons_ne_nil c t) hw hf]
  simp [readExponent, hminus]

theorem atof_digits {t : Text} (ht : ∀ c ∈ t, c.isDigit) : atof t = digits t := by
  rcases t with _ | ⟨c, t⟩
  · simp [atof, readDecimal, readMantissa, dropSign, digits]
  · have hc : isSpace c = false := isSpace_eq_false_of_isNumChar (by simp [isNumChar, ht c List.mem_cons_self])
    have hdrop : (c :: t).dropWhile isSpace = c :: t := by simp [hc]
    rw [atof, hdrop, readDecimal_digits (List.cons_ne_nil c t) ht]
    rfl

@[simp] theorem atof_natText (n : ℕ) : atof (natText n) = n := by
  rw [atof_digits fun c hc => isDigit_of_mem_natText hc, digits_natText]

end Rubbos.Core
