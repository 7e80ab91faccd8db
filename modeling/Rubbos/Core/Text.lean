/-
Texts and the decimal texts of numbers.

A text is a list of characters. `natText` and `longText` are what string concatenation appends for a number. What later
modules need to know of them is which characters they have (digits and '-'), how long they are, and that a number can
be read back (`digits_natText`).
-/
import Mathlib.Tactic

namespace Rubbos.Core

abbrev Text := List Char

/-- decided on the characters of the text, not on all characters -/
instance (priority := high) decidableOnText {p : Char → Prop} [DecidablePred p] (t : Text) : Decidable (∀ c ∈ t, p c) :=
  List.decidableBAll p t

instance (priority := high) decidableMemTexts (t : Text) (l : List Text) : Decidable (t ∈ l) :=
  List.instDecidableMemOfLawfulBEq t l

/-- the decimal text of a natural number -/
def natText (n : ℕ) : Text := Nat.toDigits 10 n

/-- the decimal text of a Java int or long -/
def longText (n : ℤ) : Text := if n < 0 then '-' :: natText n.natAbs else natText n.natAbs

/-- the value of a run of digits -/
def digits (t : Text) : ℕ := Nat.ofDigitChars 10 t 0

/-- the values of a Java long -/
def IsLong (n : ℤ) : Prop := -2 ^ 63 ≤ n ∧ n < 2 ^ 63

instance (n : ℤ) : Decidable (IsLong n) := inferInstanceAs (Decidable (-2 ^ 63 ≤ n ∧ n < 2 ^ 63))

/-- what both C's `isspace` and Java's regular expression \s accept -/
def isSpace (c : Char) : Bool := c ∈ [' ', '\t', '\n', '\x0b', '\x0c', '\r']

/-- a class of characters contains none of a list of characters it rejects -/
theorem notMem_of_class {P : Char → Bool} {l : List Char} (hl : l.all fun x => !P x) {c : Char} (hc : P c) : c ∉ l := by
  intro h
  have := List.all_eq_true.1 hl c h
  simp [hc] at this

/-! ## Characters of a number -/

theorem isDigit_of_mem_natText {n : ℕ} {c : Char} (h : c ∈ natText n) : c.isDigit :=
  Nat.isDigit_of_mem_toDigits (by decide) (by decide) h

theorem natText_ne_nil (n : ℕ) : natText n ≠ [] := Nat.toDigits_ne_nil

@[simp] theorem digits_natText (n : ℕ) : digits (natText n) = n := Nat.ofDigitChars_ten_toDigits

theorem notMem_natText {n : ℕ} {c : Char} (hc : c.isDigit = false) : c ∉ natText n := by
  intro h
  have := isDigit_of_mem_natText h
  simp [hc] at this

theorem longText_ne_nil (n : ℤ) : longText n ≠ [] := by
  unfold longText
  split_ifs
  · simp
  · exact natText_ne_nil _

theorem longText_natCast (n : ℕ) : longText n = natText n := by
  rw [longText, if_neg (by omega), Int.natAbs_natCast]

theorem longText_injective {a b : ℤ} (h : longText a = longText b) : a = b := by
  have hsign : ∀ {m n : ℕ}, '-' :: natText m ≠ natText n := fun h =>
    absurd (isDigit_of_mem_natText (h ▸ List.mem_cons_self)) (by decide)
  have hnat : ∀ {m n : ℕ}, natText m = natText n → m = n := by
    intro m n h
    rw [← digits_natText m, h, digits_natText]
  unfold longText at h
  split_ifs at h with ha hb hb
  · have := hnat (List.cons.inj h).2
    omega
  · exact absurd h hsign
  · exact absurd h.symm hsign
  · have := hnat h
    omega

/-- the characters a number can have -/
def isNumChar (c : Char) : Bool := c.isDigit || c = '-'

theorem isNumChar_of_mem_longText {n : ℤ} {c : Char} (h : c ∈ longText n) : isNumChar c := by
  unfold longText at h
  split_ifs at h
  · rcases List.mem_cons.1 h with rfl | h
    · decide
    · simp [isNumChar, isDigit_of_mem_natText h]
  · simp [isNumChar, isDigit_of_mem_natText h]

theorem notMem_longText {n : ℤ} {c : Char} (hc : isNumChar c = false) : c ∉ longText n := by
  intro h
  have := isNumChar_of_mem_longText h
  simp [hc] at this

theorem length_natText_le {n k : ℕ} (hk : 0 < k) (h : n < 10 ^ k) : (natText n).length ≤ k :=
  (Nat.length_toDigits_le_iff (by decide) hk).2 h

theorem isSpace_eq_false_of_isNumChar {c : Char} (h : isNumChar c) : isSpace c = false := by
  simpa [isSpace] using notMem_of_class (P := isNumChar) (l := [' ', '\t', '\n', '\x0b', '\x0c', '\r']) (by decide) h

theorem isSpace_of_mem_longText {n : ℤ} {c : Char} (h : c ∈ longText n) : isSpace c = false :=
  isSpace_eq_false_of_isNumChar (isNumChar_of_mem_longText h)

theorem length_natAbs_le {n : ℤ} (h : IsLong n) : (natText n.natAbs).length ≤ 19 :=
  length_natText_le (by decide) (by unfold IsLong at h; omega)

theorem length_longText_le_of_nonneg {n : ℤ} (h : IsLong n) (hn : 0 ≤ n) : (longText n).length ≤ 19 := by
  rw [longText, if_neg (by omega)]
  exact length_natAbs_le h

/-- the text of a long has at most twenty characters -/
theorem length_longText_le {n : ℤ} (h : IsLong n) : (longText n).length ≤ 20 := by
  have hn := length_natAbs_le h
  unfold longText
  split_ifs
  · simp only [List.length_cons]
    omega
  · omega

end Rubbos.Core
