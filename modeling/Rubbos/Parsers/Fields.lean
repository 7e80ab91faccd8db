/-
The functions that the C++ log parsers share (`getID`, `getCategory` and `getTimeInterval`, the same text in
Clientparser.cpp, Apacheparser.cpp, Tomcatparser.cpp and, for the last one, CJDBCparser.cpp).

A line is the string `fgets` left in `str`. `getID` clears all of its buffer, so that what it returns is a text; the other
field functions are `CLib.getField` with their key, on buffers that keep old bytes. `getCategory` walks back from the
first '?' to a '.', and is undefined where there is none or where the category does not fit its buffer.
`getTimeInterval` subtracts two decimal strings from the right, digit by digit, with as many digits as the second has.

- `getID_found`, `getCategory_found`: what they return for a line of the expected form.
- `getID_cut`: when the id of a line comes back whole, for a line of any length.
- `subDigits_spec`, `getTimeInterval_eq`: the subtraction, for two numbers with the same number of digits.
-/
import Rubbos.Core.CLib
import Rubbos.Core.LineLoop

namespace Rubbos.Parsers

open Rubbos.Core CLib

/-! ## Model -/

def max_line_length : ℕ := 10000
def max_id_length : ℕ := 20
def max_timestamp_length : ℕ := 50
def max_category_length : ℕ := 30

abbrev TimeBuf := CArray max_timestamp_length

def urlIDMark : Text := ['u', 'r', 'l', 'I', 'D', '=']

/-- the copy loop of `getID` stops at a blank or a line end, and cuts after 19 characters -/
def idText (t : Text) : Text := (t.takeWhile fun c => c ≠ ' ' && c ≠ '\n').take (max_id_length - 1)

/-- `getID(str, id)`: the id, if the key is found -/
def getID (str : Text) : Option Text := (strstr urlIDMark str).map fun t => idText (t.drop 6)

/-- the characters behind the last '.' -/
def afterDot (s : Text) : Text := (s.reverse.takeWhile (· ≠ '.')).reverse

/-- `getCategory(str, category)` -/
def getCategory (str : Text) : Option Text :=
  (find ['?'] str).bind fun i =>
    if '.' ∈ str.take i ∧ (afterDot (str.take i)).length < max_category_length then some (afterDot (str.take i)) else none

/-- the value of a `char` -/
def schar (c : Char) : ℤ := if c.toNat % 256 < 128 then (c.toNat % 256 : ℕ) else (c.toNat % 256 : ℕ) - 256

/-- how often `while (tmp < 0) { tmp = tmp + 10; carry = carry + 1; }` runs -/
def borrows (tmp : ℤ) : ℕ := ((9 - tmp) / 10).toNat

/-- the loop of `getTimeInterval` over two strings of the same length, from the right: the carry and the digits -/
def subDigits : Text → Text → ℤ × Text
  | c₁ :: t₁, c₂ :: t₂ =>
    let (carry, ds) := subDigits t₁ t₂
    let tmp := schar c₂ - schar c₁ - carry
    (borrows tmp, Char.ofNat ((tmp + 10 * borrows tmp + 48) % 256).toNat :: ds)
  | _, _ => (0, [])

/-- `getTimeInterval(time1, time2, rt)`: the string written to rt; as many bytes of time1 are read as time2 is long -/
def getTimeInterval (time1 time2 : TimeBuf) : Option Text :=
  (cstr time2).bind fun t₂ => (peek t₂.length time1).map fun t₁ => (subDigits t₁ t₂).2

/-- what a record of a database call is printed from: the time before the call and the time of the call, in ns -/
structure DBRecord where
  id : Text
  timestamp : Text
  exet : Text
  rt : Text
  category : Text
deriving DecidableEq, Repr

/-- `if (getX(str, x) == false) { printf(...); break; }`: report an error if the field is missing, else go on -/
def require {σ ω : Type} (r : Option (Bool × TimeBuf)) (miss : TimeBuf → σ)
    (next : TimeBuf → Option (σ × Outcome ω)) : Option (σ × Outcome ω) :=
  match r with
  | none => none
  | some (false, b) => some (miss b, .error)
  | some (true, b) => next b

/-- the key occurs in the line -/
def hasKey (key str : Text) : Bool := (strstr key str).isSome

/-! ## Required fields -/

section

variable {σ ω : Type} {R : σ → σ → Prop} {key str : Text} {b b' : TimeBuf} {miss miss' : TimeBuf → σ}
  {next next' : TimeBuf → Option (σ × Outcome ω)}

theorem follows_require (hb : Refines b b') (hmiss : ∀ c c', Refines c c' → R (miss c) (miss' c'))
    (hnext : ∀ c c', Refines c c' → Follows R (next c) (next' c')) :
    Follows R (require (getField key str b) miss next) (require (getField key str b') miss' next') := by
  intro t o h
  unfold require at h ⊢
  cases hg : getField key str b with
  | none => simp [hg] at h
  | some r =>
    obtain ⟨ok, c⟩ := r
    obtain ⟨c', hc', href⟩ := getField_refines hb hg
    rw [hg] at h
    rw [hc']
    cases ok with
    | false => exact Follows.some (hmiss c c' href) .error t o h
    | true => exact hnext c c' href t o h

theorem getField_ok {n : ℕ} {a a' : CArray n} {ok : Bool} (h : getField key str a = some (ok, a')) : ok = hasKey key str := by
  unfold getField at h
  unfold hasKey
  split at h
  · rename_i hs
    cases h
    simp [hs]
  · rename_i u hs
    simp only [Option.map_eq_some_iff, Prod.mk.injEq] at h
    obtain ⟨_, _, rfl, _⟩ := h
    simp [hs]

theorem classified_require {error silent : Bool} (hmiss : hasKey key str = false → error = true ∧ silent = false)
    (hnext : hasKey key str = true → ∀ c, Classified error silent (next c)) :
    Classified error silent (require (getField key str b) miss next) := by
  intro t o h
  unfold require at h
  cases hg : getField key str b with
  | none => simp [hg] at h
  | some r =>
    obtain ⟨ok, c⟩ := r
    have hok := getField_ok hg
    rw [hg] at h
    cases ok with
    | false =>
      obtain ⟨rfl, rfl⟩ := hmiss hok.symm
      exact Classified.error (miss c) t o h
    | true => exact hnext hok.symm c t o h

end

/-! ## Identifiers and categories -/

theorem getID_eq_none {str : Text} : getID str = none ↔ hasKey urlIDMark str = false := by
  simp [getID, hasKey]

theorem hasKey_of_getID {str id : Text} (h : getID str = some id) : hasKey urlIDMark str = true := by
  by_contra hno
  rw [getID_eq_none.2 (by simpa using hno)] at h
  cases h

theorem idText_word {w rest : Text} (hw : ∀ c ∈ w, isSpace c = false) (hlen : w.length < max_id_length)
    (hr : ∀ c ∈ rest.head?, c = ' ' ∨ c = '\n') : idText (w ++ rest) = w := by
  have htake : (w ++ rest).takeWhile (fun c => c ≠ ' ' && c ≠ '\n') = w := by
    rw [List.takeWhile_append_of_pos]
    · rcases rest with _ | ⟨c, rest⟩
      · simp
      · rcases hr c rfl with rfl | rfl <;> simp
    · intro c hc
      have hc' : isSpace c = false := hw c hc
      simp only [isSpace, decide_eq_false_iff_not] at hc'
      simp only [Bool.and_eq_true, decide_eq_true_eq]
      exact ⟨fun h => hc' (by simp [h]), fun h => hc' (by simp [h])⟩
  unfold idText
  rw [htake]
  exact List.take_of_length_le (by omega)

/-- **The words that are copied**: those that stand at the front, and fill the buffer or end there -/
theorem idText_eq_iff {v w : Text} (hw : ∀ c ∈ w, isSpace c = false) (hlen : w.length < max_id_length) :
    idText v = w ↔ w <+: v ∧ (w.length + 1 = max_id_length ∨ ∀ c ∈ (v.drop w.length).head?, c = ' ' ∨ c = '\n') := by
  constructor
  · intro h
    have hpre : idText v <+: v := (List.take_prefix _ _).trans (List.takeWhile_prefix _)
    refine ⟨h ▸ hpre, ?_⟩
    by_cases hfull : w.length + 1 = max_id_length
    · exact .inl hfull
    · -- nothing was cut off, so the loop has stopped
      right
      have hshort : ((v.takeWhile fun c => c ≠ ' ' && c ≠ '\n')).length ≤ max_id_length - 1 := by
        by_contra hlong
        have htake : (idText v).length = max_id_length - 1 := by
          rw [idText, List.length_take]
          omega
        rw [h] at htake
        omega
      have hall : v.takeWhile (fun c => c ≠ ' ' && c ≠ '\n') = w := by
        rw [← h, idText, List.take_of_length_le hshort]
      intro c hc
      have hdrop : v.drop w.length = v.dropWhile fun c => c ≠ ' ' && c ≠ '\n' := by
        calc v.drop w.length = (w ++ v.dropWhile fun c => c ≠ ' ' && c ≠ '\n').drop w.length := by
              rw [← hall, List.takeWhile_append_dropWhile]
          _ = v.dropWhile fun c => c ≠ ' ' && c ≠ '\n' := List.drop_left
      have hstop := List.head?_dropWhile_not (fun c : Char => c ≠ ' ' && c ≠ '\n') v
      rw [hdrop] at hc
      rw [Option.mem_def.1 hc] at hstop
      by_cases hblank : c = ' '
      · exact .inl hblank
      · exact .inr (by simpa [hblank] using hstop)
  · intro ⟨⟨r, hr⟩, hend⟩
    subst hr
    rcases hend with hfull | hstop
    · have hstay : (w ++ r).takeWhile (fun c => c ≠ ' ' && c ≠ '\n') = w ++ r.takeWhile fun c => c ≠ ' ' && c ≠ '\n' := by
        refine List.takeWhile_append_of_pos fun c hc => ?_
        have hc' : isSpace c = false := hw c hc
        simp only [isSpace, decide_eq_false_iff_not] at hc'
        simp only [Bool.and_eq_true, decide_eq_true_eq]
        exact ⟨fun h => hc' (by simp [h]), fun h => hc' (by simp [h])⟩
      rw [idText, hstay]
      exact List.take_left' (by omega)
    · rw [List.drop_left] at hstop
      exact idText_word hw hlen hstop

/-- an id that is there, and fits, is returned -/
theorem getID_found {str w rest : Text} (hf : strstr urlIDMark str = some (urlIDMark ++ (w ++ rest)))
    (hw : ∀ c ∈ w, isSpace c = false) (hlen : w.length < max_id_length)
    (hr : ∀ c ∈ rest.head?, c = ' ' ∨ c = '\n') : getID str = some w := by
  have hdrop : (urlIDMark ++ (w ++ rest)).drop 6 = w ++ rest := rfl
  simp [getID, hf, hdrop, idText_word hw hlen hr]

section

variable {line w rest : Text} {i : ℕ} (hf : find urlIDMark line = some i) (hw : ∀ c ∈ w, isSpace c = false)
  (hlen : w.length < max_id_length)

include hf hw hlen

/-- the id of a line that is read with its end -/
theorem getID_whole :
    getID (line ++ ['\n']) = some w ↔ w <+: line.drop (i + 6) ∧
      (w.length + 1 = max_id_length ∨ ∀ c ∈ (line.drop (i + 6 + w.length)).head?, c = ' ' ∨ c = '\n') := by
  have hnl : '\n' ∉ w := fun h => absurd (hw _ h) (by decide)
  have hin : i + 6 ≤ line.length := by
    obtain ⟨hi, hk, -⟩ := find_eq_some hf
    have hle : 6 ≤ (line.drop i).length := hk.length_le
    rw [List.length_drop] at hle
    omega
  have happ : (line ++ ['\n']).drop (i + 6) = line.drop (i + 6) ++ ['\n'] := List.drop_append_of_le_length hin
  have hid : getID (line ++ ['\n']) = some (idText (line.drop (i + 6) ++ ['\n'])) := by
    simp only [getID, strstr, find_append_left hf, Option.map_some, List.drop_drop, happ]
  have hpre : w <+: line.drop (i + 6) ++ ['\n'] ↔ w <+: line.drop (i + 6) :=
    ⟨prefix_of_prefix_cons hnl, fun h => h.trans (List.prefix_append _ _)⟩
  have hdrop : line.drop (i + 6 + w.length) = (line.drop (i + 6)).drop w.length := by rw [List.drop_drop]
  rw [hid, Option.some.injEq, idText_eq_iff hw hlen, hpre, hdrop]
  refine and_congr_right fun hw' => or_congr_right ?_
  rw [List.drop_append_of_le_length hw'.length_le]
  cases (line.drop (i + 6)).drop w.length with
  | nil => simp
  | cons c r => simp

/-- the id of a line that is cut -/
theorem getID_take {m : ℕ} :
    getID (line.take m) = some w ↔ w <+: line.drop (i + 6) ∧ i + 6 + w.length ≤ m ∧
      (w.length + 1 = max_id_length ∨ i + 6 + w.length = m ∨
        ∀ c ∈ (line.drop (i + 6 + w.length)).head?, c = ' ' ∨ c = '\n') := by
  by_cases hcut : i + 6 ≤ m
  · have hf' : find urlIDMark (line.take m) = some i := find_take.2 ⟨hf, hcut⟩
    have hid : getID (line.take m) = some (idText ((line.drop (i + 6)).take (m - (i + 6)))) := by
      simp only [getID, strstr, hf', Option.map_some, List.drop_drop, List.drop_take, Nat.sub_sub]
    have hdrop : line.drop (i + 6 + w.length) = (line.drop (i + 6)).drop w.length := by rw [List.drop_drop]
    rw [hid, Option.some.injEq, idText_eq_iff hw hlen, List.prefix_take_iff, and_assoc, hdrop]
    refine and_congr_right fun _ => ?_
    rw [show w.length ≤ m - (i + 6) ↔ i + 6 + w.length ≤ m by omega]
    refine and_congr_right fun hle => or_congr_right ?_
    rw [List.drop_take]
    by_cases hlast : i + 6 + w.length = m
    · simp [hlast, show m - (i + 6) - w.length = 0 by omega]
    · rw [List.head?_take, if_neg (by omega)]
      simp [hlast]
  · have hid : getID (line.take m) = none := by
      rw [getID, Option.map_eq_none_iff, strstr, Option.map_eq_none_iff]
      cases hf' : find urlIDMark (line.take m) with
      | none => rfl
      | some j =>
        obtain ⟨hj, hle⟩ := find_take.1 hf'
        cases hf.symm.trans hj
        exact absurd hle hcut
    rw [hid]
    constructor
    · intro h
      cases h
    · intro h
      omega

/-- **An id read back**, for a line of any length: the word behind the first key comes back if it is within what `fgets` reads,
and ends there with a blank, with the buffer of the id or with what `fgets` reads -/
theorem getID_cut (hline : '\n' ∉ line) :
    getID (fgets (max_line_length - 1) (line ++ '\n' :: rest)).1 = some w ↔
      w <+: line.drop (i + 6) ∧ i + 6 + w.length < max_line_length ∧
        (w.length + 1 = max_id_length ∨ i + 6 + w.length + 1 = max_line_length ∨
          ∀ c ∈ (line.drop (i + 6 + w.length)).head?, c = ' ' ∨ c = '\n') := by
  rw [fgets_cut hline]
  split_ifs with hshort
  · rw [getID_whole hf hw hlen]
    refine and_congr_right fun hpre => ?_
    have hle := hpre.length_le
    rw [List.length_drop] at hle
    have hin : i + 6 + w.length + 1 < max_line_length := by
      obtain ⟨hi, hk, -⟩ := find_eq_some hf
      have hmark : 6 ≤ (line.drop i).length := hk.length_le
      rw [List.length_drop] at hmark
      omega
    constructor
    · intro h
      exact ⟨by omega, h.imp_right .inr⟩
    · intro ⟨_, h⟩
      exact h.imp_right fun h => h.resolve_left (by omega)
  · rw [getID_take hf hw hlen]
    have hmax : 0 < max_line_length := by decide
    refine and_congr_right fun _ => and_congr (by omega) (or_congr_right (or_congr_left (by omega)))

end

theorem afterDot_append {a w : Text} (hw : '.' ∉ w) : afterDot (a ++ '.' :: w) = w := by
  unfold afterDot
  have h : (a ++ '.' :: w).reverse = w.reverse ++ '.' :: a.reverse := by simp
  rw [h, List.takeWhile_append_of_pos]
  · simp
  · intro c hc
    simp only [List.mem_reverse] at hc
    simp only [decide_eq_true_eq]
    exact fun h => hw (h ▸ hc)

/-- the category stands between the last '.' and the first '?' -/
theorem getCategory_found {a w b : Text} (ha : '?' ∉ a) (hw : '?' ∉ w) (hd : '.' ∉ w) (hlen : w.length < max_category_length) :
    getCategory (a ++ '.' :: w ++ '?' :: b) = some w := by
  have hq : '?' ∉ a ++ '.' :: w := by simp [ha, hw]
  have hf : find ['?'] (a ++ '.' :: w ++ '?' :: b) = some (a ++ '.' :: w).length :=
    find_cons_here hq List.nil_prefix
  simp only [getCategory, hf, Option.bind_some, List.take_left, afterDot_append hd]
  simp [hlen]

/-- a time that stands behind its key and before a blank is copied -/
theorem getField_time {key str : Text} (tail : Text) {t : ℤ} (ht : IsLong t)
    (hf : strstr key str = some (key ++ (longText t ++ ' ' :: tail))) (b : TimeBuf) :
    ∃ b', getField key str b = some (true, b') ∧ cstr b' = some (longText t) := by
  have hlen : (longText t).length < max_timestamp_length := by
    have := length_longText_le ht
    simp only [max_timestamp_length]
    omega
  exact getField_found hf (longText_ne_nil t) (fun c hc => isSpace_of_mem_longText hc) (notMem_longText (by decide))
    (by simp [isSpace]) hlen b

/-! ## Subtraction -/

theorem digits_cons (c : Char) (t : Text) : digits (c :: t) = (c.toNat - 48) * 10 ^ t.length + digits t := by
  unfold digits
  rw [Nat.ofDigitChars_cons, Nat.ofDigitChars_eq_ofDigitChars_zero]
  have : '0'.toNat = 48 := by decide
  rw [this]
  ring

theorem toNat_of_isDigit {c : Char} (h : c.isDigit) : 48 ≤ c.toNat ∧ c.toNat ≤ 57 := by
  simp only [Char.isDigit, Bool.and_eq_true, decide_eq_true_eq, UInt32.le_iff_toNat_le, ge_iff_le] at h
  exact h

theorem schar_of_isDigit {c : Char} (h : c.isDigit) : schar c = c.toNat := by
  have := toNat_of_isDigit h
  have h1 : c.toNat % 256 = c.toNat := by omega
  simp only [schar, h1]
  rw [if_pos (by omega)]

theorem digits_lt {t : Text} (h : ∀ c ∈ t, c.isDigit) : digits t < 10 ^ t.length := by
  induction t with
  | nil => simp [digits]
  | cons c t ih =>
    have hc := toNat_of_isDigit (h c List.mem_cons_self)
    have ht := ih fun c hc => h c (List.mem_cons_of_mem _ hc)
    rw [digits_cons, List.length_cons, pow_succ]
    have : (c.toNat - 48) * 10 ^ t.length ≤ 9 * 10 ^ t.length := Nat.mul_le_mul_right _ (by omega)
    omega

/-- the digit written for a difference, and the carry -/
theorem borrows_digit {a b carry : ℤ} (ha : 48 ≤ a ∧ a ≤ 57) (hb : 48 ≤ b ∧ b ≤ 57) (hc : carry = 0 ∨ carry = 1) :
    (borrows (b - a - carry) = 0 ∨ borrows (b - a - carry) = 1) ∧
      0 ≤ b - a - carry + 10 * borrows (b - a - carry) ∧ b - a - carry + 10 * borrows (b - a - carry) ≤ 9 := by
  unfold borrows
  omega

theorem digit_ofNat {d : ℤ} (h : 0 ≤ d ∧ d ≤ 9) :
    (Char.ofNat ((d + 48) % 256).toNat).isDigit ∧ ((Char.ofNat ((d + 48) % 256).toNat).toNat - 48 : ℕ) = d := by
  obtain ⟨h0, h9⟩ := h
  interval_cases d <;> decide

/-- digit by digit subtraction of two strings of n digits: the digits of the difference modulo 10^n, and the borrow -/
theorem subDigits_spec {t₁ t₂ : Text} (h₁ : ∀ c ∈ t₁, c.isDigit) (h₂ : ∀ c ∈ t₂, c.isDigit)
    (hlen : t₁.length = t₂.length) :
    (∀ c ∈ (subDigits t₁ t₂).2, c.isDigit) ∧ (subDigits t₁ t₂).2.length = t₂.length ∧
      ((subDigits t₁ t₂).1 = 0 ∨ (subDigits t₁ t₂).1 = 1) ∧
      (digits t₂ : ℤ) - digits t₁ = digits (subDigits t₁ t₂).2 - (subDigits t₁ t₂).1 * 10 ^ t₂.length := by
  induction t₁ generalizing t₂ with
  | nil =>
    have : t₂ = [] := by simpa [eq_comm] using hlen
    subst this
    simp [subDigits, digits]
  | cons c₁ t₁ ih =>
    rcases t₂ with _ | ⟨c₂, t₂⟩
    · simp at hlen
    · have hlen' : t₁.length = t₂.length := by simpa using hlen
      obtain ⟨hd, hl, hcarry, hval⟩ := ih (fun c hc => h₁ c (List.mem_cons_of_mem _ hc))
        (fun c hc => h₂ c (List.mem_cons_of_mem _ hc)) hlen'
      have hc₁ : c₁.isDigit := h₁ c₁ List.mem_cons_self
      have hc₂ : c₂.isDigit := h₂ c₂ List.mem_cons_self
      have hn₁ := toNat_of_isDigit hc₁
      have hn₂ := toNat_of_isDigit hc₂
      simp only [subDigits, schar_of_isDigit hc₁, schar_of_isDigit hc₂]
      generalize hs : subDigits t₁ t₂ = r at *
      obtain ⟨carry, ds⟩ := r
      simp only at hd hl hcarry hval ⊢
      obtain ⟨hb, hlo, hhi⟩ := borrows_digit (a := c₁.toNat) (b := c₂.toNat) (by omega) (by omega) hcarry
      obtain ⟨hdig, hdigv⟩ := digit_ofNat ⟨hlo, hhi⟩
      refine ⟨?_, by simp [hl], by omega, ?_⟩
      · intro c hc
        rcases List.mem_cons.1 hc with rfl | hc
        · exact hdig
        · exact hd c hc
      · rw [digits_cons, digits_cons, digits_cons, hl, hlen', List.length_cons, pow_succ]
        push_cast [hdigv]
        have e₁ : ((c₁.toNat - 48 : ℕ) : ℤ) = c₁.toNat - 48 := by omega
        have e₂ : ((c₂.toNat - 48 : ℕ) : ℤ) = c₂.toNat - 48 := by omega
        rw [e₁, e₂]
        linear_combination hval

/-- the interval between two times written with the same number of digits -/
theorem getTimeInterval_eq {time1 time2 : TimeBuf} {t₁ t₂ : Text} (e₁ : cstr time1 = some t₁) (e₂ : cstr time2 = some t₂)
    (h₁ : ∀ c ∈ t₁, c.isDigit) (h₂ : ∀ c ∈ t₂, c.isDigit) (hlen : t₁.length = t₂.length) (hle : digits t₁ ≤ digits t₂) :
    ∃ rt, getTimeInterval time1 time2 = some rt ∧ (∀ c ∈ rt, c.isDigit) ∧ digits rt = digits t₂ - digits t₁ := by
  obtain ⟨hd, hl, hcarry, hval⟩ := subDigits_spec h₁ h₂ hlen
  have hpeek : peek t₂.length time1 = some t₁ := hlen ▸ peek_cstr e₁
  refine ⟨(subDigits t₁ t₂).2, by simp [getTimeInterval, e₂, hpeek], hd, ?_⟩
  have hlt : digits (subDigits t₁ t₂).2 < 10 ^ t₂.length := hl ▸ digits_lt hd
  rcases hcarry with hc | hc
  · rw [hc] at hval
    omega
  · rw [hc] at hval
    have : (digits (subDigits t₁ t₂).2 : ℤ) < 10 ^ t₂.length := by exact_mod_cast hlt
    omega

theorem getTimeInterval_refines {a a' b b' : TimeBuf} (ha : Refines a a') (hb : Refines b b') {rt : Text}
    (h : getTimeInterval a b = some rt) : getTimeInterval a' b' = some rt := by
  simp only [getTimeInterval, Option.bind_eq_some_iff, Option.map_eq_some_iff] at h ⊢
  obtain ⟨t₂, h₂, t₁, h₁, rfl⟩ := h
  exact ⟨t₂, cstr_refines hb h₂, t₁, peek_refines ha h₁, rfl⟩

end Rubbos.Parsers
