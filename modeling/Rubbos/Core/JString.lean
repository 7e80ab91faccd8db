/-
The methods of Java's String and URLEncoder that the client and the log tools use.

Indices are Java ints: `indexOf` answers -1 when the key is missing, and the callers compute with that value.
`substring` throws unless 0 ≤ start ≤ end ≤ length. `encode` is `URLEncoder.encode(s)`: letters, digits and ".-*_" stay,
a blank becomes '+', every maximal run of other characters is written byte by byte as %XX in the platform's encoding,
which is a parameter. Numbers may be written in the digits of any script that Java 8 knows.

- `parseInt_digits`, `parseInt_minus`: a text of ASCII digits has its value.
- `isEncoded_of_mem_encodeRun`: what an encoded text consists of.
- `infix_of_infix_encodeRun`: a key is not made by encoding.
-/
import Rubbos.Core.Decimal
import Rubbos.Core.Search

namespace Rubbos.Core

/-- the exceptions the modelled Java code can raise -/
inductive Exc where
  | nullPointer
  | stringIndexOutOfBounds
  | arrayIndexOutOfBounds
  | numberFormat
  | illegalArgument
  /-- a loop ran longer than the model was asked to follow it -/
  | outOfFuel
deriving DecidableEq, Repr

namespace JString

/-- `s.indexOf(k)` -/
def indexOf (s k : Text) : ℤ :=
  match find k s with
  | some i => i
  | none => -1

/-- `s.indexOf(k, start)`, for a key that is not empty: a negative start counts as 0 -/
def indexOfFrom (s k : Text) (start : ℤ) : ℤ :=
  match find k (s.drop start.toNat) with
  | some i => start.toNat + i
  | none => -1

/-- `s.substring(i, j)` -/
def substring (s : Text) (i j : ℤ) : Except Exc Text :=
  if 0 ≤ i ∧ i ≤ j ∧ j ≤ s.length then .ok ((s.take j.toNat).drop i.toNat) else .error .stringIndexOutOfBounds

/-- `s.substring(i)` -/
def substringFrom (s : Text) (i : ℤ) : Except Exc Text := substring s i s.length

/-- the zeros of the scripts with decimal digits among the 16-bit characters, as Java 8 knows them -/
def scriptZeros : List ℕ :=
  [0x30, 0x660, 0x6f0, 0x7c0, 0x966, 0x9e6, 0xa66, 0xae6, 0xb66, 0xbe6, 0xc66, 0xce6, 0xd66, 0xe50, 0xed0, 0xf20, 0x1040,
    0x1090, 0x17e0, 0x1810, 0x1946, 0x19d0, 0x1a80, 0x1a90, 0x1b50, 0x1bb0, 0x1c40, 0x1c50, 0xa620, 0xa8d0, 0xa900, 0xa9d0,
    0xaa50, 0xabf0, 0xff10]

/-- `Character.digit(c, 10)`; none is its -1 -/
def characterDigit (c : Char) : Option ℕ :=
  (scriptZeros.find? fun z => z ≤ c.toNat ∧ c.toNat < z + 10).map (c.toNat - ·)

def isDecimal (c : Char) : Bool := (characterDigit c).isSome

/-- the value of a run of decimal digits -/
def decimalValue (t : Text) : ℕ := t.foldl (fun v c => 10 * v + (characterDigit c).getD 0) 0

/-- `new Integer(s)`: an optional sign and at least one digit, in the range of an int -/
def parseInt (s : Text) : Except Exc ℤ :=
  let neg := s.head? = some '-'
  let ds := if s.head? = some '-' ∨ s.head? = some '+' then s.tail else s
  let v : ℤ := if neg then -(decimalValue ds) else decimalValue ds
  if ds ≠ [] ∧ ds.all isDecimal ∧ -2 ^ 31 ≤ v ∧ v < 2 ^ 31 then .ok v else .error .numberFormat

theorem characterDigit_of_isDigit {c : Char} (h : c.isDigit) : characterDigit c = some (c.toNat - 48) := by
  have hrange : 48 ≤ c.toNat ∧ c.toNat < 48 + 10 := by
    simp only [Char.isDigit, Bool.and_eq_true, decide_eq_true_eq, UInt32.le_iff_toNat_le, ge_iff_le] at h
    change 48 ≤ c.toNat ∧ c.toNat ≤ 57 at h
    omega
  simp [characterDigit, scriptZeros, hrange]

theorem isDecimal_of_isDigit {c : Char} (h : c.isDigit) : isDecimal c := by
  rw [isDecimal, characterDigit_of_isDigit h]
  rfl

/-- on ASCII digits -/
theorem decimalValue_eq_digits {t : Text} (h : ∀ c ∈ t, c.isDigit) : decimalValue t = digits t := by
  have hfold : ∀ v, t.foldl (fun v c => 10 * v + (characterDigit c).getD 0) v = Nat.ofDigitChars 10 t v := by
    induction t with
    | nil => exact fun v => rfl
    | cons c t ih =>
      intro v
      rw [List.foldl_cons, Nat.ofDigitChars_cons, characterDigit_of_isDigit (h c List.mem_cons_self)]
      exact ih (fun c hc => h c (List.mem_cons_of_mem _ hc)) _
  exact hfold 0

/-- digits without a sign -/
theorem parseInt_digits {t : Text} (hne : t ≠ []) (h : ∀ c ∈ t, c.isDigit) (hlt : digits t < 2 ^ 31) :
    parseInt t = .ok (digits t : ℤ) := by
  have hall : t.all isDecimal := List.all_eq_true.2 fun c hc => isDecimal_of_isDigit (h c hc)
  have hrange : (-2 ^ 31 : ℤ) ≤ digits t ∧ (digits t : ℤ) < 2 ^ 31 := by omega
  simp only [parseInt, (head_ne_sign h).1, (head_ne_sign h).2, or_self, if_false, decimalValue_eq_digits h]
  rw [if_pos ⟨hne, hall, hrange⟩]

/-- digits behind a minus -/
theorem parseInt_minus {t : Text} (hne : t ≠ []) (h : ∀ c ∈ t, c.isDigit) (hle : digits t ≤ 2 ^ 31) :
    parseInt ('-' :: t) = .ok (-(digits t : ℤ)) := by
  have hall : t.all isDecimal := List.all_eq_true.2 fun c hc => isDecimal_of_isDigit (h c hc)
  have hrange : (-2 ^ 31 : ℤ) ≤ -(digits t : ℤ) ∧ -(digits t : ℤ) < 2 ^ 31 := by omega
  simp only [parseInt, List.head?_cons, true_or, if_true, List.tail_cons, decimalValue_eq_digits h]
  rw [if_pos ⟨hne, hall, hrange⟩]

/-! ## Integers -/

/-- two's complement wrap of an int -/
def wrapInt (n : ℤ) : ℤ := (n + 2 ^ 31) % 2 ^ 32 - 2 ^ 31

/-- two's complement wrap of a long -/
def wrapLong (n : ℤ) : ℤ := (n + 2 ^ 63) % 2 ^ 64 - 2 ^ 63

theorem wrapInt_range (n : ℤ) : -2 ^ 31 ≤ wrapInt n ∧ wrapInt n < 2 ^ 31 := by
  unfold wrapInt
  omega

theorem wrapInt_eq_iff {n : ℤ} : wrapInt n = n ↔ -2 ^ 31 ≤ n ∧ n < 2 ^ 31 := by
  unfold wrapInt
  omega

theorem wrapInt_of_lt {n : ℤ} (h0 : 0 ≤ n) (h : n < 2 ^ 31) : wrapInt n = n := wrapInt_eq_iff.2 (by omega)

theorem wrapInt_neg {n : ℤ} (h0 : 2 ^ 31 ≤ n) (h : n < 2 ^ 32) : wrapInt n < 0 := by
  unfold wrapInt
  omega

theorem wrapLong_sub {a b : ℕ} (hab : b ≤ a) (ha : a < 2 ^ 63) : wrapLong (a - b) = a - b := by
  unfold wrapLong
  omega

/-! ## URLEncoder -/

/-- characters that are copied -/
def isUnreserved (c : Char) : Bool := c.isAlphanum || c ∈ ['.', '-', '*', '_']

/-- characters of an encoded text -/
def isEncoded (c : Char) : Bool := isUnreserved c || c ∈ ['+', '%']

/-- upper case hexadecimal digit -/
def hexDigit (n : Fin 16) : Char :=
  ['0', '1', '2', '3', '4', '5', '6', '7', '8', '9', 'A', 'B', 'C', 'D', 'E', 'F'].get n

def percent (b : UInt8) : Text := ['%', hexDigit ⟨b.toNat / 16, by have := b.toNat_lt; omega⟩,
  hexDigit ⟨b.toNat % 16, by omega⟩]

/-- the loop of `encode`, with the run of characters still to be written -/
def encodeRun (charset : Text → List UInt8) : (run : Text) → Text → Text
  | run, [] => (charset run).flatMap percent
  | run, c :: s =>
    if isUnreserved c then (charset run).flatMap percent ++ c :: encodeRun charset [] s
    else if c = ' ' then (charset run).flatMap percent ++ '+' :: encodeRun charset [] s
    else encodeRun charset (run ++ [c]) s

/-- `URLEncoder.encode(s)` on a platform whose default encoding is `charset` -/
def encode (charset : Text → List UInt8) (s : Text) : Text := encodeRun charset [] s

theorem isEncoded_hexDigit (n : Fin 16) : isEncoded (hexDigit n) := by
  revert n; decide

theorem isEncoded_of_mem_percent {b : UInt8} {c : Char} (h : c ∈ percent b) : isEncoded c := by
  simp only [percent, List.mem_cons, List.not_mem_nil, or_false] at h
  rcases h with rfl | rfl | rfl
  · decide
  · exact isEncoded_hexDigit _
  · exact isEncoded_hexDigit _

theorem isEncoded_of_mem_encodeRun {charset : Text → List UInt8} {run s : Text} {c : Char}
    (h : c ∈ encodeRun charset run s) : isEncoded c := by
  have hrun : ∀ run, c ∈ (charset run).flatMap percent → isEncoded c := by
    intro run h
    obtain ⟨b, -, hb⟩ := List.mem_flatMap.1 h
    exact isEncoded_of_mem_percent hb
  induction s generalizing run with
  | nil => exact hrun run h
  | cons x s ih =>
    simp only [encodeRun] at h
    split_ifs at h with hx hx
    · rcases List.mem_append.1 h with h | h
      · exact hrun run h
      · rcases List.mem_cons.1 h with rfl | h
        · simp [isEncoded, hx]
        · exact ih h
    · rcases List.mem_append.1 h with h | h
      · exact hrun run h
      · rcases List.mem_cons.1 h with rfl | h
        · decide
        · exact ih h
    · exact ih h

/-! ## Keys in an encoded text -/

section

variable {charset : Text → List UInt8} {run s k : Text}

theorem percents_eq_nil_or_cons (bs : List UInt8) : bs.flatMap percent = [] ∨ ∃ t, bs.flatMap percent = '%' :: t := by
  cases bs with
  | nil => exact .inl rfl
  | cons b bs => exact .inr ⟨_, rfl⟩

theorem mem_percents {bs : List UInt8} {c : Char} (h : c ∈ bs.flatMap percent) :
    c ∈ ['%', '0', '1', '2', '3', '4', '5', '6', '7', '8', '9', 'A', 'B', 'C', 'D', 'E', 'F'] := by
  obtain ⟨b, -, hb⟩ := List.mem_flatMap.1 h
  simp only [percent, List.mem_cons, List.not_mem_nil, or_false] at hb
  have hdigit : ∀ n : Fin 16, hexDigit n ∈ ['%', '0', '1', '2', '3', '4', '5', '6', '7', '8', '9', 'A', 'B', 'C', 'D', 'E',
      'F'] := by decide
  rcases hb with rfl | rfl | rfl
  · decide
  · exact hdigit _
  · exact hdigit _

/-- what is written for a run of other characters begins with '%' -/
theorem encodeRun_of_run (hcs : ∀ run ≠ [], charset run ≠ []) (hrun : run ≠ []) :
    ∃ t, encodeRun charset run s = '%' :: t := by
  have hflush : ∀ t, ∃ t', (charset run).flatMap percent ++ t = '%' :: t' := by
    intro t
    cases hb : charset run with
    | nil => exact absurd hb (hcs run hrun)
    | cons b bs => exact ⟨_, rfl⟩
  induction s generalizing run with
  | nil =>
    obtain ⟨t, ht⟩ := hflush []
    exact ⟨t, by simpa [encodeRun] using ht⟩
  | cons c s ih =>
    unfold encodeRun
    split_ifs
    · exact hflush _
    · exact hflush _
    · have hne : run ++ [c] ≠ [] := by simp
      refine ih hne fun t => ?_
      cases hb : charset (run ++ [c]) with
      | nil => exact absurd hb (hcs _ hne)
      | cons b bs => exact ⟨_, rfl⟩

/-- a key of unreserved characters at the front of an encoded text is at the front of the text -/
theorem prefix_of_prefix_encode (hcs : ∀ run ≠ [], charset run ≠ []) (hk : ∀ c ∈ k, isUnreserved c)
    (h : k <+: encodeRun charset [] s) : k <+: s := by
  have hpercent : ∀ {k t : Text}, (∀ c ∈ k, isUnreserved c) → k <+: '%' :: t → k = [] := by
    intro k t hk h
    cases k with
    | nil => rfl
    | cons x k =>
      rw [List.cons_prefix_cons] at h
      rw [h.1] at hk
      exact absurd (hk '%' List.mem_cons_self) (by decide)
  induction s generalizing k with
  | nil =>
    rcases percents_eq_nil_or_cons (charset []) with hp | ⟨t, hp⟩
    · rwa [encodeRun, hp] at h
    · rw [encodeRun, hp] at h
      rw [hpercent hk h]
  | cons c s ih =>
    rcases percents_eq_nil_or_cons (charset []) with hp | ⟨t, hp⟩
    · unfold encodeRun at h
      split_ifs at h with hc hc
      · rw [hp, List.nil_append] at h
        cases k with
        | nil => exact List.nil_prefix
        | cons x k =>
          rw [List.cons_prefix_cons] at h ⊢
          exact ⟨h.1, ih (fun c hc => hk c (List.mem_cons_of_mem x hc)) h.2⟩
      · rw [hp, List.nil_append] at h
        cases k with
        | nil => exact List.nil_prefix
        | cons x k =>
          rw [List.cons_prefix_cons] at h
          rw [h.1] at hk
          exact absurd (hk '+' List.mem_cons_self) (by decide)
      · obtain ⟨t, ht⟩ := encodeRun_of_run (s := s) hcs (by simp : [] ++ [c] ≠ [])
        rw [ht] at h
        rw [hpercent hk h]
        exact List.nil_prefix
    · have hfirst : ∃ t, encodeRun charset [] (c :: s) = '%' :: t := by
        unfold encodeRun
        split_ifs
        · exact ⟨t ++ _, by rw [hp]; rfl⟩
        · exact ⟨t ++ _, by rw [hp]; rfl⟩
        · exact encodeRun_of_run hcs (by simp)
      obtain ⟨t, ht⟩ := hfirst
      rw [ht] at h
      rw [hpercent hk h]
      exact List.nil_prefix

/-- a key of unreserved characters that does not begin like an escape is in the encoded text only if it is in the text -/
theorem infix_of_infix_encodeRun {x : Char} (hcs : ∀ run ≠ [], charset run ≠ []) (hk : ∀ c ∈ x :: k, isUnreserved c)
    (hx : x ∉ ['%', '0', '1', '2', '3', '4', '5', '6', '7', '8', '9', 'A', 'B', 'C', 'D', 'E', 'F'])
    (h : x :: k <:+: encodeRun charset run s) : x :: k <:+: s := by
  have hescape : ∀ run, x ∉ (charset run).flatMap percent := fun run hmem => hx (mem_percents hmem)
  induction s generalizing run with
  | nil => exact absurd (h.subset List.mem_cons_self) (hescape run)
  | cons c s ih =>
    unfold encodeRun at h
    split_ifs at h with hc hc
    · rcases List.infix_cons_iff.1 (infix_of_infix_append (hescape run) h) with h | h
      · rw [List.cons_prefix_cons] at h
        have hrest := prefix_of_prefix_encode hcs (fun c hc => hk c (List.mem_cons_of_mem x hc)) h.2
        exact List.IsPrefix.isInfix (List.cons_prefix_cons.2 ⟨h.1, hrest⟩)
      · exact (ih h).trans (List.infix_cons List.infix_rfl)
    · rcases List.infix_cons_iff.1 (infix_of_infix_append (hescape run) h) with h | h
      · rw [List.cons_prefix_cons] at h
        rw [h.1] at hk
        exact absurd (hk '+' List.mem_cons_self) (by decide)
      · exact (ih h).trans (List.infix_cons List.infix_rfl)
    · exact (ih h).trans (List.infix_cons List.infix_rfl)

end

/-! ## Searching -/

theorem indexOf_of_find {s k : Text} {i : ℕ} (h : find k s = some i) : indexOf s k = i := by
  simp [indexOf, h]

theorem indexOf_eq_neg_one {s k : Text} : indexOf s k = -1 ↔ ¬ k <:+: s := by
  unfold indexOf
  cases h : find k s with
  | none => simpa using find_eq_none.1 h
  | some i =>
    have : k <:+: s := by
      by_contra hk
      rw [find_eq_none.2 hk] at h
      cases h
    simp [this]

/-- a single character found from a start on -/
theorem indexOfFrom_char {s a b : Text} {c : Char} {start : ℕ} (hs : s.drop start = a ++ c :: b) (ha : c ∉ a) :
    indexOfFrom s [c] start = start + a.length := by
  simp [indexOfFrom, hs, find_cons_here ha List.nil_prefix]

theorem indexOfFrom_char_none {s : Text} {c : Char} {start : ℕ} (hs : c ∉ s.drop start) :
    indexOfFrom s [c] start = -1 := by
  have : ¬ [c] <:+: s.drop start := not_infix_of_mem (List.mem_singleton_self c) hs
  simp [indexOfFrom, find_eq_none.2 this]

/-- the piece between two indices -/
theorem substring_append {a w b : Text} {i j : ℤ} (hi : i = a.length) (hj : j = a.length + w.length) :
    substring (a ++ (w ++ b)) i j = .ok w := by
  subst hi hj
  have hle : (0 : ℤ) ≤ a.length ∧ (a.length : ℤ) ≤ a.length + w.length ∧
      (a.length : ℤ) + w.length ≤ (a ++ (w ++ b)).length := by
    simp only [List.length_append]
    omega
  simp only [substring, hle, and_self, if_true, Except.ok.injEq]
  have h1 : ((a.length : ℤ) + w.length).toNat = a.length + w.length := by omega
  have h2 : ((a.length : ℤ)).toNat = a.length := by omega
  rw [h1, h2, List.take_length_add_append, List.drop_left, List.take_left]

end JString

end Rubbos.Core
