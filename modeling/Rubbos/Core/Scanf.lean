/-
`fscanf`, with an automaton for each kind of conversion.

A conversion passes over white space and then takes the longest text that can begin what it looks for; if that is not the whole of
one, the characters are gone and the call ends. A character of the format takes itself. The call answers EOF if the file ends
before its first conversion.

- `scan_append`: a call takes a piece from the front of the file.
- `loop_ends_iff`: a loop of calls until EOF ends, and every call takes something, exactly if its first conversion finds a possible
  first character wherever a call begins.
-/
import Mathlib.Data.List.DropRight
import Rubbos.Core.Text

namespace Rubbos.Core.Scanf

/-! ## Calls -/

/-- the texts that a conversion looks for -/
structure Automaton where
  State : Type
  start : State
  next : State → Char → Option State
  accepts : State → Bool

/-- the longest beginning of a text that the automaton can go along, and the rest -/
def Automaton.item (A : Automaton) : A.State → Text → A.State × Text × Text
  | q, [] => (q, [], [])
  | q, c :: s =>
    match A.next q c with
    | none => (q, [], c :: s)
    | some q' => ((A.item q' s).1, c :: (A.item q' s).2.1, (A.item q' s).2.2)

inductive Directive
  | conversion (A : Automaton)
  | literal (c : Char)

/-- the outcome of a call: what it converted, the rest of the file, and if it answers EOF -/
structure Scan where
  items : List Text
  rest : Text
  eof : Bool
deriving DecidableEq, Repr

/-- pass over white space -/
def skip (s : Text) : Text := s.dropWhile isSpace

/-- the rest of a call, behind the conversions that gave the items -/
def scanFrom : List Directive → (items : List Text) → Text → Scan
  | [], items, s => ⟨items, s, false⟩
  | .literal _ :: _, items, [] => ⟨items, [], items.isEmpty⟩
  | .literal c :: ds, items, c' :: s => if c' = c then scanFrom ds items s else ⟨items, c' :: s, false⟩
  | .conversion A :: ds, items, s =>
    if skip s = [] then ⟨items, [], items.isEmpty⟩
    else
      let (q, item, rest) := A.item A.start (skip s)
      if A.accepts q then scanFrom ds (items ++ [item]) rest else ⟨items, rest, false⟩

def scan (format : List Directive) (s : Text) : Scan := scanFrom format [] s

/-! ## Conversions -/

inductive IntState
  | start
  | signed
  | digits
deriving DecidableEq, Repr

/-- `%d` -/
def decimal : Automaton where
  State := IntState
  start := .start
  next
    | .start, c => if c = '+' ∨ c = '-' then some .signed else if c.isDigit then some .digits else none
    | _, c => if c.isDigit then some .digits else none
  accepts
    | .digits => true
    | _ => false

inductive FloatState
  | start
  | signed
  | zero
  | whole
  | point
  | fraction
  | e
  | eSigned
  | exponent
  | x
  | hex
  | hexPoint
  | hexFraction
  | p
  | pSigned
  | binaryExponent
  | infinity (left : Text)
  | nan (left : Text)
  | nanChars
  | nanClosed
deriving DecidableEq, Repr

def isHexDigit (c : Char) : Bool := c.isDigit || c.toLower ∈ ['a', 'b', 'c', 'd', 'e', 'f']

/-- the first character of a number behind its sign -/
def firstOfFloat (c : Char) : Option FloatState :=
  if c = '0' then some .zero
  else if c.isDigit then some .whole
  else if c = '.' then some .point
  else if c.toLower = 'i' then some (.infinity "nfinity".toList)
  else if c.toLower = 'n' then some (.nan "an".toList)
  else none

/-- behind digits, or behind the point of digits -/
def afterDigits (self : FloatState) (c : Char) : Option FloatState :=
  if c.isDigit then some self else if c.toLower = 'e' then some .e else none

def afterHexDigits (self : FloatState) (c : Char) : Option FloatState :=
  if isHexDigit c then some self else if c.toLower = 'p' then some .p else none

/-- `%lf`: a decimal or hexadecimal number, an infinity or NaN -/
def floating : Automaton where
  State := FloatState
  start := .start
  next
    | .start, c => if c = '+' ∨ c = '-' then some .signed else firstOfFloat c
    | .signed, c => firstOfFloat c
    | .zero, c => if c = '.' then some .fraction else if c.toLower = 'x' then some .x else afterDigits .whole c
    | .whole, c => if c = '.' then some .fraction else afterDigits .whole c
    | .point, c => if c.isDigit then some .fraction else none
    | .fraction, c => afterDigits .fraction c
    | .e, c => if c = '+' ∨ c = '-' then some .eSigned else if c.isDigit then some .exponent else none
    | .eSigned, c | .exponent, c => if c.isDigit then some .exponent else none
    | .x, c => if c = '.' then some .hexPoint else if isHexDigit c then some .hex else none
    | .hex, c => if c = '.' then some .hexFraction else afterHexDigits .hex c
    | .hexPoint, c => if isHexDigit c then some .hexFraction else none
    | .hexFraction, c => afterHexDigits .hexFraction c
    | .p, c => if c = '+' ∨ c = '-' then some .pSigned else if c.isDigit then some .binaryExponent else none
    | .pSigned, c | .binaryExponent, c => if c.isDigit then some .binaryExponent else none
    | .infinity left, c => if left.head? = some c.toLower then some (.infinity left.tail) else none
    | .nan left, c =>
      if left.head? = some c.toLower then some (.nan left.tail)
      else if left = [] ∧ c = '(' then some .nanChars else none
    | .nanChars, c => if c = ')' then some .nanClosed else if c.isAlphanum ∨ c = '_' then some .nanChars else none
    | .nanClosed, _ => none
  accepts
    | .zero | .whole | .fraction | .exponent | .hex | .hexFraction | .binaryExponent | .nanClosed => true
    | .infinity left => left = [] ∨ left = "inity".toList
    | .nan left => left = []
    | _ => false

/-- `%s` -/
def word : Automaton where
  State := Bool
  start := false
  next _ c := if isSpace c then none else some true
  accepts q := q

/-! ## What a call takes -/

variable {A : Automaton} {ds : List Directive} {s : Text}

theorem item_append (A : Automaton) (q : A.State) (s : Text) : (A.item q s).2.1 ++ (A.item q s).2.2 = s := by
  induction s generalizing q with
  | nil => rfl
  | cons c s ih =>
    simp only [Automaton.item]
    cases A.next q c with
    | none => rfl
    | some q' => simp only [List.cons_append, ih]

theorem skip_suffix (s : Text) : skip s <:+ s := List.dropWhile_suffix isSpace

theorem skip_skip (s : Text) : skip (skip s) = skip s := List.dropWhile_idempotent ..

theorem scanFrom_suffix (ds : List Directive) (items : List Text) (s : Text) : (scanFrom ds items s).rest <:+ s := by
  induction ds generalizing items s with
  | nil => exact List.suffix_refl s
  | cons d ds ih =>
    cases d with
    | literal c =>
      cases s with
      | nil => exact List.suffix_refl []
      | cons c' s =>
        simp only [scanFrom]
        split
        · exact (ih items s).trans (List.suffix_cons c' s)
        · exact List.suffix_refl _
    | conversion A =>
      simp only [scanFrom]
      split
      · exact List.nil_suffix
      · have hrest : (A.item A.start (skip s)).2.2 <:+ s :=
          List.IsSuffix.trans ⟨_, item_append A A.start (skip s)⟩ (skip_suffix s)
        split
        · exact (ih _ _).trans hrest
        · exact hrest

/-- behind a conversion there is no EOF -/
theorem scanFrom_not_eof {items : List Text} (h : items ≠ []) : (scanFrom ds items s).eof = false := by
  have hempty : items.isEmpty = false := by simpa using h
  induction ds generalizing items s with
  | nil => rfl
  | cons d ds ih =>
    cases d with
    | literal c =>
      cases s with
      | nil => exact hempty
      | cons c' s =>
        simp only [scanFrom]
        split
        · exact ih h hempty
        · rfl
    | conversion A =>
      simp only [scanFrom]
      split
      · exact hempty
      · split
        · exact ih (by simp) (by simp)
        · rfl

/-! ## Loops -/

/-- where the n-th call begins -/
def position (format : List Directive) (file : Text) : ℕ → Text
  | 0 => file
  | n + 1 => (scan format (position format file n)).rest

/-- `while (fscanf(..) != EOF)` ends, and every call but the last takes something -/
structure Ends (format : List Directive) (file : Text) : Prop where
  terminates : ∃ n, (scan format (position format file n)).eof = true
  progress : ∀ n, (scan format (position format file n)).eof = true ∨
    (position format file (n + 1)).length < (position format file n).length

/-- behind white space, the file ends or goes on with a character that the automaton can begin with -/
def Begins (A : Automaton) (s : Text) : Prop := ∀ c, (skip s).head? = some c → (A.next A.start c).isSome

/-- a call that finds no possible first character passes over white space only -/
theorem scan_of_not_begins (ds : List Directive) (hA : A.accepts A.start = false) (h : ¬ Begins A s) :
    scan (.conversion A :: ds) s = ⟨[], skip s, false⟩ ∧ skip s ≠ [] := by
  unfold Begins at h
  push Not at h
  obtain ⟨c, hc, hnext⟩ := h
  obtain ⟨t, ht⟩ : ∃ t, skip s = c :: t := by
    cases hs : skip s with
    | nil => rw [hs] at hc; cases hc
    | cons c' t => rw [hs] at hc; exact ⟨t, by rw [Option.some.inj hc]⟩
  have hstay : A.item A.start (c :: t) = (A.start, [], c :: t) := by
    simp only [Automaton.item, Option.not_isSome_iff_eq_none.1 hnext]
  refine ⟨?_, by simp [ht]⟩
  simp [scan, scanFrom, ht, hstay, hA]

/-- one that finds it takes it -/
theorem scan_of_begins (h : Begins A s) (hs : skip s ≠ []) :
    (scan (.conversion A :: ds) s).eof = false ∧ (scan (.conversion A :: ds) s).rest.length < s.length := by
  obtain ⟨c, t, ht⟩ := List.exists_cons_of_ne_nil hs
  obtain ⟨q, hq⟩ := Option.isSome_iff_exists.1 (h c (by rw [ht]; rfl))
  have hitem : A.item A.start (c :: t) = ((A.item q t).1, c :: (A.item q t).2.1, (A.item q t).2.2) := by
    simp only [Automaton.item, hq]
  have hrest : (A.item q t).2.2.length < s.length := by
    have hsuffix : (A.item q t).2.2 <:+ t := ⟨_, item_append A q t⟩
    have hlen : (c :: t).length ≤ s.length := by
      rw [← ht]
      exact (skip_suffix s).length_le
    have := hsuffix.length_le
    rw [List.length_cons] at hlen
    omega
  simp only [scan, scanFrom, if_neg hs]
  rw [ht, hitem]
  simp only [List.nil_append]
  split
  · exact ⟨scanFrom_not_eof (by simp), (scanFrom_suffix _ _ _).length_le.trans_lt hrest⟩
  · exact ⟨rfl, hrest⟩

theorem scan_of_blank (hs : skip s = []) : (scan (.conversion A :: ds) s).eof = true := by
  simp [scan, scanFrom, hs]

/-- **A loop of calls ends** exactly if no call begins in front of what its first conversion cannot begin with. -/
theorem loop_ends_iff (ds : List Directive) (file : Text) (hA : A.accepts A.start = false) :
    Ends (.conversion A :: ds) file ↔ ∀ n, Begins A (position (.conversion A :: ds) file n) := by
  constructor
  · rintro ⟨-, hprogress⟩ n
    by_contra hstuck
    -- the second call from here takes nothing, not even white space
    obtain ⟨hcall, hne⟩ := scan_of_not_begins ds hA hstuck
    have hnext : position (.conversion A :: ds) file (n + 1) = skip (position (.conversion A :: ds) file n) := by
      rw [position, hcall]
    have hstuck' : ¬ Begins A (position (.conversion A :: ds) file (n + 1)) := by
      rw [hnext]
      unfold Begins at hstuck ⊢
      rwa [skip_skip]
    obtain ⟨hcall', -⟩ := scan_of_not_begins ds hA hstuck'
    rcases hprogress (n + 1) with heof | hlt
    · rw [hcall'] at heof
      cases heof
    · rw [position, hcall', hnext, skip_skip] at hlt
      exact lt_irrefl _ hlt
  · intro h
    have hprogress : ∀ n, (scan (.conversion A :: ds) (position (.conversion A :: ds) file n)).eof = true ∨
        (position (.conversion A :: ds) file (n + 1)).length < (position (.conversion A :: ds) file n).length := by
      intro n
      by_cases hs : skip (position (.conversion A :: ds) file n) = []
      · exact .inl (scan_of_blank hs)
      · exact .inr (scan_of_begins (h n) hs).2
    refine ⟨?_, hprogress⟩
    by_contra hnever
    push Not at hnever
    -- otherwise the file would get shorter for ever
    have hlength : ∀ n, (position (.conversion A :: ds) file n).length + n ≤ file.length := by
      intro n
      induction n with
      | zero => exact le_rfl
      | succ n ih =>
        have hlt := (hprogress n).resolve_left (hnever n)
        omega
    have := hlength (file.length + 1)
    omega

end Rubbos.Core.Scanf
