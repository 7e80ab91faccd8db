/-
Cutting texts up, and reading numbers, as Java does.

`split key s` is `s.split(k)` for a regular expression that only matches the text key: the pieces between the occurrences,
without the empty ones at the end; a text without the key is the only piece. `tokens row` is `row.trim().split("\\s+")`.
`lines` are the rows that `BufferedReader.readLine()` returns.

- `split_pair`: a text with one occurrence of the key.
- `tokens_joinSp`: the tokens of a row.
- `lines_flatMap`: the rows of a file of complete lines.
-/
import Rubbos.Core.JString
import Rubbos.Core.Tokens

namespace Rubbos.Core.JString

open Rubbos.Core

/-! ## Definitions -/

/-- remove the empty strings at the end -/
def dropTrailing (ps : List Text) : List Text := (ps.reverse.dropWhile (· = [])).reverse

/-- the pieces between the occurrences of a key, of which there are at most `fuel` -/
def pieces (key : Text) : (fuel : ℕ) → Text → List Text
  | 0, s => [s]
  | fuel + 1, s =>
    match find key s with
    | none => [s]
    | some i => s.take i :: pieces key fuel (s.drop (i + key.length))

/-- `s.split(key)`, for a key that is not empty -/
def split (key s : Text) : List Text :=
  if (find key s).isNone then [s] else dropTrailing (pieces key s.length s)

/-- `s.trim()`: the characters up to the blank are removed at both ends -/
def trim (s : Text) : Text :=
  ((s.dropWhile fun c => c.toNat ≤ 32).reverse.dropWhile fun c => c.toNat ≤ 32).reverse

/-- `s.split("\\s+")`: white space at the front gives an empty first piece -/
def splitSpaces (s : Text) : List Text :=
  if s.any isSpace then dropTrailing ((if s.head?.any isSpace then [[]] else []) ++ words s) else [s]

/-- `row.trim().split("\\s+")` -/
def tokens (row : Text) : List Text := splitSpaces (trim row)

/-- `ps[i]` -/
def element (ps : List Text) (i : ℕ) : Except Exc Text :=
  match ps[i]? with
  | some p => .ok p
  | none => .error .arrayIndexOutOfBounds

/-- the rows that `readLine()` returns: '\n', '\r' and "\r\n" end a row -/
def lines : Text → List Text
  | [] => []
  | '\n' :: s => [] :: lines s
  | '\r' :: '\n' :: s => [] :: lines s
  | '\r' :: s => [] :: lines s
  | c :: s => (c :: (lines s).headD []) :: (lines s).tail

/-- `Long.parseLong(s)`: an optional sign and at least one digit, in the range of a long -/
def parseLong (s : Text) : Except Exc ℤ :=
  let ds := dropSign s
  let v : ℤ := if s.head? = some '-' then -(decimalValue ds) else decimalValue ds
  if ds ≠ [] ∧ ds.all isDecimal ∧ IsLong v then .ok v else .error .numberFormat

/-- `Double.parseDouble(s)`, exactly, on decimal notation -/
def parseDouble (s : Text) : Except Exc ℚ :=
  match readDecimal (trim s) with
  | some (v, rest) => if rest ∈ [[], ['f'], ['F'], ['d'], ['D']] then .ok v else .error .numberFormat
  | none => .error .numberFormat

/-! ## Splitting at a key -/

theorem dropTrailing_of_getLast {ps : List Text} (h : ∀ p ∈ ps.getLast?, p ≠ []) : dropTrailing ps = ps := by
  unfold dropTrailing
  rcases List.eq_nil_or_concat ps with rfl | ⟨qs, q, rfl⟩
  · rfl
  · have hq : q ≠ [] := h q (by simp)
    simp [hq]

theorem dropTrailing_cons {a : Text} (ha : a ≠ []) (ps : List Text) : dropTrailing (a :: ps) = a :: dropTrailing ps := by
  unfold dropTrailing
  rw [List.reverse_cons, List.dropWhile_append]
  by_cases h : (ps.reverse.dropWhile (· = [])).isEmpty
  · rw [if_pos h, List.isEmpty_iff.1 h]
    simp [ha]
  · rw [if_neg h]
    simp

/-- one occurrence, with something behind it -/
theorem split_pair {key a b : Text} (hkey : key ≠ []) (hf : find key (a ++ (key ++ b)) = some a.length)
    (hb : ¬ key <:+: b) (hne : b ≠ []) : split key (a ++ (key ++ b)) = [a, b] := by
  have hlen : 1 < (a ++ (key ++ b)).length := by
    have h₁ := List.length_pos_of_ne_nil hkey
    have h₂ := List.length_pos_of_ne_nil hne
    simp only [List.length_append]
    omega
  obtain ⟨fuel, hfuel⟩ : ∃ fuel, (a ++ (key ++ b)).length = fuel + 2 := ⟨(a ++ (key ++ b)).length - 2, by omega⟩
  have htake : (a ++ (key ++ b)).take a.length = a := by simp
  have hdrop : (a ++ (key ++ b)).drop (a.length + key.length) = b := by simp [← List.drop_drop]
  have hpieces : pieces key (fuel + 2) (a ++ (key ++ b)) = [a, b] := by
    simp only [pieces, hf, htake, hdrop, find_eq_none.2 hb]
  unfold split
  rw [hf, hfuel, hpieces]
  simp only [Option.isNone_some, Bool.false_eq_true, if_false]
  apply dropTrailing_of_getLast
  intro p hp
  simp only [List.getLast?_cons_cons, List.getLast?_singleton, Option.mem_some_iff] at hp
  exact hp ▸ hne

/-- splitting at one character -/
theorem split_char {c : Char} {a b : Text} (ha : c ∉ a) (hb : c ∉ b) (hne : b ≠ []) : split [c] (a ++ c :: b) = [a, b] :=
  split_pair (List.cons_ne_nil c []) (find_cons_here ha List.nil_prefix)
    (not_infix_of_mem (x := c) (by simp) hb) hne

/-- what is before the first separator is the first piece -/
theorem split_first {c : Char} {a b : Text} (ha : c ∉ a) (hne : a ≠ []) : ∃ ps, split [c] (a ++ c :: b) = a :: ps := by
  have hf : find [c] (a ++ c :: b) = some a.length := find_cons_here ha List.nil_prefix
  obtain ⟨fuel, hfuel⟩ : ∃ k, (a ++ c :: b).length = k + 1 := ⟨(a ++ b).length, by simp; omega⟩
  have hpieces : pieces [c] (fuel + 1) (a ++ c :: b) = a :: pieces [c] fuel ((a ++ c :: b).drop (a.length + 1)) := by
    simp [pieces, hf]
  refine ⟨dropTrailing (pieces [c] fuel ((a ++ c :: b).drop (a.length + 1))), ?_⟩
  rw [split, hf, hfuel, hpieces, dropTrailing_cons hne]
  rfl

theorem pieces_last {c : Char} {a b : Text} (hb : c ∉ b) (fuel : ℕ) (hf : a.length < fuel) :
    ∃ ps, pieces [c] fuel (a ++ c :: b) = ps ++ [b] := by
  induction fuel generalizing a with
  | zero => omega
  | succ fuel ih =>
    have hinf : [c] <:+: a ++ c :: b := ⟨a, b, by simp⟩
    cases hfind : find [c] (a ++ c :: b) with
    | none => exact absurd hinf (find_eq_none.1 hfind)
    | some i =>
      obtain ⟨-, -, hfirst⟩ := find_eq_some hfind
      simp only [pieces, hfind, List.length_singleton]
      have hle : i ≤ a.length := by
        by_contra hlt
        exact hfirst a.length (by omega) (by simp)
      rcases hle.lt_or_eq with hlt | rfl
      · have hdrop : (a ++ c :: b).drop (i + 1) = a.drop (i + 1) ++ c :: b := by
          rw [List.drop_append_of_le_length (by omega)]
        obtain ⟨ps, hps⟩ := ih (a := a.drop (i + 1)) (by simp only [List.length_drop]; omega)
        exact ⟨(a ++ c :: b).take i :: ps, by rw [hdrop, hps]; rfl⟩
      · have hdrop : (a ++ c :: b).drop (a.length + 1) = b := by simp [← List.drop_drop]
        have hrest : pieces [c] fuel b = [b] := by
          have hno : find [c] b = none := find_eq_none.2 (not_infix_of_mem (x := c) (by simp) hb)
          cases fuel with
          | zero => rfl
          | succ fuel => simp [pieces, hno]
        exact ⟨[(a ++ c :: b).take a.length], by rw [hdrop, hrest]; rfl⟩

/-- what is behind the last separator is the last piece -/
theorem split_getLast {c : Char} {a b : Text} (hb : c ∉ b) (hne : b ≠ []) : (split [c] (a ++ c :: b)).getLast? = some b := by
  have hinf : [c] <:+: a ++ c :: b := ⟨a, b, by simp⟩
  obtain ⟨ps, hps⟩ := pieces_last (a := a) hb (a ++ c :: b).length (by simp)
  have hsome : (find [c] (a ++ c :: b)).isNone = false := by
    cases hf : find [c] (a ++ c :: b) with
    | none => exact absurd hinf (find_eq_none.1 hf)
    | some i => rfl
  have hlast : ∀ p ∈ (ps ++ [b]).getLast?, p ≠ [] := by
    intro p hp
    simp only [List.getLast?_concat, Option.mem_some_iff] at hp
    exact hp ▸ hne
  rw [split, hsome, if_neg (by simp), hps, dropTrailing_of_getLast hlast]
  simp

theorem element_eq {ps : List Text} {i : ℕ} {p : Text} (h : ps[i]? = some p) : element ps i = .ok p := by
  simp [element, h]

/-! ## Rows -/

theorem trim_of_ends {s : Text} (hfirst : ∀ c ∈ s.head?, 32 < c.toNat) (hlast : ∀ c ∈ s.getLast?, 32 < c.toNat) :
    trim s = s := by
  have hfront : s.dropWhile (fun c => c.toNat ≤ 32) = s := by
    rcases s with _ | ⟨c, s⟩
    · rfl
    · have := hfirst c rfl
      rw [List.dropWhile_cons_of_neg (by simpa using this)]
  have hback : s.reverse.dropWhile (fun c => c.toNat ≤ 32) = s.reverse := by
    rcases List.eq_nil_or_concat s with rfl | ⟨t, c, rfl⟩
    · rfl
    · have hc : 32 < c.toNat := hlast c (by simp)
      rw [List.concat_eq_append, List.reverse_append, List.reverse_singleton, List.singleton_append,
        List.dropWhile_cons_of_neg (by simpa using hc)]
  rw [trim, hfront, hback, List.reverse_reverse]

theorem isSpace_toNat {c : Char} (h : isSpace c) : c.toNat ≤ 32 := by
  simp only [isSpace, decide_eq_true_eq, List.mem_cons, List.not_mem_nil, or_false] at h
  rcases h with rfl | rfl | rfl | rfl | rfl | rfl <;> decide

/-- a row of tokens that starts and ends with one -/
theorem tokens_eq_words {s : Text} (hne : s ≠ []) (hfirst : ∀ c ∈ s.head?, 32 < c.toNat)
    (hlast : ∀ c ∈ s.getLast?, 32 < c.toNat) : tokens s = words s := by
  rw [tokens, trim_of_ends hfirst hlast, splitSpaces]
  have hhead : s.head?.any isSpace = false := by
    rcases s with _ | ⟨c, s⟩
    · rfl
    · by_contra h
      have hc : isSpace c = true := by simpa using h
      have h₁ := isSpace_toNat hc
      have h₂ := hfirst c rfl
      omega
  by_cases hany : s.any isSpace
  · rw [if_pos hany, hhead, if_neg (by simp), List.nil_append, dropTrailing_of_getLast]
    intro p hp
    have hmem : p ∈ words s := List.mem_of_getLast? hp
    simpa [words] using (List.mem_filter.1 hmem).2
  · rw [if_neg hany, words_token, if_neg hne]
    intro c hc
    by_contra h
    exact hany (List.any_eq_true.2 ⟨c, hc, by simpa using h⟩)

/-- the tokens of a row -/
theorem tokens_joinSp {ws : List Text} (hws : ∀ w ∈ ws, IsToken w) (hne : joinSp ws ≠ [])
    (hfirst : ∀ c ∈ (joinSp ws).head?, 32 < c.toNat) (hlast : ∀ c ∈ (joinSp ws).getLast?, 32 < c.toNat) :
    tokens (joinSp ws) = ws.filter (· ≠ []) := by
  rw [tokens_eq_words hne hfirst hlast, words_joinSp hws]

/-- the pieces of a text are parts of it, and the first one begins it -/
theorem infix_of_mem_splitOnP {α : Type} (p : α → Bool) (s : List α) :
    (∀ w ∈ (s.splitOnP p).head?, w <+: s) ∧ ∀ w ∈ s.splitOnP p, w <:+: s := by
  induction s with
  | nil => simp
  | cons c s ih =>
    obtain ⟨ws, hws⟩ : ∃ ws, s.splitOnP p = ws := ⟨_, rfl⟩
    rw [List.splitOnP_cons_eq_if_modifyHead]
    rw [hws] at ih ⊢
    split
    · refine ⟨by simp, List.forall_mem_cons.2 ⟨List.nil_infix, fun w hw => (ih.2 w hw).trans (List.suffix_cons c s).isInfix⟩⟩
    · cases ws with
      | nil => simp
      | cons v ws =>
        have hv : c :: v <+: c :: s := (List.prefix_cons_inj c).2 (ih.1 v rfl)
        refine ⟨by simpa using hv, List.forall_mem_cons.2 ⟨hv.isInfix, ?_⟩⟩
        intro w hw
        exact (ih.2 w (List.mem_cons_of_mem v hw)).trans (List.suffix_cons c s).isInfix

theorem infix_trim (s : Text) : trim s <:+: s := by
  have hback : trim s <+: s.dropWhile fun c => c.toNat ≤ 32 := by
    rw [trim, ← List.reverse_suffix, List.reverse_reverse]
    exact List.dropWhile_suffix _
  exact hback.isInfix.trans (List.dropWhile_suffix _).isInfix

/-- a token is a part of its row -/
theorem infix_of_mem_tokens {row w : Text} (h : w ∈ tokens row) : w <:+: row := by
  have hwords : ∀ v ∈ words (trim row), v <:+: trim row := fun v hv =>
    (infix_of_mem_splitOnP isSpace (trim row)).2 v (List.mem_of_mem_filter hv)
  refine List.IsInfix.trans ?_ (infix_trim row)
  unfold tokens splitSpaces at h
  split at h
  · have h := List.mem_reverse.1 ((List.dropWhile_suffix _).subset (List.mem_reverse.1 h))
    rcases List.mem_append.1 h with h | h
    · split at h
      · rw [List.mem_singleton.1 h]
        exact List.nil_infix
      · cases h
    · exact hwords w h
  · rw [List.mem_singleton.1 h]

theorem lines_cons {c : Char} (hn : c ≠ '\n') (hr : c ≠ '\r') (s : Text) :
    lines (c :: s) = (c :: (lines s).headD []) :: (lines s).tail := by
  rw [lines]
  · exact hn
  · intro s' h
    exact absurd h hr
  · exact hr

theorem lines_append {l : Text} (hn : '\n' ∉ l) (hr : '\r' ∉ l) (s : Text) : lines (l ++ '\n' :: s) = l :: lines s := by
  induction l with
  | nil => simp [lines]
  | cons c l ih =>
    have hc : c ≠ '\n' := fun h => hn (by simp [h])
    have hc' : c ≠ '\r' := fun h => hr (by simp [h])
    rw [List.cons_append, lines_cons hc hc', ih (fun h => hn (List.mem_cons_of_mem _ h))
      (fun h => hr (List.mem_cons_of_mem _ h))]
    rfl

/-- the rows of a file of complete lines -/
theorem lines_flatMap {rows : List Text} (h : ∀ l ∈ rows, '\n' ∉ l ∧ '\r' ∉ l) :
    lines (rows.flatMap (· ++ ['\n'])) = rows := by
  induction rows with
  | nil => rfl
  | cons l rows ih =>
    obtain ⟨hn, hr⟩ := h l List.mem_cons_self
    calc lines ((l :: rows).flatMap (· ++ ['\n']))
        = lines (l ++ '\n' :: rows.flatMap (· ++ ['\n'])) := by simp
      _ = l :: lines (rows.flatMap (· ++ ['\n'])) := lines_append hn hr _
      _ = l :: rows := by rw [ih fun x hx => h x (List.mem_cons_of_mem _ hx)]

/-- a row has no end of a row in it -/
theorem notMem_of_mem_lines {s l : Text} (h : l ∈ lines s) : '\n' ∉ l ∧ '\r' ∉ l := by
  induction s using lines.induct generalizing l with
  | case1 => simp [lines] at h
  | case2 s ih => 
    rw [lines] at h
    rcases List.mem_cons.1 h with rfl | h
    · simp
    · exact ih h
  | case3 s ih =>
    rw [lines] at h
    rcases List.mem_cons.1 h with rfl | h
    · simp
    · exact ih h
  | case4 s hs ih =>
    rw [lines] at h
    · rcases List.mem_cons.1 h with rfl | h
      · simp
      · exact ih h
    · exact hs
  | case5 c s hn hcrlf hr ih =>
    rw [lines_cons hn hr] at h
    rcases List.mem_cons.1 h with rfl | h
    · have hhead : '\n' ∉ (lines s).headD [] ∧ '\r' ∉ (lines s).headD [] := by
        cases hls : lines s with
        | nil => simp
        | cons l ls => exact ih (by simp [hls])
      simp only [List.mem_cons, not_or]
      exact ⟨⟨fun h => hn h.symm, hhead.1⟩, ⟨fun h => hr h.symm, hhead.2⟩⟩
    · exact ih (List.mem_of_mem_tail h)

theorem lines_append_crlf {l : Text} (hn : '\n' ∉ l) (hr : '\r' ∉ l) (s : Text) :
    lines (l ++ '\r' :: '\n' :: s) = l :: lines s := by
  induction l with
  | nil => simp [lines]
  | cons c l ih =>
    have hc : c ≠ '\n' := fun h => hn (by simp [h])
    have hc' : c ≠ '\r' := fun h => hr (by simp [h])
    rw [List.cons_append, lines_cons hc hc', ih (fun h => hn (List.mem_cons_of_mem _ h))
      (fun h => hr (List.mem_cons_of_mem _ h))]
    rfl

/-- the rows of a file whose lines end with "\r\n" -/
theorem lines_flatMap_crlf {rows : List Text} (h : ∀ l ∈ rows, '\n' ∉ l ∧ '\r' ∉ l) :
    lines (rows.flatMap (· ++ ['\r', '\n'])) = rows := by
  induction rows with
  | nil => rfl
  | cons l rows ih =>
    obtain ⟨hn, hr⟩ := h l List.mem_cons_self
    calc lines ((l :: rows).flatMap (· ++ ['\r', '\n']))
        = lines (l ++ '\r' :: '\n' :: rows.flatMap (· ++ ['\r', '\n'])) := by simp
      _ = l :: lines (rows.flatMap (· ++ ['\r', '\n'])) := lines_append_crlf hn hr _
      _ = l :: rows := by rw [ih fun x hx => h x (List.mem_cons_of_mem _ hx)]

/-! ## Numbers -/

theorem parseLong_natText {n : ℕ} (h : n < 2 ^ 63) : parseLong (natText n) = .ok n := by
  have hdigit : ∀ c ∈ natText n, c.isDigit := fun c hc => isDigit_of_mem_natText hc
  have hall : (natText n).all isDecimal := List.all_eq_true.2 fun c hc => isDecimal_of_isDigit (hdigit c hc)
  have hlong : IsLong (n : ℤ) := by
    unfold IsLong
    omega
  simp only [parseLong, dropSign_digits hdigit, (head_ne_sign hdigit).1, if_false, decimalValue_eq_digits hdigit,
    digits_natText]
  rw [if_pos ⟨natText_ne_nil n, hall, hlong⟩]

theorem trim_natText (n : ℕ) : trim (natText n) = natText n := by
  have hdigit : ∀ c ∈ natText n, 32 < c.toNat := by
    intro c hc
    by_contra h
    have hd := isDigit_of_mem_natText hc
    simp only [Char.isDigit, Bool.and_eq_true, decide_eq_true_eq, ge_iff_le, UInt32.le_iff_toNat_le] at hd
    have h48 : 48 ≤ c.toNat := hd.1
    omega
  exact trim_of_ends (fun c hc => hdigit c (List.mem_of_head? hc)) fun c hc => hdigit c (List.mem_of_getLast? hc)

theorem parseDouble_natText (n : ℕ) : parseDouble (natText n) = .ok (n : ℚ) := by
  rw [parseDouble, trim_natText, readDecimal_digits (natText_ne_nil n) fun c hc => isDigit_of_mem_natText hc]
  simp

end Rubbos.Core.JString
