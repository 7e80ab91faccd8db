/-
The point-in-time response times (`PointInTimeParser.java`, `parseApacheCSV`), in exact arithmetic.

The parser rounds the start time of every row down to 50 ms on the text of the time, groups the response times by it in a hash table,
and prints the sorted keys with the average of each group. The average is summed up in an int variable: `sum+=rt` drops the fraction
at every row.

- `bucketOf_start`: rounding down on the text is rounding down.
- `group_spec`: what is in the table.
- `sumFrom_eq`, `of_sumFrom_eq`: what the int variable holds.
- `point_in_time_iff`: the output is right exactly if nothing is dropped.

Counterexample: `half_dropped`.
-/
import Rubbos.Core.Casts
import Rubbos.Core.JSplit
import Rubbos.Parsers.Fields

namespace Rubbos.Parsers.PointInTimeParser

open Rubbos.Core JString

/-! ## Model -/

/-- `Hashtable<Long, List<Float>>`; the keys are in the order of their first row -/
structure Hashtable where
  keys : List ℤ
  get : ℤ → List ℚ
  nodup : keys.Nodup
  absent : ∀ b, b ∉ keys → get b = []

def empty : Hashtable := ⟨[], fun _ => [], List.nodup_nil, fun _ _ => rfl⟩

/-- `get`, a new list if there is none, `add`, and `put` -/
def Hashtable.add (ht : Hashtable) (bucket : ℤ) (rt : ℚ) : Hashtable where
  keys := if bucket ∈ ht.keys then ht.keys else ht.keys ++ [bucket]
  get := Function.update ht.get bucket (ht.get bucket ++ [rt])
  nodup := by
    split
    · exact ht.nodup
    · next h => exact List.nodup_append.2 ⟨ht.nodup, List.nodup_singleton bucket, by
        rintro a ha b hb rfl
        rw [List.mem_singleton] at hb
        exact h (hb ▸ ha)⟩
  absent := by
    intro b hb
    have hne : b ≠ bucket := by
      rintro rfl
      split at hb
      · next h => exact hb h
      · exact hb (by simp)
    have hnot : b ∉ ht.keys := by
      split at hb
      · exact hb
      · exact fun h => hb (List.mem_append_left _ h)
    rw [Function.update_of_ne hne, ht.absent b hnot]

/-- `rounddown` -/
def roundDown (st : Text) : Except Exc Text := do
  let lasttwo ← parseInt (← substringFrom st (st.length - 2))
  let front ← substring st 0 (st.length - 2)
  return if 0 ≤ lasttwo ∧ lasttwo ≤ 49 then front ++ "00".toList else front ++ "50".toList

def bucketOf (st : Text) : Except Exc ℤ := do
  let seconds ← parseDouble (← roundDown st)
  return toLong (seconds * 1000)

/-- the body of the loop -/
def processRow (ht : Hashtable) (row : Text) : Except Exc Hashtable := do
  let strs := split [','] (trim row)
  let bucket ← bucketOf (← element strs 0)
  let rt ← parseDouble (← element strs 3)
  return ht.add bucket rt

/-- `for(double rt: list){ sum+=rt; }` on an int sum -/
def sumFrom (sum : ℤ) (list : List ℚ) : ℤ := list.foldl (fun sum rt => toInt (sum + rt)) sum

/-- `(float)sum/cnt` -/
def average (list : List ℚ) : ℚ := sumFrom 0 list / list.length

/-- the rows behind "timestamp,pit" -/
def parseApacheCSV (file : Text) : Except Exc (List (ℤ × ℚ)) := do
  let ht ← (lines file).foldlM processRow empty
  return (ht.keys.mergeSort (· ≤ ·)).map fun key => (key, average (ht.get key))

/-! ## Files -/

/-- a row whose start time is in decimal seconds with three fractional digits -/
structure Row where
  whole : Text
  fraction : Text
  endTime : Text
  category : Text
  rt : Text
  responseTime : ℚ
  digits : ∀ c ∈ whole ++ fraction, c.isDigit
  whole_ne : whole ≠ []
  three : fraction.length = 3
  clean : ∀ c ∈ endTime ++ category ++ rt, c ≠ ',' ∧ c ≠ '\n' ∧ c ≠ '\r'
  trimmed : ∀ c ∈ rt.getLast?, 32 < c.toNat
  value : parseDouble rt = .ok responseTime

def Row.start (r : Row) : Text := r.whole ++ '.' :: r.fraction

def Row.text (r : Row) : Text := r.start ++ ',' :: (r.endTime ++ ',' :: (r.category ++ ',' :: r.rt))

/-- the start time in milliseconds -/
def Row.startMs (r : Row) : ℕ := Core.digits (r.whole ++ r.fraction)

/-- the 50 ms-aligned bucket -/
def Row.bucket (r : Row) : ℤ := 50 * (r.startMs / 50 : ℕ)

def fileOf (rows : List Row) : Text := rows.flatMap fun r => r.text ++ ['\n']

/-- the response times of a bucket -/
def groupOf (rows : List Row) (b : ℤ) : List ℚ := (rows.filter fun r => r.bucket = b).map Row.responseTime

/-- the output is right -/
structure PointInTime (rows : List Row) (out : List (ℤ × ℚ)) : Prop where
  increasing : (out.map Prod.fst).Pairwise (· < ·)
  buckets : ∀ b, b ∈ out.map Prod.fst ↔ ∃ r ∈ rows, r.bucket = b
  mean : ∀ p ∈ out, p.2 = (groupOf rows p.1).sum / (groupOf rows p.1).length

/-- nothing is dropped, and nothing is out of range -/
structure Exact (rows : List Row) : Prop where
  inLong : ∀ r ∈ rows, r.bucket < 2 ^ 63
  integral : ∀ r ∈ rows, ∃ n : ℤ, r.responseTime = n
  inInt : ∀ b l, l <+: groupOf rows b → -2 ^ 31 ≤ l.sum ∧ l.sum ≤ 2 ^ 31 - 1

/-! ## The sum -/

theorem sumFrom_cons (n : ℤ) (x : ℚ) (list : List ℚ) : sumFrom n (x :: list) = sumFrom (toInt (n + x)) list := rfl

/-- an int that takes the times of a list up exactly -/
theorem sumFrom_eq {list : List ℚ} {n : ℤ} (hint : ∀ x ∈ list, ∃ k : ℤ, x = k)
    (hrange : ∀ l, l <+: list → -2 ^ 31 ≤ n + l.sum ∧ n + l.sum ≤ 2 ^ 31 - 1) :
    (sumFrom n list : ℚ) = n + list.sum := by
  induction list generalizing n with
  | nil => simp [sumFrom]
  | cons x list ih =>
    obtain ⟨k, rfl⟩ := hint x List.mem_cons_self
    have hfirst := hrange [(k : ℚ)] ⟨list, rfl⟩
    rw [List.sum_singleton] at hfirst
    have hcast : toInt ((n : ℚ) + k) = n + k := by
      have hsum : (n : ℚ) + k = ((n + k : ℤ) : ℚ) := by push_cast; rfl
      rw [hsum]
      refine toInt_intCast ?_ ?_
      · exact_mod_cast hfirst.1
      · exact_mod_cast hfirst.2
    rw [sumFrom_cons, hcast, List.sum_cons, ih fun x hx => hint x (List.mem_cons_of_mem _ hx)]
    · push_cast
      ring
    · intro l hl
      have := hrange (k :: l) (List.cons_prefix_cons.2 ⟨rfl, hl⟩)
      rw [List.sum_cons] at this
      push_cast
      constructor <;> linarith [this.1, this.2]

/-- of times that are not negative it never takes up more than there is -/
theorem sumFrom_le {list : List ℚ} {n : ℤ} (hn : 0 ≤ n) (hpos : ∀ x ∈ list, 0 ≤ x) :
    0 ≤ sumFrom n list ∧
      (sumFrom n list : ℚ) ≤ n + list.sum := by
  induction list generalizing n with
  | nil => simp [sumFrom, hn]
  | cons x list ih =>
    have hx : (0 : ℚ) ≤ n + x := add_nonneg (Int.cast_nonneg hn) (hpos x List.mem_cons_self)
    obtain ⟨hnonneg, hle⟩ := ih (toInt_nonneg hx) fun y hy => hpos y (List.mem_cons_of_mem _ hy)
    rw [sumFrom_cons, List.sum_cons]
    refine ⟨hnonneg, hle.trans ?_⟩
    linarith [toInt_le hx]

/-- **The whole sum** of times that are not negative is taken up only if no time has a fraction and the sum is in range. -/
theorem of_sumFrom_eq {list : List ℚ} {n : ℤ} (hn : 0 ≤ n) (hpos : ∀ x ∈ list, 0 ≤ x)
    (h : (sumFrom n list : ℚ) = n + list.sum) :
    (∀ x ∈ list, ∃ k : ℤ, x = k) ∧ (list = [] ∨ n + list.sum ≤ 2 ^ 31 - 1) := by
  induction list generalizing n with
  | nil => exact ⟨fun x hx => (nomatch hx), .inl rfl⟩
  | cons x list ih =>
    have hx : (0 : ℚ) ≤ n + x := add_nonneg (Int.cast_nonneg hn) (hpos x List.mem_cons_self)
    have htail : ∀ y ∈ list, 0 ≤ y := fun y hy => hpos y (List.mem_cons_of_mem _ hy)
    have hle := (sumFrom_le (toInt_nonneg hx) htail).2
    rw [sumFrom_cons, List.sum_cons] at h
    -- neither this step nor a later one drops anything
    have hexact : (toInt (n + x) : ℚ) = n + x := le_antisymm (toInt_le hx) (by linarith)
    obtain ⟨hint, hrange⟩ := ih (toInt_nonneg hx) htail (by rw [h, hexact]; ring)
    refine ⟨?_, .inr ?_⟩
    · intro y hy
      rcases List.mem_cons.1 hy with rfl | hy
      · exact ⟨toInt (n + y) - n, by push_cast; linarith⟩
      · exact hint y hy
    · rw [List.sum_cons, ← add_assoc, ← hexact]
      rcases hrange with rfl | hrange
      · have := toInt_le_max (n + x)
        rw [List.sum_nil, add_zero]
        exact_mod_cast this
      · exact hrange

/-! ## Rounding down -/

theorem digits_append (a b : Text) : digits (a ++ b) = 10 ^ b.length * digits a + digits b := by
  unfold digits
  rw [Nat.ofDigitChars_append, Nat.ofDigitChars_eq_ofDigitChars_zero]

variable {r : Row}

/-- a number with three fractional digits -/
theorem parseDouble_point {w f : Text} (hne : w ≠ []) (hd : ∀ c ∈ w ++ f, c.isDigit) (hf : f ≠ []) :
    parseDouble (w ++ '.' :: f) = .ok ((digits (w ++ f) : ℚ) / 10 ^ f.length) := by
  have hw : ∀ c ∈ w, c.isDigit := fun c hc => hd c (List.mem_append_left f hc)
  have hfd : ∀ c ∈ f, c.isDigit := fun c hc => hd c (List.mem_append_right w hc)
  have htrim : trim (w ++ '.' :: f) = w ++ '.' :: f := by
    refine trim_of_ends ?_ ?_
    · intro c hc
      rw [List.head?_append_of_ne_nil _ hne] at hc
      have := (toNat_of_isDigit (hw c (List.mem_of_head? hc))).1
      omega
    · intro c hc
      rw [List.getLast?_append_of_ne_nil _ (List.cons_ne_nil '.' f), List.getLast?_cons_of_ne_nil hf] at hc
      have := (toNat_of_isDigit (hfd c (List.mem_of_getLast? hc))).1
      omega
  rw [parseDouble, htrim, readDecimal_point hne hw hfd]
  simp

/-- two last digits, of a text of digits -/
theorem digits_two (w : Text) (a b c : Char) : digits (w ++ [a, b, c]) = 100 * digits (w ++ [a]) + digits [b, c] := by
  have hsplit : w ++ [a, b, c] = w ++ [a] ++ [b, c] := by simp
  rw [hsplit, digits_append]
  rfl

/-- the text that is rounded down -/
theorem roundDown_start {w : Text} {a b c : Char} (hb : b.isDigit) (hc : c.isDigit) :
    roundDown (w ++ '.' :: [a, b, c]) =
      .ok (w ++ '.' :: if digits [b, c] ≤ 49 then [a, '0', '0'] else [a, '5', '0']) := by
  have hlen : ((w ++ '.' :: [a, b, c]).length : ℤ) - 2 = (w ++ ['.', a]).length := by
    simp only [List.length_append, List.length_cons, List.length_nil]
    push_cast
    omega
  have htail : substringFrom (w ++ '.' :: [a, b, c]) ((w ++ '.' :: [a, b, c]).length - 2) = .ok [b, c] := by
    have hsplit : w ++ '.' :: [a, b, c] = (w ++ ['.', a]) ++ ([b, c] ++ []) := by simp
    rw [substringFrom, hlen, hsplit]
    refine substring_append rfl ?_
    simp only [List.length_append, List.length_cons, List.length_nil]
    push_cast
    omega
  have hfront : substring (w ++ '.' :: [a, b, c]) 0 ((w ++ '.' :: [a, b, c]).length - 2) = .ok (w ++ ['.', a]) := by
    have hsplit : w ++ '.' :: [a, b, c] = [] ++ ((w ++ ['.', a]) ++ [b, c]) := by simp
    rw [hlen]
    nth_rewrite 1 [hsplit]
    exact substring_append rfl (by simp)
  have hdigits : ∀ x ∈ [b, c], x.isDigit := by simp [hb, hc]
  have hlt : digits [b, c] < 100 := digits_lt hdigits
  have hint : parseInt [b, c] = .ok (digits [b, c] : ℤ) := parseInt_digits (List.cons_ne_nil b [c]) hdigits (by omega)
  have hcond : ((0 : ℤ) ≤ digits [b, c] ∧ (digits [b, c] : ℤ) ≤ 49) ↔ digits [b, c] ≤ 49 := by omega
  unfold roundDown
  rw [htail, hfront]
  change (parseInt [b, c] >>= _) = _
  rw [hint]
  change Except.ok (if (0 : ℤ) ≤ digits [b, c] ∧ (digits [b, c] : ℤ) ≤ 49 then _ else _) = _
  simp only [hcond]
  split <;> simp

/-- **Rounding down** on the text of the start time. -/
theorem bucketOf_start (r : Row) : bucketOf r.start = .ok (toLong (r.bucket : ℚ)) := by
  obtain ⟨a, b, c, hfraction⟩ := List.length_eq_three.1 r.three
  have hd := r.digits
  rw [hfraction] at hd
  have hb : b.isDigit := hd b (by simp)
  have hc : c.isDigit := hd c (by simp)
  have hlt : digits [b, c] < 100 := digits_lt (by simp [hb, hc])
  have hms : r.startMs = 100 * digits (r.whole ++ [a]) + digits [b, c] := by
    rw [Row.startMs, hfraction, digits_two]
  have hparse (x y : Char) (hx : x.isDigit) (hy : y.isDigit) : parseDouble (r.whole ++ '.' :: [a, x, y]) =
      .ok (((100 * digits (r.whole ++ [a]) + digits [x, y] : ℕ) : ℚ) / 10 ^ 3) := by
    rw [← digits_two]
    refine parseDouble_point r.whole_ne (fun z hz => ?_) (List.cons_ne_nil _ _)
    have := hd z
    simp only [List.mem_append, List.mem_cons, List.not_mem_nil, or_false] at hz this
    rcases hz with hz | rfl | rfl | rfl
    · exact this (.inl hz)
    · exact this (.inr (.inl rfl))
    · exact hx
    · exact hy
  have hround (n : ℕ) (hn : r.bucket = n) : toLong ((n : ℚ) / 10 ^ 3 * 1000) = toLong (r.bucket : ℚ) := by
    have hscale : (n : ℚ) / 10 ^ 3 * 1000 = n := by ring
    rw [hscale, hn]
    rfl
  have hzero : digits ['0', '0'] = 0 := by decide
  have hfifty : digits ['5', '0'] = 50 := by decide
  rw [bucketOf, Row.start, hfraction, roundDown_start hb hc]
  by_cases hle : digits [b, c] ≤ 49
  · rw [if_pos hle]
    change (parseDouble (r.whole ++ '.' :: [a, '0', '0']) >>= _) = _
    rw [hparse _ _ (by decide) (by decide)]
    exact congrArg Except.ok (hround _ (by rw [Row.bucket, hms, hzero]; omega))
  · rw [if_neg hle]
    change (parseDouble (r.whole ++ '.' :: [a, '5', '0']) >>= _) = _
    rw [hparse _ _ (by decide) (by decide)]
    exact congrArg Except.ok (hround _ (by rw [Row.bucket, hms, hfifty]; omega))

/-! ## Reading -/

theorem pieces_here {a b : Text} {c : Char} (ha : c ∉ a) (fuel : ℕ) : pieces [c] (fuel + 1) (a ++ c :: b) = a :: pieces [c] fuel b := by
  have hfind : find [c] (a ++ c :: b) = some a.length := find_cons_here ha List.nil_prefix
  simp [pieces, hfind, ← List.drop_drop]

theorem pieces_end {a : Text} {c : Char} (ha : c ∉ a) (fuel : ℕ) : pieces [c] fuel a = [a] := by
  have hfind : find [c] a = none := find_eq_none.2 (not_infix_of_mem (List.mem_singleton_self c) ha)
  cases fuel with
  | zero => rfl
  | succ fuel => simp [pieces, hfind]

/-- four fields -/
theorem split_four {a b c d : Text} (ha : ',' ∉ a) (hb : ',' ∉ b) (hc : ',' ∉ c) (hd : ',' ∉ d) (hne : d ≠ []) :
    split [','] (a ++ ',' :: (b ++ ',' :: (c ++ ',' :: d))) = [a, b, c, d] := by
  have hfind : find [','] (a ++ ',' :: (b ++ ',' :: (c ++ ',' :: d))) = some a.length := find_cons_here ha List.nil_prefix
  obtain ⟨fuel, hfuel⟩ : ∃ fuel, (a ++ ',' :: (b ++ ',' :: (c ++ ',' :: d))).length = fuel + 1 + 1 + 1 :=
    ⟨(a ++ b ++ c ++ d).length, by simp only [List.length_append, List.length_cons]; omega⟩
  rw [split, hfind, hfuel, pieces_here ha, pieces_here hb, pieces_here hc, pieces_end hd]
  exact dropTrailing_of_getLast fun p hp => by
    obtain rfl : d = p := by simpa using hp
    exact hne

theorem Row.rt_ne (r : Row) : r.rt ≠ [] := by
  intro h
  have hvalue := r.value
  rw [h] at hvalue
  cases hvalue

theorem trim_text (r : Row) : trim r.text = r.text := by
  refine trim_of_ends ?_ ?_
  · intro c hc
    obtain ⟨w, t, hw⟩ := List.exists_cons_of_ne_nil r.whole_ne
    have hhead : r.text.head? = some w := by simp [Row.text, Row.start, hw]
    rw [hhead] at hc
    obtain rfl := Option.some.inj hc
    have := (toNat_of_isDigit (r.digits w (by simp [hw]))).1
    omega
  · intro c hc
    have hlast : r.text.getLast? = r.rt.getLast? := by
      unfold Row.text
      rw [List.getLast?_append_of_ne_nil _ (List.cons_ne_nil _ _), List.getLast?_cons_of_ne_nil (by simp),
        List.getLast?_append_of_ne_nil _ (List.cons_ne_nil _ _), List.getLast?_cons_of_ne_nil (by simp),
        List.getLast?_append_of_ne_nil _ (List.cons_ne_nil _ _), List.getLast?_cons_of_ne_nil r.rt_ne]
    rw [hlast] at hc
    exact r.trimmed c hc

theorem Row.start_clean (r : Row) : ∀ c ∈ r.start, c ≠ ',' ∧ c ≠ '\n' ∧ c ≠ '\r' := by
  intro c hc
  have hclean : c.isDigit ∨ c = '.' := by
    rcases List.mem_append.1 hc with hc | hc
    · exact .inl (r.digits c (List.mem_append_left _ hc))
    rcases List.mem_cons.1 hc with hc | hc
    · exact .inr hc
    · exact .inl (r.digits c (List.mem_append_right _ hc))
  rcases hclean with hdigit | rfl
  · refine ⟨?_, ?_, ?_⟩ <;> rintro rfl <;> exact absurd hdigit (by decide)
  · decide

/-- the bucket that the parser computes -/
def Row.key (r : Row) : ℤ := toLong (r.bucket : ℚ)

theorem processRow_text (ht : Hashtable) (r : Row) : processRow ht r.text = .ok (ht.add r.key r.responseTime) := by
  have hsplit : split [','] (trim r.text) = [r.start, r.endTime, r.category, r.rt] := by
    rw [trim_text, Row.text]
    refine split_four (fun h => (r.start_clean _ h).1 rfl) (fun h => (r.clean _ (by simp [h])).1 rfl)
      (fun h => (r.clean _ (by simp [h])).1 rfl) (fun h => (r.clean _ (by simp [h])).1 rfl) r.rt_ne
  unfold processRow
  rw [hsplit]
  change (bucketOf r.start >>= fun bucket => parseDouble r.rt >>= fun rt => pure (ht.add bucket rt)) = _
  rw [bucketOf_start, r.value]
  rfl

theorem lines_fileOf (rows : List Row) : lines (fileOf rows) = rows.map Row.text := by
  have hfile : fileOf rows = (rows.map Row.text).flatMap (· ++ ['\n']) := by simp [fileOf, List.flatMap_map]
  rw [hfile]
  refine lines_flatMap fun l hl => ?_
  obtain ⟨r, -, rfl⟩ := List.mem_map.1 hl
  have hclean : ∀ c ∈ r.text, c ≠ '\n' ∧ c ≠ '\r' := by
    intro c hc
    simp only [Row.text, List.mem_append, List.mem_cons] at hc
    rcases hc with hc | rfl | hc | rfl | hc | rfl | hc
    · exact (r.start_clean c hc).2
    · decide
    · exact (r.clean c (by simp [hc])).2
    · decide
    · exact (r.clean c (by simp [hc])).2
    · decide
    · exact (r.clean c (by simp [hc])).2
  exact ⟨fun h => (hclean _ h).1 rfl, fun h => (hclean _ h).2 rfl⟩

theorem mem_keys_add (ht : Hashtable) (k : ℤ) (x : ℚ) (b : ℤ) : b ∈ (ht.add k x).keys ↔ b ∈ ht.keys ∨ k = b := by
  change b ∈ (if k ∈ ht.keys then ht.keys else ht.keys ++ [k]) ↔ _
  by_cases hmem : k ∈ ht.keys
  · rw [if_pos hmem]
    exact ⟨.inl, fun h => h.elim id fun h => h ▸ hmem⟩
  · rw [if_neg hmem, List.mem_append, List.mem_singleton]
    exact or_congr_right eq_comm

theorem get_add (ht : Hashtable) (k : ℤ) (x : ℚ) (b : ℤ) :
    (ht.add k x).get b = if k = b then ht.get b ++ [x] else ht.get b := by
  change Function.update ht.get k (ht.get k ++ [x]) b = _
  by_cases hb : k = b
  · rw [if_pos hb, hb, Function.update_self]
  · rw [if_neg hb, Function.update_of_ne (Ne.symm hb)]

/-- the table after some rows -/
theorem foldlM_rows (rows : List Row) (ht : Hashtable) : ∃ ht', (rows.map Row.text).foldlM processRow ht = .ok ht' ∧
    (∀ b, b ∈ ht'.keys ↔ b ∈ ht.keys ∨ ∃ r ∈ rows, r.key = b) ∧
    ∀ b, ht'.get b = ht.get b ++ (rows.filter fun r => r.key = b).map Row.responseTime := by
  induction rows generalizing ht with
  | nil => exact ⟨ht, rfl, fun b => by simp, fun b => by simp⟩
  | cons r rows ih =>
    obtain ⟨ht', hrun, hkeys, hget⟩ := ih (ht.add r.key r.responseTime)
    refine ⟨ht', ?_, fun b => ?_, fun b => ?_⟩
    · rw [List.map_cons, List.foldlM_cons, processRow_text]
      exact hrun
    · rw [hkeys, mem_keys_add, List.exists_mem_cons_iff, or_assoc]
    · rw [hget, get_add]
      by_cases hb : r.key = b
      · rw [if_pos hb, List.filter_cons_of_pos (by simpa using hb), List.map_cons, List.append_assoc, List.singleton_append]
      · rw [if_neg hb, List.filter_cons_of_neg (by simpa using hb)]

/-- **The table**: a key for every bucket of a row, and the response times of its rows in their order. -/
theorem group_spec (rows : List Row) : ∃ ht, (lines (fileOf rows)).foldlM processRow empty = .ok ht ∧
    (∀ b, b ∈ ht.keys ↔ ∃ r ∈ rows, r.key = b) ∧
    ∀ b, ht.get b = (rows.filter fun r => r.key = b).map Row.responseTime := by
  obtain ⟨ht, hrun, hkeys, hget⟩ := foldlM_rows rows empty
  rw [lines_fileOf]
  exact ⟨ht, hrun, fun b => by simpa [empty] using hkeys b, fun b => by simpa [empty] using hget b⟩

/-! ## The output -/

variable {rows : List Row} {ht : Hashtable}

def outputOf (ht : Hashtable) : List (ℤ × ℚ) := (ht.keys.mergeSort (· ≤ ·)).map fun key => (key, average (ht.get key))

theorem outputOf_fst (ht : Hashtable) : (outputOf ht).map Prod.fst = ht.keys.mergeSort (· ≤ ·) := by
  rw [outputOf, List.map_map]
  exact List.map_id _

theorem outputOf_increasing (ht : Hashtable) : ((outputOf ht).map Prod.fst).Pairwise (· < ·) := by
  have hperm := List.mergeSort_perm ht.keys (fun a b : ℤ => decide (a ≤ b))
  have hsorted : (ht.keys.mergeSort (· ≤ ·)).Pairwise fun a b => decide (a ≤ b) :=
    List.pairwise_mergeSort (fun a b c hab hbc => by simp only [decide_eq_true_eq] at *; exact hab.trans hbc)
      (fun a b => by simpa using le_total a b) ht.keys
  rw [outputOf_fst]
  exact (hsorted.and (hperm.nodup_iff.2 ht.nodup)).imp fun h => lt_of_le_of_ne (of_decide_eq_true h.1) h.2

theorem key_eq_bucket {r : Row} (h : r.bucket < 2 ^ 63) : r.key = r.bucket := by
  have hnat : (r.bucket : ℚ) = ((50 * (r.startMs / 50) : ℕ) : ℚ) := by
    rw [Row.bucket]
    push_cast
    rfl
  rw [Row.key, hnat, toLong_natCast]
  · rw [Row.bucket]
    push_cast
    rfl
  · rw [Row.bucket] at h
    omega

/-- what the parser prints -/
theorem parse_spec (rows : List Row) : ∃ ht, parseApacheCSV (fileOf rows) = .ok (outputOf ht) ∧
    (∀ b, b ∈ (outputOf ht).map Prod.fst ↔ ∃ r ∈ rows, r.key = b) ∧ (∀ b, b ∈ ht.keys ↔ ∃ r ∈ rows, r.key = b) ∧
    ((∀ r ∈ rows, r.bucket < 2 ^ 63) → ∀ b, ht.get b = groupOf rows b) := by
  obtain ⟨ht, hrun, hkeys, hget⟩ := group_spec rows
  refine ⟨ht, ?_, fun b => ?_, hkeys, fun hlong b => ?_⟩
  · unfold parseApacheCSV
    rw [hrun]
    rfl
  · rw [outputOf_fst, (List.mergeSort_perm ht.keys _).mem_iff, hkeys]
  · rw [hget, groupOf]
    refine congrArg _ (List.filter_congr fun r hr => ?_)
    rw [key_eq_bucket (hlong r hr)]

/-- the output is right if nothing is dropped -/
theorem pointInTime_of_exact (hexact : Exact rows) : ∃ out, parseApacheCSV (fileOf rows) = .ok out ∧ PointInTime rows out := by
  obtain ⟨ht, hout, hbuckets, -, hgroup⟩ := parse_spec rows
  refine ⟨outputOf ht, hout, outputOf_increasing ht, fun b => ?_, fun p hp => ?_⟩
  · rw [hbuckets]
    exact exists_congr fun r => and_congr_right fun hr => by rw [key_eq_bucket (hexact.inLong r hr)]
  · obtain ⟨key, -, rfl⟩ := List.mem_map.1 hp
    have hint : ∀ x ∈ groupOf rows key, ∃ k : ℤ, x = k := by
      intro x hx
      obtain ⟨r, hr, rfl⟩ := List.mem_map.1 hx
      exact hexact.integral r (List.mem_of_mem_filter hr)
    have hsum : (sumFrom 0 (groupOf rows key) : ℚ) = (0 : ℤ) + (groupOf rows key).sum :=
      sumFrom_eq hint fun l hl => by simpa using hexact.inInt key l hl
    simp only [average, hgroup hexact.inLong, hsum, Int.cast_zero, zero_add]

/-- a right output of times that are not negative drops nothing -/
theorem exact_of_pointInTime (hpos : ∀ r ∈ rows, 0 ≤ r.responseTime)
    (h : ∃ out, parseApacheCSV (fileOf rows) = .ok out ∧ PointInTime rows out) : Exact rows := by
  obtain ⟨out, hrun', hright⟩ := h
  obtain ⟨ht, hout, hbuckets, hkeys, hgroup⟩ := parse_spec rows
  obtain rfl : outputOf ht = out := Except.ok.inj (hout.symm.trans hrun')
  have hlong : ∀ r ∈ rows, r.bucket < 2 ^ 63 := by
    intro r hr
    obtain ⟨r', -, hkey⟩ := (hbuckets r.bucket).1 ((hright.buckets r.bucket).2 ⟨r, hr, rfl⟩)
    have := toLong_le_max (r'.bucket : ℚ)
    rw [Row.key] at hkey
    omega
  have hgroupPos (b : ℤ) : ∀ x ∈ groupOf rows b, 0 ≤ x := by
    intro x hx
    obtain ⟨r, hr, rfl⟩ := List.mem_map.1 hx
    exact hpos r (List.mem_of_mem_filter hr)
  -- nothing is dropped from the sum of a bucket that has rows
  have hwhole (b : ℤ) (hne : groupOf rows b ≠ []) :
      (∀ x ∈ groupOf rows b, ∃ k : ℤ, x = k) ∧ (groupOf rows b).sum ≤ 2 ^ 31 - 1 := by
    obtain ⟨x, hx⟩ := List.exists_mem_of_ne_nil _ hne
    obtain ⟨r, hr, -⟩ := List.mem_map.1 hx
    obtain ⟨hmem, hb⟩ := List.mem_filter.1 hr
    have hkey : b ∈ ht.keys := (hkeys b).2 ⟨r, hmem, by rw [key_eq_bucket (hlong r hmem)]; simpa using hb⟩
    have hprinted : (b, average (ht.get b)) ∈ outputOf ht :=
      List.mem_map.2 ⟨b, (List.mergeSort_perm ht.keys _).mem_iff.2 hkey, rfl⟩
    have hmean := hright.mean _ hprinted
    have hlen : ((groupOf rows b).length : ℚ) ≠ 0 := by
      have := List.length_pos_of_ne_nil hne
      exact_mod_cast this.ne'
    rw [average, hgroup hlong, div_left_inj' hlen] at hmean
    obtain ⟨hint, hrange⟩ := of_sumFrom_eq le_rfl (hgroupPos b) (by rw [hmean, Int.cast_zero, zero_add])
    exact ⟨hint, by simpa using hrange.resolve_left hne⟩
  refine ⟨hlong, fun r hr => ?_, fun b l hl => ?_⟩
  · have hmem : r.responseTime ∈ groupOf rows r.bucket := List.mem_map.2 ⟨r, List.mem_filter.2 ⟨hr, by simp⟩, rfl⟩
    exact (hwhole r.bucket (List.ne_nil_of_mem hmem)).1 _ hmem
  · obtain ⟨l', hl'⟩ := hl
    have hsub : ∀ x ∈ l ++ l', 0 ≤ x := by
      rw [hl']
      exact hgroupPos b
    have hl0 : 0 ≤ l.sum := List.sum_nonneg fun x hx => hsub x (List.mem_append_left _ hx)
    have hl'0 : 0 ≤ l'.sum := List.sum_nonneg fun x hx => hsub x (List.mem_append_right _ hx)
    have hle : l.sum ≤ 2 ^ 31 - 1 := by
      by_cases hne : groupOf rows b = []
      · rw [hne, List.append_eq_nil_iff] at hl'
        rw [hl'.1]
        norm_num
      · have htotal := (hwhole b hne).2
        rw [← hl', List.sum_append] at htotal
        linarith
    exact ⟨by linarith, hle⟩

/-- **The output is right** if no response time has a fraction, and the sums and the times are in the range of their types; and only
then, if no response time is negative. -/
theorem point_in_time_iff (rows : List Row) :
    (Exact rows → ∃ out, parseApacheCSV (fileOf rows) = .ok out ∧ PointInTime rows out) ∧
    ((∀ r ∈ rows, 0 ≤ r.responseTime) →
      ((∃ out, parseApacheCSV (fileOf rows) = .ok out ∧ PointInTime rows out) ↔ Exact rows)) :=
  ⟨pointInTime_of_exact, fun hpos => ⟨exact_of_pointInTime hpos, pointInTime_of_exact⟩⟩

/-- a request that starts at 1417392005.123 -/
def rowOf (rt : Text) (responseTime : ℚ) (clean : ∀ c ∈ rt, c ≠ ',' ∧ c ≠ '\n' ∧ c ≠ '\r') (trimmed : ∀ c ∈ rt.getLast?, 32 < c.toNat)
    (value : parseDouble rt = .ok responseTime) : Row where
  whole := "1417392005".toList
  fraction := "123".toList
  endTime := "1417392005.130".toList
  category := "html".toList
  rt := rt
  responseTime := responseTime
  digits := by decide
  whole_ne := by decide
  three := by decide
  clean := by
    intro c hc
    rcases List.mem_append.1 hc with hc | hc
    · exact (by decide : ∀ c ∈ "1417392005.130".toList ++ "html".toList, c ≠ ',' ∧ c ≠ '\n' ∧ c ≠ '\r') c hc
    · exact clean c hc
  trimmed := trimmed
  value := value

def wholeRow : Row := rowOf "7".toList 7 (by decide) (by simp) (by decide +kernel)

theorem whole_exact : ∃ out, parseApacheCSV (fileOf [wholeRow]) = .ok out ∧ PointInTime [wholeRow] out := by
  refine (point_in_time_iff [wholeRow]).1 ⟨by decide +kernel, fun r hr => ?_, fun b l hl => ?_⟩
  · rw [List.mem_singleton.1 hr]
    exact ⟨7, rfl⟩
  · have hgroup : groupOf [wholeRow] b <+: [7] := by
      unfold groupOf
      by_cases hb : wholeRow.bucket = b
      · rw [List.filter_cons_of_pos (by simpa using hb)]
        exact List.prefix_rfl
      · rw [List.filter_cons_of_neg (by simpa using hb)]
        exact List.nil_prefix
    rcases List.prefix_cons_iff.1 (hl.trans hgroup) with rfl | ⟨t, rfl, ht⟩
    · norm_num
    · rw [List.prefix_nil.1 ht]
      norm_num

def halfRow : Row := rowOf "0.7".toList 0.7 (by decide) (by simp) (by decide +kernel)

/-- **Dropped**: the response times of two requests of less than a unit each. -/
theorem half_dropped : ¬ ∃ out, parseApacheCSV (fileOf [halfRow, halfRow]) = .ok out ∧ PointInTime [halfRow, halfRow] out := by
  intro h
  have hexact := exact_of_pointInTime (by decide +kernel) h
  obtain ⟨n, hn⟩ := hexact.integral halfRow List.mem_cons_self
  have htime : halfRow.responseTime = 0.7 := rfl
  have hseven : (10 : ℚ) * n = 7 := by
    rw [← hn, htime]
    norm_num
  have : 10 * n = 7 := by exact_mod_cast hseven
  omega

end Rubbos.Parsers.PointInTimeParser
