/-
The file that a transition table is read from (`TransitionTable.ReadExcelTextFile`).

A line is cut into tokens at runs of tabs, so that an empty cell is skipped and the cells behind it move up; where a line has
further cells, the row is taken with its values in the wrong columns. A line that is missing is null, and the
NullPointerException of the tokenizer is not caught; of the three lines behind the header nobody looks whether they are there.

What `new Float` makes of a text is a parameter.

- `Layout`: the format of the files under workload/.
- `readRows_good`, `readRows_bad`: the loop over the rows, for rows that are well formed once the empty cells are left out, and
  for others.
- `layout_iff`: when the method does what it says.

Counterexample `empty_cell_shifts`: a row with an empty cell and a comment.
-/
import Rubbos.Core.Effect
import Rubbos.Core.JSplit
import Rubbos.Core.Tokenizer

namespace Rubbos.Client.ReadExcelTextFile

open Rubbos.Core JString Tokenizer

variable {F : Type}

/-! ## Model -/

inductive Failure where
  | noSuchElement
  | numberFormat
  | nullPointer
deriving DecidableEq

/-- what is read: the name of the table, and for each row the name of its state and its values -/
structure Contents (F : Type) where
  tableName : Text
  rows : List (Text × List F)
deriving DecidableEq

/-- `stateNames[i]` -/
def Contents.stateName (c : Contents F) (i : ℕ) : Option Text := (c.rows[i]?).map (·.1)

/-- `transitions[j][i]` -/
def Contents.transition (c : Contents F) (j i : ℕ) : Option F := (c.rows[i]?).bind fun row => row.2[j]?

/-- `reader.readLine()` -/
def readLine : List Text → Option Text × List Text
  | [] => (none, [])
  | l :: ls => (some l, ls)

/-- `new StringTokenizer(line, "\t")` -/
def newTokenizer : Option Text → Except Failure Text
  | none => .error .nullPointer
  | some l => .ok l

/-- `st.nextToken()` -/
def nextToken (st : Text) : Except Failure (Text × Text) :=
  match Tokenizer.nextToken '\t' st with
  | none => .error .noSuchElement
  | some r => .ok r

/-- `new Integer(s)` -/
def newInteger (s : Text) : Except Failure ℤ := (parseInt s).mapError fun _ => .numberFormat

section

variable (newFloat : Text → Option F) (nbColumns nbRows : ℕ)

/-- the values of the columns that are left -/
def readColumns : (left : ℕ) → Text → Except Failure (List F × Text)
  | 0, st => .ok ([], st)
  | left + 1, st => do
    let (s, st) ← nextToken st
    match newFloat s with
    | none => throw .numberFormat
    | some f => do
      let (fs, st) ← readColumns left st
      return (f :: fs, st)

/-- one pass through the loop over the rows -/
def readRow (line : Option Text) : Except Failure (Text × List F) := do
  let st ← newTokenizer line
  let (stateName, st) ← nextToken st
  let (fs, st) ← readColumns newFloat nbColumns st
  let (s, _) ← nextToken st
  let _ ← newInteger s
  return (stateName, fs)

/-- the rows that are left -/
def readRows : (left : ℕ) → List Text → Except Failure (List (Text × List F))
  | 0, _ => .ok []
  | left + 1, reader => do
    let row ← readRow newFloat nbColumns (readLine reader).1
    let rows ← readRows left (readLine reader).2
    return row :: rows

/-- the try block -/
def readFile (reader : List Text) : Except Failure (Contents F) := do
  let st ← newTokenizer (readLine reader).1
  let (_, st) ← nextToken st
  let (tableName, _) ← nextToken st
  -- the empty line, To >>>, the column headers
  let reader := (readLine (readLine (readLine (readLine reader).2).2).2).2
  let rows ← readRows newFloat nbColumns nbRows reader
  return ⟨tableName, rows⟩

/-- the method: true with what was read, false, or an exception that escapes -/
def readExcelTextFile (file : Text) : Except Failure (Option (Contents F)) :=
  match readFile newFloat nbColumns nbRows (lines file) with
  | .ok c => .ok (some c)
  | .error .nullPointer => .error .nullPointer
  | .error _ => .ok none

/-! ## The format -/

/-- a state name, a value for each column and a waiting time; further cells are ignored -/
def RowRight (cs : List Text) : Prop :=
  ∃ stateName fs wait rest, cs = stateName :: (fs ++ wait :: rest) ∧ fs.length = nbColumns ∧ (∀ f ∈ fs, (newFloat f).isSome) ∧
    ∃ n, parseInt wait = .ok n

/-- the rows of the table that the file has -/
def rowLines (file : Text) : List Text := ((lines file).drop 4).take nbRows

/-- the documented layout -/
structure Layout (file : Text) : Prop where
  header : ∃ header a b rest, (lines file).head? = some header ∧ cells '\t' header = a :: b :: rest ∧ a ≠ [] ∧ b ≠ []
  long : 4 + nbRows ≤ (lines file).length
  right : ∀ line ∈ rowLines nbRows file, RowRight newFloat nbColumns (cells '\t' line)
  full : ∀ line ∈ rowLines nbRows file, ∀ c ∈ (cells '\t' line).take (nbColumns + 2), c ≠ []

/-- cell j of row i, as a value -/
def CellIs (file : Text) (i j : ℕ) (v : F) : Prop :=
  ∃ line cell, (rowLines nbRows file)[i]? = some line ∧ (cells '\t' line)[j + 1]? = some cell ∧ newFloat cell = some v

/-- what the method promises -/
structure ReadsLayout (file : Text) : Prop where
  accepts_iff : (∃ c, readExcelTextFile newFloat nbColumns nbRows file = .ok (some c)) ↔ Layout newFloat nbColumns nbRows file
  contents : ∀ c, readExcelTextFile newFloat nbColumns nbRows file = .ok (some c) → ∀ i < nbRows, ∀ j < nbColumns,
    ∃ v, c.transition j i = some v ∧ CellIs newFloat nbRows file i j v
  refuses : ¬ Layout newFloat nbColumns nbRows file → readExcelTextFile newFloat nbColumns nbRows file = .ok none
  unshifted : ∀ c, readExcelTextFile newFloat nbColumns nbRows file = .ok (some c) → ∀ i line,
    (rowLines nbRows file)[i]? = some line → (cells '\t' line).length = nbColumns + 2 → ∀ j < nbColumns,
      ∃ v, c.transition j i = some v ∧ CellIs newFloat nbRows file i j v

/-- The file is not empty. If, with the empty cells left out, the header has two cells and every row that the file has is right,
then no line is missing and no cell that is read is empty. -/
def NothingMissing (file : Text) : Prop :=
  ∃ header, (lines file).head? = some header ∧
    (2 ≤ (tokens '\t' header).length → (∀ line ∈ rowLines nbRows file, RowRight newFloat nbColumns (tokens '\t' line)) →
      4 + nbRows ≤ (lines file).length ∧ (∀ c ∈ (cells '\t' header).take 2, c ≠ []) ∧
        ∀ line ∈ rowLines nbRows file, ∀ c ∈ (cells '\t' line).take (nbColumns + 2), c ≠ [])

end

/-! ## Tokens -/

variable {newFloat : Text → Option F} {nbColumns nbRows k : ℕ} {st st' w file line : Text} {ws rest ls : List Text} {fs : List F}
  {row : Text × List F}

theorem nextToken_cons (h : tokens '\t' st = w :: ws) : ∃ st', nextToken st = .ok (w, st') ∧ tokens '\t' st' = ws := by
  rcases Tokenizer.nextToken_eq '\t' st with ⟨-, hnil⟩ | ⟨v, st', hnext, htokens⟩
  · rw [hnil] at h
    cases h
  · rw [htokens] at h
    obtain ⟨rfl, rfl⟩ := List.cons.inj h
    exact ⟨st', by rw [nextToken, hnext], rfl⟩

theorem nextToken_nil (h : tokens '\t' st = []) : nextToken st = .error .noSuchElement := by
  rcases Tokenizer.nextToken_eq '\t' st with ⟨hnone, -⟩ | ⟨v, st', -, htokens⟩
  · rw [nextToken, hnone]
  · rw [htokens] at h
    cases h

theorem nextToken_ok (h : nextToken st = .ok (w, st')) : tokens '\t' st = w :: tokens '\t' st' := by
  cases htokens : tokens '\t' st with
  | nil =>
    rw [nextToken_nil htokens] at h
    cases h
  | cons v vs =>
    obtain ⟨st'', hnext, rfl⟩ := nextToken_cons htokens
    rw [hnext] at h
    cases h
    rfl

/-! ## Columns -/

/-- values for the columns, taken off the tokens -/
theorem readColumns_of_tokens (h : tokens '\t' st = ws ++ rest) (hws : ∀ f ∈ ws, (newFloat f).isSome) :
    ∃ fs st', readColumns newFloat ws.length st = .ok (fs, st') ∧ tokens '\t' st' = rest := by
  induction ws generalizing st with
  | nil => exact ⟨[], st, rfl, h⟩
  | cons w ws ih =>
    obtain ⟨st₁, hnext, htokens⟩ := nextToken_cons h
    obtain ⟨hw, hws⟩ := List.forall_mem_cons.1 hws
    obtain ⟨f, hf⟩ := Option.isSome_iff_exists.1 hw
    obtain ⟨fs, st', hread, hrest⟩ := ih htokens hws
    refine ⟨f :: fs, st', ?_, hrest⟩
    rw [List.length_cons, readColumns, hnext]
    simp only [bind, Except.bind, hf, hread]
    rfl

theorem readColumns_ok (h : readColumns newFloat nbColumns st = .ok (fs, st')) :
    ∃ ws, tokens '\t' st = ws ++ tokens '\t' st' ∧ ws.length = nbColumns ∧ ws.map newFloat = fs.map some := by
  induction nbColumns generalizing st fs with
  | zero =>
    cases h
    exact ⟨[], rfl, rfl, rfl⟩
  | succ n ih =>
    rw [readColumns] at h
    obtain ⟨⟨w, st₁⟩, hnext, h⟩ := bind_eq_ok.1 h
    cases hf : newFloat w with
    | none =>
      simp only [hf] at h
      cases h
    | some f =>
      simp only [hf] at h
      obtain ⟨⟨fs', st₂⟩, hread, h⟩ := bind_eq_ok.1 h
      cases h
      obtain ⟨ws, htokens, hlen, hmap⟩ := ih hread
      refine ⟨w :: ws, ?_, by rw [List.length_cons, hlen], by rw [List.map_cons, List.map_cons, hf, hmap]⟩
      rw [nextToken_ok hnext, htokens, List.cons_append]

/-! ## Exceptions that are caught -/

/-- what ends in an exception ends in one that the method catches -/
def Caught {α : Type} (x : Except Failure α) : Prop := x ≠ .error .nullPointer

theorem caught_bind {α β : Type} {x : Except Failure α} {f : α → Except Failure β} (hx : Caught x) (hf : ∀ a, Caught (f a)) :
    Caught (x >>= f) := by
  intro h
  rcases bind_eq_error.1 h with h | ⟨a, -, h⟩
  · exact hx h
  · exact hf a h

theorem caught_nextToken (st : Text) : Caught (nextToken st) := by
  intro h
  unfold nextToken at h
  split at h <;> cases h

theorem caught_newInteger (s : Text) : Caught (newInteger s) := by
  intro h
  unfold newInteger at h
  cases hs : parseInt s with
  | error e =>
    rw [hs] at h
    cases h
  | ok n =>
    rw [hs] at h
    cases h

theorem caught_readColumns (left : ℕ) (st : Text) : Caught (readColumns newFloat left st) := by
  induction left generalizing st with
  | zero => exact fun h => by cases h
  | succ left ih =>
    rw [readColumns]
    refine caught_bind (caught_nextToken st) fun r => ?_
    cases hf : newFloat r.1 with
    | none => exact fun h => by simp only [hf] at h; cases h
    | some f =>
      simp only [hf]
      exact caught_bind (ih r.2) fun _ h => by cases h

/-! ## Rows -/

/-- the values of a row are those of its tokens behind the first one -/
def Taken (newFloat : Text → Option F) (nbColumns : ℕ) (line : Text) (row : Text × List F) : Prop :=
  ∃ ws wait rest, tokens '\t' line = row.1 :: (ws ++ wait :: rest) ∧ ws.length = nbColumns ∧
    ws.map newFloat = row.2.map some

theorem caught_readRow (line : Text) : Caught (readRow newFloat nbColumns (some line)) :=
  caught_bind (fun h => by cases h) fun _ => caught_bind (caught_nextToken _) fun _ =>
    caught_bind (caught_readColumns _ _) fun _ => caught_bind (caught_nextToken _) fun _ =>
      caught_bind (caught_newInteger _) fun _ h => by cases h

theorem readRow_ok (h : readRow newFloat nbColumns (some line) = .ok row) :
    RowRight newFloat nbColumns (tokens '\t' line) ∧ Taken newFloat nbColumns line row := by
  obtain ⟨st, hst, h⟩ := bind_eq_ok.1 h
  cases hst
  obtain ⟨⟨stateName, st₁⟩, hname, h⟩ := bind_eq_ok.1 h
  obtain ⟨⟨fs, st₂⟩, hcolumns, h⟩ := bind_eq_ok.1 h
  obtain ⟨⟨wait, st₃⟩, hwait, h⟩ := bind_eq_ok.1 h
  obtain ⟨n, hn, h⟩ := bind_eq_ok.1 h
  cases h
  obtain ⟨ws, htokens, hlen, hmap⟩ := readColumns_ok hcolumns
  have hline : tokens '\t' line = stateName :: (ws ++ wait :: tokens '\t' st₃) := by
    rw [nextToken_ok hname, htokens, nextToken_ok hwait]
  refine ⟨⟨stateName, ws, wait, _, hline, hlen, fun f hf => ?_, ?_⟩, ws, wait, _, hline, hlen, hmap⟩
  · obtain ⟨v, -, hv⟩ := List.mem_map.1 (hmap ▸ List.mem_map_of_mem hf)
    rw [← hv]
    rfl
  · unfold newInteger at hn
    cases hparse : parseInt wait with
    | error e =>
      rw [hparse] at hn
      cases hn
    | ok m => exact ⟨m, rfl⟩

theorem readRow_of_right (h : RowRight newFloat nbColumns (tokens '\t' line)) :
    ∃ row, readRow newFloat nbColumns (some line) = .ok row := by
  obtain ⟨stateName, ws, wait, rest, htokens, rfl, hws, n, hn⟩ := h
  obtain ⟨st₁, hname, h₁⟩ := nextToken_cons htokens
  obtain ⟨fs, st₂, hcolumns, h₂⟩ := readColumns_of_tokens h₁ hws
  obtain ⟨st₃, hwait, -⟩ := nextToken_cons h₂
  have hint : newInteger wait = .ok n := by
    rw [newInteger, hn]
    rfl
  exact ⟨_, bind_eq_ok.2 ⟨_, rfl, bind_eq_ok.2 ⟨_, hname, bind_eq_ok.2 ⟨_, hcolumns, bind_eq_ok.2 ⟨_, hwait,
    bind_eq_ok.2 ⟨_, hint, rfl⟩⟩⟩⟩⟩⟩

/-- all rows are there, and right: they are read -/
theorem readRows_good (hlong : k ≤ ls.length) (h : ∀ line ∈ ls.take k, RowRight newFloat nbColumns (tokens '\t' line)) :
    ∃ rows, readRows newFloat nbColumns k ls = .ok rows ∧ List.Forall₂ (Taken newFloat nbColumns) (ls.take k) rows := by
  induction k generalizing ls with
  | zero => exact ⟨[], rfl, .nil⟩
  | succ k ih =>
    cases ls with
    | nil => cases hlong
    | cons line ls =>
      obtain ⟨hline, hls⟩ := List.forall_mem_cons.1 h
      obtain ⟨row, hrow⟩ := readRow_of_right hline
      obtain ⟨rows, hrows, htaken⟩ := ih (Nat.le_of_succ_le_succ hlong) hls
      exact ⟨row :: rows, bind_eq_ok.2 ⟨row, hrow, bind_eq_ok.2 ⟨rows, hrows, rfl⟩⟩, .cons (readRow_ok hrow).2 htaken⟩

/-- the rows that are there are right, and one is missing: null goes into the tokenizer -/
theorem readRows_short (hshort : ls.length < k) (h : ∀ line ∈ ls.take k, RowRight newFloat nbColumns (tokens '\t' line)) :
    readRows newFloat nbColumns k ls = .error .nullPointer := by
  induction k generalizing ls with
  | zero => cases hshort
  | succ k ih =>
    cases ls with
    | nil => rfl
    | cons line ls =>
      obtain ⟨hline, hls⟩ := List.forall_mem_cons.1 h
      obtain ⟨row, hrow⟩ := readRow_of_right hline
      exact bind_eq_error.2 (.inr ⟨row, hrow, bind_eq_error.2 (.inl (ih (Nat.lt_of_succ_lt_succ hshort) hls))⟩)

/-- a row is not right: reading ends in an exception that is caught, for no row is missing in front of it -/
theorem readRows_bad (h : ∃ line ∈ ls.take k, ¬ RowRight newFloat nbColumns (tokens '\t' line)) :
    ∃ e, readRows newFloat nbColumns k ls = .error e ∧ e ≠ .nullPointer := by
  induction k generalizing ls with
  | zero =>
    obtain ⟨line, hline, -⟩ := h
    cases hline
  | succ k ih =>
    obtain ⟨line, hline, hbad⟩ := h
    cases ls with
    | nil => cases hline
    | cons first ls =>
      cases hrow : readRow newFloat nbColumns (some first) with
      | error e =>
        exact ⟨e, bind_eq_error.2 (.inl hrow), fun he => caught_readRow first (he ▸ hrow)⟩
      | ok row =>
        rcases List.mem_cons.1 hline with rfl | hline
        · exact absurd (readRow_ok hrow).1 hbad
        · obtain ⟨e, he, hne⟩ := ih ⟨line, hline, hbad⟩
          exact ⟨e, bind_eq_error.2 (.inr ⟨row, hrow, bind_eq_error.2 (.inl he)⟩), hne⟩

/-! ## The file -/

theorem readLine_rest (ls : List Text) : (readLine ls).2 = ls.tail := by cases ls <;> rfl

section

variable {header : Text} (hheader : (lines file).head? = some header)

theorem empty_file (h : (lines file).head? = none) : readExcelTextFile newFloat nbColumns nbRows file = .error .nullPointer := by
  rw [readExcelTextFile, List.head?_eq_none_iff.1 h]
  rfl

include hheader

theorem short_header (h : (tokens '\t' header).length < 2) : readExcelTextFile newFloat nbColumns nbRows file = .ok none := by
  obtain ⟨ls, hls⟩ := List.head?_eq_some_iff.1 hheader
  have herror : readFile newFloat nbColumns nbRows (lines file) = .error .noSuchElement := by
    rw [hls]
    cases htokens : tokens '\t' header with
    | nil => exact bind_eq_error.2 (.inr ⟨header, rfl, bind_eq_error.2 (.inl (nextToken_nil htokens))⟩)
    | cons a ws =>
      obtain ⟨st, hst, rfl⟩ := nextToken_cons htokens
      have hnil : tokens '\t' st = [] := by
        rw [htokens, List.length_cons] at h
        exact List.length_eq_zero_iff.1 (by omega)
      exact bind_eq_error.2 (.inr ⟨header, rfl, bind_eq_error.2 (.inr ⟨_, hst, bind_eq_error.2 (.inl (nextToken_nil hnil))⟩)⟩)
  rw [readExcelTextFile, herror]

/-- with a name in the header, the rows decide -/
theorem readFile_rows (newFloat : Text → Option F) (nbColumns nbRows : ℕ) (h : 2 ≤ (tokens '\t' header).length) :
    ∃ tableName, readFile newFloat nbColumns nbRows (lines file) =
      (readRows newFloat nbColumns nbRows ((lines file).drop 4)).map fun rows => ⟨tableName, rows⟩ := by
  obtain ⟨ls, hls⟩ := List.head?_eq_some_iff.1 hheader
  obtain ⟨a, b, ws, htokens⟩ : ∃ a b ws, tokens '\t' header = a :: b :: ws := by
    rcases htokens : tokens '\t' header with _ | ⟨a, _ | ⟨b, ws⟩⟩
    · rw [htokens] at h
      cases h
    · rw [htokens] at h
      cases h with
      | step h => cases h
    · exact ⟨a, b, ws, rfl⟩
  obtain ⟨st₁, hfirst, h₁⟩ := nextToken_cons htokens
  obtain ⟨st₂, hsecond, -⟩ := nextToken_cons h₁
  refine ⟨b, ?_⟩
  have hreader : (readLine (readLine (readLine (readLine (lines file)).2).2).2).2 = (lines file).drop 4 := by
    simp only [readLine_rest, ← List.drop_one, List.drop_drop]
  have hline : newTokenizer (readLine (lines file)).1 = .ok header := by
    rw [hls]
    rfl
  rw [readFile, hline, hreader]
  simp only [bind, Except.bind, hfirst, hsecond]
  cases readRows newFloat nbColumns nbRows ((lines file).drop 4) <;> rfl

theorem accepted (h : 2 ≤ (tokens '\t' header).length) (hlong : nbRows ≤ ((lines file).drop 4).length)
    (hrows : ∀ line ∈ rowLines nbRows file, RowRight newFloat nbColumns (tokens '\t' line)) :
    ∃ c, readExcelTextFile newFloat nbColumns nbRows file = .ok (some c) ∧
      List.Forall₂ (Taken newFloat nbColumns) (rowLines nbRows file) c.rows := by
  obtain ⟨tableName, hread⟩ := readFile_rows hheader newFloat nbColumns nbRows h
  obtain ⟨rows, hgood, htaken⟩ := readRows_good hlong hrows
  refine ⟨⟨tableName, rows⟩, ?_, htaken⟩
  rw [readExcelTextFile, hread, hgood]
  rfl

theorem thrown (h : 2 ≤ (tokens '\t' header).length) (hshort : ((lines file).drop 4).length < nbRows)
    (hrows : ∀ line ∈ rowLines nbRows file, RowRight newFloat nbColumns (tokens '\t' line)) :
    readExcelTextFile newFloat nbColumns nbRows file = .error .nullPointer := by
  obtain ⟨tableName, hread⟩ := readFile_rows hheader newFloat nbColumns nbRows h
  rw [readExcelTextFile, hread, readRows_short hshort hrows]
  rfl

theorem refused (h : 2 ≤ (tokens '\t' header).length)
    (hrows : ∃ line ∈ rowLines nbRows file, ¬ RowRight newFloat nbColumns (tokens '\t' line)) :
    readExcelTextFile newFloat nbColumns nbRows file = .ok none := by
  obtain ⟨tableName, hread⟩ := readFile_rows hheader newFloat nbColumns nbRows h
  obtain ⟨e, he, hne⟩ := readRows_bad hrows
  rw [readExcelTextFile, hread, he]
  cases e with
  | nullPointer => exact absurd rfl hne
  | noSuchElement => rfl
  | numberFormat => rfl

end

/-! ## Cells and tokens -/

/-- only the first cells of a row count -/
theorem rowRight_congr {cs cs' : List Text} (heq : cs.take (nbColumns + 2) = cs'.take (nbColumns + 2))
    (h : RowRight newFloat nbColumns cs) : RowRight newFloat nbColumns cs' := by
  obtain ⟨stateName, ws, wait, rest, rfl, rfl, hws, hn⟩ := h
  refine ⟨stateName, ws, wait, cs'.drop (ws.length + 2), ?_, rfl, hws, hn⟩
  have htake : (stateName :: (ws ++ wait :: rest)).take (ws.length + 2) = stateName :: (ws ++ [wait]) := by
    rw [List.take_succ_cons, List.take_length_add_append]
    rfl
  rw [htake] at heq
  conv_lhs => rw [← List.take_append_drop (ws.length + 2) cs', ← heq]
  simp

theorem length_of_rowRight {cs : List Text} (h : RowRight newFloat nbColumns cs) : nbColumns + 2 ≤ cs.length := by
  obtain ⟨stateName, ws, wait, rest, rfl, rfl, -, -⟩ := h
  simp only [List.length_cons, List.length_append]
  omega

/-- a value that was taken is that of the cell, where the cells in front are the tokens -/
theorem taken_cell (h : Taken newFloat nbColumns line row)
    (hcells : (tokens '\t' line).take (nbColumns + 2) = (cells '\t' line).take (nbColumns + 2)) {j : ℕ} (hj : j < nbColumns) :
    ∃ v cell, row.2[j]? = some v ∧ (cells '\t' line)[j + 1]? = some cell ∧ newFloat cell = some v := by
  obtain ⟨ws, wait, rest, htokens, rfl, hmap⟩ := h
  have hcell : (cells '\t' line)[j + 1]? = some ws[j] := by
    rw [← List.getElem?_take_of_lt (by omega : j + 1 < ws.length + 2), ← hcells, List.getElem?_take_of_lt (by omega), htokens,
      List.getElem?_cons_succ, List.getElem?_append_left hj, List.getElem?_eq_getElem hj]
  have hvalue : (row.2.map some)[j]? = some (newFloat ws[j]) := by
    rw [← hmap, List.getElem?_map, List.getElem?_eq_getElem hj]
    rfl
  rw [List.getElem?_map] at hvalue
  obtain ⟨v, hv, hsome⟩ := Option.map_eq_some_iff.1 hvalue
  exact ⟨v, ws[j], hv, hcell, hsome.symm⟩

/-! ## What the method promises -/

theorem Layout.tokens_header (h : Layout newFloat nbColumns nbRows file) :
    ∃ header, (lines file).head? = some header ∧ 2 ≤ (tokens '\t' header).length := by
  obtain ⟨header, a, b, rest, hheader, hcells, ha, hb⟩ := h.header
  refine ⟨header, hheader, ?_⟩
  have htake : (tokens '\t' header).take 2 = [a, b] := by
    rw [take_tokens (by rw [hcells]; simp) (by rw [hcells]; simp [ha, hb]), hcells]
    rfl
  have hlen := congrArg List.length htake
  rw [List.length_take, List.length_cons, List.length_singleton] at hlen
  omega

theorem take_of_full (hright : RowRight newFloat nbColumns (cells '\t' line))
    (hfull : ∀ c ∈ (cells '\t' line).take (nbColumns + 2), c ≠ []) :
    (tokens '\t' line).take (nbColumns + 2) = (cells '\t' line).take (nbColumns + 2) :=
  take_tokens (length_of_rowRight hright) hfull

theorem Layout.tokens_right (h : Layout newFloat nbColumns nbRows file) :
    ∀ line ∈ rowLines nbRows file, RowRight newFloat nbColumns (tokens '\t' line) := fun line hline =>
  rowRight_congr (take_of_full (h.right line hline) (h.full line hline)).symm (h.right line hline)

/-- a file whose rows are right without their empty cells has the layout, if none of the cells that are read is empty -/
theorem layout_of_full {header : Text} (hheader : (lines file).head? = some header) (htwo : 2 ≤ (tokens '\t' header).length)
    (hrows : ∀ line ∈ rowLines nbRows file, RowRight newFloat nbColumns (tokens '\t' line))
    (hlong : 4 + nbRows ≤ (lines file).length) (hname : ∀ c ∈ (cells '\t' header).take 2, c ≠ [])
    (hfull : ∀ line ∈ rowLines nbRows file, ∀ c ∈ (cells '\t' line).take (nbColumns + 2), c ≠ []) :
    Layout newFloat nbColumns nbRows file where
  header := by
    have hlen : 2 ≤ (cells '\t' header).length := htwo.trans length_tokens_le
    rcases hcells : cells '\t' header with _ | ⟨a, _ | ⟨b, rest⟩⟩
    · rw [hcells] at hlen
      cases hlen
    · rw [hcells, List.length_singleton] at hlen
      omega
    · rw [hcells] at hname
      exact ⟨header, a, b, rest, hheader, hcells, hname a (by simp), hname b (by simp)⟩
  long := hlong
  right := fun line hline =>
    have hlen := (length_of_rowRight (hrows line hline)).trans length_tokens_le
    rowRight_congr (take_tokens hlen (hfull line hline)) (hrows line hline)
  full := hfull

/-- the values of a file that is accepted are those of its cells, in a row whose cells are its tokens -/
theorem transition_of_taken {c : Contents F} (htaken : List.Forall₂ (Taken newFloat nbColumns) (rowLines nbRows file) c.rows)
    {i j : ℕ} (hj : j < nbColumns) (hline : (rowLines nbRows file)[i]? = some line)
    (hcells : (tokens '\t' line).take (nbColumns + 2) = (cells '\t' line).take (nbColumns + 2)) :
    ∃ v, c.transition j i = some v ∧ CellIs newFloat nbRows file i j v := by
  obtain ⟨hi, hget⟩ := List.getElem?_eq_some_iff.1 hline
  have hi' : i < c.rows.length := htaken.length_eq ▸ hi
  have hrow : Taken newFloat nbColumns line c.rows[i] := hget ▸ htaken.get hi hi'
  obtain ⟨v, cell, hv, hcell, hparse⟩ := taken_cell hrow hcells hj
  refine ⟨v, ?_, line, cell, hline, hcell, hparse⟩
  rw [Contents.transition, List.getElem?_eq_getElem hi', Option.bind_some, hv]

theorem readsLayout_of_refused (hnot : ¬ Layout newFloat nbColumns nbRows file)
    (h : readExcelTextFile newFloat nbColumns nbRows file = .ok none) : ReadsLayout newFloat nbColumns nbRows file where
  accepts_iff := iff_of_false (fun ⟨c, hc⟩ => by rw [h] at hc; cases hc) hnot
  contents := fun c hc => by rw [h] at hc; cases hc
  refuses := fun _ => h
  unshifted := fun c hc => by rw [h] at hc; cases hc

theorem not_readsLayout_of_thrown (hnot : ¬ Layout newFloat nbColumns nbRows file) {e : Failure}
    (h : readExcelTextFile newFloat nbColumns nbRows file = .error e) : ¬ ReadsLayout newFloat nbColumns nbRows file := by
  intro hreads
  have hrefused := hreads.refuses hnot
  rw [h] at hrefused
  cases hrefused

/-- a file that is accepted is read as it should be if and only if it has the layout -/
theorem readsLayout_of_accepted {c : Contents F} (h : readExcelTextFile newFloat nbColumns nbRows file = .ok (some c))
    (htaken : List.Forall₂ (Taken newFloat nbColumns) (rowLines nbRows file) c.rows) :
    ReadsLayout newFloat nbColumns nbRows file ↔ Layout newFloat nbColumns nbRows file := by
  constructor
  · exact fun hreads => hreads.accepts_iff.1 ⟨c, h⟩
  · intro hl
    refine ⟨iff_of_true ⟨c, h⟩ hl, fun c' hc' i hi j hj => ?_, fun hnot => absurd hl hnot, fun c' hc' i line hline _ j hj => ?_⟩
    · obtain rfl : c = c' := Option.some.inj (Except.ok.inj (h.symm.trans hc'))
      have hlt : i < (rowLines nbRows file).length := by
        have := hl.long
        rw [rowLines, List.length_take, List.length_drop]
        omega
      have hmem := List.getElem_mem hlt
      exact transition_of_taken htaken hj (List.getElem?_eq_getElem hlt) (take_of_full (hl.right _ hmem) (hl.full _ hmem))
    · obtain rfl : c = c' := Option.some.inj (Except.ok.inj (h.symm.trans hc'))
      have hmem := List.mem_of_getElem? hline
      exact transition_of_taken htaken hj hline (take_of_full (hl.right _ hmem) (hl.full _ hmem))

/-- **When the method does what it says.** It returns true exactly for the files of the layout, with their cells as values, and
else false, if and only if nothing is missing. -/
theorem layout_iff (newFloat : Text → Option F) (nbColumns nbRows : ℕ) (file : Text) :
    ReadsLayout newFloat nbColumns nbRows file ↔ NothingMissing newFloat nbColumns nbRows file := by
  by_cases hempty : (lines file).head? = none
  · -- null goes into the tokenizer of the header
    have hnot : ¬ Layout newFloat nbColumns nbRows file := fun hl => by
      obtain ⟨header, hheader, -⟩ := hl.tokens_header
      rw [hempty] at hheader
      cases hheader
    refine iff_of_false (not_readsLayout_of_thrown hnot (empty_file hempty)) fun ⟨header, hheader, _⟩ => ?_
    rw [hempty] at hheader
    cases hheader
  · obtain ⟨header, hheader⟩ := Option.ne_none_iff_exists'.1 hempty
    have hmissing : NothingMissing newFloat nbColumns nbRows file ↔
        (2 ≤ (tokens '\t' header).length → (∀ line ∈ rowLines nbRows file, RowRight newFloat nbColumns (tokens '\t' line)) →
          Layout newFloat nbColumns nbRows file) := by
      constructor
      · rintro ⟨header', hheader', h⟩ htwo hrows
        obtain rfl : header = header' := Option.some.inj (hheader.symm.trans hheader')
        obtain ⟨hlong, hname, hfull⟩ := h htwo hrows
        exact layout_of_full hheader htwo hrows hlong hname hfull
      · refine fun h => ⟨header, hheader, fun htwo hrows => ?_⟩
        have hl := h htwo hrows
        obtain ⟨header', a, b, rest, hheader', hcells, ha, hb⟩ := hl.header
        obtain rfl : header = header' := Option.some.inj (hheader.symm.trans hheader')
        refine ⟨hl.long, ?_, hl.full⟩
        rw [hcells]
        simp [ha, hb]
    rw [hmissing]
    by_cases htwo : 2 ≤ (tokens '\t' header).length
    · by_cases hrows : ∀ line ∈ rowLines nbRows file, RowRight newFloat nbColumns (tokens '\t' line)
      · rw [forall_prop_of_true htwo, forall_prop_of_true hrows]
        rcases Nat.lt_or_ge ((lines file).drop 4).length nbRows with hshort | hlong
        · have hnot : ¬ Layout newFloat nbColumns nbRows file := fun hl => by
            have := hl.long
            rw [List.length_drop] at hshort
            omega
          exact iff_of_false (not_readsLayout_of_thrown hnot (thrown hheader htwo hshort hrows)) hnot
        · obtain ⟨c, hc, htaken⟩ := accepted hheader htwo hlong hrows
          exact readsLayout_of_accepted hc htaken
      · have hbad : ∃ line ∈ rowLines nbRows file, ¬ RowRight newFloat nbColumns (tokens '\t' line) := by
          by_contra hgood
          exact hrows fun line hline => by_contra fun h => hgood ⟨line, hline, h⟩
        exact iff_of_true (readsLayout_of_refused (fun hl => hrows hl.tokens_right) (refused hheader htwo hbad))
          fun _ h => absurd h hrows
    · have hnot : ¬ Layout newFloat nbColumns nbRows file := fun hl => by
        obtain ⟨header', hheader', h⟩ := hl.tokens_header
        obtain rfl : header = header' := Option.some.inj (hheader.symm.trans hheader')
        exact htwo h
      exact iff_of_true (readsLayout_of_refused hnot (short_header hheader (Nat.lt_of_not_ge htwo))) fun h => absurd h htwo

/-- a row of one column, with an empty cell and a comment -/
def shiftedFile : Text := ['T', '\t', 'D', '\n', '\n', '\n', '\n', 's', '\t', '\t', '1', '\t', '7', '\n']

/-- what `new Float` makes of a whole number -/
def wholeFloat (s : Text) : Option ℚ := (parseInt s).toOption.map fun n => (n : ℚ)

theorem empty_cell_shifts :
    readExcelTextFile wholeFloat 1 1 shiftedFile = .ok (some ⟨['D'], [(['s'], [1])]⟩) ∧
      cells '\t' ['s', '\t', '\t', '1', '\t', '7'] = [['s'], [], ['1'], ['7']] ∧
      ¬ ReadsLayout wholeFloat 1 1 shiftedFile := by
  have hread : readExcelTextFile wholeFloat 1 1 shiftedFile = .ok (some ⟨['D'], [(['s'], [1])]⟩) := by decide
  refine ⟨hread, by decide, fun h => ?_⟩
  have hlayout := h.accepts_iff.1 ⟨_, hread⟩
  have hline : ['s', '\t', '\t', '1', '\t', '7'] ∈ rowLines 1 shiftedFile := by decide
  have hcell : [] ∈ (cells '\t' ['s', '\t', '\t', '1', '\t', '7']).take 3 := by decide
  exact hlayout.full _ hline [] hcell rfl

end Rubbos.Client.ReadExcelTextFile
