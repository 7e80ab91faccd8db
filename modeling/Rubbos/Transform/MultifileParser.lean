/-
Merging the monitor files of a directory (`process_files` in `multifile_parser.py`).

A file is what `csv.reader` yields for it: rows, and perhaps an exception in the end. The header of a file is its row number
`header_row_num`; its labels are cleaned, and those behind `time_index` get the node as a prefix. Each following row of the
same length is a record, filed under its transformed time. What the parser calls of Python's libraries is a parameter
(`Library`).

- `look_foldlM_addRow`: what the rows of a file give for a time and a label.
- `fileData_ok_iff`: when a file raises no exception.
- `foldlM_processFile`: the loop over the files.
-/
import Mathlib.Data.Char
import Mathlib.Data.Finset.Sort
import Mathlib.Data.List.Lex
import Rubbos.Core.Effect
import Rubbos.Transform.FileMap

namespace Rubbos.Transform.MultifileParser

open Rubbos.Core Python FilenameUtils FileMap

/-! ## Model -/

/-- the part of the file definition that is read -/
structure FileDefn where
  type : Text
  headerRowNum : ℤ
  timeIndex : ℤ
  timestamp : Text
  timeAdjustment : Text

/-- library functions; κ is the type of the transformed times -/
structure Library (κ : Type) where
  /-- `str.isidentifier()` -/
  isIdentifier : Text → Bool
  /-- `keyword.iskeyword` -/
  isKeyword : Text → Bool
  /-- `adjust_epoch`, which shifts a time of the clock -/
  adjustEpoch : (timeAdjustment time : Text) → Except LibExc κ
  /-- `parse` of dateutil, in seconds since the epoch -/
  parse : Text → Except LibExc κ

/-- what `csv.reader` yields, and how it ends if it does not end with the file -/
structure Content where
  rows : List (List Text)
  failure : Option LibExc
deriving DecidableEq

/-- a directory: every name once -/
structure Directory where
  path : Text
  names : List Text
  nodup : names.Nodup
  contents : Text → Content

/-- `clean` -/
def clean (strToClean : Text) : Text :=
  strip ((((strToClean.filter fun c => c ∉ ['#', '[']).flatMap fun c => if c = '%' then "_PCT".toList else [c])).map
    fun c => if c = ':' ∨ c = ']' then '_' else c)

def mergeHeaders (hdrList : List (List Text)) : List Text :=
  "transform_timestamp".toList :: hdrList.flatten.toFinset.sort (· ≤ ·)

def getTimestampKey (defn : FileDefn) : List Text := split ['_'] defn.timestamp

variable {κ : Type}

/-- `adjust_datetime` -/
def adjustDatetime (lib : Library κ) (timeAdjustment : Text) : List Text → Except PyExc κ
  | [time, date] => (lib.parse (date ++ ' ' :: (time ++ ' ' :: timeAdjustment))).mapError .library
  | _ => .error (.library .valueError)

/-- `transform_time(*time_date)`; the function it returns gets the values of the columns in timeDate -/
def transformTime (lib : Library κ) (timeDate : List Text) : Except PyExc (Text → List Text → Except PyExc κ) :=
  match timeDate with
  | [] => .error .noTimestampColumnFoundError
  | [_] => .ok fun timeAdjustment values =>
    match values with
    | time :: _ => (lib.adjustEpoch timeAdjustment time).mapError .library
    | [] => .error .indexError
  | _ => .ok (adjustDatetime lib)

/-- whether `namedtuple('DataRecord', header)` is a class -/
def isHeader (lib : Library κ) (header : List Text) : Bool :=
  (header.all fun name => lib.isIdentifier name && !lib.isKeyword name && name.head? ≠ some '_') && header.Nodup

/-- `getattr(row, attrib)`. The two methods of a tuple that an attribute could name are no times, and count as missing. -/
def getattr (header row : List Text) (attrib : Text) : Except PyExc Text :=
  match (header.zip row).find? fun e => e.1 = attrib with
  | some e => .ok e.2
  | none => .error .attributeError

/-- `row._asdict()` -/
def asdict (header row : List Text) : Dict Text Text := Dict.empty.setAll (header.zip row)

/-- the transformed time of a record -/
def timeOf (lib : Library κ) (defn : FileDefn) (header row : List Text) : Except PyExc κ := do
  let transformTimeFn ← transformTime lib (getTimestampKey defn)
  let keyValues ← (getTimestampKey defn).mapM (getattr header row)
  transformTimeFn defn.timeAdjustment keyValues

variable [DecidableEq κ]

/-- `d.setdefault(t, {}).update(e)` -/
def mergeAt (d : Dict κ (Dict Text Text)) (t : κ) (e : Dict Text Text) : Dict κ (Dict Text Text) :=
  d.set t (((d.get t).getD .empty).update e)

/-- the variables of the loop over the rows; row is unbound in the beginning -/
structure Parsed (κ : Type) where
  row : Option (List Text)
  dataByTimeKey : Dict κ (Dict Text Text)

/-- the body of the loop over the rows -/
def addRow (lib : Library κ) (defn : FileDefn) (header : List Text) (st : Parsed κ) (row : List Text) :
    Except PyExc (Parsed κ) :=
  if row.length = header.length then do
    let t ← timeOf lib defn header row
    return ⟨some row, mergeAt st.dataByTimeKey t (asdict header row)⟩
  else
    -- the message names the row that was made last
    match st.row with
    | none => .error .unboundLocalError
    | some _ => .ok st

/-- `get_data_from_file` -/
def getDataFromFile (lib : Library κ) (defn : FileDefn) (header : List Text) (rowPtr : Content) :
    Except PyExc (Dict κ (Dict Text Text)) := do
  let _ ← transformTime lib (getTimestampKey defn)
  if isHeader lib header then do
    let st ← rowPtr.rows.foldlM (addRow lib defn header) ⟨none, .empty⟩
    match rowPtr.failure with
    | some e => throw (.library e)
    | none => return st.dataByTimeKey
  else throw .fileProcessingError

/-- `next(_row_ptr)` -/
def next (rowPtr : Content) : Except PyExc (List Text × Content) :=
  match rowPtr.rows, rowPtr.failure with
  | row :: rows, _ => .ok (row, { rowPtr with rows })
  | [], none => .error .stopIteration
  | [], some e => .error (.library e)

/-- `header_line = next(_row_ptr)`, n times -/
def skipTo : (n : ℕ) → (headerLine : Option (List Text)) → Content → Except PyExc (Option (List Text) × Content)
  | 0, headerLine, rowPtr => .ok (headerLine, rowPtr)
  | n + 1, _, rowPtr => do
    let (row, rowPtr) ← next rowPtr
    skipTo n (some row) rowPtr

def prefixStr (nodeName : Text) : Text := if nodeName = [] then [] else nodeName ++ ['_']

/-- the labels of a header line -/
def headerList (defn : FileDefn) (nodeName : Text) (headerLine : List Text) : List Text :=
  headerLine.mapIdx fun i label => if defn.timeIndex < i then prefixStr nodeName ++ clean label else clean label

/-- `get_header_elements` -/
def getHeaderElements (defn : FileDefn) (nodeName : Text) (rowPtr : Content) : Except PyExc (List Text × Content) := do
  match ← skipTo defn.headerRowNum.toNat none rowPtr with
  | (none, _) => throw .unboundLocalError
  | (some headerLine, rowPtr) => return (headerList defn nodeName headerLine, rowPtr)

/-- what `process_files` returns -/
structure Output (κ : Type) where
  collectedHeaders : List (List Text)
  outputRows : Dict κ (Dict Text Text)
deriving DecidableEq

/-- the body of the loop over the files -/
def processFile (lib : Library κ) (defn : FileDefn) (contents : Text → Content) (out : Output κ) (file : Text × List Text) :
    Except PyExc (Output κ) := do
  let nodeName ← getPart file.2 .node
  let (cleanedHeader, rowPtr) ← getHeaderElements defn nodeName (contents file.1)
  match getDataFromFile lib defn cleanedHeader rowPtr with
  | .ok parsedRows =>
    return ⟨out.collectedHeaders ++ [cleanedHeader], parsedRows.items.foldl (fun d e => mergeAt d e.1 e.2) out.outputRows⟩
  | .error .fileProcessingError => return out
  | .error e => throw e

def processFiles (lib : Library κ) (defn : FileDefn) (dir : Directory) : Except PyExc (Output κ) := do
  let fileParserMap ← buildFileMap dir.path defn.type dir.names
  fileParserMap.items.foldlM (processFile lib defn dir.contents) ⟨[], .empty⟩

/-! ## Looking up a time and a label -/

def look (d : Dict κ (Dict Text Text)) (t : κ) (l : Text) : Option Text := (d.get t).bind fun e => e.get l

theorem look_mergeAt (d : Dict κ (Dict Text Text)) (t t' : κ) (e : Dict Text Text) (l : Text) :
    look (mergeAt d t e) t' l = if t' = t then (e.get l).or (look d t l) else look d t' l := by
  unfold look mergeAt
  rw [Dict.get_set]
  split_ifs with h
  · rw [Option.bind_some, Dict.get_update]
    cases d.get t <;> rfl
  · rfl

theorem mem_keys_mergeAt {d : Dict κ (Dict Text Text)} {t t' : κ} {e : Dict Text Text} :
    t' ∈ (mergeAt d t e).keys ↔ t' = t ∨ t' ∈ d.keys := Dict.mem_keys_set

/-- the rows of a file go before those that are there -/
theorem look_mergeAll (p d : Dict κ (Dict Text Text)) (t : κ) (l : Text) :
    look (p.items.foldl (fun d e => mergeAt d e.1 e.2) d) t l = (look p t l).or (look d t l) := by
  have h : ∀ xs : List (κ × Dict Text Text), (xs.map Prod.fst).Nodup → ∀ d,
      look (xs.foldl (fun d e => mergeAt d e.1 e.2) d) t l =
        ((Dict.last xs t).bind fun e => e.get l).or (look d t l) := by
    intro xs hn
    induction xs with
    | nil => intro d; rfl
    | cons x xs ih =>
      intro d
      rw [List.map_cons, List.nodup_cons] at hn
      rw [List.foldl_cons, ih hn.2, look_mergeAt, ← List.singleton_append, Dict.last_append, Dict.last_singleton]
      by_cases ht : t = x.1
      · have hxs : Dict.last xs t = none := Dict.last_eq_none (ht ▸ hn.1)
        rw [if_pos ht, if_pos ht, hxs, ht]
        rfl
      · rw [if_neg ht, if_neg ht, Option.or_none]
  rw [h p.items p.nodup, Dict.last_items]
  rfl

theorem mem_keys_mergeAll (p d : Dict κ (Dict Text Text)) (t : κ) :
    t ∈ (p.items.foldl (fun d e => mergeAt d e.1 e.2) d).keys ↔ t ∈ p.keys ∨ t ∈ d.keys := by
  have h : ∀ xs : List (κ × Dict Text Text), ∀ d, t ∈ (xs.foldl (fun d e => mergeAt d e.1 e.2) d).keys ↔
      t ∈ xs.map Prod.fst ∨ t ∈ Dict.keys d := by
    intro xs
    induction xs with
    | nil => simp
    | cons x xs ih =>
      intro d
      rw [List.foldl_cons, ih, mem_keys_mergeAt, List.map_cons, List.mem_cons]
      tauto
  exact h p.items d

/-! ## The rows of a file -/

/-- the value that a record has for a label -/
def valueOf (header row : List Text) (l : Text) : Option Text := ((header.zip row).find? fun e => e.1 = l).map Prod.snd

/-- the records of a file with their times, in the order of the file -/
def timed (lib : Library κ) (defn : FileDefn) (header : List Text) (rows : List (List Text)) : List (κ × List Text) :=
  rows.filterMap fun row =>
    if row.length = header.length then (timeOf lib defn header row).toOption.map fun t => (t, row) else none

omit [DecidableEq κ] in
theorem mem_timed {lib : Library κ} {defn : FileDefn} {header : List Text} {rows : List (List Text)} {t : κ}
    {row : List Text} : (t, row) ∈ timed lib defn header rows ↔
      row ∈ rows ∧ row.length = header.length ∧ timeOf lib defn header row = .ok t := by
  unfold timed
  rw [List.mem_filterMap]
  constructor
  · rintro ⟨r, hr, h⟩
    split_ifs at h with hlen
    cases ht : timeOf lib defn header r with
    | error e => simp [ht, Except.toOption] at h
    | ok t' =>
      simp only [ht, Except.toOption, Option.map_some, Option.some.injEq, Prod.mk.injEq] at h
      obtain ⟨rfl, rfl⟩ := h
      exact ⟨hr, hlen, ht⟩
  · rintro ⟨hr, hlen, ht⟩
    exact ⟨row, hr, by simp [hlen, ht, Except.toOption]⟩

theorem get_asdict {header row : List Text} (hn : header.Nodup) (hlen : row.length = header.length) (l : Text) :
    (asdict header row).get l = valueOf header row l := by
  have hkeys : (header.zip row).map Prod.fst = header := List.map_fst_zip hlen.ge
  unfold asdict
  rw [Dict.get_setAll, Dict.last_of_nodup (by rwa [hkeys])]
  cases h : ((header.zip row).find? fun e => e.1 = l).map Prod.snd <;> simp [valueOf, h, Dict.get, Dict.empty]

/-- a record has a value for the labels of the header -/
theorem valueOf_eq_none {header row : List Text} (hlen : row.length = header.length) (l : Text) :
    valueOf header row l = none ↔ l ∉ header := by
  unfold valueOf
  rw [Option.map_eq_none_iff, List.find?_eq_none]
  have hkeys : (header.zip row).map Prod.fst = header := List.map_fst_zip hlen.ge
  constructor
  · intro h hl
    rw [← hkeys] at hl
    obtain ⟨e, he, rfl⟩ := List.mem_map.1 hl
    exact absurd (h e he) (by simp)
  · intro hl e he hel
    apply hl
    rw [← of_decide_eq_true hel, ← hkeys]
    exact List.mem_map_of_mem he

section Rows

variable {lib : Library κ} {defn : FileDefn} {header : List Text}

/-- when the loop over the rows raises nothing: a row is made before one has to be skipped, and every record has a time -/
theorem foldlM_addRow_ok_iff {rows : List (List Text)} {st : Parsed κ} :
    (∃ st', rows.foldlM (addRow lib defn header) st = .ok st') ↔
      (st.row = none → ∀ row ∈ rows.head?, row.length = header.length) ∧
      ∀ row ∈ rows, row.length = header.length → ∃ t, timeOf lib defn header row = .ok t := by
  induction rows generalizing st with
  | nil => simp [pure, Except.pure]
  | cons row rows ih =>
    simp only [List.foldlM_cons, bind_eq_ok, List.head?_cons, Option.mem_some_iff, forall_eq', List.mem_cons,
      forall_eq_or_imp]
    by_cases hlen : row.length = header.length
    · simp only [addRow, hlen, if_true, bind_eq_ok, pure, Except.pure, Except.ok.injEq, implies_true, true_and,
        true_implies]
      constructor
      · rintro ⟨st', st₁, ⟨t, ht, rfl⟩, hrest⟩
        exact ⟨⟨t, ht⟩, (ih.1 ⟨st', hrest⟩).2⟩
      · rintro ⟨⟨t, ht⟩, hrest⟩
        have hfold : ∃ st', rows.foldlM (addRow lib defn header)
            ⟨some row, mergeAt st.dataByTimeKey t (asdict header row)⟩ = .ok st' := ih.2 ⟨by simp, hrest⟩
        obtain ⟨st', hst'⟩ := hfold
        exact ⟨st', _, ⟨t, ht, rfl⟩, hst'⟩
    · simp only [addRow, hlen, if_false, false_implies, true_and]
      cases hrow : st.row with
      | none => simp
      | some r =>
        simp only [Except.ok.injEq, reduceCtorEq, false_implies, true_and]
        constructor
        · rintro ⟨st', st₁, rfl, hrest⟩
          exact (ih.1 ⟨st', hrest⟩).2
        · intro hrest
          have hfold : ∃ st', rows.foldlM (addRow lib defn header) st = .ok st' := ih.2 ⟨by simp [hrow], hrest⟩
          obtain ⟨st', hst'⟩ := hfold
          exact ⟨st', st, rfl, hst'⟩

/-- the loop leaves the value of the last record of a time -/
theorem look_foldlM_addRow (hn : header.Nodup) {rows : List (List Text)} {st st' : Parsed κ}
    (h : rows.foldlM (addRow lib defn header) st = .ok st') (t : κ) (l : Text) :
    look st'.dataByTimeKey t l =
      ((Dict.last (timed lib defn header rows) t).bind fun row => valueOf header row l).or (look st.dataByTimeKey t l) := by
  induction rows generalizing st with
  | nil =>
    cases h
    rfl
  | cons row rows ih =>
    simp only [List.foldlM_cons, bind_eq_ok] at h
    obtain ⟨st₁, hrow, hrest⟩ := h
    rw [ih hrest]
    by_cases hlen : row.length = header.length
    · simp only [addRow, hlen, if_true, bind_eq_ok, pure, Except.pure, Except.ok.injEq] at hrow
      obtain ⟨t₀, ht₀, rfl⟩ := hrow
      have htimed : timed lib defn header (row :: rows) = [(t₀, row)] ++ timed lib defn header rows := by
        simp [timed, hlen, ht₀, Except.toOption]
      rw [htimed, Dict.last_append, Dict.last_singleton, look_mergeAt, get_asdict hn hlen]
      by_cases ht : t = t₀
      · subst ht
        rw [if_pos rfl, if_pos rfl]
        cases hlast : Dict.last (timed lib defn header rows) t with
        | none => rfl
        | some r =>
          -- both rows have the label or neither has
          obtain ⟨-, hr, -⟩ := mem_timed.1 (Dict.mem_of_last hlast)
          simp only [Option.some_or, Option.bind_some]
          cases hv : valueOf header r l with
          | none => rw [(valueOf_eq_none hlen l).2 ((valueOf_eq_none hr l).1 hv), Option.none_or]
          | some v => rfl
      · rw [if_neg ht, if_neg ht, Option.or_none]
    · have htimed : timed lib defn header (row :: rows) = timed lib defn header rows := by
        simp [timed, hlen]
      simp only [addRow, hlen, if_false] at hrow
      cases hr : st.row with
      | none =>
        rw [hr] at hrow
        cases hrow
      | some r =>
        rw [hr] at hrow
        cases hrow
        rw [htimed]

theorem mem_keys_foldlM_addRow {rows : List (List Text)} {st st' : Parsed κ}
    (h : rows.foldlM (addRow lib defn header) st = .ok st') (t : κ) :
    t ∈ st'.dataByTimeKey.keys ↔ (∃ row, (t, row) ∈ timed lib defn header rows) ∨ t ∈ st.dataByTimeKey.keys := by
  induction rows generalizing st with
  | nil =>
    cases h
    simp [timed]
  | cons row rows ih =>
    simp only [List.foldlM_cons, bind_eq_ok] at h
    obtain ⟨st₁, hrow, hrest⟩ := h
    rw [ih hrest]
    by_cases hlen : row.length = header.length
    · simp only [addRow, hlen, if_true, bind_eq_ok, pure, Except.pure, Except.ok.injEq] at hrow
      obtain ⟨t₀, ht₀, rfl⟩ := hrow
      have htimed : timed lib defn header (row :: rows) = (t₀, row) :: timed lib defn header rows := by
        simp [timed, hlen, ht₀, Except.toOption]
      rw [htimed, mem_keys_mergeAt]
      simp only [List.mem_cons, Prod.mk.injEq]
      constructor
      · rintro (⟨r, hr⟩ | rfl | hkey)
        · exact .inl ⟨r, .inr hr⟩
        · exact .inl ⟨row, .inl ⟨rfl, rfl⟩⟩
        · exact .inr hkey
      · rintro (⟨r, ⟨rfl, -⟩ | hr⟩ | hkey)
        · exact .inr (.inl rfl)
        · exact .inl ⟨r, hr⟩
        · exact .inr (.inr hkey)
    · have htimed : timed lib defn header (row :: rows) = timed lib defn header rows := by
        simp [timed, hlen]
      simp only [addRow, hlen, if_false] at hrow
      cases hr : st.row with
      | none =>
        rw [hr] at hrow
        cases hrow
      | some r =>
        rw [hr] at hrow
        cases hrow
        rw [htimed]

end Rows

/-! ## A file -/

/-- the header of a file with enough rows -/
def headerOf (defn : FileDefn) (nodeName : Text) (c : Content) : List Text :=
  headerList defn nodeName ((c.rows[defn.headerRowNum.toNat - 1]?).getD [])

/-- the rows behind the header -/
def dataRows (defn : FileDefn) (c : Content) : List (List Text) := c.rows.drop defn.headerRowNum.toNat

/-- the file has a header row -/
def HasHeader (defn : FileDefn) (c : Content) : Prop := 0 < defn.headerRowNum ∧ defn.headerRowNum ≤ c.rows.length

instance (defn : FileDefn) (c : Content) : Decidable (HasHeader defn c) := inferInstanceAs (Decidable (_ ∧ _))

theorem skipTo_eq (n : ℕ) (headerLine : Option (List Text)) (c : Content) :
    (n ≤ c.rows.length ∧
      skipTo n headerLine c = .ok (if n = 0 then headerLine else c.rows[n - 1]?, { c with rows := c.rows.drop n })) ∨
    (c.rows.length < n ∧ ∃ e, skipTo n headerLine c = .error e) := by
  induction n generalizing headerLine c with
  | zero => exact .inl ⟨Nat.zero_le _, rfl⟩
  | succ n ih =>
    obtain ⟨rows, failure⟩ := c
    cases rows with
    | nil =>
      right
      refine ⟨Nat.succ_pos n, ?_⟩
      cases failure with
      | none => exact ⟨_, rfl⟩
      | some e => exact ⟨_, rfl⟩
    | cons row rows =>
      have hstep : skipTo (n + 1) headerLine ⟨row :: rows, failure⟩ = skipTo n (some row) ⟨rows, failure⟩ := rfl
      rw [hstep]
      rcases ih (some row) ⟨rows, failure⟩ with ⟨hle, h⟩ | ⟨hlt, h⟩
      · left
        refine ⟨by simpa using hle, ?_⟩
        rw [h]
        cases n with
        | zero => simp
        | succ n => simp
      · right
        exact ⟨by simpa using hlt, h⟩

theorem getHeaderElements_ok_iff {defn : FileDefn} {nodeName : Text} {c : Content} {r : List Text × Content} :
    getHeaderElements defn nodeName c = .ok r ↔
      HasHeader defn c ∧ r = (headerOf defn nodeName c, { c with rows := dataRows defn c }) := by
  unfold getHeaderElements HasHeader
  rcases skipTo_eq defn.headerRowNum.toNat none c with ⟨hle, h⟩ | ⟨hlt, e, h⟩
  · rw [h]
    by_cases hzero : defn.headerRowNum.toNat = 0
    · have hpos : ¬ 0 < defn.headerRowNum := by omega
      simp [hzero, hpos, bind, Except.bind, throw, throwThe, MonadExceptOf.throw]
    · have hpos : 0 < defn.headerRowNum := by omega
      have hlen : defn.headerRowNum ≤ c.rows.length := by omega
      have hget : c.rows[defn.headerRowNum.toNat - 1]? = some (c.rows[defn.headerRowNum.toNat - 1]) :=
        List.getElem?_eq_getElem (by omega)
      simp only [hzero, if_false, hget, bind, Except.bind, pure, Except.pure, Except.ok.injEq, hpos, hlen, true_and,
        headerOf, dataRows, Option.getD_some]
      exact eq_comm
  · rw [h]
    simp only [bind, Except.bind, reduceCtorEq, false_iff]
    omega

omit [DecidableEq κ] in
/-- a text has a first piece, so there is always a column to look for -/
theorem transformTime_ok (lib : Library κ) (defn : FileDefn) : ∃ fn, transformTime lib (getTimestampKey defn) = .ok fn := by
  have hne : getTimestampKey defn ≠ [] := by
    unfold getTimestampKey
    rw [split_char]
    exact List.splitOn_ne_nil _ _
  obtain ⟨x, xs, hxs⟩ := List.exists_cons_of_ne_nil hne
  rw [hxs]
  cases xs with
  | nil => exact ⟨_, rfl⟩
  | cons y ys => exact ⟨_, rfl⟩

section File

variable {lib : Library κ} {defn : FileDefn} {header : List Text}

theorem getDataFromFile_of_isHeader (hh : isHeader lib header) (c : Content) :
    getDataFromFile lib defn header c = (do
      let st ← c.rows.foldlM (addRow lib defn header) ⟨none, .empty⟩
      match c.failure with
      | some e => throw (.library e)
      | none => return st.dataByTimeKey) := by
  obtain ⟨fn, hfn⟩ := transformTime_ok lib defn
  unfold getDataFromFile
  rw [hfn]
  simp [hh, bind, Except.bind]

theorem getDataFromFile_of_not_isHeader (hh : ¬ isHeader lib header) (c : Content) :
    getDataFromFile lib defn header c = .error .fileProcessingError := by
  obtain ⟨fn, hfn⟩ := transformTime_ok lib defn
  unfold getDataFromFile
  rw [hfn]
  simp [hh, bind, Except.bind, throw, throwThe, MonadExceptOf.throw]

/-- the keys of the data of a file are the times of its records -/
theorem mem_keys_getDataFromFile {c : Content} {d : Dict κ (Dict Text Text)} (h : getDataFromFile lib defn header c = .ok d)
    (t : κ) : t ∈ d.keys ↔ ∃ row, (t, row) ∈ timed lib defn header c.rows := by
  by_cases hh : isHeader lib header
  · rw [getDataFromFile_of_isHeader hh] at h
    obtain ⟨st, hst, h⟩ := bind_eq_ok.1 h
    cases hf : c.failure with
    | none =>
      rw [hf] at h
      cases h
      rw [mem_keys_foldlM_addRow hst]
      exact or_iff_left List.not_mem_nil
    | some e =>
      rw [hf] at h
      cases h
  · rw [getDataFromFile_of_not_isHeader hh] at h
    cases h

omit [DecidableEq κ] in
theorem nodup_of_isHeader (hh : isHeader lib header) : header.Nodup := by
  simp only [isHeader, Bool.and_eq_true, decide_eq_true_eq] at hh
  exact hh.2

omit [DecidableEq κ] in
/-- a time that cannot be found does not count as a file that cannot be processed -/
theorem timeOf_ne (row : List Text) : timeOf lib defn header row ≠ .error .fileProcessingError := by
  intro h
  obtain ⟨fn, hfn⟩ := transformTime_ok lib defn
  simp only [timeOf, hfn, bind_eq_error, Except.ok.injEq, reduceCtorEq, false_or, exists_eq_left'] at h
  rcases h with h | ⟨keyValues, -, h⟩
  · obtain ⟨attrib, -, hattrib⟩ := exists_error_of_mapM h
    unfold getattr at hattrib
    split at hattrib
    · cases hattrib
    · cases hattrib
  · have hlib : ∀ x : Except LibExc κ, x.mapError PyExc.library ≠ .error .fileProcessingError := by
      intro x
      cases x <;> simp [Except.mapError]
    unfold transformTime at hfn
    split at hfn
    · cases hfn
    · cases hfn
      cases keyValues with
      | nil => cases h
      | cons time _ => exact hlib _ h
    · cases hfn
      unfold adjustDatetime at h
      split at h
      · exact hlib _ h
      · cases h

theorem foldlM_addRow_ne (rows : List (List Text)) (st : Parsed κ) :
    rows.foldlM (addRow lib defn header) st ≠ .error .fileProcessingError := by
  induction rows generalizing st with
  | nil => intro h; cases h
  | cons row rows ih =>
    intro h
    rw [List.foldlM_cons, bind_eq_error] at h
    rcases h with h | ⟨st', -, h⟩
    · unfold addRow at h
      split at h
      · rw [bind_eq_error] at h
        rcases h with h | ⟨t, -, h⟩
        · exact timeOf_ne row h
        · cases h
      · split at h
        · cases h
        · cases h
    · exact ih st' h

/-- what a file gives: its header and its rows, or nothing if it is skipped -/
def fileData (lib : Library κ) (defn : FileDefn) (nodeName : Text) (c : Content) :
    Except PyExc (Option (List Text × Dict κ (Dict Text Text))) := do
  let (cleanedHeader, rowPtr) ← getHeaderElements defn nodeName c
  match getDataFromFile lib defn cleanedHeader rowPtr with
  | .ok parsedRows => return some (cleanedHeader, parsedRows)
  | .error .fileProcessingError => return none
  | .error e => throw e

/-- what is needed of a file so that nothing is raised: there is a header row; and if the header makes a class, the reader
comes to the end, the first row fits the header and every row that fits it has a time -/
structure Smooth (lib : Library κ) (defn : FileDefn) (nodeName : Text) (c : Content) : Prop where
  header : HasHeader defn c
  reader : isHeader lib (headerOf defn nodeName c) → c.failure = none
  first : isHeader lib (headerOf defn nodeName c) →
    ∀ row ∈ (dataRows defn c).head?, row.length = (headerOf defn nodeName c).length
  times : isHeader lib (headerOf defn nodeName c) →
    ∀ row ∈ dataRows defn c, row.length = (headerOf defn nodeName c).length →
      ∃ t, timeOf lib defn (headerOf defn nodeName c) row = .ok t

/-- what a file gives if nothing is raised -/
theorem fileData_ok {nodeName : Text} {c : Content} {r : Option (List Text × Dict κ (Dict Text Text))}
    (h : fileData lib defn nodeName c = .ok r) : HasHeader defn c ∧
      ((¬ isHeader lib (headerOf defn nodeName c) ∧ r = none) ∨
       (isHeader lib (headerOf defn nodeName c) ∧ c.failure = none ∧ ∃ st,
        (dataRows defn c).foldlM (addRow lib defn (headerOf defn nodeName c)) ⟨none, .empty⟩ = .ok st ∧
        r = some (headerOf defn nodeName c, st.dataByTimeKey))) := by
  unfold fileData at h
  rw [bind_eq_ok] at h
  obtain ⟨⟨cleanedHeader, rowPtr⟩, hheader, h⟩ := h
  obtain ⟨hhas, heq⟩ := getHeaderElements_ok_iff.1 hheader
  cases heq
  simp only at h
  refine ⟨hhas, ?_⟩
  by_cases hh : isHeader lib (headerOf defn nodeName c)
  · right
    refine ⟨hh, ?_⟩
    rw [getDataFromFile_of_isHeader hh] at h
    cases hfold : (dataRows defn c).foldlM (addRow lib defn (headerOf defn nodeName c)) ⟨none, .empty⟩ with
    | error e =>
      simp only [hfold, bind, Except.bind] at h
      split at h
      · contradiction
      · next heq =>
        cases heq
        exact absurd hfold (foldlM_addRow_ne _ _)
      · cases h
    | ok st =>
      simp only [hfold, bind, Except.bind] at h
      cases hf : c.failure with
      | none =>
        simp only [hf, pure, Except.pure, Except.ok.injEq] at h
        exact ⟨rfl, st, rfl, h.symm⟩
      | some e =>
        simp only [hf, throw, throwThe, MonadExceptOf.throw] at h
        cases h
  · left
    rw [getDataFromFile_of_not_isHeader hh] at h
    cases h
    exact ⟨hh, rfl⟩

/-- **When a file raises nothing.** -/
theorem fileData_ok_iff {nodeName : Text} {c : Content} :
    (∃ r, fileData lib defn nodeName c = .ok r) ↔ Smooth lib defn nodeName c := by
  constructor
  · rintro ⟨r, h⟩
    obtain ⟨hhas, ⟨hh, -⟩ | ⟨hh, hfail, st, hst, -⟩⟩ := fileData_ok h
    · exact ⟨hhas, fun h => absurd h hh, fun h => absurd h hh, fun h => absurd h hh⟩
    · obtain ⟨hfirst, htimes⟩ := foldlM_addRow_ok_iff.1 ⟨st, hst⟩
      exact ⟨hhas, fun _ => hfail, fun _ => hfirst rfl, fun _ => htimes⟩
  · intro h
    have hheader : getHeaderElements defn nodeName c = _ := getHeaderElements_ok_iff.2 ⟨h.header, rfl⟩
    unfold fileData
    rw [hheader]
    simp only [bind, Except.bind]
    by_cases hh : isHeader lib (headerOf defn nodeName c)
    · have hfold : ∃ st, (dataRows defn c).foldlM (addRow lib defn (headerOf defn nodeName c)) ⟨none, .empty⟩ = .ok st :=
        foldlM_addRow_ok_iff.2 ⟨fun _ => h.first hh, h.times hh⟩
      obtain ⟨st, hst⟩ := hfold
      refine ⟨some (headerOf defn nodeName c, st.dataByTimeKey), ?_⟩
      rw [getDataFromFile_of_isHeader hh]
      simp only [hst, h.reader hh, bind, Except.bind, pure, Except.pure]
    · refine ⟨none, ?_⟩
      rw [getDataFromFile_of_not_isHeader hh]
      rfl

end File

/-! ## All files -/

/-- the node of a file in the map -/
def nodeOf (file : Text × List Text) : Text := file.2.headD []

/-- what a file adds to the output -/
def addTo (out : Output κ) : Option (List Text × Dict κ (Dict Text Text)) → Output κ
  | none => out
  | some (header, parsedRows) =>
    ⟨out.collectedHeaders ++ [header], parsedRows.items.foldl (fun d e => mergeAt d e.1 e.2) out.outputRows⟩

theorem processFile_eq (lib : Library κ) (defn : FileDefn) (contents : Text → Content) (out : Output κ)
    {file : Text × List Text} (hfile : file.2 ≠ []) :
    processFile lib defn contents out file = (fileData lib defn (nodeOf file) (contents file.1)).map (addTo out) := by
  obtain ⟨path, tokens⟩ := file
  obtain ⟨node, tokens, rfl⟩ := List.exists_cons_of_ne_nil hfile
  have hnode : getPart (node :: tokens) .node = .ok node := rfl
  unfold processFile fileData
  simp only [hnode, nodeOf, List.headD_cons, bind, Except.bind]
  cases getHeaderElements defn node (contents path) with
  | error e => rfl
  | ok r =>
    simp only
    split <;> rfl

/-- the loop over the files, as one function of what each of them gives -/
theorem foldlM_processFile (lib : Library κ) (defn : FileDefn) (contents : Text → Content) {files : List (Text × List Text)}
    (hfiles : ∀ file ∈ files, file.2 ≠ []) (out : Output κ) : files.foldlM (processFile lib defn contents) out =
      (files.mapM fun file => fileData lib defn (nodeOf file) (contents file.1)).map fun rs => rs.foldl addTo out := by
  rw [← foldlM_map_eq]
  induction files generalizing out with
  | nil => rfl
  | cons file files ih =>
    rw [List.foldlM_cons, List.foldlM_cons, processFile_eq _ _ _ _ (hfiles file List.mem_cons_self)]
    congr 1
    funext out'
    exact ih (fun f hf => hfiles f (List.mem_cons_of_mem _ hf)) out'

end Rubbos.Transform.MultifileParser
