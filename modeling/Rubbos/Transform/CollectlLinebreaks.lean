/-
The matrix of collectl readings (`collectl_linebreaks_parser.py`).

The name of a file gives its node and its resource. A file of a CPU or of a DISK is read into `parsed_dict`, whose items go
into the column NODE_RESOURCE, at the tenth of a second of their times. There is no branch for other resources: for such a
file `parsed_dict` is still what the file before it was read into, and its items are written once more, under the label of
the other file. When no file was read before, the name is unbound.

Floating point numbers, `int` and `datetime` are parameters (`Library`).

- `attribution_iff`: in a matrix that is written, every value comes from a line of the own file, and files of other resources
  contribute nothing, exactly when before each of these the file read last has no line with a time.
Witness `quiet_attribution`: a disk file without readings before the file of the memory.
Counterexample `memory_shows_cpu`: the readings of a CPU in the column of the memory.
-/
import Mathlib.Data.Char
import Mathlib.Data.List.Lex
import Rubbos.Core.Casts
import Rubbos.Core.Effect
import Rubbos.Core.Python

namespace Rubbos.Transform.CollectlLinebreaks

open Rubbos.Core Python

/-! ## Model -/

/-- library functions; κ is the type of the floating point numbers that are times -/
structure Library (κ : Type) where
  /-- `int` of a text -/
  int : Text → Except LibExc ℤ
  /-- `(datetime(2014, 4, 14, hr, mins, secs) + timedelta(milliseconds=millis)).timestamp()` -/
  timestamp : (hr mins secs millis : ℤ) → Except LibExc κ
  /-- `x * 10` -/
  timesTen : κ → κ
  /-- `int` of a number -/
  toInt : κ → ℤ
  /-- `n / 10` -/
  dividedByTen : ℤ → κ

/-- the lines of an open file, and how reading ends if it does not end with the file -/
structure Content where
  lines : List Text
  failure : Option LibExc
deriving DecidableEq

/-- a directory: every name once -/
structure Directory where
  path : Text
  names : List Text
  nodup : names.Nodup
  /-- `open` -/
  opened : Text → Except LibExc Content

/-- an item of the file map: the name of the file, its node and its resource -/
abbrev File := Text × Text × Text

def File.name (f : File) : Text := f.1

def File.node (f : File) : Text := f.2.1

def File.resource (f : File) : Text := f.2.2

/-- the key that values of the file get in the output map -/
def File.key (f : File) : Text := f.node ++ '_' :: f.resource

variable {κ : Type}

def item (parts : List Text) (i : ℕ) : Except PyExc Text :=
  match parts[i]? with
  | some part => .ok part
  | none => .error .indexError

def int (lib : Library κ) (s : Text) : Except PyExc ℤ := (lib.int s).mapError .library

/-- `norm_time` -/
def normTime (lib : Library κ) (inputTime : Text) : Except PyExc κ := do
  let hr ← int lib (← item (split [':'] inputTime) 0)
  let mins ← int lib (← item (split [':'] inputTime) 1)
  let secParts := split ['.'] (← item (split [':'] inputTime) 2)
  let secs ← int lib (← item secParts 0)
  let millis ← int lib (← item secParts 1)
  (lib.timestamp hr mins secs millis).mapError .library

/-- `process_filename`: the node and the resource; none if it raises an exception -/
def processFilename (filename : Text) : Option (Text × Text) :=
  let parts := split ['-'] filename
  if 2 ≤ parts.length then
    match parts[1]?, parts[3]? with
    | some resourceName, some nodeName => some (nodeName, resourceName)
    | _, _ => none
  else none

/-- the time and the number of a line -/
def reading (lib : Library κ) (x : Text) : Except PyExc (κ × ℤ) := do
  let lineParts := split [' '] x
  let normedTime ← normTime lib (← item lineParts 0)
  let value ← int lib (← item lineParts (lineParts.length - 1))
  return (normedTime, value)

/-- the loop over the lines of a file, with what is done with a time and a number -/
def readLines {δ : Type} (lib : Library κ) (add : δ → κ × ℤ → δ) (fileDict : δ) (file : Content) : Except PyExc δ := do
  let fileDict ← file.lines.foldlM
    (fun fileDict x => if ':' ∈ x then (reading lib x).map (add fileDict) else .ok fileDict) fileDict
  match file.failure with
  | some e => throw (.library e)
  | none => return fileDict

variable [LinearOrder κ]

/-- `process_CPU_lines` -/
def processCPULines (lib : Library κ) (file : Content) : Except PyExc (Dict κ ℤ) :=
  readLines lib (fun fileDict r => fileDict.set r.1 (100 - r.2)) .empty file

/-- `max(vals)` -/
def maxVal (e : κ × List ℤ) : Except PyExc (κ × ℤ) :=
  match e.2.max? with
  | some m => .ok (e.1, m)
  | none => .error (.library .valueError)

/-- `process_DISK_lines` -/
def processDISKLines (lib : Library κ) (file : Content) : Except PyExc (Dict κ ℤ) := do
  let fileDict ← readLines lib (fun fileDict r => fileDict.set r.1 ((fileDict.get r.1).getD [] ++ [r.2])) Dict.empty file
  let maxVals ← fileDict.items.mapM maxVal
  return Dict.empty.setAll maxVals

/-- `process_dir`, with what `os.listdir` returns -/
def processDir (names excludes : List Text) : Dict Text (Text × Text) :=
  names.foldl (fun fileMap filename =>
    if filename.head? ≠ some '.' ∧ ¬ ∃ excl ∈ excludes, excl <:+: filename then
      match processFilename filename with
      | some parts => fileMap.set filename parts
      | none => fileMap
    else fileMap) .empty

/-- the variables of the loop over the files; parsed_dict is unbound in the beginning -/
structure State (κ : Type) where
  parsedDict : Option (Dict κ ℤ)
  outputMap : Dict κ (Dict Text ℤ)

def start : State κ := ⟨none, .empty⟩

/-- `parsed_dict` when its items are written for the file -/
def parsedDictFor (lib : Library κ) (dir : Directory) (parsedDict : Option (Dict κ ℤ)) (f : File) :
    Except PyExc (Dict κ ℤ) := do
  let file ← (dir.opened (dir.path ++ f.name)).mapError .library
  if "CPU".toList <:+: f.resource then processCPULines lib file
  else if "DISK".toList <:+: f.resource then processDISKLines lib file
  else
    -- no branch assigns the variable
    match parsedDict with
    | some d => return d
    | none => throw .unboundLocalError

def tenth (lib : Library κ) (timestamp : κ) : κ := lib.dividedByTen (lib.toInt (lib.timesTen timestamp))

/-- `output_map[_timestamp].update({key:value})` -/
def write (lib : Library κ) (key : Text) (outputMap : Dict κ (Dict Text ℤ)) (e : κ × ℤ) : Dict κ (Dict Text ℤ) :=
  outputMap.set (tenth lib e.1) (((outputMap.get (tenth lib e.1)).getD .empty).set key e.2)

/-- the body of the loop over the files -/
def processFile (lib : Library κ) (dir : Directory) (st : State κ) (f : File) : Except PyExc (State κ) := do
  let parsedDict ← parsedDictFor lib dir st.parsedDict f
  return ⟨some parsedDict, parsedDict.items.foldl (write lib f.key) st.outputMap⟩

def getHeaders (totalMap : List (κ × Dict Text ℤ)) : List Text :=
  "timestamp".toList :: (totalMap.flatMap fun e => e.2.keys).dedup.insertionSort (· ≤ ·)

/-- an entry of the matrix; the first is None -/
inductive Cell (κ : Type) where
  | empty
  | time (t : κ)
  | value (v : ℤ)
deriving DecidableEq

/-- the body of the loop over a line's values -/
def setCell (headerMap : Dict Text ℕ) (line : List (Cell κ)) (e : Text × ℤ) : Except PyExc (List (Cell κ)) :=
  match headerMap.get e.1 with
  | none => .error .keyError
  | some idx => if idx < line.length then .ok (line.set idx (.value e.2)) else .error .indexError

def lineOf (headers : List Text) (headerMap : Dict Text ℕ) (e : κ × Dict Text ℤ) : Except PyExc (List (Cell κ)) :=
  e.2.items.foldlM (setCell headerMap) ((List.replicate headers.length .empty).set 0 (.time e.1))

/-- what is written: the first line and the others -/
structure Matrix (κ : Type) where
  headers : List Text
  lines : List (List (Cell κ))
deriving DecidableEq

def fileMap (dir : Directory) : Dict Text (Text × Text) := processDir dir.names ["client".toList]

def main (lib : Library κ) (dir : Directory) : Except PyExc (Matrix κ) := do
  let st ← (fileMap dir).items.foldlM (processFile lib dir) start
  let outputMap := st.outputMap.items.insertionSort fun a b => a.1 ≤ b.1
  let headers := getHeaders outputMap
  let lines ← outputMap.mapM (lineOf headers (Dict.empty.setAll headers.zipIdx))
  return ⟨headers, lines⟩

/-! ## Attribution -/

/-- the script has a branch for the resource -/
def Understood (f : File) : Prop := "CPU".toList <:+: f.resource ∨ "DISK".toList <:+: f.resource

instance (f : File) : Decidable (Understood f) := inferInstanceAs (Decidable (_ ∨ _))

/-- what a number of a line is shown as -/
def shown (f : File) (n : ℤ) : ℤ := if "CPU".toList <:+: f.resource then 100 - n else n

/-- a line of the file has a time in this tenth of a second and the number that the value shows -/
def Reads (lib : Library κ) (dir : Directory) (f : File) (t : κ) (v : ℤ) : Prop :=
  ∃ file, dir.opened (dir.path ++ f.name) = .ok file ∧ ∃ x ∈ file.lines, ':' ∈ x ∧
    ∃ time n, reading lib x = .ok (time, n) ∧ tenth lib time = t ∧ v = shown f n

/-- each value of the matrix is read in a file with the label of its column -/
def Attributed (lib : Library κ) (dir : Directory) (m : Matrix κ) : Prop :=
  ∀ row ∈ m.lines, ∀ (i : ℕ) label v, m.headers[i]? = some label → row[i]? = some (Cell.value v) →
    ∃ t, row[0]? = some (Cell.time t) ∧
      ∃ f ∈ (fileMap dir).items, Understood f ∧ File.key f = label ∧ Reads lib dir f t v

/-- no values are written for a file of another resource -/
def OthersSilent (lib : Library κ) (dir : Directory) : Prop :=
  ∀ before (f : File) after, (fileMap dir).items = before ++ f :: after → ¬ Understood f →
    ∀ st, before.foldlM (processFile lib dir) start = .ok st →
      ∀ parsedDict, parsedDictFor lib dir st.parsedDict f = .ok parsedDict → parsedDict.items = []

/-- the file that was read last -/
def lastUnderstood (files : List File) : Option File := (files.filter fun f => Understood f).getLast?

/-- before each file of another resource, the file that was read last has no line with a time -/
def NothingLeft (dir : Directory) : Prop :=
  ∀ before (f : File) after, (fileMap dir).items = before ++ f :: after → ¬ Understood f →
    ∀ g, lastUnderstood before = some g → ∀ file, dir.opened (dir.path ++ g.name) = .ok file → ∀ x ∈ file.lines, ':' ∉ x

/-! ## Reading a file -/

section Read

variable {lib : Library κ} {file : Content}

/-- the lines with a time -/
def timeLines (file : Content) : List Text := file.lines.filter fun x => ':' ∈ x

omit [LinearOrder κ] in
/-- the loop over the lines reads those with a time, and adds what it read -/
theorem foldlM_lines {δ : Type} (add : δ → κ × ℤ → δ) (lines : List Text) (d : δ) :
    lines.foldlM (fun b x => if ':' ∈ x then (reading lib x).map (add b) else .ok b) d =
      ((lines.filter fun x => ':' ∈ x).mapM (reading lib)).map fun rs => rs.foldl add d := by
  rw [← foldlM_map_eq]
  induction lines generalizing d with
  | nil => rfl
  | cons x lines ih =>
    by_cases hx : ':' ∈ x
    · rw [List.filter_cons_of_pos (by simpa using hx), List.foldlM_cons, List.foldlM_cons, if_pos hx]
      congr 1
      funext b
      exact ih b
    · rw [List.filter_cons_of_neg (by simpa using hx), List.foldlM_cons, if_neg hx]
      exact ih d

omit [LinearOrder κ] in
theorem readLines_ok {δ : Type} {add : δ → κ × ℤ → δ} {d d' : δ} (h : readLines lib add d file = .ok d') :
    ∃ rs, List.Forall₂ (fun x r => reading lib x = .ok r) (timeLines file) rs ∧ d' = rs.foldl add d := by
  unfold readLines at h
  rw [foldlM_lines] at h
  obtain ⟨e, hloop, h⟩ := bind_eq_ok.1 h
  cases hrs : (timeLines file).mapM (reading lib) with
  | error e' =>
    rw [timeLines] at hrs
    rw [hrs] at hloop
    cases hloop
  | ok rs =>
    rw [timeLines] at hrs
    rw [hrs] at hloop
    cases hloop
    cases hf : file.failure with
    | some e' =>
      rw [hf] at h
      cases h
    | none =>
      rw [hf] at h
      cases h
      exact ⟨rs, forall₂_of_mapM_ok hrs, rfl⟩

/-- what the numbers of a file are turned into comes from its lines, and there is something when there is a line -/
structure FromLines (lib : Library κ) (file : Content) (value : ℤ → ℤ) (d : Dict κ ℤ) : Prop where
  line : ∀ e ∈ d.items, ∃ x ∈ timeLines file, ∃ n, reading lib x = .ok (e.1, n) ∧ e.2 = value n
  empty : d.items = [] → timeLines file = []

theorem processCPULines_fromLines {d : Dict κ ℤ} (h : processCPULines lib file = .ok d) :
    FromLines lib file (fun n => 100 - n) d := by
  obtain ⟨rs, hrs, rfl⟩ := readLines_ok h
  constructor
  · intro e he
    have hset : rs.foldl (fun d r => Dict.set d r.1 (100 - r.2)) Dict.empty =
        Dict.empty.setAll (rs.map fun r => (r.1, 100 - r.2)) := by
      unfold Dict.setAll
      rw [List.foldl_map]
    rw [hset] at he
    obtain ⟨r, hr, rfl⟩ := List.mem_map.1 (Dict.mem_of_mem_setAll he)
    obtain ⟨x, hx, hread⟩ := exists_of_mem_right hrs hr
    exact ⟨x, hx, r.2, hread, rfl⟩
  · intro hnil
    rcases rs.eq_nil_or_concat with rfl | ⟨rs, r, rfl⟩
    · exact List.forall₂_nil_right_iff.1 hrs
    · rw [List.concat_eq_append, List.foldl_append] at hnil
      exact absurd hnil (Dict.items_set_ne_nil _ _ _)

/-- the numbers of a time in a list of readings -/
theorem mem_of_mem_grouped {rs : List (κ × ℤ)} {e : κ × List ℤ}
    (he : e ∈ (rs.foldl (fun d r => Dict.set d r.1 ((d.get r.1).getD [] ++ [r.2])) Dict.empty).items) :
    ∀ n ∈ e.2, (e.1, n) ∈ rs := by
  induction rs using List.reverseRecOn generalizing e with
  | nil => cases he
  | append_singleton rs r ih =>
    intro n hn
    rw [List.foldl_append, List.foldl_cons, List.foldl_nil, ← Dict.get_eq_some_iff, Dict.get_set] at he
    split_ifs at he with ht
    · rw [Option.some.injEq] at he
      rw [← he, List.mem_append, List.mem_singleton] at hn
      rcases hn with hold | rfl
      · cases hget : (rs.foldl (fun d r => Dict.set d r.1 ((d.get r.1).getD [] ++ [r.2])) Dict.empty).get r.1 with
        | none =>
          rw [hget] at hold
          cases hold
        | some vals =>
          rw [hget] at hold
          rw [ht]
          exact List.mem_append_left _ (ih (Dict.get_eq_some_iff.1 hget) n hold)
      · rw [ht]
        exact List.mem_append_right _ (List.mem_singleton_self _)
    · exact List.mem_append_left _ (ih (Dict.get_eq_some_iff.1 he) n hn)

theorem processDISKLines_fromLines {d : Dict κ ℤ} (h : processDISKLines lib file = .ok d) :
    FromLines lib file (fun n => n) d := by
  obtain ⟨fileDict, hdict, h⟩ := bind_eq_ok.1 h
  obtain ⟨maxVals, hmax, h⟩ := bind_eq_ok.1 h
  cases h
  obtain ⟨rs, hrs, rfl⟩ := readLines_ok hdict
  have hmax := forall₂_of_mapM_ok hmax
  constructor
  · intro e he
    obtain ⟨g, hg, hgmax⟩ := exists_of_mem_right hmax (Dict.mem_of_mem_setAll he)
    unfold maxVal at hgmax
    cases hm : g.2.max? with
    | none =>
      rw [hm] at hgmax
      cases hgmax
    | some m =>
      rw [hm] at hgmax
      cases hgmax
      obtain ⟨x, hx, hread⟩ := exists_of_mem_right hrs (mem_of_mem_grouped hg m (List.max?_mem hm))
      exact ⟨x, hx, m, hread, rfl⟩
  · intro hnil
    have hvals : maxVals = [] := by
      rcases maxVals.eq_nil_or_concat with hvals | ⟨vals, r, rfl⟩
      · exact hvals
      · rw [List.concat_eq_append, Dict.setAll, List.foldl_append] at hnil
        exact absurd hnil (Dict.items_set_ne_nil _ _ _)
    subst hvals
    have hgroups := List.forall₂_nil_right_iff.1 hmax
    rcases rs.eq_nil_or_concat with rfl | ⟨rs, r, rfl⟩
    · exact List.forall₂_nil_right_iff.1 hrs
    · rw [List.concat_eq_append, List.foldl_append] at hgroups
      exact absurd hgroups (Dict.items_set_ne_nil _ _ _)

end Read

/-! ## The loop over the files -/

section Loop

variable {lib : Library κ} {dir : Directory}

/-- a file with a branch is read, whatever the variable was -/
theorem parsedDictFor_understood {f : File} (hf : Understood f) {p : Option (Dict κ ℤ)} {d : Dict κ ℤ}
    (h : parsedDictFor lib dir p f = .ok d) :
    ∃ file, dir.opened (dir.path ++ f.name) = .ok file ∧ FromLines lib file (shown f) d := by
  obtain ⟨file, hopen, h⟩ := bind_eq_ok.1 h
  cases hfile : dir.opened (dir.path ++ f.name) with
  | error e =>
    rw [hfile] at hopen
    cases hopen
  | ok file' =>
    rw [hfile] at hopen
    cases hopen
    refine ⟨file, rfl, ?_⟩
    unfold shown
    by_cases hcpu : "CPU".toList <:+: f.resource
    · simp only [if_pos hcpu] at h ⊢
      exact processCPULines_fromLines h
    · simp only [if_neg hcpu, if_pos (hf.resolve_left hcpu)] at h ⊢
      exact processDISKLines_fromLines h

/-- for another file the variable is what it was -/
theorem parsedDictFor_other {f : File} (hf : ¬ Understood f) {p : Option (Dict κ ℤ)} {d : Dict κ ℤ}
    (h : parsedDictFor lib dir p f = .ok d) : p = some d := by
  obtain ⟨file, -, h⟩ := bind_eq_ok.1 h
  rw [if_neg fun hcpu => hf (Or.inl hcpu), if_neg fun hdisk => hf (Or.inr hdisk)] at h
  cases p with
  | none => cases h
  | some d' =>
    cases h
    rfl

theorem lastUnderstood_concat (before : List File) (f : File) :
    lastUnderstood (before ++ [f]) = if Understood f then some f else lastUnderstood before := by
  unfold lastUnderstood
  by_cases hf : Understood f <;> simp [hf]

theorem processFile_ok {st st' : State κ} {f : File} (h : processFile lib dir st f = .ok st') :
    ∃ d, parsedDictFor lib dir st.parsedDict f = .ok d ∧ st'.parsedDict = some d ∧
      st'.outputMap = d.items.foldl (write lib f.key) st.outputMap := by
  obtain ⟨d, hd, h⟩ := bind_eq_ok.1 h
  cases h
  exact ⟨d, hd, rfl, rfl⟩

theorem loop_concat {before : List File} {f : File} {st : State κ}
    (h : (before ++ [f]).foldlM (processFile lib dir) start = .ok st) :
    ∃ st', before.foldlM (processFile lib dir) start = .ok st' ∧ processFile lib dir st' f = .ok st := by
  rw [List.foldlM_append] at h
  obtain ⟨st', hst', h⟩ := bind_eq_ok.1 h
  rw [List.foldlM_cons] at h
  obtain ⟨st'', hst'', h⟩ := bind_eq_ok.1 h
  cases h
  exact ⟨st', hst', hst''⟩

/-- the variable holds what the last file with a branch was read into -/
theorem parsedDict_loop {before : List File} {st : State κ} (h : before.foldlM (processFile lib dir) start = .ok st)
    {d : Dict κ ℤ} (hd : st.parsedDict = some d) : ∃ g, lastUnderstood before = some g ∧
      ∃ file, dir.opened (dir.path ++ g.name) = .ok file ∧ FromLines lib file (shown g) d := by
  induction before using List.reverseRecOn generalizing st d with
  | nil =>
    cases h
    cases hd
  | append_singleton before f ih =>
    obtain ⟨st', hst', hfile⟩ := loop_concat h
    obtain ⟨d', hparsed, hd', -⟩ := processFile_ok hfile
    have hdd : d' = d := Option.some.inj (hd'.symm.trans hd)
    rw [lastUnderstood_concat]
    by_cases hf : Understood f
    · rw [if_pos hf]
      exact ⟨f, rfl, hdd ▸ parsedDictFor_understood hf hparsed⟩
    · rw [if_neg hf]
      exact ih hst' (hdd ▸ parsedDictFor_other hf hparsed)

/-- what holds of all values of an output map -/
def Entries (P : κ → Text → ℤ → Prop) (outputMap : Dict κ (Dict Text ℤ)) : Prop :=
  ∀ t vals, outputMap.get t = some vals → ∀ key v, vals.get key = some v → P t key v

theorem entries_write {P : κ → Text → ℤ → Prop} {key : Text} {outputMap : Dict κ (Dict Text ℤ)} {e : κ × ℤ}
    (h : Entries P outputMap) (he : P (tenth lib e.1) key e.2) : Entries P (write lib key outputMap e) := by
  intro t vals ht key' v hv
  rw [write, Dict.get_set] at ht
  split_ifs at ht with heq
  · rw [Option.some.injEq] at ht
    rw [← ht, Dict.get_set] at hv
    split_ifs at hv with hkey
    · cases hv
      rw [heq, hkey]
      exact he
    · cases hget : outputMap.get (tenth lib e.1) with
      | none =>
        rw [hget] at hv
        cases hv
      | some vals' =>
        rw [hget] at hv
        rw [heq]
        exact h _ _ hget _ _ hv
  · exact h t vals ht key' v hv

theorem entries_writeAll {P : κ → Text → ℤ → Prop} {key : Text} {es : List (κ × ℤ)} {outputMap : Dict κ (Dict Text ℤ)}
    (h : Entries P outputMap) (hes : ∀ e ∈ es, P (tenth lib e.1) key e.2) :
    Entries P (es.foldl (write lib key) outputMap) := by
  induction es generalizing outputMap with
  | nil => exact h
  | cons e es ih =>
    exact ih (entries_write h (hes e List.mem_cons_self)) fun e' he' => hes e' (List.mem_cons_of_mem e he')

/-- a value under the key of a file that is read there -/
def Own (lib : Library κ) (dir : Directory) (t : κ) (key : Text) (v : ℤ) : Prop :=
  ∃ f ∈ (fileMap dir).items, Understood f ∧ File.key f = key ∧ Reads lib dir f t v

omit [LinearOrder κ] in
/-- the values read in a file are its own -/
theorem reads_of_fromLines {f : File} {file : Content} (hopen : dir.opened (dir.path ++ f.name) = .ok file) {d : Dict κ ℤ}
    (h : FromLines lib file (shown f) d) {e : κ × ℤ} (he : e ∈ d.items) : Reads lib dir f (tenth lib e.1) e.2 := by
  obtain ⟨x, hx, n, hread, hval⟩ := h.line e he
  obtain ⟨hmem, hcolon⟩ := List.mem_filter.1 hx
  exact ⟨file, hopen, x, hmem, of_decide_eq_true hcolon, e.1, n, hread, rfl, hval⟩

/-- the loop keeps what its files' items have; it is the same for every file with a branch -/
theorem entries_loop (hsilent : OthersSilent lib dir) {before after : List File}
    (hitems : (fileMap dir).items = before ++ after) {st : State κ}
    (h : before.foldlM (processFile lib dir) start = .ok st) : Entries (Own lib dir) st.outputMap := by
  induction before using List.reverseRecOn generalizing after st with
  | nil =>
    cases h
    intro t vals ht
    cases ht
  | append_singleton before f ih =>
    rw [List.append_assoc, List.singleton_append] at hitems
    obtain ⟨st', hst', hfile⟩ := loop_concat h
    obtain ⟨d, hparsed, -, hout⟩ := processFile_ok hfile
    rw [hout]
    apply entries_writeAll (ih hitems hst')
    intro e he
    by_cases hf : Understood f
    · obtain ⟨file, hopen, hlines⟩ := parsedDictFor_understood hf hparsed
      have hmem : f ∈ (fileMap dir).items := by
        rw [hitems]
        exact List.mem_append_right _ List.mem_cons_self
      exact ⟨f, hmem, hf, rfl, reads_of_fromLines hopen hlines he⟩
    · rw [hsilent before f after hitems hf st' hst' d hparsed] at he
      cases he

theorem othersSilent_of_nothingLeft (h : NothingLeft dir) : OthersSilent lib dir := by
  intro before f after hitems hf st hst d hparsed
  obtain ⟨g, hg, file, hopen, hlines⟩ := parsedDict_loop hst (parsedDictFor_other hf hparsed)
  rw [List.eq_nil_iff_forall_not_mem]
  intro e he
  obtain ⟨x, hx, -⟩ := hlines.line e he
  obtain ⟨hmem, hcolon⟩ := List.mem_filter.1 hx
  exact h before f after hitems hf g hg file hopen x hmem (of_decide_eq_true hcolon)

/-- when the loop comes to its end, a reading that is left is written -/
theorem nothingLeft_of_othersSilent {st : State κ} (hloop : (fileMap dir).items.foldlM (processFile lib dir) start = .ok st)
    (h : OthersSilent lib dir) : NothingLeft dir := by
  intro before f after hitems hf g hg file hopen x hx hcolon
  rw [hitems, List.foldlM_append] at hloop
  obtain ⟨st', hst', hloop⟩ := bind_eq_ok.1 hloop
  rw [List.foldlM_cons] at hloop
  obtain ⟨st'', hfile, -⟩ := bind_eq_ok.1 hloop
  obtain ⟨d, hparsed, -, -⟩ := processFile_ok hfile
  obtain ⟨g', hg', file', hopen', hlines⟩ := parsedDict_loop hst' (parsedDictFor_other hf hparsed)
  have hgg : g = g' := Option.some.inj (hg.symm.trans hg')
  subst hgg
  have hff : file = file' := Except.ok.inj (hopen.symm.trans hopen')
  subst hff
  have hnone : timeLines file = [] := hlines.empty (h before f after hitems hf st' hst' d hparsed)
  have hmem : x ∈ timeLines file := List.mem_filter.2 ⟨hx, decide_eq_true hcolon⟩
  rw [hnone] at hmem
  cases hmem

end Loop

/-! ## The matrix -/

section Lines

omit [LinearOrder κ]

/-- the positions of the header map are those of the headers -/
theorem header_of_position {headers : List Text} {label : Text} {i : ℕ}
    (h : (Dict.empty.setAll headers.zipIdx).get label = some i) : headers[i]? = some label := by
  have hmem := Dict.mem_of_mem_setAll (Dict.get_eq_some_iff.1 h)
  exact List.mk_mem_zipIdx_iff_getElem?.1 hmem

/-- where the cells of a line come from: the first is the time, and a value has the label of its column -/
structure LineFrom (headers : List Text) (e : κ × Dict Text ℤ) (row : List (Cell κ)) : Prop where
  time : row[0]? = some (Cell.time e.1)
  value : ∀ (i : ℕ) v, row[i]? = some (Cell.value v) → ∃ label, headers[i]? = some label ∧ e.2.get label = some v

theorem lineOf_from {headers : List Text} {e : κ × Dict Text ℤ} {row : List (Cell κ)}
    (hfirst : ∀ label, headers[0]? = some label → label ∉ e.2.keys) (hne : headers ≠ [])
    (h : lineOf headers (Dict.empty.setAll headers.zipIdx) e = .ok row) : LineFrom headers e row := by
  apply foldlM_induct (P := LineFrom headers e) ?_ ?_ h
  · intro a ha row row' hrow hstep
    unfold setCell at hstep
    cases hpos : (Dict.empty.setAll headers.zipIdx).get a.1 with
    | none =>
      rw [hpos] at hstep
      cases hstep
    | some idx =>
      rw [hpos] at hstep
      simp only at hstep
      split_ifs at hstep with hidx
      cases hstep
      have hlabel := header_of_position hpos
      have hzero : idx ≠ 0 := by
        rintro rfl
        exact hfirst _ hlabel (List.mem_map_of_mem ha)
      constructor
      · rw [List.getElem?_set_ne hzero]
        exact hrow.time
      · intro i v hv
        by_cases hi : idx = i
        · subst hi
          rw [List.getElem?_set_self hidx, Option.some.injEq, Cell.value.injEq] at hv
          exact ⟨a.1, hlabel, hv ▸ Dict.get_eq_some_iff.2 ha⟩
        · rw [List.getElem?_set_ne hi] at hv
          exact hrow.value i v hv
  · have hlen : 0 < (List.replicate headers.length (Cell.empty : Cell κ)).length := by
      rw [List.length_replicate]
      exact List.length_pos_of_ne_nil hne
    constructor
    · exact List.getElem?_set_self hlen
    · intro i v hv
      by_cases hi : 0 = i
      · subst hi
        rw [List.getElem?_set_self hlen] at hv
        cases hv
      · rw [List.getElem?_set_ne hi] at hv
        have := List.mem_of_getElem? hv
        cases List.eq_of_mem_replicate this

end Lines

/-- no file has the key of the first column -/
theorem underscore_mem_key (f : File) : '_' ∈ f.key := List.mem_append_right _ List.mem_cons_self

section Main

variable {lib : Library κ} {dir : Directory} {m : Matrix κ}

theorem main_ok (h : main lib dir = .ok m) :
    ∃ st, (fileMap dir).items.foldlM (processFile lib dir) start = .ok st ∧
      m.headers[0]? = some "timestamp".toList ∧
      ∀ row ∈ m.lines, ∃ e ∈ st.outputMap.items, lineOf m.headers (Dict.empty.setAll m.headers.zipIdx) e = .ok row := by
  obtain ⟨st, hst, h⟩ := bind_eq_ok.1 h
  obtain ⟨rows, hrows, h⟩ := bind_eq_ok.1 h
  cases h
  refine ⟨st, hst, rfl, ?_⟩
  intro row hrow
  obtain ⟨e, he, hline⟩ := exists_of_mem_right (forall₂_of_mapM_ok hrows) hrow
  exact ⟨e, (List.mem_insertionSort _).1 he, hline⟩

theorem attributed_of_othersSilent (h : main lib dir = .ok m) (hsilent : OthersSilent lib dir) : Attributed lib dir m := by
  obtain ⟨st, hst, hheaders, hlines⟩ := main_ok h
  have hown := entries_loop hsilent (List.append_nil _).symm hst
  intro row hrow i label v hlabel hvalue
  obtain ⟨e, he, hline⟩ := hlines row hrow
  have hentry := Dict.get_eq_some_iff.2 he
  have hfrom : LineFrom m.headers e row := by
    apply lineOf_from _ _ hline
    · intro label' hlabel' hmem
      obtain ⟨v', hv'⟩ := Dict.mem_keys_iff.1 hmem
      obtain ⟨f, -, -, hkey, -⟩ := hown _ _ hentry _ _ hv'
      have hunderscore := underscore_mem_key f
      rw [hkey, ← Option.some.inj (hheaders.symm.trans hlabel')] at hunderscore
      exact absurd hunderscore (by decide)
    · rintro hnil
      rw [hnil] at hheaders
      cases hheaders
  obtain ⟨label', hlabel', hget⟩ := hfrom.value i v hvalue
  have hll : label = label' := Option.some.inj (hlabel.symm.trans hlabel')
  subst hll
  exact ⟨e.1, hfrom.time, hown _ _ hentry _ _ hget⟩

/-- **When the readings are those of the own file.** What is written comes from the files that the columns name, and other
files contribute nothing, exactly when nothing was read last before each file without a branch. -/
theorem attribution_iff (lib : Library κ) (dir : Directory) {m : Matrix κ} (h : main lib dir = .ok m) :
    Attributed lib dir m ∧ OthersSilent lib dir ↔ NothingLeft dir := by
  constructor
  · intro ⟨_, hsilent⟩
    obtain ⟨st, hst, -⟩ := main_ok h
    exact nothingLeft_of_othersSilent hst hsilent
  · intro hleft
    have hsilent : OthersSilent lib dir := othersSilent_of_nothingLeft hleft
    exact ⟨attributed_of_othersSilent h hsilent, hsilent⟩

end Main

/-! ## Two directories -/

/-- `int` of the numbers that the files have, in exact arithmetic, on a machine at Greenwich -/
def greenwich : Library ℚ where
  int s := if strip s ≠ [] ∧ (strip s).all Char.isDigit then .ok (digits (strip s)) else .error .valueError
  timestamp hr mins secs millis :=
    if 0 ≤ hr ∧ hr < 24 ∧ 0 ≤ mins ∧ mins < 60 ∧ 0 ≤ secs ∧ secs < 60 then
      .ok (1397433600 + 3600 * hr + 60 * mins + secs + millis / 1000)
    else .error .valueError
  timesTen x := x * 10
  toInt := truncate
  dividedByTen n := n / 10

def text (lines : List String) : Content := ⟨lines.map String.toList, none⟩

/-- the files of a directory with their lines -/
def directory (files : List (String × List String)) (h : (files.map fun e => e.1.toList).Nodup) : Directory where
  path := "logs/".toList
  names := files.map fun e => e.1.toList
  nodup := h
  opened path :=
    match files.find? fun e => "logs/".toList ++ e.1.toList = path with
    | some e => .ok (text e.2)
    | none => .error .osError

def idleDisk : Directory := directory
  [("collectl-DISK-util-node1", ["No readings\n"]), ("collectl-MEM-free-node1", ["10:00:00.000 7\n"]),
    ("collectl-CPU-idle-node1", ["#Time Idle\n", "10:00:00.020 40\n", "10:00:00.130 30\n"])] (by decide +kernel)

/-- the values of the CPU are its own: the disk has left nothing for the memory -/
theorem quiet_attribution : ∃ m, main greenwich idleDisk = .ok m ∧ m.lines.length = 2 ∧
    (Attributed greenwich idleDisk m ∧ OthersSilent greenwich idleDisk) := by
  refine ⟨⟨["timestamp".toList, "node1_CPU".toList], [[.time 1397469600, .value 60], [.time (13974696001 / 10), .value 70]]⟩,
    by decide +kernel, rfl, ?_⟩
  refine (attribution_iff greenwich idleDisk (by decide +kernel)).2 ?_
  intro before f after hitems hf g hg file hopen
  have hplaces : ∀ i < 3, ∀ f ∈ (fileMap idleDisk).items[i]?, ¬ Understood f →
      ∀ g ∈ lastUnderstood ((fileMap idleDisk).items.take i),
        ∀ file ∈ (idleDisk.opened (idleDisk.path ++ File.name g)).toOption, ∀ x ∈ file.lines, ':' ∉ x := by decide +kernel
  have hlen : before.length < (fileMap idleDisk).items.length := by
    rw [hitems]
    simp
  refine hplaces before.length hlen f ?_ hf g ?_ file ?_
  · rw [hitems]
    simp
  · rw [hitems, List.take_left]
    exact hg
  · rw [hopen]
    rfl

def afterCPU : Directory := directory
  [("collectl-CPU-idle-node1", ["10:00:00.020 40\n"]), ("collectl-MEM-free-node1", ["10:00:00.000 7\n"])] (by decide +kernel)

/-- the memory has 7 free, and 60 is shown: the CPU's -/
theorem memory_shows_cpu : ∃ m, main greenwich afterCPU = .ok m ∧ ¬ (Attributed greenwich afterCPU m ∧
    OthersSilent greenwich afterCPU) := by
  refine ⟨⟨["timestamp".toList, "node1_CPU".toList, "node1_MEM".toList], [[.time 1397469600, .value 60, .value 60]]⟩,
    by decide +kernel, ?_⟩
  intro ⟨h, _⟩
  obtain ⟨t, -, f, hf, hunderstood, hkey, -⟩ :=
    h [.time 1397469600, .value 60, .value 60] List.mem_cons_self 2 "node1_MEM".toList 60 rfl rfl
  have hother : ∀ f ∈ (fileMap afterCPU).items, Understood f → File.key f ≠ "node1_MEM".toList := by decide +kernel
  exact hother f hf hunderstood hkey

end Rubbos.Transform.CollectlLinebreaks
