/-
Separating Apache's access log by Tomcat (`SeperateTomcatQueueParser.java`).

The ids of every Tomcat's access log go into a filter, and a row of Apache's log goes to the first Tomcat whose filter has its
id. The number of a Tomcat is one character of the file's name. The id of a row is cut out of its seventh field, which is the
request in the original format of httpd.conf, but the end time in the format "common" with "%D". That field is read before the
try block, so a row with fewer fields ends the program before anything is written. A Bloom filter is the set of what was put
into it.

- `parse_ok`, `parse_short`: what is appended if every row of Apache's logs has seven fields, and the end of the program if not.
- `separated_iff`: when every row goes where it belongs.
- `separated_of_fields`: Tomcats with one digit, and the request in the seventh field.
- `idAt_common`: no row in the format "common" has an id there.
- `short_row_stops`: one empty row, and no output.
-/
import Rubbos.Core.Urlencoded
import Rubbos.Parsers.AccessLog
import Rubbos.Parsers.TomcatAgreement

namespace Rubbos.Parsers.SeperateTomcatQueueParser

open Rubbos.Core CLib JString TomcatLogs

/-! ## Model -/

structure File where
  name : Text
  text : Text

def OUTPUT : Text := "HTTPD_access_TOMCAT".toList

def tomcatWord : Text := "TOMCAT".toList
def accessWord : Text := "access".toList
def httpdWord : Text := "HTTPD".toList
def accessLogWord : Text := "access.log".toList
def crlf : Text := ['\r', '\n']

/-- the fields of the object, and what is printed; the arrays have ntomcat elements -/
structure St where
  tomcats : ℕ → List Text
  sb : ℕ → Text
  console : List Text

/-- `strs[i].split("urlID=")[1]` -/
def idAt (i : ℕ) (row : Text) : Except Exc Text := do element (split urlIDMark (← element (tokens row) i)) 1

/-- the local variables of `parseTomcatAccess` -/
structure Loading where
  tomcat : List Text
  counter : ℕ
  console : List Text

def tomcatRow (l : Loading) (row : Text) : Loading :=
  match idAt 4 row with
  | .ok id => { l with counter := l.counter + 1, tomcat := l.tomcat ++ [id] }
  | .error _ => { l with console := l.console ++ ["No UID".toList ++ row] }

def parseTomcatAccess (f : File) (tomcat : List Text) (console : List Text) : List Text × List Text :=
  let l := (lines f.text).foldl tomcatRow ⟨tomcat, 0, console⟩
  (l.tomcat, l.console ++ [f.name ++ " has ".toList ++ natText l.counter ++ " records".toList])

/-- the local variables of `parseApacheAccess` -/
structure Separation where
  sb : ℕ → Text
  count : ℕ → ℕ
  countjpg : ℕ
  console : List Text

section

variable (ntomcat : ℕ)

/-- the first filter with the id -/
def firstTomcat (tomcats : ℕ → List Text) (id : Text) : Option ℕ := (List.range ntomcat).find? fun i => id ∈ tomcats i

/-- one row; the seventh field is read outside of the try block -/
def apacheRow (tomcats : ℕ → List Text) (s : Separation) (row : Text) : Except Exc Separation := do
  let field ← element (tokens row) 6
  let s := if "jpg".toList <:+: field then { s with countjpg := s.countjpg + 1 } else s
  match element (split urlIDMark field) 1 with
  | .ok id =>
    match firstTomcat ntomcat tomcats id with
    | some i =>
      return { s with sb := Function.update s.sb i (s.sb i ++ (row ++ crlf)), count := Function.update s.count i (s.count i + 1) }
    | none => return { s with count := Function.update s.count ntomcat (s.count ntomcat + 1) }
  | .error _ => return { s with console := s.console ++ ["No UID:".toList ++ row] }

def parseApacheAccess (f : File) (s : St) : Except Exc St := do
  let r ← (lines f.text).foldlM (apacheRow ntomcat s.tomcats) ⟨s.sb, fun _ => 0, 0, s.console⟩
  let result := ((List.range (ntomcat + 1)).flatMap fun i => natText (r.count i) ++ [' ']) ++ '\t' :: natText r.countjpg
  return { s with sb := r.sb, console := r.console ++ [result] }

/-- the inner loop of `parse`: the number is one character of the name -/
def tomcatIndex (filename : Text) : List ℕ → Except Exc (Option ℕ)
  | [] => .ok none
  | j :: js => do
    let number ← parseInt (← substring filename 6 7)
    if (j : ℤ) + 1 = number then return some j else tomcatIndex filename js

def loadFile (s : St) (f : File) : Except Exc St :=
  if tomcatWord <:+: f.name ∧ accessWord <:+: f.name then do
    match ← tomcatIndex f.name (List.range ntomcat) with
    | some j =>
      let (tomcat, console) := parseTomcatAccess f (s.tomcats j) s.console
      return { s with tomcats := Function.update s.tomcats j tomcat, console := console }
    | none => return s
  else return s

def separateFile (s : St) (f : File) : Except Exc St :=
  if httpdWord <+: f.name ∧ accessLogWord <:+ f.name then do
    let s ← parseApacheAccess ntomcat f s
    return { s with console := s.console ++ ["Done with ".toList ++ f.name] }
  else return s

/-- what the constructor makes -/
def initial : St := ⟨fun _ => [], fun _ => [], []⟩

/-- what is printed, and what is appended to every output -/
def parse (files : List File) : Except Exc (List Text × List (Text × Text)) := do
  let s ← files.foldlM (loadFile ntomcat) initial
  let s := { s with console := s.console ++ ["All the Tomcat access log files are loaded".toList] }
  let s ← files.foldlM (separateFile ntomcat) s
  return (s.console, (List.range ntomcat).map fun i => (OUTPUT ++ natText i ++ ".log".toList, s.sb i))

end

/-! ## What it is for -/

/-- a row of a Tomcat's access log: a record of the listener, or what the logger writes around it -/
inductive LogRow where
  | record (r : AccessRow)
  | other (t : Text)

def LogRow.text : LogRow → Text
  | .record r => r.text
  | .other t => t

/-- a name as the container gives it, and an id as the client makes it -/
structure IsWord (w : Text) : Prop where
  visible : Visible w
  no_mark : ¬ urlIDMark <:+: w

/-- no blanks in the names and the id of a record, no id in another row -/
def LogRow.Written : LogRow → Prop
  | .record r => IsWord r.thread ∧ IsWord r.uri ∧ IsWord r.id ∧ r.id ≠ []
  | .other t => ¬ urlIDMark <:+: t ∧ '\n' ∉ t ∧ '\r' ∉ t

/-- a log with a name TOMCAT<k>..access.. -/
structure TomcatLog where
  number : ℕ
  between : Text
  after : Text
  rows : List LogRow
  pos : 0 < number
  number_ends : ∀ c ∈ between.head?, c.isDigit = false
  written : ∀ r ∈ rows, r.Written

def TomcatLog.ids (log : TomcatLog) : List Text :=
  log.rows.filterMap fun
    | .record r => some r.id
    | .other _ => none

def TomcatLog.file (log : TomcatLog) : File :=
  ⟨tomcatWord ++ (natText log.number ++ (log.between ++ (accessWord ++ log.after))), TomcatLogs.file (log.rows.map LogRow.text)⟩

/-- the files of a directory -/
inductive Source where
  | tomcat (log : TomcatLog)
  /-- an access log of Apache, with any text -/
  | apache (between text : Text) (no_tomcat : ¬ tomcatWord <:+: httpdWord ++ (between ++ accessLogWord))
  | other (f : File) (no_tomcat : ¬ (tomcatWord <:+: f.name ∧ accessWord <:+: f.name))
      (no_apache : ¬ (httpdWord <+: f.name ∧ accessLogWord <:+ f.name))

def Source.file : Source → File
  | .tomcat log => log.file
  | .apache between text _ => ⟨httpdWord ++ (between ++ accessLogWord), text⟩
  | .other f _ _ => f

def Source.logs : Source → List TomcatLog
  | .tomcat log => [log]
  | _ => []

def Source.rows : Source → List Text
  | .apache _ text _ => lines text
  | _ => []

/-- the ids of the logs whose number has a property -/
def idsOf (files : List Source) (P : ℕ → Bool) : List Text :=
  ((files.flatMap Source.logs).filter fun log => P log.number).flatMap TomcatLog.ids

/-- the ids of a Tomcat -/
def ids (files : List Source) (k : ℕ) : List Text := idsOf files (· = k)

/-- the rows of Apache's logs -/
def apacheRows (files : List Source) : List Text := files.flatMap Source.rows

/-- the target of the request: the second word behind the first quote -/
def target (row : Text) : Text :=
  ((((row.dropWhile (· ≠ '"')).drop 1).dropWhile (· ≠ ' ')).drop 1).takeWhile (· ≠ ' ')

/-- the parameter urlID of the request -/
def requestID (codec : Urlencoded.Codec) (row : Text) : Option Text :=
  Urlencoded.getParameter codec (((target row).dropWhile (· ≠ '?')).drop 1) "urlID".toList

/-- the request carries an id of a Tomcat -/
def Carries (codec : Urlencoded.Codec) (files : List Source) (k : ℕ) (row : Text) : Bool :=
  (requestID codec row).any fun id => id ∈ ids files k

/-- the program comes to its end, and every output gets the rows with an id of its Tomcat, in the order of the logs -/
def Separated (codec : Urlencoded.Codec) (ntomcat : ℕ) (files : List Source) : Prop :=
  ∃ console, parse ntomcat (files.map Source.file) = .ok (console, (List.range ntomcat).map fun j =>
    (OUTPUT ++ natText j ++ ".log".toList, ((apacheRows files).filter (Carries codec files (j + 1))).flatMap (· ++ crlf)))

/-- the first digit of a number -/
def leading (n : ℕ) : ℕ := digits ((natText n).take 1)

/-- the seventh field has an id of a Tomcat whose number begins with the digit -/
def ReadAs (files : List Source) (d : ℕ) (row : Text) : Bool :=
  match idAt 6 row with
  | .ok id => id ∈ idsOf files fun k => leading k = d
  | .error _ => false

/-! ## The first digit -/

theorem leading_of_lt {n : ℕ} (h : n < 10) : leading n = n := by
  interval_cases n <;> rfl

theorem leading_of_le {n : ℕ} (h : 10 ≤ n) : leading n = leading (n / 10) := by
  have hne : Nat.toDigits 10 (n / 10) ≠ [] := Nat.toDigits_ne_nil
  unfold leading natText
  rw [Nat.toDigits_of_base_le (by decide) h, List.take_append_of_le_length (List.length_pos_of_ne_nil hne)]

/-- a digit from 1 to 9 -/
theorem leading_bounds {n : ℕ} (hn : 0 < n) : 0 < leading n ∧ leading n < 10 ∧ leading n ≤ n := by
  induction n using Nat.strong_induction_on with
  | _ n ih =>
    rcases lt_or_ge n 10 with h | h
    · rw [leading_of_lt h]
      omega
    · have := ih (n / 10) (by omega) (by omega)
      rw [leading_of_le h]
      omega

theorem parseInt_leading (n : ℕ) : parseInt ((natText n).take 1) = .ok (leading n : ℤ) := by
  have hsmall : leading n < 10 := by
    rcases n.eq_zero_or_pos with rfl | hn
    · decide
    · exact (leading_bounds hn).2.1
  unfold leading at hsmall ⊢
  obtain ⟨c, t, hn⟩ := List.exists_cons_of_ne_nil (natText_ne_nil n)
  have hc : c.isDigit := isDigit_of_mem_natText (n := n) (by simp [hn])
  rw [hn, List.take_succ_cons, List.take_zero] at hsmall ⊢
  exact parseInt_digits (List.cons_ne_nil c []) (by simp [hc]) (by omega)

/-! ## Names -/

/-- the loop finds the number -/
theorem tomcatIndex_eq {filename : Text} {number : Text} {d : ℕ} (hsub : substring filename 6 7 = .ok number)
    (hparse : parseInt number = .ok (d : ℤ)) (hd : 0 < d) {js : List ℕ} (hmem : d - 1 ∈ js) :
    tomcatIndex filename js = .ok (some (d - 1)) := by
  induction js with
  | nil => cases hmem
  | cons j js ih =>
    simp only [tomcatIndex, hsub, hparse, bind, Except.bind]
    split_ifs with hj
    · have : j = d - 1 := by omega
      rw [this]
      rfl
    · refine ih ((List.mem_cons.1 hmem).resolve_left ?_)
      omega

theorem substring_name (log : TomcatLog) : substring log.file.name 6 7 = .ok ((natText log.number).take 1) := by
  unfold TomcatLog.file
  obtain ⟨c, t, hn⟩ := List.exists_cons_of_ne_nil (natText_ne_nil log.number)
  have hlen : 7 ≤ (tomcatWord ++ (natText log.number ++ (log.between ++ (accessWord ++ log.after)))).length := by
    rw [hn]
    simp [tomcatWord]
  rw [substring, if_pos ⟨by decide, by decide, by exact_mod_cast hlen⟩, hn]
  rfl

theorem tomcatIndex_file {ntomcat : ℕ} {log : TomcatLog} (h : log.number ≤ ntomcat) :
    tomcatIndex log.file.name (List.range ntomcat) = .ok (some (leading log.number - 1)) := by
  obtain ⟨hpos, -, hle⟩ := leading_bounds log.pos
  exact tomcatIndex_eq (substring_name log) (parseInt_leading log.number) hpos (List.mem_range.2 (by omega))

theorem words_of_name (log : TomcatLog) : tomcatWord <:+: log.file.name ∧ accessWord <:+: log.file.name := by
  refine ⟨⟨[], _, rfl⟩, ⟨tomcatWord ++ (natText log.number ++ log.between), log.after, ?_⟩⟩
  simp [TomcatLog.file]

theorem not_httpd_name (log : TomcatLog) : ¬ httpdWord <+: log.file.name := by
  intro h
  exact absurd ((List.cons_prefix_cons.1 h).1) (by decide)

/-! ## Tomcat's logs -/

theorem idAt_ok_iff {i : ℕ} {row id : Text} :
    idAt i row = .ok id ↔ ∃ w, (tokens row)[i]? = some w ∧ (split urlIDMark w)[1]? = some id := by
  unfold idAt element
  cases (tokens row)[i]? with
  | none => simp [bind, Except.bind]
  | some w => 
    cases h : (split urlIDMark w)[1]? with
    | none => simp [bind, Except.bind, h]
    | some id' => simp [bind, Except.bind, h]

/-- a row without "urlID=" has no id -/
theorem idAt_error {i : ℕ} {row : Text} (h : ¬ urlIDMark <:+: row) : ∃ e, idAt i row = .error e := by
  cases hid : idAt i row with
  | error e => exact ⟨e, rfl⟩
  | ok id =>
    obtain ⟨w, hw, hsplit⟩ := idAt_ok_iff.1 hid
    have hnone : find urlIDMark w = none := find_eq_none.2 fun hmark =>
      h (hmark.trans (infix_of_mem_tokens (List.mem_of_getElem? hw)))
    rw [split, hnone, Option.isNone_none, if_pos rfl] at hsplit
    cases hsplit

theorem visible_record {r : AccessRow} (h : (LogRow.record r).Written) : ∀ w ∈ r.tokens, Visible w := by
  obtain ⟨hthread, huri, hid, -⟩ := h
  have hkeys : Visible threadMark ∧ Visible pad ∧ Visible Tomcatparser.stKey ∧ Visible Tomcatparser.etKey ∧
      Visible Tomcatparser.timestampKey ∧ Visible ('?' :: urlIDMark) := by decide
  obtain ⟨hmark, hpad, hst, het, htimestamp, hquestion⟩ := hkeys
  have htoken : Visible (idToken r.uri r.id) := by
    have heq : idToken r.uri r.id = r.uri ++ (('?' :: urlIDMark) ++ r.id) := rfl
    rw [heq]
    exact huri.visible.append (hquestion.append hid.visible)
  intro w hw
  simp only [AccessRow.tokens, List.mem_cons, List.not_mem_nil, or_false] at hw
  rcases hw with rfl | rfl | rfl | rfl | rfl | rfl | rfl | rfl | rfl | rfl | rfl
  · exact r.date.plain.visible
  · exact r.time.plain.visible
  · exact hmark.append hthread.visible
  · exact hpad
  · exact htoken
  · exact (plain_longText _).visible
  · exact hpad
  · exact hpad
  · exact hst.append (plain_natText _).visible
  · exact het.append (plain_natText _).visible
  · exact htimestamp.append (plain_natText _).visible

/-- the id of a record -/
theorem idAt_record {r : AccessRow} (h : (LogRow.record r).Written) : idAt 4 r.text = .ok r.id := by
  have hfilter := tokens_row (visible_record h) r.date.ne fun u hu => ne_nil_of_mem_access (List.mem_of_getLast? hu)
  have htokens : tokens r.text = r.tokens := by
    refine hfilter.trans (List.filter_eq_self.2 ?_)
    intro w hw
    simpa using ne_nil_of_mem_access hw
  obtain ⟨-, huri, hid, hne⟩ := h
  rw [idAt_ok_iff, htokens]
  refine ⟨idToken r.uri r.id, rfl, ?_⟩
  rw [split_idToken huri.no_mark hid.no_mark hne]
  rfl

theorem newline_notMem {r : LogRow} (h : r.Written) : '\n' ∉ r.text ∧ '\r' ∉ r.text := by
  cases r with
  | record r =>
    have hvisible := visible_record h
    exact ⟨notMem_joinSp hvisible (by decide), notMem_joinSp hvisible (by decide)⟩
  | other t => exact h.2

/-- the filter gets the ids of the rows -/
theorem foldl_tomcatRow {rows : List LogRow} (h : ∀ r ∈ rows, r.Written) (l : Loading) :
    ((rows.map LogRow.text).foldl tomcatRow l).tomcat = l.tomcat ++ rows.filterMap fun
      | .record r => some r.id
      | .other _ => none := by
  induction rows generalizing l with
  | nil => simp
  | cons r rows ih =>
    rw [List.map_cons, List.foldl_cons, ih fun r' hr' => h r' (List.mem_cons_of_mem r hr'), List.filterMap_cons]
    have hr := h r List.mem_cons_self
    cases r with
    | record r => simp [tomcatRow, LogRow.text, idAt_record hr]
    | other t =>
      obtain ⟨e, he⟩ := idAt_error (i := 4) hr.1
      simp [tomcatRow, LogRow.text, he]

theorem parseTomcatAccess_file (log : TomcatLog) (tomcat console : List Text) :
    (parseTomcatAccess log.file tomcat console).1 = tomcat ++ log.ids := by
  have hlines : lines log.file.text = log.rows.map LogRow.text := by
    refine lines_flatMap ?_
    intro l hl
    obtain ⟨r, hr, rfl⟩ := List.mem_map.1 hl
    exact newline_notMem (log.written r hr)
  rw [parseTomcatAccess, hlines]
  exact foldl_tomcatRow log.written _

/-! ## Loading -/

variable {ntomcat : ℕ} {files : List Source}

theorem idsOf_cons (f : Source) (files : List Source) (P : ℕ → Bool) :
    idsOf (f :: files) P = idsOf [f] P ++ idsOf files P := by
  simp [idsOf]

theorem idsOf_tomcat (log : TomcatLog) (P : ℕ → Bool) :
    idsOf [.tomcat log] P = if P log.number then log.ids else [] := by
  by_cases h : P log.number <;> simp [idsOf, Source.logs, h]

/-- what a file adds to the filters -/
theorem loadFile_file {f : Source} (hf : ∀ log ∈ f.logs, log.number ≤ ntomcat) (s : St) :
    ∃ s', loadFile ntomcat s f.file = .ok s' ∧ s'.sb = s.sb ∧
      ∀ j, s'.tomcats j = s.tomcats j ++ idsOf [f] fun k => leading k = j + 1 := by
  cases f with
  | tomcat log =>
    have hlead := leading_bounds log.pos
    have hindex := tomcatIndex_file (hf log (List.mem_singleton_self log))
    rw [Source.file, loadFile, if_pos (words_of_name log), hindex]
    refine ⟨{ s with tomcats := Function.update s.tomcats (leading log.number - 1)
                       (parseTomcatAccess log.file (s.tomcats (leading log.number - 1)) s.console).1
                     console := (parseTomcatAccess log.file (s.tomcats (leading log.number - 1)) s.console).2 }, rfl, rfl, ?_⟩
    intro j
    simp only [parseTomcatAccess_file, idsOf_tomcat, decide_eq_true_eq]
    by_cases hj : j = leading log.number - 1
    · rw [hj, Function.update_self, if_pos (by omega)]
    · rw [Function.update_of_ne hj, if_neg (by omega), List.append_nil]
  | apache between text no_tomcat =>
    rw [loadFile, if_neg fun h => no_tomcat h.1]
    exact ⟨s, rfl, rfl, fun j => (List.append_nil _).symm⟩
  | other f no_tomcat no_apache =>
    rw [loadFile, Source.file, if_neg no_tomcat]
    exact ⟨s, rfl, rfl, fun j => (List.append_nil _).symm⟩

theorem foldlM_loadFile (h : ∀ f ∈ files, ∀ log ∈ f.logs, log.number ≤ ntomcat) (s : St) :
    ∃ s', (files.map Source.file).foldlM (loadFile ntomcat) s = .ok s' ∧ s'.sb = s.sb ∧
      ∀ j, s'.tomcats j = s.tomcats j ++ idsOf files fun k => leading k = j + 1 := by
  induction files generalizing s with
  | nil => exact ⟨s, rfl, rfl, fun j => (List.append_nil _).symm⟩
  | cons f files ih =>
    obtain ⟨s₁, h₁, hsb₁, hids₁⟩ := loadFile_file (h f List.mem_cons_self) s
    obtain ⟨s₂, h₂, hsb₂, hids₂⟩ := ih (fun f' hf' => h f' (List.mem_cons_of_mem f hf')) s₁
    refine ⟨s₂, ?_, hsb₂.trans hsb₁, ?_⟩
    · rw [List.map_cons, List.foldlM_cons, h₁]
      exact h₂
    · intro j
      rw [hids₂, hids₁, List.append_assoc, ← idsOf_cons]

/-! ## Separating -/

/-- the Tomcat that a row goes to -/
def place (ntomcat : ℕ) (tomcats : ℕ → List Text) (row : Text) : Option ℕ :=
  match idAt 6 row with
  | .ok id => firstTomcat ntomcat tomcats id
  | .error _ => none

section

variable (ntomcat : ℕ) (tomcats : ℕ → List Text)

/-- a row with seven fields is appended to the output of its place -/
theorem apacheRow_ok {row : Text} (hrow : 7 ≤ (tokens row).length) (s : Separation) :
    ∃ s', apacheRow ntomcat tomcats s row = .ok s' ∧
      ∀ j, s'.sb j = s.sb j ++ if place ntomcat tomcats row = some j then row ++ crlf else [] := by
  obtain ⟨field, hfield⟩ : ∃ field, (tokens row)[6]? = some field := ⟨_, List.getElem?_eq_getElem hrow⟩
  have helement : element (tokens row) 6 = .ok field := element_eq hfield
  have hid : idAt 6 row = element (split urlIDMark field) 1 := by
    rw [idAt, helement]
    rfl
  have hjpg : (if "jpg".toList <:+: field then { s with countjpg := s.countjpg + 1 } else s).sb = s.sb := by
    split <;> rfl
  unfold apacheRow place
  simp only [helement, hid, bind, Except.bind]
  generalize (if "jpg".toList <:+: field then { s with countjpg := s.countjpg + 1 } else s) = s₀ at hjpg ⊢
  rw [← hjpg]
  cases element (split urlIDMark field) 1 with
  | error e => exact ⟨_, rfl, fun j => (List.append_nil _).symm⟩
  | ok id =>
    obtain hfirst | ⟨i, hfirst⟩ := Option.eq_none_or_eq_some (firstTomcat ntomcat tomcats id)
    · simp only [hfirst]
      exact ⟨_, rfl, fun j => (List.append_nil _).symm⟩
    · simp only [hfirst]
      refine ⟨_, rfl, ?_⟩
      intro j
      by_cases hj : j = i
      · simp [hj]
      · simp [hj, Ne.symm hj]

theorem apacheRow_short {row : Text} (hrow : (tokens row).length < 7) (s : Separation) :
    apacheRow ntomcat tomcats s row = .error .arrayIndexOutOfBounds := by
  have hnone : (tokens row)[6]? = none := List.getElem?_eq_none (by omega)
  rw [apacheRow, element, hnone]
  rfl

/-- the rows that go to a place -/
def placed (ntomcat : ℕ) (tomcats : ℕ → List Text) (rows : List Text) (j : ℕ) : List Text :=
  rows.filter fun row => place ntomcat tomcats row = some j

theorem foldlM_apacheRow {rows : List Text} (h : ∀ row ∈ rows, 7 ≤ (tokens row).length) (s : Separation) :
    ∃ s', rows.foldlM (apacheRow ntomcat tomcats) s = .ok s' ∧
      ∀ j, s'.sb j = s.sb j ++ (placed ntomcat tomcats rows j).flatMap (· ++ crlf) := by
  induction rows generalizing s with
  | nil => exact ⟨s, rfl, fun j => (List.append_nil _).symm⟩
  | cons row rows ih =>
    obtain ⟨s₁, h₁, hsb₁⟩ := apacheRow_ok ntomcat tomcats (h row List.mem_cons_self) s
    obtain ⟨s₂, h₂, hsb₂⟩ := ih (fun r hr => h r (List.mem_cons_of_mem row hr)) s₁
    refine ⟨s₂, ?_, ?_⟩
    · rw [List.foldlM_cons, h₁]
      exact h₂
    · intro j
      rw [hsb₂, hsb₁]
      by_cases hj : place ntomcat tomcats row = some j
      · simp [placed, hj]
      · simp [placed, hj]

/-- a short row ends the program -/
theorem foldlM_apacheRow_short {rows : List Text} (h : ∃ row ∈ rows, (tokens row).length < 7) (s : Separation) :
    ∃ e, rows.foldlM (apacheRow ntomcat tomcats) s = .error e := by
  cases hfold : rows.foldlM (apacheRow ntomcat tomcats) s with
  | error e => exact ⟨e, rfl⟩
  | ok s' =>
    obtain ⟨row, hrow, hshort⟩ := h
    obtain ⟨c, c', -, hc⟩ := exists_step_of_foldlM (P := fun _ => True) (fun _ _ _ _ _ _ => trivial) trivial hfold hrow
    rw [apacheRow_short ntomcat tomcats hshort] at hc
    cases hc

end

/-- what a file adds to the outputs -/
theorem separateFile_ok {f : Source} (hf : ∀ row ∈ f.rows, 7 ≤ (tokens row).length) (s : St) :
    ∃ s', separateFile ntomcat s f.file = .ok s' ∧ s'.tomcats = s.tomcats ∧
      ∀ j, s'.sb j = s.sb j ++ (placed ntomcat s.tomcats f.rows j).flatMap (· ++ crlf) := by
  cases f with
  | tomcat log =>
    rw [separateFile, Source.file, if_neg fun h => not_httpd_name log h.1]
    exact ⟨s, rfl, rfl, fun j => (List.append_nil _).symm⟩
  | apache between text no_tomcat =>
    have hname : httpdWord <+: httpdWord ++ (between ++ accessLogWord) ∧
        accessLogWord <:+ httpdWord ++ (between ++ accessLogWord) :=
      ⟨List.prefix_append _ _, ⟨httpdWord ++ between, List.append_assoc _ _ _⟩⟩
    obtain ⟨r, hr, hsb⟩ := foldlM_apacheRow ntomcat s.tomcats hf ⟨s.sb, fun _ => 0, 0, s.console⟩
    rw [separateFile, Source.file, if_pos hname, parseApacheAccess]
    have hr' : (lines text).foldlM (apacheRow ntomcat s.tomcats) ⟨s.sb, fun _ => 0, 0, s.console⟩ = .ok r := hr
    rw [hr']
    exact ⟨_, rfl, rfl, hsb⟩
  | other f no_tomcat no_apache =>
    rw [separateFile, Source.file, if_neg no_apache]
    exact ⟨s, rfl, rfl, fun j => (List.append_nil _).symm⟩

theorem separateFile_short (ntomcat : ℕ) {f : Source} (hf : ∃ row ∈ f.rows, (tokens row).length < 7) (s : St) :
    ∃ e, separateFile ntomcat s f.file = .error e := by
  cases f with
  | tomcat log =>
    obtain ⟨row, hrow, -⟩ := hf
    cases hrow
  | apache between text no_tomcat =>
    have hname : httpdWord <+: httpdWord ++ (between ++ accessLogWord) ∧
        accessLogWord <:+ httpdWord ++ (between ++ accessLogWord) :=
      ⟨List.prefix_append _ _, ⟨httpdWord ++ between, List.append_assoc _ _ _⟩⟩
    obtain ⟨e, he⟩ := foldlM_apacheRow_short ntomcat s.tomcats hf ⟨s.sb, fun _ => 0, 0, s.console⟩
    have he' : (lines text).foldlM (apacheRow ntomcat s.tomcats) ⟨s.sb, fun _ => 0, 0, s.console⟩ = .error e := he
    rw [separateFile, Source.file, if_pos hname, parseApacheAccess, he']
    exact ⟨e, rfl⟩
  | other f no_tomcat no_apache =>
    obtain ⟨row, hrow, -⟩ := hf
    cases hrow

theorem placed_append (tomcats : ℕ → List Text) (rows rows' : List Text) (j : ℕ) :
    placed ntomcat tomcats (rows ++ rows') j = placed ntomcat tomcats rows j ++ placed ntomcat tomcats rows' j :=
  List.filter_append _ _

theorem foldlM_separateFile (ntomcat : ℕ) (h : ∀ row ∈ apacheRows files, 7 ≤ (tokens row).length) (s : St) :
    ∃ s', (files.map Source.file).foldlM (separateFile ntomcat) s = .ok s' ∧
      ∀ j, s'.sb j = s.sb j ++ (placed ntomcat s.tomcats (apacheRows files) j).flatMap (· ++ crlf) := by
  induction files generalizing s with
  | nil => exact ⟨s, rfl, fun j => (List.append_nil _).symm⟩
  | cons f files ih =>
    have hrows : apacheRows (f :: files) = f.rows ++ apacheRows files := List.flatMap_cons
    rw [hrows] at h
    obtain ⟨s₁, h₁, htomcats, hsb₁⟩ := separateFile_ok (fun row hrow => h row (List.mem_append_left _ hrow)) s
    obtain ⟨s₂, h₂, hsb₂⟩ := ih (fun row hrow => h row (List.mem_append_right _ hrow)) s₁
    refine ⟨s₂, ?_, ?_⟩
    · rw [List.map_cons, List.foldlM_cons, h₁]
      exact h₂
    · intro j
      rw [hsb₂, hsb₁, htomcats, hrows, placed_append, List.flatMap_append, List.append_assoc]

theorem foldlM_separateFile_short (ntomcat : ℕ) (h : ∃ row ∈ apacheRows files, (tokens row).length < 7) (s : St) :
    ∃ e, (files.map Source.file).foldlM (separateFile ntomcat) s = .error e := by
  cases hfold : (files.map Source.file).foldlM (separateFile ntomcat) s with
  | error e => exact ⟨e, rfl⟩
  | ok s' =>
    obtain ⟨row, hrow, hshort⟩ := h
    obtain ⟨f, hf, hrow⟩ := List.mem_flatMap.1 hrow
    obtain ⟨c, c', -, hc⟩ := exists_step_of_foldlM (P := fun _ => True) (fun _ _ _ _ _ _ => trivial) trivial hfold
      (List.mem_map_of_mem hf)
    obtain ⟨e, he⟩ := separateFile_short ntomcat ⟨row, hrow, hshort⟩ c
    rw [he] at hc
    cases hc

/-! ## The program -/

/-- what a directory is about: Tomcats from 1 to ntomcat, and no id in the logs of two of them -/
structure Numbered (ntomcat : ℕ) (files : List Source) : Prop where
  number_le : ∀ f ∈ files, ∀ log ∈ f.logs, log.number ≤ ntomcat
  disjoint : ∀ k k', k ≠ k' → (ids files k).Disjoint (ids files k')

theorem mem_idsOf {P : ℕ → Bool} {id : Text} :
    id ∈ idsOf files P ↔ ∃ log ∈ files.flatMap Source.logs, P log.number ∧ id ∈ log.ids := by
  simp only [idsOf, List.mem_flatMap, List.mem_filter]
  constructor
  · rintro ⟨log, ⟨hlog, hP⟩, hid⟩
    exact ⟨log, hlog, hP, hid⟩
  · rintro ⟨log, hlog, hP, hid⟩
    exact ⟨log, ⟨hlog, hP⟩, hid⟩

/-- an id of a log is an id of its Tomcat -/
theorem mem_ids_of_log {log : TomcatLog} (hlog : log ∈ files.flatMap Source.logs) {id : Text} (hid : id ∈ log.ids) :
    id ∈ ids files log.number := mem_idsOf.2 ⟨log, hlog, by simp, hid⟩

theorem Numbered.number_le' (h : Numbered ntomcat files) {log : TomcatLog} (hlog : log ∈ files.flatMap Source.logs) :
    log.number ≤ ntomcat := by
  obtain ⟨f, hf, hlog⟩ := List.mem_flatMap.1 hlog
  exact h.number_le f hf log hlog

/-- no id begins with two digits -/
theorem Numbered.leading_unique (h : Numbered ntomcat files) {id : Text} {d d' : ℕ}
    (hd : id ∈ idsOf files fun k => leading k = d) (hd' : id ∈ idsOf files fun k => leading k = d') : d = d' := by
  obtain ⟨log, hlog, hlead, hid⟩ := mem_idsOf.1 hd
  obtain ⟨log', hlog', hlead', hid'⟩ := mem_idsOf.1 hd'
  have hnumber : log.number = log'.number := by
    by_contra hne
    exact h.disjoint _ _ hne (mem_ids_of_log hlog hid) (mem_ids_of_log hlog' hid')
  rw [← of_decide_eq_true hlead, ← of_decide_eq_true hlead', hnumber]

/-- the place of a row, for the filters that are loaded -/
theorem Numbered.place_iff (h : Numbered ntomcat files) {tomcats : ℕ → List Text}
    (htomcats : ∀ j, tomcats j = idsOf files fun k => leading k = j + 1) {j : ℕ} (hj : j < ntomcat) (row : Text) :
    place ntomcat tomcats row = some j ↔ ReadAs files (j + 1) row := by
  unfold place ReadAs
  cases idAt 6 row with
  | error e => simp
  | ok id =>
    simp only [firstTomcat, decide_eq_true_eq, htomcats]
    constructor
    · intro hfind
      simpa using List.find?_some hfind
    · intro hid
      cases hfind : (List.range ntomcat).find? fun i => decide (id ∈ idsOf files fun k => leading k = i + 1) with
      | none =>
        have hnot := List.find?_eq_none.1 hfind j (List.mem_range.2 hj)
        exact absurd (decide_eq_true hid) hnot
      | some i =>
        have hi : id ∈ idsOf files fun k => leading k = i + 1 := by simpa using List.find?_some hfind
        have hij := h.leading_unique hi hid
        rw [Nat.succ.inj hij]

/-- the outputs have the rows whose seventh field is read so -/
theorem parse_ok (h : Numbered ntomcat files) (hrows : ∀ row ∈ apacheRows files, 7 ≤ (tokens row).length) :
    ∃ console, parse ntomcat (files.map Source.file) = .ok (console, (List.range ntomcat).map fun j =>
      (OUTPUT ++ natText j ++ ".log".toList, ((apacheRows files).filter (ReadAs files (j + 1))).flatMap (· ++ crlf))) := by
  obtain ⟨s₁, h₁, hsb₁, hids₁⟩ := foldlM_loadFile h.number_le initial
  obtain ⟨s₂, h₂, hsb₂⟩ := foldlM_separateFile ntomcat hrows
    { s₁ with console := s₁.console ++ ["All the Tomcat access log files are loaded".toList] }
  refine ⟨s₂.console, ?_⟩
  rw [parse, h₁]
  simp only [bind, Except.bind, h₂, pure, Except.pure]
  congr 2
  refine List.map_congr_left ?_
  intro j hj
  have hplaced : placed ntomcat s₁.tomcats (apacheRows files) j = (apacheRows files).filter (ReadAs files (j + 1)) := by
    refine List.filter_congr ?_
    intro row _
    rw [Bool.eq_iff_iff, decide_eq_true_eq]
    exact h.place_iff hids₁ (List.mem_range.1 hj) row
  rw [hsb₂, hsb₁, hplaced]
  rfl

/-- **A short row ends the program**, before anything is written. -/
theorem parse_short (h : Numbered ntomcat files) (hrows : ∃ row ∈ apacheRows files, (tokens row).length < 7) :
    ∃ e, parse ntomcat (files.map Source.file) = .error e := by
  obtain ⟨s₁, h₁, -, -⟩ := foldlM_loadFile h.number_le initial
  obtain ⟨e, he⟩ := foldlM_separateFile_short ntomcat hrows
    { s₁ with console := s₁.console ++ ["All the Tomcat access log files are loaded".toList] }
  rw [parse, h₁]
  simp only [bind, Except.bind, he]
  exact ⟨e, rfl⟩

/-! ## The rows that go where they belong -/

/-- the rows of a file can be read back from what is appended for them -/
theorem filter_eq_of_flatMap {p q : Text → Bool} {rows : List Text} (hrows : ∀ row ∈ rows, '\n' ∉ row ∧ '\r' ∉ row)
    (h : (rows.filter p).flatMap (· ++ crlf) = (rows.filter q).flatMap (· ++ crlf)) : ∀ row ∈ rows, p row = q row := by
  have hfilter : rows.filter p = rows.filter q := by
    have hlines := congrArg lines h
    rwa [crlf, lines_flatMap_crlf fun l hl => hrows l (List.mem_of_mem_filter hl),
      lines_flatMap_crlf fun l hl => hrows l (List.mem_of_mem_filter hl)] at hlines
  intro row hrow
  have hmem : row ∈ rows.filter p ↔ row ∈ rows.filter q := by rw [hfilter]
  rw [List.mem_filter, List.mem_filter] at hmem
  rw [Bool.eq_iff_iff]
  exact ⟨fun hp => (hmem.1 ⟨hrow, hp⟩).2, fun hq => (hmem.2 ⟨hrow, hq⟩).2⟩

theorem notMem_apacheRows : ∀ row ∈ apacheRows files, '\n' ∉ row ∧ '\r' ∉ row := by
  intro row hrow
  obtain ⟨f, -, hrow⟩ := List.mem_flatMap.1 hrow
  cases f with
  | tomcat log => cases hrow
  | apache between text no_tomcat => exact notMem_of_mem_lines hrow
  | other f no_tomcat no_apache => cases hrow

/-- there are no Tomcats but those from 1 to ntomcat -/
theorem Numbered.eq_false (h : Numbered ntomcat files) (codec : Urlencoded.Codec) {k : ℕ} (hk : k = 0 ∨ ntomcat < k)
    (row : Text) : Carries codec files k row = false ∧ ReadAs files k row = false := by
  have hids : ids files k = [] := by
    refine List.eq_nil_iff_forall_not_mem.2 ?_
    intro id hid
    obtain ⟨log, hlog, hnumber, -⟩ := mem_idsOf.1 hid
    have hle := h.number_le' hlog
    have hpos := log.pos
    have hnumber := of_decide_eq_true hnumber
    omega
  have hlead : (idsOf files fun n => leading n = k) = [] := by
    refine List.eq_nil_iff_forall_not_mem.2 ?_
    intro id hid
    obtain ⟨log, hlog, hnumber, -⟩ := mem_idsOf.1 hid
    have hle := h.number_le' hlog
    have hbounds := leading_bounds log.pos
    have hnumber := of_decide_eq_true hnumber
    omega
  refine ⟨?_, ?_⟩
  · simp [Carries, hids]
  · unfold ReadAs
    rw [hlead]
    cases idAt 6 row <;> simp

/-- **Apache's log is separated** exactly if every row has seven fields, and the id in the seventh one is of a Tomcat whose
number begins with the digit k when the id of the request is of the Tomcat k. -/
theorem separated_iff (codec : Urlencoded.Codec) (h : Numbered ntomcat files) :
    Separated codec ntomcat files ↔ ∀ row ∈ apacheRows files, 7 ≤ (tokens row).length ∧
      ∀ k, Carries codec files k row = ReadAs files k row := by
  constructor
  · rintro ⟨console, hparse⟩
    have hlong : ∀ row ∈ apacheRows files, 7 ≤ (tokens row).length := by
      intro row hrow
      by_contra hshort
      obtain ⟨e, he⟩ := parse_short h ⟨row, hrow, by omega⟩
      rw [hparse] at he
      cases he
    obtain ⟨console', hparse'⟩ := parse_ok h hlong
    rw [hparse] at hparse'
    have houtputs := (Prod.mk.inj (Except.ok.inj hparse')).2
    intro row hrow
    refine ⟨hlong row hrow, ?_⟩
    intro k
    by_cases hk : k = 0 ∨ ntomcat < k
    · rw [(h.eq_false codec hk row).1, (h.eq_false codec hk row).2]
    · obtain ⟨j, rfl⟩ : ∃ j, k = j + 1 := ⟨k - 1, by omega⟩
      have hj := List.map_inj_left.1 houtputs j (List.mem_range.2 (by omega))
      exact filter_eq_of_flatMap notMem_apacheRows (Prod.mk.inj hj).2 row hrow
  · intro hrows
    obtain ⟨console, hparse⟩ := parse_ok h fun row hrow => (hrows row hrow).1
    refine ⟨console, hparse.trans ?_⟩
    congr 2
    refine List.map_congr_left ?_
    intro j _
    rw [List.filter_congr fun row hrow => (hrows row hrow).2 (j + 1)]

/-- Tomcats with one digit, and rows whose seventh field has the id of the request -/
theorem separated_of_fields (codec : Urlencoded.Codec) (h : Numbered ntomcat files)
    (hdigit : ∀ log ∈ files.flatMap Source.logs, log.number < 10)
    (hrows : ∀ row ∈ apacheRows files, 7 ≤ (tokens row).length ∧ ∀ id, idAt 6 row = .ok id ↔ requestID codec row = some id) :
    Separated codec ntomcat files := by
  refine (separated_iff codec h).2 ?_
  intro row hrow
  obtain ⟨hlong, hid⟩ := hrows row hrow
  refine ⟨hlong, ?_⟩
  intro k
  have hids : (idsOf files fun n => leading n = k) = ids files k := by
    unfold ids idsOf
    refine congrArg (List.flatMap _) (List.filter_congr ?_)
    intro log hlog
    simp only [leading_of_lt (hdigit log hlog)]
  unfold Carries ReadAs
  rw [hids]
  cases hread : idAt 6 row with
  | ok id => rw [(hid id).1 hread, Option.any_some]
  | error e =>
    have hnone : requestID codec row = none := by
      refine Option.eq_none_iff_forall_ne_some.2 ?_
      intro id hsome
      rw [(hid id).2 hsome] at hread
      cases hread
    rw [hnone, Option.any_none]

/-! ## Rows in the format "common" -/

section

open Apacheparser

theorem isToken_append {v w : Text} (hv : IsToken v) (hw : IsToken w) : IsToken (v ++ w) := by
  intro c hc
  rcases List.mem_append.1 hc with hc | hc
  · exact hv c hc
  · exact hw c hc

theorem isToken_cons {c : Char} {w : Text} (hc : isSpace c = false) (hw : IsToken w) : IsToken (c :: w) :=
  List.forall_mem_cons.2 ⟨hc, hw⟩

theorem isToken_natText (n : ℕ) : IsToken (natText n) := by
  intro c hc
  exact isSpace_eq_false_of_isNumChar (by simp [isNumChar, isDigit_of_mem_natText hc])

theorem isToken_twoDigits (n : ℕ) : IsToken (twoDigits n) := by
  unfold twoDigits
  split
  · exact isToken_cons rfl (isToken_natText n)
  · exact isToken_natText n

theorem isToken_month (m : Fin 12) : IsToken (aprMonthSnames m) := by
  have hall : ∀ m, ∀ c ∈ aprMonthSnames m, isSpace c = false := by decide
  exact hall m

/-- the date and the time zone are two fields -/
theorem logRequestTime_fields (xt : AprTimeExp) : ∃ d z, logRequestTime xt = d ++ ' ' :: z ∧ IsToken d ∧ d ≠ [] ∧ IsToken z ∧
    z ≠ [] := by
  refine ⟨'[' :: (twoDigits xt.tm_mday ++ '/' :: (aprMonthSnames xt.tm_mon ++ '/' :: (natText (xt.tm_year + 1900) ++
    ':' :: (twoDigits xt.tm_hour ++ ':' :: (twoDigits xt.tm_min ++ ':' :: twoDigits xt.tm_sec))))),
    (if xt.tm_gmtoff < 0 then '-' else '+') :: (twoDigits (xt.tm_gmtoff.natAbs / (60 * 60)) ++
      (twoDigits (xt.tm_gmtoff.natAbs % (60 * 60) / 60) ++ [']'])), ?_, ?_, List.cons_ne_nil _ _, ?_, List.cons_ne_nil _ _⟩
  · simp [logRequestTime]
  · refine isToken_cons rfl (isToken_append (isToken_twoDigits _) (isToken_cons rfl ?_))
    refine isToken_append (isToken_month _) (isToken_cons rfl (isToken_append (isToken_natText _) (isToken_cons rfl ?_)))
    refine isToken_append (isToken_twoDigits _) (isToken_cons rfl ?_)
    exact isToken_append (isToken_twoDigits _) (isToken_cons rfl (isToken_twoDigits _))
  · refine isToken_cons (by split <;> rfl) (isToken_append (isToken_twoDigits _) ?_)
    exact isToken_append (isToken_twoDigits _) (isToken_cons rfl (fun c hc => by cases hc))

theorem isToken_timeField {key : Text} (hkey : IsToken key) (t : ℤ) : IsToken (timeField key t) :=
  isToken_append hkey fun _ hc => isSpace_of_mem_longText hc

/-- the times begin with the start and the end -/
theorem durations_fields (r : RequestRec) (current_time : ℤ) : ∃ key rest, IsToken key ∧ 'I' ∉ key ∧
    logRequestDurationMicroseconds r current_time = timeField "ST(us)=".toList r.request_time ++
      ' ' :: (timeField key current_time ++ ' ' :: rest) := by
  unfold logRequestDurationMicroseconds
  split
  · have hkey : ∀ c ∈ "ET(us)=".toList, isSpace c = false := by decide
    exact ⟨_, _, hkey, by decide, rfl⟩
  · have hkey : ∀ c ∈ "ET(us=)".toList, isSpace c = false := by decide
    exact ⟨_, _, hkey, by decide, rfl⟩

theorem words_cons_token {w : Text} (hw : IsToken w) (hne : w ≠ []) (s : Text) : words (w ++ ' ' :: s) = w :: words s := by
  rw [words_append_cons rfl, words_token hw, if_neg hne]
  rfl

/-- the seventh field is the end time -/
theorem tokens_common {r : RequestRec} (hip : r.useragent_ip ≠ []) (current_time : ℤ) (the_request : Text) :
    ∃ key, 'I' ∉ key ∧ (tokens (commonLine r current_time the_request))[6]? = some (timeField key current_time) := by
  obtain ⟨d, z, htime, hd, hdne, hz, hzne⟩ := logRequestTime_fields r.exploded
  obtain ⟨key, rest, hkey, hI, hduration⟩ := durations_fields r current_time
  refine ⟨key, hI, ?_⟩
  have hvisible : ∀ c ∈ r.useragent_ip, 32 < c.toNat ∧ isSpace c = false := by
    have hall : ∀ c ∈ "0123456789abcdef.:".toList, 32 < c.toNat ∧ isSpace c = false := by decide
    exact fun c hc => hall c (of_decide_eq_true (r.ip_chars c hc))
  have hstart : ∀ c ∈ "ST(us)=".toList, isSpace c = false := by decide
  have heq : commonLine r current_time the_request = r.useragent_ip ++ ' ' :: (['-'] ++ ' ' :: (['-'] ++ ' ' :: (d ++ ' ' ::
      (z ++ ' ' :: (timeField "ST(us)=".toList r.request_time ++ ' ' :: (timeField key current_time ++ ' ' :: (rest ++ '"' ::
        (apEscapeLogitem the_request ++ '"' :: ' ' :: (logStatus r.status ++ ' ' :: clfLogBytesSent r.bytes_sent))))))))) := by
    simp only [commonLine, lineHead, htime, hduration, List.append_assoc, List.cons_append, List.nil_append]
  have hdash : IsToken ['-'] := isToken_cons rfl fun c hc => by cases hc
  have hwords : words (commonLine r current_time the_request) = r.useragent_ip :: ['-'] :: ['-'] :: d :: z ::
      timeField "ST(us)=".toList r.request_time :: timeField key current_time :: words (rest ++ '"' ::
        (apEscapeLogitem the_request ++ '"' :: ' ' :: (logStatus r.status ++ ' ' :: clfLogBytesSent r.bytes_sent))) := by
    rw [heq, words_cons_token (fun c hc => (hvisible c hc).2) hip, words_cons_token hdash (List.cons_ne_nil _ _),
      words_cons_token hdash (List.cons_ne_nil _ _), words_cons_token hd hdne, words_cons_token hz hzne,
      words_cons_token (isToken_timeField hstart _) (ne_nil_append (longText_ne_nil _)),
      words_cons_token (isToken_timeField hkey _) (ne_nil_append (longText_ne_nil _))]
  have hlast : ∀ c ∈ (clfLogBytesSent r.bytes_sent).getLast?, 32 < c.toNat := by
    intro c hc
    have hmem := List.mem_of_getLast? hc
    unfold clfLogBytesSent at hmem
    split at hmem
    · rw [List.mem_singleton.1 hmem]
      decide
    · exact (plain_natText _).visible c hmem
  have hbytes : clfLogBytesSent r.bytes_sent ≠ [] := by
    unfold clfLogBytesSent
    split
    · exact List.cons_ne_nil _ _
    · exact natText_ne_nil _
  have htokens : tokens (commonLine r current_time the_request) = words (commonLine r current_time the_request) := by
    refine tokens_eq_words ?_ ?_ ?_
    · rw [heq]
      exact List.append_ne_nil_of_left_ne_nil hip _
    · intro c hc
      rw [heq, List.head?_append_of_ne_nil _ hip] at hc
      exact (hvisible c (List.mem_of_head? hc)).1
    · intro c hc
      obtain ⟨front, hfront⟩ : ∃ front, commonLine r current_time the_request = front ++ clfLogBytesSent r.bytes_sent :=
        ⟨lineHead r current_time ++ '"' :: (apEscapeLogitem the_request ++ '"' :: ' ' :: (logStatus r.status ++ [' '])), by
          simp [commonLine]⟩
      rw [hfront, List.getLast?_append_of_ne_nil _ hbytes] at hc
      exact hlast c hc
  rw [htokens, hwords]
  rfl

/-- **No row of the format has an id** where it is looked for. -/
theorem idAt_common {r : RequestRec} (hip : r.useragent_ip ≠ []) (current_time : ℤ) (the_request : Text) :
    ∃ e, idAt 6 (commonLine r current_time the_request) = .error e := by
  obtain ⟨key, hkey, hfield⟩ := tokens_common hip current_time the_request
  have hmark : ¬ urlIDMark <:+: timeField key current_time :=
    not_infix_of_mem (show 'I' ∈ urlIDMark by decide) (notMem_timeField hkey (by decide) current_time)
  cases hid : idAt 6 (commonLine r current_time the_request) with
  | error e => exact ⟨e, rfl⟩
  | ok id =>
    obtain ⟨w, hw, hsplit⟩ := idAt_ok_iff.1 hid
    rw [hfield] at hw
    obtain rfl := Option.some.inj hw
    rw [split, find_eq_none.2 hmark, Option.isNone_none, if_pos rfl] at hsplit
    cases hsplit

end

/-! ## Two Tomcats -/

/-- the log of a Tomcat that has served one request -/
def oneLog (k : ℕ) (id : Text) (hk : 0 < k) (hid : IsWord id ∧ id ≠ []) : TomcatLog where
  number := k
  between := ['_']
  after := ".log".toList
  rows := [.record (oneRequest "/ViewStory".toList id ⟨1000, by decide⟩)]
  pos := hk
  number_ends := by simp
  written := by
    have hthread : IsWord ['t'] := ⟨by decide, by decide⟩
    have huri : IsWord "/ViewStory".toList := ⟨by decide, by decide⟩
    intro r hr
    rw [List.mem_singleton.1 hr]
    exact ⟨hthread, huri, hid.1, hid.2⟩

theorem isWord_7 : IsWord ['7'] ∧ ['7'] ≠ [] := ⟨⟨by decide, by decide⟩, by decide⟩

theorem isWord_8 : IsWord ['8'] ∧ ['8'] ≠ [] := ⟨⟨by decide, by decide⟩, by decide⟩

/-- a row in the original format -/
def apacheLine (id : Text) : Text :=
  "1.1.1.1 - - [01/Jan/2003:10:00:00 +0000] \"GET /ViewStory?storyId=5&urlID=".toList ++ (id ++ " HTTP/1.1\" 200 5".toList)

/-- the logs of two Tomcats, and one of Apache -/
def twoTomcats (text : Text) : List Source :=
  [.tomcat (oneLog 1 ['7'] (by decide) isWord_7), .apache ['_'] text (by decide),
    .tomcat (oneLog 2 ['8'] (by decide) isWord_8)]

theorem numbered_twoTomcats (text : Text) : Numbered 2 (twoTomcats text) where
  number_le := by
    intro f hf log hlog
    simp only [twoTomcats, List.mem_cons, List.not_mem_nil, or_false] at hf
    rcases hf with rfl | rfl | rfl
    · rw [List.mem_singleton.1 hlog]
      decide
    · cases hlog
    · rw [List.mem_singleton.1 hlog]
      decide
  disjoint := by
    intro k k' hne id hid hid'
    obtain ⟨log, hlog, hk, hid⟩ := mem_idsOf.1 hid
    obtain ⟨log', hlog', hk', hid'⟩ := mem_idsOf.1 hid'
    have hlogs : (twoTomcats text).flatMap Source.logs =
        [oneLog 1 ['7'] (by decide) isWord_7, oneLog 2 ['8'] (by decide) isWord_8] := rfl
    rw [hlogs, List.mem_pair] at hlog hlog'
    have hk := of_decide_eq_true hk
    have hk' := of_decide_eq_true hk'
    rcases hlog with rfl | rfl <;> rcases hlog' with rfl | rfl
    · exact hne (hk.symm.trans hk')
    · have h7 := List.mem_singleton.1 hid
      have h8 := List.mem_singleton.1 hid'
      simp_all [oneRequest]
    · have h7 := List.mem_singleton.1 hid
      have h8 := List.mem_singleton.1 hid'
      simp_all [oneRequest]
    · exact hne (hk.symm.trans hk')

/-- a row for each Tomcat -/
theorem two_rows_separated : Separated Urlencoded.utf8 2 (twoTomcats (apacheLine ['8'] ++ '\n' :: apacheLine ['7'])) := by
  have h := numbered_twoTomcats (apacheLine ['8'] ++ '\n' :: apacheLine ['7'])
  refine (separated_iff Urlencoded.utf8 h).2 ?_
  have hrows : apacheRows (twoTomcats (apacheLine ['8'] ++ '\n' :: apacheLine ['7'])) = [apacheLine ['8'], apacheLine ['7']] := by
    decide +kernel
  rw [hrows]
  intro row hrow
  refine ⟨by revert row; decide +kernel, ?_⟩
  intro k
  by_cases hk : k = 0 ∨ 2 < k
  · have hfalse := h.eq_false Urlencoded.utf8 hk row
    rw [hfalse.1, hfalse.2]
  · obtain rfl | rfl : k = 1 ∨ k = 2 := by omega
    · revert row
      decide +kernel
    · revert row
      decide +kernel

/-- **A short row stops the program.** An empty row behind a row of each Tomcat, and nothing is written. -/
theorem short_row_stops : Numbered 2 (twoTomcats (apacheLine ['8'] ++ '\n' :: (apacheLine ['7'] ++ ['\n', '\n']))) ∧
    ¬ Separated Urlencoded.utf8 2 (twoTomcats (apacheLine ['8'] ++ '\n' :: (apacheLine ['7'] ++ ['\n', '\n']))) := by
  refine ⟨numbered_twoTomcats _, ?_⟩
  rintro ⟨console, hparse⟩
  obtain ⟨e, he⟩ := parse_short (numbered_twoTomcats (apacheLine ['8'] ++ '\n' :: (apacheLine ['7'] ++ ['\n', '\n'])))
    ⟨[], by decide +kernel, by decide⟩
  rw [hparse] at he
  cases he

end Rubbos.Parsers.SeperateTomcatQueueParser
