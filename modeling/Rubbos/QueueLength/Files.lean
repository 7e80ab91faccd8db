/-
The `QueueLength` files that the parsers write, as input of `BO.py`.

Each parser writes a line for every record, `"%.3f,%.3f,%s,%.3f\\n"`, to the file of the node that the requests went to:
`Clientparser` for Apache, `Apacheparser` for Tomcat, `TomcatParser` for CJDBC, `CJDBCparser` for Mysql. Files are
opened for appending, or one run goes over several logs, so that a file may come from more than one log. Numbers are exact
up to the three decimals that are printed.

The models of `BO.py` are fixed lists, and the categories come from the logs: the last part of a path, whatever it is, or
the SQL verb, with OTHERS for every statement that is not one of four.

- `log_processed_iff`: which logs give a file that `BO.py` processes with the right totals.
- `records_processed`: those whose records have categories of the list.

Witness: `showLog`, a statement that is none of the four.
-/
import Rubbos.Parsers.Apacheparser
import Rubbos.Parsers.CJDBCparser
import Rubbos.Parsers.Clientparser
import Rubbos.Parsers.TomcatparserRows
import Rubbos.QueueLength.Totals

namespace Rubbos.QueueLength

open Rubbos.Core CLib Python Parsers BO

/-! ## Lines -/

/-- to the nearest integer, to the even one between two: `printf` -/
def halfEven (x : ℚ) : ℤ := if x - ⌊x⌋ = 1 / 2 then (if ⌊x⌋ % 2 = 0 then ⌊x⌋ else ⌊x⌋ + 1) else round x

/-- `%.3f` -/
def fixed3 (nearest : ℚ → ℤ) (x : ℚ) : Text :=
  let n := (nearest (|x| * 1000)).toNat
  (if x < 0 then ['-'] else []) ++ natText (n / 1000) ++
    '.' :: natText (n / 100 % 10) ++ natText (n / 10 % 10) ++ natText (n % 10)

def queueLine (nearest : ℚ → ℤ) (p : Printed) : Text :=
  fixed3 nearest p.stimestamp ++ ',' :: fixed3 nearest p.etimestamp ++ ',' :: p.category ++
    ',' :: fixed3 nearest p.rt ++ ['\n']

/-- `%s` of a request of the client -/
def clientPrinted (r : Record) : Printed where
  id := r.id
  stimestamp := atof r.timestamp / 1000
  etimestamp := (atof r.timestamp + atof r.interval / 1000000) / 1000
  category := r.category
  rt := atof r.interval / 1000000

def apachePrinted (r : Apacheparser.Record) : Printed where
  id := r.id
  stimestamp := atof r.tcst / 1000000
  etimestamp := atof r.tcet / 1000000
  category := r.category
  rt := atof r.tcrt / 1000

/-! ## Files -/

/-- the logs that a file is written from -/
inductive Log where
  | client (traces : List Text)
  | apache (logs : List Text)
  | tomcat (logs : List (Text × Text))
  | cjdbc (logs : List Text)

/-- the node that the requests in the file went to -/
def Log.node : Log → Text
  | .client _ => "Apache".toList
  | .apache _ => "Tomcat".toList
  | .tomcat _ => "CJDBC".toList
  | .cjdbc _ => "Mysql".toList

/-- what the parsers print, if they are defined on the logs and raise nothing -/
def Log.records : Log → Option (List Printed)
  | .client traces => do
    let records ← traces.mapM Clientparser.parseFile
    return records.flatten.map clientPrinted
  | .apache logs => do
    let records ← logs.mapM fun log => Apacheparser.parser.parse (readLines max_line_length log.length log)
    return records.flatten.map apachePrinted
  | .tomcat logs => do
    let records ← logs.mapM fun log => (TomcatParser.parse log.1 log.2).toOption
    return records.flatten
  | .cjdbc logs => do
    let records ← logs.mapM fun log => CJDBCparser.parser.parse (readLines max_line_length log.length log)
    return records.flatten.map TomcatLogs.printed

/-- how the third decimal is rounded: by `printf`, and by Java's `String.format` -/
def Log.nearest : Log → ℚ → ℤ
  | .tomcat _ => round
  | _ => halfEven

/-- the text of the file -/
def Log.queueFile (log : Log) : Option Text := log.records.map fun records => records.flatMap (queueLine log.nearest)

/-- `BO.py` for the node of the file -/
def Log.options (log : Log) (startTime endTime : ℤ) (workloadType : Text) : Options :=
  ⟨startTime, endTime, workloadType, log.node⟩

/-- the lines of the file, none if there is none -/
def Log.fileLines (log : Log) : List Text := (log.queueFile.map Python.fileLines).getD []

/-- **Logs and totals.** For every window and workload: `BO.py` processes every line of the file and "total" is the sum of
the other models, exactly if every line can be read and the rows that touch the window have models of the list other than
"total". -/
theorem log_processed_iff (log : Log) (startTime endTime : ℤ) (workloadType : Text) (float : ReadFloat) :
    (∀ file, log.queueFile = some file → Processed (log.options startTime endTime workloadType) float (fileLines file)) ↔
      ∀ line ∈ log.fileLines, Readable (log.options startTime endTime workloadType) float line := by
  unfold Log.fileLines
  cases hfile : log.queueFile with
  | none => simp
  | some file =>
    simp only [Option.some.injEq, forall_eq', Option.map_some, Option.getD_some]
    exact processed_iff

/-! ## Records -/

theorem strip_plain {t : Text} (ws : Text) (ht : ∀ c ∈ t, isWhitespace c = false) (hws : ∀ c ∈ ws, isWhitespace c) : strip (t ++ ws) = t := by
  have hnone : ∀ l : Text, (∀ c ∈ l, isWhitespace c = false) → l.dropWhile isWhitespace = l := by
    intro l hl
    cases l with
    | nil => rfl
    | cons c l => exact List.dropWhile_cons_of_neg (by simp [hl c List.mem_cons_self])
  have hall : ∀ l : Text, (∀ c ∈ l, isWhitespace c) → ∀ r : Text, (l ++ r).dropWhile isWhitespace = r.dropWhile isWhitespace :=
    fun l hl r => List.dropWhile_append_of_pos hl
  have hfront : (t ++ ws).dropWhile isWhitespace = t ++ ws ∨ t = [] := by
    cases t with
    | nil => exact .inr rfl
    | cons c t => exact .inl (List.dropWhile_cons_of_neg (by simp [ht c List.mem_cons_self]))
  unfold strip
  rcases hfront with hfront | rfl
  · rw [hfront, List.reverse_append, hall _ (fun c hc => hws c (List.mem_reverse.1 hc)),
      hnone _ fun c hc => ht c (List.mem_reverse.1 hc), List.reverse_reverse]
  · have hempty : ws.dropWhile isWhitespace = [] := List.dropWhile_eq_nil_iff.2 hws
    rw [List.nil_append, hempty]
    rfl

theorem fileLines_line {l : Text} (h : ∀ c ∈ l, c ≠ '\n' ∧ c ≠ '\r') (rest : Text) :
    fileLines (l ++ '\n' :: rest) = (l ++ ['\n']) :: fileLines rest := by
  induction l with
  | nil => simp [fileLines]
  | cons c l ih =>
    obtain ⟨hn, hr⟩ := h c List.mem_cons_self
    rw [List.cons_append, fileLines, ih fun c hc => h c (List.mem_cons_of_mem _ hc)]
    · rfl
    all_goals simp [hn, hr]

/-- what is printed for a number -/
theorem mem_fixed3 {nearest : ℚ → ℤ} {x : ℚ} {c : Char} (h : c ∈ fixed3 nearest x) : c.isDigit ∨ c = '-' ∨ c = '.' := by
  have hdigit {n : ℕ} (hc : c ∈ natText n) := isDigit_of_mem_natText hc
  simp only [fixed3, List.mem_append, List.mem_cons, List.mem_ite_nil_right] at h
  grind

/-- characters that are no separator -/
def Plain (c : Char) : Prop := c ≠ ',' ∧ isWhitespace c = false

instance (c : Char) : Decidable (Plain c) := inferInstanceAs (Decidable (_ ∧ _))

theorem Plain.ne_newline {c : Char} (h : Plain c) : c ≠ '\n' ∧ c ≠ '\r' := by
  constructor
  · rintro rfl
    exact absurd h.2 (by decide)
  · rintro rfl
    exact absurd h.2 (by decide)

theorem fixed3_plain {nearest : ℚ → ℤ} {x : ℚ} {c : Char} (h : c ∈ fixed3 nearest x) : Plain c := by
  rcases mem_fixed3 h with hdigit | rfl | rfl
  · simp only [Char.isDigit, ge_iff_le, Bool.and_eq_true, decide_eq_true_eq] at hdigit
    have hlow : 48 ≤ c.toNat := hdigit.1
    have hhigh : c.toNat ≤ 57 := hdigit.2
    refine ⟨?_, ?_⟩
    · rintro rfl
      exact absurd hlow (by decide)
    · simp only [isWhitespace, List.mem_cons, List.not_mem_nil, or_false, decide_eq_false_iff_not]
      omega
  · decide
  · decide

/-- a number is read back -/
theorem decimalFloat_fixed3 (nearest : ℚ → ℤ) (x : ℚ) (ws : Text) (hws : ∀ c ∈ ws, isWhitespace c) :
    ∃ v, decimalFloat (fixed3 nearest x ++ ws) = .ok (some v) := by
  have hread : ∃ v, readDecimal (fixed3 nearest x) = some (v, []) := by
    generalize hn : (nearest (|x| * 1000)).toNat = n
    have hfrac : ∀ c ∈ natText (n / 100 % 10) ++ natText (n / 10 % 10) ++ natText (n % 10), c.isDigit := by
      intro c hc
      simp only [List.mem_append] at hc
      rcases hc with (hc | hc) | hc
      all_goals exact isDigit_of_mem_natText hc
    have hwhole : ∀ c ∈ natText (n / 1000), c.isDigit := fun c hc => isDigit_of_mem_natText hc
    have hpoint := readMantissa_point (natText_ne_nil (n / 1000)) hwhole hfrac
    by_cases hneg : x < 0
    · have htext : fixed3 nearest x = '-' :: (natText (n / 1000) ++
          '.' :: (natText (n / 100 % 10) ++ natText (n / 10 % 10) ++ natText (n % 10))) := by
        simp [fixed3, hneg, hn]
      have hsign : dropSign ('-' :: (natText (n / 1000) ++
          '.' :: (natText (n / 100 % 10) ++ natText (n / 10 % 10) ++ natText (n % 10)))) =
          natText (n / 1000) ++ '.' :: (natText (n / 100 % 10) ++ natText (n / 10 % 10) ++ natText (n % 10)) := rfl
      rw [htext, readDecimal, hsign, hpoint]
      exact ⟨_, rfl⟩
    · have htext : fixed3 nearest x = natText (n / 1000) ++
          '.' :: (natText (n / 100 % 10) ++ natText (n / 10 % 10) ++ natText (n % 10)) := by
        simp [fixed3, hneg, hn]
      rw [htext]
      exact ⟨_, readDecimal_point (natText_ne_nil _) hwhole hfrac⟩
  obtain ⟨v, hv⟩ := hread
  refine ⟨v, ?_⟩
  rw [decimalFloat, strip_plain ws (fun c hc => (fixed3_plain hc).2) hws, hv]

theorem models_plain (o : Options) : ∀ m ∈ models o, ∀ c ∈ m, Plain c := by
  unfold models
  split_ifs
  all_goals decide

/-- the line of a record is read, unless it looks like a heading -/
theorem readable_queueLine {o : Options} {p : Printed} (nearest : ℚ → ℤ) (h : p.category ∈ models o ∧ p.category ≠ total) :
    Readable o decimalFloat (queueLine nearest p) := by
  have hcategory := models_plain o p.category h.1
  obtain ⟨s, hs⟩ := decimalFloat_fixed3 nearest p.stimestamp [] (by simp)
  obtain ⟨e, he⟩ := decimalFloat_fixed3 nearest p.etimestamp [] (by simp)
  obtain ⟨rt, hrt⟩ := decimalFloat_fixed3 nearest p.rt ['\n'] (by decide)
  have hnocomma (x : ℚ) : ',' ∉ fixed3 nearest x := fun hc => (fixed3_plain hc).1 rfl
  have hlast : ',' ∉ fixed3 nearest p.rt ++ ['\n'] := by
    rw [List.mem_append, not_or]
    exact ⟨hnocomma _, by decide⟩
  have hsplit : split [','] (queueLine nearest p) =
      [fixed3 nearest p.stimestamp, fixed3 nearest p.etimestamp, p.category, fixed3 nearest p.rt ++ ['\n']] := by
    have hline : queueLine nearest p = fixed3 nearest p.stimestamp ++ ',' :: (fixed3 nearest p.etimestamp ++
        ',' :: (p.category ++ ',' :: (fixed3 nearest p.rt ++ ['\n']))) := by simp [queueLine]
    rw [split_char, hline, List.splitOn_append_cons_self_of_not_mem (hnocomma _),
      List.splitOn_append_cons_self_of_not_mem (hnocomma _),
      List.splitOn_append_cons_self_of_not_mem fun hc => (hcategory _ hc).1 rfl, List.splitOn_eq_singleton hlast]
  have hstrip : strip p.category = p.category := by
    have := strip_plain [] (fun c hc => (hcategory c hc).2) (by simp)
    rwa [List.append_nil] at this
  rw [List.append_nil] at hs he
  unfold Readable parseLine
  by_cases hheading : "startingTime".toList <:+: queueLine nearest p
  · rw [if_pos hheading]
    exact ⟨none, rfl, by simp⟩
  · rw [if_neg hheading]
    refine ⟨some ⟨s, e, p.category⟩, ?_, ?_⟩
    · simp [hsplit, part, timePart, hs, he, hrt, hstrip, Except.mapError, bind, Except.bind, pure, Except.pure]
    · rintro r hr -
      cases hr
      exact h

theorem fileLines_queue {o : Options} (nearest : ℚ → ℤ) {records : List Printed}
    (h : ∀ p ∈ records, p.category ∈ models o) : fileLines (records.flatMap (queueLine nearest)) = records.map (queueLine nearest) := by
  induction records with
  | nil => rfl
  | cons p records ih =>
    have hcategory := models_plain o p.category (h p List.mem_cons_self)
    obtain ⟨line, hline, hplain⟩ : ∃ line, queueLine nearest p = line ++ ['\n'] ∧ ∀ c ∈ line, c ≠ '\n' ∧ c ≠ '\r' := by
      refine ⟨fixed3 nearest p.stimestamp ++ ',' :: fixed3 nearest p.etimestamp ++ ',' :: p.category ++
        ',' :: fixed3 nearest p.rt, by simp [queueLine], fun c hc => ?_⟩
      simp only [List.append_assoc, List.cons_append, List.mem_append, List.mem_cons] at hc
      rcases hc with hc | rfl | hc | rfl | hc | rfl | hc
      · exact (fixed3_plain hc).ne_newline
      · decide
      · exact (fixed3_plain hc).ne_newline
      · decide
      · exact (hcategory c hc).ne_newline
      · decide
      · exact (fixed3_plain hc).ne_newline
    rw [List.flatMap_cons, hline, List.append_assoc, List.singleton_append, fileLines_line hplain,
      ih fun q hq => h q (List.mem_cons_of_mem _ hq), List.map_cons, hline]

/-- **A log is fine** if the category of every record is in the list for its node and workload, and is not "total". -/
theorem records_processed {log : Log} {records : List Printed} (hrecords : log.records = some records) (startTime endTime : ℤ)
    (workloadType : Text)
    (h : ∀ p ∈ records, p.category ∈ models (log.options startTime endTime workloadType) ∧ p.category ≠ total) :
    Processed (log.options startTime endTime workloadType) decimalFloat log.fileLines := by
  have hlines : log.fileLines = records.map (queueLine log.nearest) := by
    rw [Log.fileLines, Log.queueFile, hrecords]
    exact fileLines_queue log.nearest fun p hp => (h p hp).1
  rw [hlines]
  exact processed_of_readable (List.forall_mem_map.2 fun p hp => readable_queueLine log.nearest (h p hp))

/-! ## A failing log -/

/-- a statement that is neither SELECT nor INSERT, UPDATE or DELETE -/
def showLog : Text :=
  "/* urlID=7 */ SHOW TABLES STimeStamp(ms)=1417392005000 ST(nano)=1000000 DBST(nano)=2000000 DBET(nano)=4000000\n".toList

def showFile : Text := "1417392005.001,1417392005.003,OTHERS,2.000\n".toList

/-- its row has no entry in the tables, with and without RO in the workload -/
theorem others_keyError :
    (Log.cjdbc [showLog]).queueFile = some showFile ∧
    (∀ workloadType ∈ ["RO".toList, "RW".toList],
      (mainLoop .exact ((Log.cjdbc [showLog]).options 1417392000 1417392000 workloadType) decimalFloat
        (fileLines showFile)).map (fun _ => ()) = .error .keyError) ∧
    ∀ workloadType ∈ ["RO".toList, "RW".toList],
      ¬ Processed ((Log.cjdbc [showLog]).options 1417392000 1417392000 workloadType) decimalFloat (fileLines showFile) := by
  have hrun : ∀ workloadType ∈ ["RO".toList, "RW".toList],
      (mainLoop .exact ((Log.cjdbc [showLog]).options 1417392000 1417392000 workloadType) decimalFloat
        (fileLines showFile)).map (fun _ => ()) = .error .keyError := by decide +kernel
  refine ⟨by decide +kernel, hrun, ?_⟩
  rintro workloadType hw ⟨st, hst, -⟩
  have herror := hrun workloadType hw
  rw [hst] at herror
  cases herror

end Rubbos.QueueLength
