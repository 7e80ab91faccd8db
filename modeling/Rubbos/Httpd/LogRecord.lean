/-
The records of the access log (`config_log_transaction` of mod_log_config.c, with the format "common" of httpd.conf).

What a client sends stands in the record as `ap_escape_logitem` writes it, in quotes. `requestOf` reads it back from a line.

The requests are not redirected (the first request of a chain is the last), there is no ident lookup and no user has logged in.
Writes are complete, as in `LogWriter`, and the lines are shorter than the buffer of the reader.

- `strsOf_line`: a format without newlines, whose handlers write none, makes one line for each request.
- `common_line`: the items of "common" make the line that `Apacheparser` reads.
- `access_log_requests`: the requests that are read back from the file are those that the children have served, whatever bytes
  they had; no request can write a line of its own.
Witness `one_request`: a request with a quote and a newline.
-/
import Rubbos.Httpd.LogFormat
import Rubbos.Httpd.LogWriter
import Rubbos.Parsers.AccessLog

namespace Rubbos.Httpd.LogRecord

open Rubbos.Core CLib LogFormat LogWriter Rubbos.Parsers.Apacheparser

/-! ## Records -/

section

variable {R : Type}

/-- `process_item`; handle is the function of a tag, and may give NULL -/
def processItem (handle : Text → R → Text → Option Text) (status : R → ℤ) (r orig : R) (item : LogFormatItem) : Text :=
  let in_list := item.conditions.any fun n : ℕ => status r = n
  if item.conditions ≠ [] ∧ (item.conditionSense ∧ in_list ∨ ¬ item.conditionSense ∧ ¬ in_list) then ['-']
  else
    match item.func with
    | .constantItem => item.arg
    | .handler tag => (handle tag (if item.wantOrig then orig else r) item.arg).getD ['-']

/-- the strs of `config_log_transaction`; orig is the first request of a chain of redirects and r the last -/
def strsOf (handle : Text → R → Text → Option Text) (status : R → ℤ) (items : List LogFormatItem) (r orig : R) : List Text :=
  items.map (processItem handle status r orig)

variable {handle : Text → R → Text → Option Text} {status : R → ℤ} {hash : LogHash} {s : Text} {items : List LogFormatItem}

theorem newline_notMem_processItem {r orig : R} {item : LogFormatItem} (hconst : item.func = .constantItem → '\n' ∉ item.arg)
    (hhandle : ∀ tag r arg t, handle tag r arg = some t → '\n' ∉ t) : '\n' ∉ processItem handle status r orig item := by
  unfold processItem
  simp only
  split
  · decide
  · split
    · rename_i hfunc
      exact hconst hfunc
    · rename_i tag _
      generalize hvalue : handle tag (if item.wantOrig then orig else r) item.arg = value
      cases value with
      | none => simp
      | some t => exact hhandle _ _ _ _ hvalue

/-- **One line for each request**, if neither the texts of the format nor the handlers have newlines. -/
theorem strsOf_line (h : parseLogString hash s = .ok items)
    (hconst : ∀ item ∈ items.dropLast, item.func = .constantItem → '\n' ∉ item.arg)
    (hhandle : ∀ tag r arg t, handle tag r arg = some t → '\n' ∉ t) (r orig : R) :
    ∃ line, (strsOf handle status items r orig).flatten = line ++ ['\n'] ∧ '\n' ∉ line := by
  obtain ⟨body, -, rfl, -⟩ := formed_of_parse h
  refine ⟨(strsOf handle status body r orig).flatten, by simp [strsOf, processItem, constant], fun hmem => ?_⟩
  obtain ⟨t, ht, hin⟩ := List.mem_flatten.1 hmem
  obtain ⟨item, hitem, rfl⟩ := List.mem_map.1 ht
  rw [List.dropLast_concat] at hconst
  exact newline_notMem_processItem (hconst item hitem) hhandle hin

end

/-! ## The format "common" -/

/-- the table of `log_pre_config`, with want_orig_default -/
def logEntries : List (Text × Bool) :=
  (["h", "a", "A", "l", "u", "t", "f", "b", "B", "i", "o", "n", "e", "V", "v", "p", "P", "H", "m", "q", "X", "C", "k",
    "^ti", "^to"].map fun tag => (tag.toList, false)) ++
  (["L", "r", "D", "T", "U", "s", "R"].map fun tag => (tag.toList, true))

theorem isTag_logEntries : ∀ e ∈ logEntries, isTag e.1 := by decide

def logHash : LogHash := ⟨logEntries, isTag_logEntries⟩

/-- LogFormat "..." common -/
def commonFormat : Text := "%h %l %u %t %D\"%r\" %>s %b".toList

def directive (tag : Char) (wantOrig : Bool) : LogFormatItem := ⟨.handler [tag], [], false, wantOrig, []⟩

def commonItems : List LogFormatItem :=
  [directive 'h' false, constant [' '], directive 'l' false, constant [' '], directive 'u' false, constant [' '],
    directive 't' false, constant [' '], directive 'D' true, constant ['"'], directive 'r' true, constant ['"', ' '],
    directive 's' false, constant [' '], directive 'b' false, constant ['\n']]

/-- a request with its first line, at the time at which it is logged -/
structure Served where
  r : RequestRec
  current_time : ℤ
  the_request : Text

/-- the handlers that "common" names, all without an arg; there is no ident lookup and no user -/
def commonHandler (tag : Text) (x : Served) (_arg : Text) : Option Text :=
  if tag = ['h'] then some x.r.useragent_ip
  else if tag = ['l'] then none
  else if tag = ['u'] then some ['-']
  else if tag = ['t'] then some (logRequestTime x.r.exploded)
  else if tag = ['D'] then some (logRequestDurationMicroseconds x.r x.current_time)
  else if tag = ['r'] then some (apEscapeLogitem x.the_request)
  else if tag = ['s'] then some (logStatus x.r.status)
  else if tag = ['b'] then some (clfLogBytesSent x.r.bytes_sent)
  else none

theorem parseLogString_cons {s rest : Text} {item : LogFormatItem} (hs : s ≠ []) (h : parseLogItem logHash s = .ok (item, rest)) :
    parseLogString logHash s = (parseLogString logHash rest).map (item :: ·) := by
  rw [parseLogString, dif_neg hs]
  split
  · rename_i h'
    cases h'.symm.trans h
  · rename_i h'
    cases h'.symm.trans h
    rfl

/-- a directive of one tag, and the text up to the next one -/
theorem parse_field {c : Char} {d : Bool} (h : logHash.get [c] = some d) (hc : c ≠ '%') {t : Text} (hnil : t ≠ []) (ht : '%' ∉ t)
    (hplain : escapeText t = t) (rest : Text) : parseLogString logHash ('%' :: c :: (t ++ '%' :: rest)) =
      (parseLogString logHash ('%' :: rest)).map fun items => directive c d :: constant t :: items := by
  have hdirective : parseLogItem logHash ('%' :: c :: (t ++ '%' :: rest)) = .ok (directive c d, t ++ '%' :: rest) := by
    rw [parseLogItem_percent (by simpa using hc), ← List.singleton_append, parseArgs_tag h]
    rfl
  have htext : parseLogItem logHash (t ++ '%' :: rest) = .ok (constant t, '%' :: rest) := by
    have hends : EndsText ('%' :: rest) := fun c hc => by simpa [eq_comm] using hc
    have hitem : parseLogItem logHash (escapeText t ++ '%' :: rest) = .ok (constant t, '%' :: rest) :=
      parseLogItem_literal hnil ht hends
    rwa [hplain] at hitem
  rw [parseLogString_cons (by simp) hdirective, parseLogString_cons (by simp [hnil]) htext]
  cases parseLogString logHash ('%' :: rest) <;> rfl

theorem parse_common : parseLogString logHash commonFormat = .ok commonItems := by
  have hbytes : parseLogString logHash ['%', 'b'] = .ok [directive 'b' false, constant ['\n']] := by
    have hitem : parseLogItem logHash ['%', 'b'] = .ok (directive 'b' false, []) := by
      have hargs : parseArgs logHash ⟨false, none, [], []⟩ (['b'] ++ []) = .ok (directive 'b' false, []) :=
        parseArgs_tag (show logHash.get ['b'] = some false by decide)
      rw [parseLogItem_percent (by simp)]
      exact hargs
    rw [parseLogString_cons (by simp) hitem, parseLogString, dif_pos rfl]
    rfl
  have hstatus : parseLogString logHash ['%', '>', 's', ' ', '%', 'b'] =
      .ok [directive 's' false, constant [' '], directive 'b' false, constant ['\n']] := by
    have hdirective : parseLogItem logHash (unparseItem (directive 's' false) ++ [' ', '%', 'b']) =
        .ok (directive 's' false, [' ', '%', 'b']) :=
      parseLogItem_directive (show logHash.get ['s'] = some true by decide) rfl (by simp [directive]) (by simp [directive])
    have hliteral : parseLogItem logHash (escapeText [' '] ++ ['%', 'b']) = .ok (constant [' '], ['%', 'b']) :=
      parseLogItem_literal (by simp) (by decide) fun c hc => by simpa [eq_comm] using hc
    have hitem : parseLogItem logHash ['%', '>', 's', ' ', '%', 'b'] = .ok (directive 's' false, [' ', '%', 'b']) := hdirective
    have hblank : parseLogItem logHash [' ', '%', 'b'] = .ok (constant [' '], ['%', 'b']) := hliteral
    rw [parseLogString_cons (by simp) hitem, parseLogString_cons (by simp) hblank, hbytes]
    rfl
  have hfields : commonFormat = '%' :: 'h' :: ([' '] ++ '%' :: 'l' :: ([' '] ++ '%' :: 'u' :: ([' '] ++ '%' :: 't' ::
      ([' '] ++ '%' :: 'D' :: (['"'] ++ '%' :: 'r' :: (['"', ' '] ++ '%' :: ['>', 's', ' ', '%', 'b'])))))) := rfl
  rw [hfields, parse_field (d := false), parse_field (d := false), parse_field (d := false), parse_field (d := false),
    parse_field (d := true), parse_field (d := true), hstatus]
  · rfl
  all_goals decide

/-- the strs of a request that was not redirected -/
def commonStrs (x : Served) : List Text := strsOf commonHandler (fun x => x.r.status) commonItems x x

theorem common_line (x : Served) : (commonStrs x).flatten = commonLine x.r x.current_time x.the_request ++ ['\n'] := by
  simp [commonStrs, strsOf, commonItems, processItem, directive, constant, commonHandler, commonLine, lineHead]

/-! ## Reading the request back -/

/-- the value of a digit of c2x -/
def hexVal (c : Char) : ℕ := if c.isDigit then c.toNat - 48 else c.toNat - 87

/-- what stands behind a backslash in a record -/
def unescapeLogchar (c : Char) : Char :=
  match c with
  | 'b' => '\x08'
  | 'n' => '\n'
  | 'r' => '\r'
  | 't' => '\t'
  | 'v' => '\x0b'
  | c => c

/-- the text up to the next quote that is not escaped -/
def readQuoted : Text → Option Text
  | [] => none
  | '"' :: _ => some []
  | '\\' :: 'x' :: a :: b :: s => (readQuoted s).map (Char.ofNat (16 * hexVal a + hexVal b) :: ·)
  | '\\' :: c :: s => (readQuoted s).map (unescapeLogchar c :: ·)
  | c :: s => (readQuoted s).map (c :: ·)

/-- the request of a line: what stands behind its first quote -/
def requestOf (line : Text) : Option Text := readQuoted (line.dropWhile (· ≠ '"')).tail

/-- the characters of C are bytes -/
def IsByte (c : Char) : Prop := c.toNat < 256

instance (c : Char) : Decidable (IsByte c) := inferInstanceAs (Decidable (c.toNat < 256))

theorem hexVal_digitChar {n : ℕ} (h : n < 16) : hexVal (Nat.digitChar n) = n := by
  decide +revert

theorem digitChar_ne_newline {n : ℕ} (h : n < 16) : '\n' ≠ Nat.digitChar n := by
  decide +revert

theorem readQuoted_escape {c : Char} (hc : IsByte c) (s : Text) :
    readQuoted (escapeLogchar c ++ s) = (readQuoted s).map (c :: ·) := by
  have hbyte : c.toNat < 256 := hc
  have hval : 16 * (c.toNat / 16) + c.toNat % 16 = c.toNat := by omega
  unfold escapeLogchar
  split_ifs with hesc
  · split
    all_goals try rfl
    have hmod : c.toNat % 256 / 16 = c.toNat / 16 := by omega
    simp only [List.cons_append, List.nil_append, readQuoted, hmod, hexVal_digitChar (show c.toNat / 16 < 16 by omega),
      hexVal_digitChar (show c.toNat % 16 < 16 by omega), hval, Char.ofNat_toNat]
  · have hquote : c ≠ '"' := by rintro rfl; exact hesc (by decide)
    have hback : c ≠ '\\' := by rintro rfl; exact hesc (by decide)
    rw [List.singleton_append, readQuoted] <;> simp [hquote, hback]

theorem readQuoted_apEscapeLogitem {t : Text} (ht : ∀ c ∈ t, IsByte c) (rest : Text) :
    readQuoted (apEscapeLogitem t ++ '"' :: rest) = some t := by
  induction t with
  | nil => simp [apEscapeLogitem, readQuoted]
  | cons c t ih =>
    have hsplit : apEscapeLogitem (c :: t) ++ '"' :: rest = escapeLogchar c ++ (apEscapeLogitem t ++ '"' :: rest) := by
      simp [apEscapeLogitem]
    rw [hsplit, readQuoted_escape (ht c List.mem_cons_self), ih fun c hc => ht c (List.mem_cons_of_mem _ hc)]
    rfl

theorem requestOf_commonLine (x : Served) (hx : ∀ c ∈ x.the_request, IsByte c) :
    requestOf (commonLine x.r x.current_time x.the_request ++ ['\n']) = some x.the_request := by
  have hhead : ∀ c ∈ lineHead x.r x.current_time, decide (c ≠ '"') = true := by
    intro c hc
    simp only [ne_eq, decide_not, Bool.not_eq_true', decide_eq_false_iff_not]
    rintro rfl
    exact notMem_lineHead (by decide) x.r x.current_time hc
  unfold requestOf commonLine
  rw [List.append_assoc, List.dropWhile_append_of_pos hhead, List.cons_append, List.dropWhile_cons_of_neg (by simp), List.tail_cons,
    List.append_assoc, List.cons_append]
  exact readQuoted_apEscapeLogitem hx _

theorem newline_notMem_escapeLogchar {c : Char} (hc : IsByte c) : '\n' ∉ escapeLogchar c := by
  have hbyte : c.toNat < 256 := hc
  unfold escapeLogchar
  split_ifs with hesc
  · split
    all_goals try decide
    simp [digitChar_ne_newline (show c.toNat % 256 / 16 < 16 by omega), digitChar_ne_newline (show c.toNat % 16 < 16 by omega)]
  · rintro hmem
    obtain rfl := List.mem_singleton.1 hmem
    exact hesc (by decide)

theorem newline_notMem_commonLine (x : Served) (hx : ∀ c ∈ x.the_request, IsByte c) :
    '\n' ∉ commonLine x.r x.current_time x.the_request := by
  have hhead : '\n' ∉ lineHead x.r x.current_time := notMem_lineHead (by decide) x.r x.current_time
  have hrequest : '\n' ∉ apEscapeLogitem x.the_request := by
    intro hmem
    obtain ⟨c, hc, hin⟩ := List.mem_flatMap.1 hmem
    exact newline_notMem_escapeLogchar (hx c hc) hin
  have hstatus : '\n' ∉ logStatus x.r.status := by
    unfold logStatus
    split_ifs <;> simp [notMem_longText (show isNumChar '\n' = false by decide)]
  have hbytes : '\n' ∉ clfLogBytesSent x.r.bytes_sent := by
    unfold clfLogBytesSent
    split_ifs <;> simp [notMem_natText (show '\n'.isDigit = false by decide)]
  simp [commonLine, hhead, hrequest, hstatus, hbytes]

/-! ## The requests of a run -/

section

variable {P : Type}

/-- the events of the writers, with what they log -/
inductive Traffic (P : Type) where
  | enter (p : P) (x : Served) (k : ℕ)
  | leave (p : P) (k : ℕ)
  | flush (p : P) (k : ℕ)

def Traffic.event : Traffic P → Event P
  | .enter p x k => .enter p (commonStrs x) k
  | .leave p k => .leave p k
  | .flush p k => .flush p k

variable [DecidableEq P]

/-- what p serves -/
def servedBy (p : P) : List (Traffic P) → List Served
  | [] => []
  | .enter q x _ :: es => if q = p then x :: servedBy p es else servedBy p es
  | _ :: es => servedBy p es

theorem loggedBy_event (p : P) (es : List (Traffic P)) :
    loggedBy p (es.map Traffic.event) = (servedBy p es).map fun x => (commonStrs x).flatten := by
  induction es with
  | nil => rfl
  | cons e es ih =>
    cases e with
    | enter q x k =>
      by_cases hq : q = p
      · simp [Traffic.event, loggedBy, servedBy, hq, ih]
      · simpa [Traffic.event, loggedBy, servedBy, hq] using ih
    | leave => exact ih
    | flush => exact ih

theorem exists_enter_of_mem {p : P} {x : Served} {es : List (Traffic P)} (h : x ∈ servedBy p es) : ∃ k, .enter p x k ∈ es := by
  induction es with
  | nil => simp [servedBy] at h
  | cons e es ih =>
    have hrest : x ∈ servedBy p es → ∃ k, .enter p x k ∈ e :: es := fun h => (ih h).imp fun _ => List.mem_cons_of_mem _
    cases e with
    | enter q y k =>
      by_cases hq : q = p
      · subst hq
        rw [servedBy, if_pos rfl] at h
        obtain rfl | h := List.mem_cons.1 h
        · exact ⟨k, List.mem_cons_self⟩
        · exact hrest h
      · rw [servedBy, if_neg hq] at h
        exact hrest h
    | leave => exact hrest h
    | flush => exact hrest h

/-- what a reader with a buffer of this size can read whole -/
def Readable (size : ℕ) (x : Served) : Prop :=
  (∀ c ∈ x.the_request, IsByte c) ∧ (commonLine x.r x.current_time x.the_request).length + 1 < size

/-- **No request can forge a line.** Over any run, the requests that are read back from the file are those that the children have
served, without the last ones of a child, which are in its buffer; when the child has ended there are none. -/
theorem access_log_requests (n size : ℕ) {es : List (Traffic P)} (hlegal : LegalRun step Legal (start : St P n) (es.map Traffic.event))
    (hread : ∀ p x k, Traffic.enter p x k ∈ es → Readable size x) :
    ∃ (s : St P n) (os : List Unit), run step start (es.map Traffic.event) = .ok (s, os) ∧ ∃ requests : List (P × Text),
      (∀ fuel, requests.length ≤ fuel → (readLines size fuel s.file).map requestOf = requests.map fun w => some w.2) ∧
        ∀ p, ∃ kept : List Text, writtenBy p requests ++ kept = (servedBy p es).map Served.the_request ∧
          ((s.logs p).outcnt = 0 → (s.logs p).inside = none → kept = []) := by
  obtain ⟨s, os, written, kept, hrun, hs, hrecords⟩ := run_start n hlegal
  have hread' : ∀ p, ∀ x ∈ servedBy p es, Readable size x := by
    intro p x hx
    obtain ⟨k, hk⟩ := exists_enter_of_mem hx
    exact hread p x k hk
  let request : Text → Text := fun t => (requestOf t).getD []
  have hrequest : ∀ {p t}, t ∈ loggedBy p (es.map Traffic.event) → IsLine size t ∧ requestOf t = some (request t) := by
    intro p t ht
    rw [loggedBy_event] at ht
    obtain ⟨x, hx, rfl⟩ := List.mem_map.1 ht
    obtain ⟨hbytes, hlen⟩ := hread' p x hx
    refine ⟨⟨_, common_line x, newline_notMem_commonLine x hbytes, hlen⟩, ?_⟩
    simp only [request, common_line, requestOf_commonLine x hbytes, Option.getD_some]
  have hwritten : ∀ w ∈ written, IsLine size w.2 ∧ requestOf w.2 = some (request w.2) := by
    intro w hw
    refine hrequest (p := w.1) ?_
    rw [← hrecords w.1]
    exact List.mem_append_left _ (List.mem_append_left _ (List.mem_map.2 ⟨w, by simpa using hw, rfl⟩))
  have hserved : ∀ p, (loggedBy p (es.map Traffic.event)).map request = (servedBy p es).map Served.the_request := by
    intro p
    rw [loggedBy_event, List.map_map]
    refine List.map_congr_left fun x hx => ?_
    simp only [request, Function.comp_apply, common_line, requestOf_commonLine x (hread' p x hx).1, Option.getD_some]
  refine ⟨s, os, hrun, written.map fun w => (w.1, request w.2), fun fuel hfuel => ?_, fun p => ?_⟩
  · rw [hs.file_eq, readLines_flatten (List.forall_mem_map.2 fun w hw => (hwritten w hw).1) (by simpa using hfuel), List.map_map,
      List.map_map]
    exact List.map_congr_left fun w hw => (hwritten w hw).2
  · refine ⟨(kept p ++ insideOf (s.logs p)).map request, ?_, fun hzero hinside => ?_⟩
    · have hmap : writtenBy p (written.map fun w => (w.1, request w.2)) = (writtenBy p written).map request := by
        simp [writtenBy, List.filter_map, Function.comp_def]
      rw [hmap, ← List.map_append, ← List.append_assoc, hrecords p, hserved p]
    · have hnil : (kept p).flatten = [] := List.eq_nil_of_length_eq_zero ((hs.keeps p).outcnt_eq.symm.trans hzero)
      have hkept : kept p = [] := by
        rw [List.flatten_eq_nil_iff] at hnil
        refine List.eq_nil_iff_forall_not_mem.2 fun t ht => ?_
        have hline : IsLine size t := by
          refine (hrequest (p := p) ?_).1
          rw [← hrecords p]
          exact List.mem_append_left _ (List.mem_append_right _ ht)
        obtain ⟨l, hl, -⟩ := hline
        exact absurd (hnil t ht) (by simp [hl])
      simp [hkept, insideOf, hinside]

theorem november_lt : 10 < 12 := by decide

theorem isTime_zero : IsTime 0 := by decide

theorem isTime_logged : IsTime 1700000000000000 := by decide

theorem isAddressChar_forging : ∀ c ∈ "10.1.1.2".toList, isAddressChar c := by decide

/-- a request that tries to end its line and to write another one -/
def forging : Served where
  r :=
    { useragent_ip := "10.1.1.2".toList
      request_time := 1700000000000000
      exploded := ⟨0, 30, 12, 14, ⟨10, november_lt⟩, 123, 0⟩
      connector_start_time := 0
      connector_end_time := 0
      status := 404
      bytes_sent := 196
      ip_chars := isAddressChar_forging
      request_ok := isTime_logged
      start_ok := isTime_zero
      end_ok := isTime_zero }
  current_time := 1700000000000900
  the_request := "GET /\"\n10.1.1.9 - -".toList

set_option maxRecDepth 2000 in
theorem one_request : ∃ (s : St Bool 8) (os : List Unit),
    run step start ([Traffic.enter false forging 8, .leave false 200].map Traffic.event) = .ok (s, os) ∧
      ∃ requests : List (Bool × Text),
        (∀ fuel, requests.length ≤ fuel → (readLines 1024 fuel s.file).map requestOf = requests.map fun w => some w.2) ∧
          ∀ p, ∃ kept : List Text, writtenBy p requests ++ kept =
              (servedBy p [Traffic.enter false forging 8, .leave false 200]).map Served.the_request ∧
            ((s.logs p).outcnt = 0 → (s.logs p).inside = none → kept = []) := by
  refine access_log_requests 8 1024 (by decide) fun p x k h => ?_
  obtain ⟨rfl, rfl, rfl⟩ : p = false ∧ x = forging ∧ k = 8 := by simpa using h
  exact ⟨by decide, by decide⟩

end

end Rubbos.Httpd.LogRecord
