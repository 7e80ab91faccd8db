/-
Apache's access log, written with the format "common" of httpd.conf and read by `Apacheparser`.

The times of a request are written by `log_request_duration_microseconds` of mod_log_config.c, in front of the request line. Its
format string has "ET(us=)" for the end of a request that went to Tomcat, so the parser's search for "ET(us)=" goes on and ends
in "TCET(us)=", which is the end of the connector. The id is the first "urlID=" of the line, within what `fgets` reads of it.

- `getET_connector`: the end that is read is that of the connector.
- `access_log_iff`: the lines that are read back, and those that give no record.
-/
import Rubbos.Client.CallHTTPServer
import Rubbos.Parsers.Apacheparser

namespace Rubbos.Parsers.Apacheparser

open Rubbos.Core CLib Rubbos.Client

/-! ## The writer -/

/-- the fields of `apr_time_exp_t` that are printed -/
structure AprTimeExp where
  tm_sec : ℕ
  tm_min : ℕ
  tm_hour : ℕ
  tm_mday : ℕ
  tm_mon : Fin 12
  tm_year : ℕ
  tm_gmtoff : ℤ

def aprMonthSnames : Fin 12 → Text
  | 0 => "Jan".toList
  | 1 => "Feb".toList
  | 2 => "Mar".toList
  | 3 => "Apr".toList
  | 4 => "May".toList
  | 5 => "Jun".toList
  | 6 => "Jul".toList
  | 7 => "Aug".toList
  | 8 => "Sep".toList
  | 9 => "Oct".toList
  | 10 => "Nov".toList
  | 11 => "Dec".toList

/-- "%02d" of a number that is not negative -/
def twoDigits (n : ℕ) : Text := if n < 10 then '0' :: natText n else natText n

/-- `log_request_time` without a format of its own: "[%02d/%s/%d:%02d:%02d:%02d %c%.2d%.2d]" -/
def logRequestTime (xt : AprTimeExp) : Text :=
  let timz := xt.tm_gmtoff.natAbs
  '[' :: (twoDigits xt.tm_mday ++ '/' :: (aprMonthSnames xt.tm_mon ++ '/' :: (natText (xt.tm_year + 1900) ++
    ':' :: (twoDigits xt.tm_hour ++ ':' :: (twoDigits xt.tm_min ++ ':' :: (twoDigits xt.tm_sec ++ ' ' ::
      (if xt.tm_gmtoff < 0 then '-' else '+') :: (twoDigits (timz / (60 * 60)) ++
        (twoDigits (timz % (60 * 60) / 60) ++ [']']))))))))

/-- the characters of an IP address -/
def isAddressChar (c : Char) : Bool := c ∈ "0123456789abcdef.:".toList

/-- an `apr_time_t` that is not negative -/
def IsTime (t : ℤ) : Prop := 0 ≤ t ∧ t < 2 ^ 63

instance (t : ℤ) : Decidable (IsTime t) := inferInstanceAs (Decidable (0 ≤ t ∧ t < 2 ^ 63))

/-- what the log format reads of a request; its time is exploded in the server's time zone -/
structure RequestRec where
  useragent_ip : Text
  request_time : ℤ
  exploded : AprTimeExp
  connector_start_time : ℤ
  connector_end_time : ℤ
  status : ℤ
  bytes_sent : ℕ
  ip_chars : ∀ c ∈ useragent_ip, isAddressChar c
  request_ok : IsTime request_time
  start_ok : IsTime connector_start_time
  end_ok : IsTime connector_end_time

/-- `TEST_CHAR(c, T_ESCAPE_LOGITEM)` -/
def isEscapedLogitem (c : Char) : Bool := c ≠ '\x00' && (c.toNat < 32 || 127 ≤ c.toNat || c = '"' || c = '\\')

/-- a character as `ap_escape_logitem` writes it; a character is a byte -/
def escapeLogchar (c : Char) : Text :=
  if isEscapedLogitem c then
    '\\' :: (match c with
      | '\x08' => ['b']
      | '\n' => ['n']
      | '\r' => ['r']
      | '\t' => ['t']
      | '\x0b' => ['v']
      | '\\' => ['\\']
      | '"' => ['"']
      | c => ['x', Nat.digitChar (c.toNat % 256 / 16), Nat.digitChar (c.toNat % 16)])
  else [c]

def apEscapeLogitem (str : Text) : Text := str.flatMap escapeLogchar

/-- a key of the format string with its "%" APR_TIME_T_FMT -/
def timeField (key : Text) (t : ℤ) : Text := key ++ longText t

/-- `log_request_duration_microseconds`, at the time current_time -/
def logRequestDurationMicroseconds (r : RequestRec) (current_time : ℤ) : Text :=
  if r.connector_start_time = 0 then
    timeField "ST(us)=".toList r.request_time ++ ' ' :: (timeField "ET(us)=".toList current_time ++
      ' ' :: timeField "RT(us)=".toList (current_time - r.request_time))
  else
    timeField "ST(us)=".toList r.request_time ++ ' ' :: (timeField "ET(us=)".toList current_time ++
      ' ' :: (timeField "RT(us)=".toList (current_time - r.request_time) ++
        ' ' :: (timeField "TCST(us)=".toList r.connector_start_time ++
          ' ' :: (timeField "TCET(us)=".toList r.connector_end_time ++
            ' ' :: timeField "TCRT(us)=".toList (r.connector_end_time - r.connector_start_time)))))

/-- `log_status` -/
def logStatus (status : ℤ) : Text := if status ≤ 0 then ['-'] else longText status

/-- `clf_log_bytes_sent` -/
def clfLogBytesSent (n : ℕ) : Text := if n = 0 then ['-'] else natText n

/-- the line up to the request: "%h %l %u %t %D"; there is no ident lookup and no user -/
def lineHead (r : RequestRec) (current_time : ℤ) : Text :=
  r.useragent_ip ++ ' ' :: ('-' :: ' ' :: ('-' :: ' ' :: (logRequestTime r.exploded ++
    ' ' :: logRequestDurationMicroseconds r current_time)))

/-- a line with the format "%h %l %u %t %D\"%r\" %>s %b" -/
def commonLine (r : RequestRec) (current_time : ℤ) (the_request : Text) : Text :=
  lineHead r current_time ++ '"' :: (apEscapeLogitem the_request ++ '"' :: ' ' :: (logStatus r.status ++
    ' ' :: clfLogBytesSent r.bytes_sent))

def methodText : Text := "GET ".toList

def protocolText : Text := " HTTP/1.1".toList

/-- the first line of the request for a page -/
def theRequest (g : URLGenerator) (p : Page) (nanoTime : ℤ) : Text :=
  methodText ++ (g.path p ++ '?' :: (g.query (longText nanoTime) p.fields ++ protocolText))

/-- the line of a page -/
def logLine (g : URLGenerator) (p : Page) (nanoTime : ℤ) (r : RequestRec) (current_time : ℤ) : Text :=
  commonLine r current_time (theRequest g p nanoTime)

/-- the characters of a URL (RFC 2396: reserved, unreserved and '%') -/
def isURLChar (c : Char) : Bool := c.isAlphanum || c ∈ ";/?:@&=+$,-_.!~*'()%".toList

/-- what is written as it is has only characters of a URL: the path, and the comment table -/
def IsRequestURL (g : URLGenerator) (p : Page) : Prop :=
  (∀ c ∈ g.path p, isURLChar c) ∧ ∀ t, p.rawTable = some t → ∀ c ∈ t, isURLChar c

/-! ## Characters of the line -/

/-- characters that no part of the line before the times has -/
def strange : List Char := ['I', 'C', '(', '?', '"', '\n', '=']

theorem notMem_twoDigits {c : Char} (hc : c.isDigit = false) (n : ℕ) : c ∉ twoDigits n := by
  have hzero : c ≠ '0' := by
    rintro rfl
    cases hc
  unfold twoDigits
  split_ifs <;> simp [notMem_natText hc, hzero]

theorem notMem_logRequestTime {c : Char} (hc : c ∈ strange) (xt : AprTimeExp) : c ∉ logRequestTime xt := by
  have hdigit : c.isDigit = false := by revert c; decide
  have hmonth : ∀ m, c ∉ aprMonthSnames m := by revert c; decide
  have hsigns : c ∉ ['[', '/', ':', ' ', '-', '+', ']'] := by revert c; decide
  simp only [List.mem_cons, List.not_mem_nil, or_false, not_or] at hsigns
  unfold logRequestTime
  split_ifs <;> simp [notMem_twoDigits hdigit, notMem_natText hdigit, hmonth, hsigns]

/-- what stands before the times -/
def lineStart (r : RequestRec) : Text :=
  r.useragent_ip ++ ' ' :: ('-' :: ' ' :: ('-' :: ' ' :: logRequestTime r.exploded))

theorem lineHead_eq (r : RequestRec) (current_time : ℤ) :
    lineHead r current_time = lineStart r ++ ' ' :: logRequestDurationMicroseconds r current_time := by
  simp [lineHead, lineStart]

theorem notMem_lineStart {c : Char} (hc : c ∈ strange) (r : RequestRec) : c ∉ lineStart r := by
  have haddress : isAddressChar c = false := by revert c; decide
  have hsigns : c ≠ ' ' ∧ c ≠ '-' := by revert c; decide
  have hip : c ∉ r.useragent_ip := fun h => by simpa [haddress] using r.ip_chars c h
  simp [lineStart, hip, notMem_logRequestTime hc, hsigns]

/-- a character that is neither in a key nor in a number -/
theorem notMem_timeField {c : Char} {key : Text} (hkey : c ∉ key) (hc : isNumChar c = false) (t : ℤ) :
    c ∉ timeField key t := by
  simp [timeField, hkey, notMem_longText hc]

theorem notMem_lineHead {c : Char} (hc : c ∈ ['I', '?', '"', '\n']) (r : RequestRec) (current_time : ℤ) :
    c ∉ lineHead r current_time := by
  have hnum : isNumChar c = false := by revert c; decide
  have hblank : c ≠ ' ' := by revert c; decide
  have hkeys : c ∉ "ST(us)=".toList ∧ c ∉ "ET(us)=".toList ∧ c ∉ "ET(us=)".toList ∧ c ∉ "RT(us)=".toList ∧
      c ∉ "TCST(us)=".toList ∧ c ∉ "TCET(us)=".toList ∧ c ∉ "TCRT(us)=".toList := by revert c; decide
  have hstart : c ∉ lineStart r := notMem_lineStart (by revert c; decide) r
  obtain ⟨h1, h2, h3, h4, h5, h6, h7⟩ := hkeys
  rw [lineHead_eq]
  unfold logRequestDurationMicroseconds
  split_ifs <;> simp only [List.mem_append, List.mem_cons, not_or, hstart, hblank, not_false_eq_true, true_and,
    notMem_timeField h1 hnum, notMem_timeField h2 hnum, notMem_timeField h3 hnum, notMem_timeField h4 hnum,
    notMem_timeField h5 hnum, notMem_timeField h6 hnum, notMem_timeField h7 hnum]

/-! ## The request line -/

section

variable {g : URLGenerator} {p : Page}

theorem isURLChar_of_isNameChar {c : Char} (h : isNameChar c) : isURLChar c := by
  simp only [isNameChar, Bool.or_eq_true, decide_eq_true_eq] at h
  rcases h with h | rfl
  · simp [isURLChar, Char.isAlphanum, h]
  · decide

theorem isURLChar_of_isEncoded {c : Char} (h : JString.isEncoded c) : isURLChar c := by
  simp only [JString.isEncoded, JString.isUnreserved, Bool.or_eq_true, decide_eq_true_eq] at h
  rcases h with (h | h) | h
  · simp [isURLChar, h]
  · revert c
    decide
  · revert c
    decide

/-- a class of characters that has those of the names, the values and the syntax has those of a query -/
theorem forall_mem_query {P : Char → Prop} {id : Text} {fs : List (Field × Value)} (hname : ∀ c, isNameChar c → P c)
    (hsigns : P '=' ∧ P '&') (hid : ∀ c ∈ id, P c) (hv : ∀ fv ∈ fs, ∀ c ∈ g.value fv.2, P c) :
    ∀ c ∈ g.query id fs, P c := by
  induction fs with
  | nil =>
    intro c hc
    rcases List.mem_append.1 hc with hc | hc
    · exact hname c (List.all_eq_true.1 (show urlID.all isNameChar by decide) c hc)
    · exact (List.mem_cons.1 hc).elim (fun h => h ▸ hsigns.1) (hid c)
  | cons fv fs ih =>
    obtain ⟨f, v⟩ := fv
    have hrest := ih fun fv h => hv fv (List.mem_cons_of_mem _ h)
    intro c hc
    simp only [URLGenerator.query, List.mem_append, List.mem_cons] at hc
    rcases hc with hc | rfl | hc | rfl | hc
    · exact hname c (List.all_eq_true.1 f.name_chars c hc)
    · exact hsigns.1
    · exact hv (f, v) List.mem_cons_self c hc
    · exact hsigns.2
    · exact hrest c hc

/-- the query has only characters of a URL -/
theorem isURLChar_of_mem_query (hp : IsRequestURL g p) (n : ℤ) : ∀ c ∈ g.query (longText n) p.fields, isURLChar c := by
  refine forall_mem_query (fun c hc => isURLChar_of_isNameChar hc) (by decide)
    (fun c hc => isURLChar_of_isEncoded (isEncoded_of_isNumChar (isNumChar_of_mem_longText hc))) ?_
  intro fv hfv c hc
  by_cases hraw : ∃ t, fv.2 = .raw t
  · obtain ⟨t, ht⟩ := hraw
    rw [ht] at hc
    exact hp.2 t (p.rawTable_of_mem hfv ht) c hc
  · exact isURLChar_of_isEncoded (g.isEncoded_of_mem_value (fun s hs => hraw ⟨s, hs⟩) hc)

theorem toNat_of_isAlphanum {c : Char} (h : c.isAlphanum) : 48 ≤ c.toNat ∧ c.toNat < 127 ∧ c.toNat ≠ 92 := by
  delta Char.isAlphanum Char.isAlpha Char.isUpper Char.isLower Char.isDigit at h
  simp only [Bool.or_eq_true, Bool.and_eq_true, decide_eq_true_eq, UInt32.le_iff_toNat_le, ge_iff_le] at h
  have hval : c.toNat = c.val.toNat := rfl
  have hcodes : 'A'.val.toNat = 65 ∧ 'Z'.val.toNat = 90 ∧ 'a'.val.toNat = 97 ∧ 'z'.val.toNat = 122 ∧ '0'.val.toNat = 48 ∧
      '9'.val.toNat = 57 := by decide
  omega

theorem isEscapedLogitem_of_url {c : Char} (h : isURLChar c) : isEscapedLogitem c = false := by
  simp only [isURLChar, Bool.or_eq_true, decide_eq_true_eq] at h
  rcases h with h | h
  · obtain ⟨hlow, hhigh, hslash⟩ := toNat_of_isAlphanum h
    have hquote : c ≠ '"' := by
      rintro rfl
      simp at hlow
    have hback : c ≠ '\\' := by
      rintro rfl
      simp at hslash
    have hctrl : ¬ c.toNat < 32 := by omega
    have hdel : ¬ 127 ≤ c.toNat := by omega
    simp [isEscapedLogitem, hquote, hback, hctrl, hdel]
  · revert c
    decide

theorem apEscapeLogitem_of_url {t : Text} (h : ∀ c ∈ t, isURLChar c = true ∨ c = ' ') : apEscapeLogitem t = t := by
  have hchar : ∀ c ∈ t, escapeLogchar c = [c] := by
    intro c hc
    have hplain : isEscapedLogitem c = false := (h c hc).elim isEscapedLogitem_of_url fun h => h ▸ by decide
    simp [escapeLogchar, hplain]
  unfold apEscapeLogitem
  rw [List.flatMap_congr hchar]
  simp

/-- the line up to the query -/
def upToQuery (g : URLGenerator) (p : Page) (r : RequestRec) (current_time : ℤ) : Text :=
  lineHead r current_time ++ '"' :: (methodText ++ g.path p)

/-- the line behind the query -/
def behindQuery (r : RequestRec) : Text :=
  protocolText ++ '"' :: ' ' :: (logStatus r.status ++ ' ' :: clfLogBytesSent r.bytes_sent)

variable (hp : IsRequestURL g p) (n : ℤ) (r : RequestRec) (current_time : ℤ)

include hp in
theorem logLine_eq : logLine g p n r current_time =
    upToQuery g p r current_time ++ '?' :: (g.query (longText n) p.fields ++ behindQuery r) := by
  have hplain : apEscapeLogitem (theRequest g p n) = theRequest g p n := by
    refine apEscapeLogitem_of_url fun c hc => ?_
    simp only [theRequest, List.mem_append, List.mem_cons] at hc
    rcases hc with hc | hc | rfl | hc | hc
    · revert c
      decide
    · exact .inl (hp.1 c hc)
    · decide
    · exact .inl (isURLChar_of_mem_query hp n c hc)
    · revert c
      decide
  rw [logLine, commonLine, hplain, theRequest, upToQuery, behindQuery]
  simp only [List.append_assoc, List.cons_append]

theorem mark_notIn_upToQuery : ¬ urlIDMark <:+: upToQuery g p r current_time := by
  have hhead : 'I' ∉ lineHead r current_time := notMem_lineHead (by decide) r current_time
  have hget : '=' ∉ methodText ++ g.path p := by
    have hpath : '=' ∉ g.path p := fun h => absurd (g.isBaseChar_of_mem_path p h) (by decide)
    have hmethod : '=' ∉ methodText := by decide
    simp [hpath, hmethod]
  unfold upToQuery
  rw [infix_append_cons (by decide)]
  rintro (h | h)
  · exact not_infix_of_mem (by decide) hhead h
  · exact not_infix_of_mem (by decide) hget h

end

/-! ## The times of a request that went to the connector -/

section

variable {r : RequestRec} (hstart : r.connector_start_time ≠ 0) (current_time : ℤ) (more : Text)

theorem isLong_of_isTime {t : ℤ} (h : IsTime t) : IsLong t := by
  unfold IsTime at h
  unfold IsLong
  omega

include hstart

/-- the words of the line from the times on -/
theorem strstr_times {key : Text} (hblank : ' ' ∉ key) (hparen : '(' ∈ key) :
    strstr key (lineHead r current_time ++ '"' :: more) =
      strstr key (timeField "ST(us)=".toList r.request_time ++ ' ' :: (timeField "ET(us=)".toList current_time ++
        ' ' :: (timeField "RT(us)=".toList (current_time - r.request_time) ++
          ' ' :: (timeField tcstKey r.connector_start_time ++ ' ' :: (timeField tcetKey r.connector_end_time ++
            ' ' :: (timeField "TCRT(us)=".toList (r.connector_end_time - r.connector_start_time) ++ '"' :: more)))))) := by
  have hskip : '(' ∉ lineStart r := notMem_lineStart (by decide) r
  rw [lineHead_eq, List.append_assoc, List.cons_append, strstr_skip hblank (not_infix_of_mem hparen hskip),
    logRequestDurationMicroseconds, if_neg hstart]
  simp only [List.append_assoc, List.cons_append]
  rfl

theorem getST_line (b : TimeBuf) :
    ∃ b', getST (lineHead r current_time ++ '"' :: more) b = some (true, b') ∧ cstr b' = some (longText r.request_time) := by
  obtain ⟨tail, hf⟩ : ∃ tail, strstr stKey (lineHead r current_time ++ '"' :: more) =
      some (stKey ++ (longText r.request_time ++ ' ' :: tail)) := by
    rw [strstr_times hstart current_time more (by decide) (by decide), timeField, List.append_assoc]
    exact ⟨_, strstr_of_prefix (List.prefix_append _ _)⟩
  exact getField_time tail (isLong_of_isTime r.request_ok) hf b

/-- up to the start of the connector there is no 'C' -/
theorem strstr_connector {key : Text} (hblank : ' ' ∉ key) (hparen : '(' ∈ key) (hC : 'C' ∈ key) :
    strstr key (lineHead r current_time ++ '"' :: more) =
      strstr key (timeField tcstKey r.connector_start_time ++ ' ' :: (timeField tcetKey r.connector_end_time ++
        ' ' :: (timeField "TCRT(us)=".toList (r.connector_end_time - r.connector_start_time) ++ '"' :: more))) := by
  have hno : ∀ {k : Text} {t : ℤ}, 'C' ∉ k → ¬ key <:+: timeField k t :=
    fun hk => not_infix_of_mem hC (notMem_timeField hk (by decide) _)
  rw [strstr_times hstart current_time more hblank hparen, strstr_skip hblank (hno (by decide)),
    strstr_skip hblank (hno (by decide)), strstr_skip hblank (hno (by decide))]

theorem getTCST_line (b : TimeBuf) :
    ∃ b', getTCST (lineHead r current_time ++ '"' :: more) b = some (true, b') ∧
      cstr b' = some (longText r.connector_start_time) := by
  obtain ⟨tail, hf⟩ : ∃ tail, strstr tcstKey (lineHead r current_time ++ '"' :: more) =
      some (tcstKey ++ (longText r.connector_start_time ++ ' ' :: tail)) := by
    rw [strstr_connector hstart current_time more (by decide) (by decide) (by decide), timeField, List.append_assoc]
    exact ⟨_, strstr_of_prefix (List.prefix_append _ _)⟩
  exact getField_time tail (isLong_of_isTime r.start_ok) hf b

theorem getTCET_line (b : TimeBuf) :
    ∃ b', getTCET (lineHead r current_time ++ '"' :: more) b = some (true, b') ∧
      cstr b' = some (longText r.connector_end_time) := by
  have hno : ¬ tcetKey <:+: timeField tcstKey r.connector_start_time :=
    not_infix_of_mem (show 'E' ∈ tcetKey by decide) (notMem_timeField (by decide) (by decide) _)
  have hend : timeField tcetKey r.connector_end_time = tcetKey ++ longText r.connector_end_time := rfl
  obtain ⟨tail, hf⟩ : ∃ tail, strstr tcetKey (lineHead r current_time ++ '"' :: more) =
      some (tcetKey ++ (longText r.connector_end_time ++ ' ' :: tail)) := by
    rw [strstr_connector hstart current_time more (by decide) (by decide) (by decide), strstr_skip (by decide) hno,
      hend, List.append_assoc]
    exact ⟨_, strstr_of_prefix (List.prefix_append _ _)⟩
  exact getField_time tail (isLong_of_isTime r.end_ok) hf b

/-- **The end that is read** is that of the connector: "ET(us=)" is not the key, and "TCET(us)=" ends with it. -/
theorem getET_connector (b : TimeBuf) :
    ∃ b', getET (lineHead r current_time ++ '"' :: more) b = some (true, b') ∧
      cstr b' = some (longText r.connector_end_time) := by
  have hno : ∀ {k : Text} {t : ℤ}, 'E' ∉ k → ¬ etKey <:+: timeField k t :=
    fun hk => not_infix_of_mem (show 'E' ∈ etKey by decide) (notMem_timeField hk (by decide) _)
  have hslip : ¬ etKey <:+: timeField "ET(us=)".toList current_time := by
    have hkey : etKey = "ET(us)".toList ++ ['='] := by decide
    have hword : timeField "ET(us=)".toList current_time = "ET(us".toList ++ '=' :: (')' :: longText current_time) := by
      rw [timeField, show "ET(us=)".toList = "ET(us".toList ++ ['=', ')'] by decide]
      simp only [List.append_assoc, List.cons_append, List.nil_append]
    have hnum : '=' ∉ ')' :: longText current_time := by simp [notMem_longText (show isNumChar '=' = false by decide)]
    rw [hkey, hword, infix_marked (by decide) (by decide)]
    rintro (h | h)
    · exact absurd h (by decide)
    · exact not_infix_of_mem (by decide) hnum h
  have hend : timeField tcetKey r.connector_end_time = ['T', 'C'] ++ etKey ++ longText r.connector_end_time := rfl
  obtain ⟨tail, hf⟩ : ∃ tail, strstr etKey (lineHead r current_time ++ '"' :: more) =
      some (etKey ++ (longText r.connector_end_time ++ ' ' :: tail)) := by
    rw [strstr_times hstart current_time more (by decide) (by decide), strstr_skip (by decide) (hno (by decide)),
      strstr_skip (by decide) hslip, strstr_skip (by decide) (hno (by decide)), strstr_skip (by decide) (hno (by decide)), hend,
      List.append_assoc, List.append_assoc]
    exact ⟨_, strstr_cons_here (c := 'E') (by decide) (List.prefix_append _ _)⟩
  exact getField_time tail (isLong_of_isTime r.end_ok) hf b

end

/-! ## The id -/

section

variable {g : URLGenerator} {p : Page} (hp : IsRequestURL g p) (n : ℤ) (r : RequestRec) (current_time : ℤ)

/-- the first "urlID=" of the line, and its word, are in what `fgets` reads; if it stands in a comment table that is written as
it is, the number is there too, and only the length of an id or of the line ends it -/
def IDShown (g : URLGenerator) (p : Page) (n : ℤ) (r : RequestRec) (current_time : ℤ) : Prop :=
  ∀ i, find urlIDMark (logLine g p n r current_time) = some i →
    i + 6 + (longText n).length < max_line_length ∧
    ∀ t j, p.rawTable = some t → find urlIDMark t = some j → longText n <+: t.drop (j + 6) ∧
      ((longText n).length + 1 = max_id_length ∨ i + 6 + (longText n).length + 1 = max_line_length)

/-- a field that is not written as it is has no "urlID=" -/
theorem no_mark_of_noRaw {fs : List (Field × Value)} (h : URLGenerator.NoRaw fs) :
    ∀ fv ∈ fs, ¬ urlID ++ ['='] <:+: g.value fv.2 :=
  fun fv hfv => not_infix_of_mem (show '=' ∈ urlID ++ ['='] by decide) (g.notMem_value h (by decide) fv hfv)

theorem rawTable_mem {t : Text} (ht : p.rawTable = some t) :
    ∃ l₁ l₂, p.fields = l₁ ++ (.comment_table, .raw t) :: l₂ ∧ URLGenerator.NoRaw l₁ := by
  have hsplit := p.fields_split
  rw [ht] at hsplit
  obtain ⟨l₁, l₂, hfs, h₁, -⟩ := hsplit
  exact ⟨l₁, l₂, hfs, h₁⟩

/-- what stands behind the first "urlID=" of the query -/
theorem strstr_query : strstr urlIDMark (g.query (longText n) p.fields ++ behindQuery r) =
    some (urlIDMark ++ (longText n ++ behindQuery r)) ∧ (∀ t, p.rawTable = some t → find urlIDMark t = none) ∨
    ∃ t j b, p.rawTable = some t ∧ find urlIDMark t = some j ∧
      strstr urlIDMark (g.query (longText n) p.fields ++ behindQuery r) = some (t.drop j ++ '&' :: b) := by
  have hmark : urlIDMark = urlID ++ ['='] := rfl
  by_cases hraw : ∃ t j, p.rawTable = some t ∧ find urlIDMark t = some j
  · obtain ⟨t, j, ht, hj⟩ := hraw
    obtain ⟨l₁, l₂, hfs, h₁⟩ := rawTable_mem ht
    refine .inr ⟨t, j, g.query (longText n) l₂ ++ behindQuery r, ht, hj, ?_⟩
    rw [hfs]
    exact g.strstr_urlID_value (f := .comment_table) (v := .raw t) (no_mark_of_noRaw h₁) hj
  · have hnone : ∀ t, p.rawTable = some t → find urlIDMark t = none :=
      fun t ht => Option.eq_none_iff_forall_ne_some.2 fun j hj => hraw ⟨t, j, ht, hj⟩
    refine .inl ⟨?_, hnone⟩
    refine g.strstr_urlID_query fun fv hfv => ?_
    by_cases hval : ∃ t, fv.2 = .raw t
    · obtain ⟨t, ht⟩ := hval
      rw [ht]
      exact find_eq_none.1 (hnone t (p.rawTable_of_mem hfv ht))
    · exact not_infix_of_mem (show '=' ∈ urlID ++ ['='] by decide)
        fun hc => absurd (g.isEncoded_of_mem_value (fun s hs => hval ⟨s, hs⟩) hc) (by decide)

include hp

theorem newline_notMem_logLine : '\n' ∉ logLine g p n r current_time := by
  have hhead : '\n' ∉ lineHead r current_time := notMem_lineHead (by decide) r current_time
  have hpath : '\n' ∉ g.path p := fun h => absurd (hp.1 _ h) (by decide)
  have hquery : '\n' ∉ g.query (longText n) p.fields := fun h => absurd (isURLChar_of_mem_query hp n _ h) (by decide)
  have htexts : '\n' ∉ methodText ∧ '\n' ∉ protocolText := by decide
  have hstatus : '\n' ∉ logStatus r.status := by
    unfold logStatus
    split_ifs <;> simp [notMem_longText (show isNumChar '\n' = false by decide)]
  have hbytes : '\n' ∉ clfLogBytesSent r.bytes_sent := by
    unfold clfLogBytesSent
    split_ifs <;> simp [notMem_natText (show '\n'.isDigit = false by decide)]
  rw [logLine_eq hp]
  simp [upToQuery, behindQuery, hhead, hpath, hquery, htexts, hstatus, hbytes]

/-- the first "urlID=" of the line is that of the query -/
theorem find_mark_logLine {w : Text} (h : strstr urlIDMark (g.query (longText n) p.fields ++ behindQuery r) = some w) :
    ∃ i, find urlIDMark (logLine g p n r current_time) = some i ∧ (logLine g p n r current_time).drop i = w := by
  refine find_of_strstr ?_
  rw [logLine_eq hp, strstr_skip (by decide) (mark_notIn_upToQuery r current_time)]
  exact h

/-- **The id is read back** exactly if it is shown. -/
theorem getID_logLine_iff (hn : (longText n).length < max_id_length) (rest : Text) :
    getID (fgets (max_line_length - 1) (logLine g p n r current_time ++ '\n' :: rest)).1 = some (longText n) ↔
      IDShown g p n r current_time := by
  have hnl := newline_notMem_logLine hp n r current_time
  have hspace : ∀ c ∈ longText n, isSpace c = false := fun c hc => isSpace_of_mem_longText hc
  unfold IDShown
  rcases strstr_query (g := g) (p := p) n r with ⟨hq, hnone⟩ | ⟨t, j, b, ht, hj, hq⟩
  · obtain ⟨i, hi, hdrop⟩ := find_mark_logLine hp n r current_time hq
    have hword : (logLine g p n r current_time).drop (i + 6) = longText n ++ behindQuery r := by
      rw [← List.drop_drop, hdrop]
      rfl
    have hnext : (logLine g p n r current_time).drop (i + 6 + (longText n).length) = behindQuery r := by
      rw [← List.drop_drop, hword, List.drop_left]
    rw [getID_cut hi hspace hn hnl, hword, hnext]
    constructor
    · intro ⟨_, hlt, _⟩ i' hi'
      cases hi.symm.trans hi'
      refine ⟨hlt, fun t j ht hj => ?_⟩
      rw [hnone t ht] at hj
      cases hj
    · intro h
      have hblank : (behindQuery r).head? = some ' ' := rfl
      exact ⟨List.prefix_append _ _, (h i hi).1, .inr (.inr fun c hc => .inl (by simpa [hblank] using hc.symm))⟩
  · obtain ⟨i, hi, hdrop⟩ := find_mark_logLine hp n r current_time hq
    have hin : 6 ≤ (t.drop j).length := (find_eq_some hj).2.1.length_le
    have hword : (logLine g p n r current_time).drop (i + 6) = t.drop (j + 6) ++ '&' :: b := by
      rw [← List.drop_drop, hdrop, List.drop_append_of_le_length hin, List.drop_drop]
    have hamp : '&' ∉ longText n := notMem_longText (by decide)
    -- the word in the table is followed by a character of a URL
    have hgoes : longText n <+: t.drop (j + 6) →
        ¬ ∀ c ∈ ((logLine g p n r current_time).drop (i + 6 + (longText n).length)).head?, c = ' ' ∨ c = '\n' := by
      intro ⟨u, hu⟩ hstop
      have hnext : (logLine g p n r current_time).drop (i + 6 + (longText n).length) = u ++ '&' :: b := by
        rw [← List.drop_drop, hword, ← hu, List.append_assoc, List.drop_left]
      rw [hnext] at hstop
      cases u with
      | nil => exact absurd (hstop '&' rfl) (by decide)
      | cons c u =>
        have hc : isURLChar c := by
          refine hp.2 t ht c (List.mem_of_mem_drop (i := j + 6) ?_)
          rw [← hu]
          simp
        rcases hstop c rfl with rfl | rfl <;> exact absurd hc (by decide)
    rw [getID_cut hi hspace hn hnl, hword]
    constructor
    · intro ⟨hpre, hlt, hstop⟩ i' hi'
      cases hi.symm.trans hi'
      have hpre' := prefix_of_prefix_cons hamp hpre
      refine ⟨hlt, fun t' j' ht' hj' => ?_⟩
      cases ht.symm.trans ht'
      cases hj.symm.trans hj'
      exact ⟨hpre', hstop.imp_right fun h => h.resolve_right (hgoes hpre')⟩
    · intro h
      obtain ⟨hlt, htable⟩ := h i hi
      obtain ⟨hpre, hfull⟩ := htable t j ht hj
      exact ⟨hpre.trans (List.prefix_append _ _), hlt, hfull.imp_right .inl⟩

/-- a string of the line in which an id is found goes beyond the beginning of the query -/
theorem upToQuery_of_getID {id rest : Text}
    (h : getID (fgets (max_line_length - 1) (logLine g p n r current_time ++ '\n' :: rest)).1 = some id) :
    ∃ more, (fgets (max_line_length - 1) (logLine g p n r current_time ++ '\n' :: rest)).1 =
      upToQuery g p r current_time ++ '?' :: more := by
  have hnl := newline_notMem_logLine hp n r current_time
  have hpre : (fgets (max_line_length - 1) (logLine g p n r current_time ++ '\n' :: rest)).1 <+:
      logLine g p n r current_time ++ ['\n'] := by
    rw [fgets_cut hnl]
    split_ifs
    · exact List.prefix_rfl
    · exact (List.take_prefix _ _).trans (List.prefix_append _ _)
  have hkey : urlIDMark <:+: (fgets (max_line_length - 1) (logLine g p n r current_time ++ '\n' :: rest)).1 := by
    have hfound := hasKey_of_getID h
    by_contra hno
    rw [hasKey, strstr_eq_none.2 hno] at hfound
    cases hfound
  have hupto : upToQuery g p r current_time ++ ['?'] <+: logLine g p n r current_time ++ ['\n'] := by
    rw [logLine_eq hp]
    exact ⟨(g.query (longText n) p.fields ++ behindQuery r) ++ ['\n'], by simp⟩
  rcases List.prefix_or_prefix_of_prefix hpre hupto with hshort | ⟨more, hmore⟩
  · have hin := hkey.trans hshort.isInfix
    rw [infix_append_cons (by decide)] at hin
    exact absurd hin (not_or.2 ⟨mark_notIn_upToQuery r current_time, by decide⟩)
  · exact ⟨more, by rw [← hmore]; simp⟩

end

/-! ## The category -/

theorem getCategory_line {g : URLGenerator} (hg : g.version = .servlets) (p : Page) (r : RequestRec) (current_time : ℤ)
    (more : Text) : getCategory (upToQuery g p r current_time ++ '?' :: more) = some p.category := by
  obtain ⟨a, ha⟩ := g.path_category hg p
  have hhead : '?' ∉ lineHead r current_time := notMem_lineHead (by decide) r current_time
  have hpath : '?' ∉ g.path p := fun h => absurd (g.isBaseChar_of_mem_path p h) (by decide)
  have hmethod : '?' ∉ methodText := by decide
  have hbefore : '?' ∉ lineHead r current_time ++ '"' :: (methodText ++ a) := by
    rw [ha, List.mem_append, not_or] at hpath
    simp [hhead, hmethod, hpath.1]
  have hline : upToQuery g p r current_time ++ '?' :: more =
      (lineHead r current_time ++ '"' :: (methodText ++ a)) ++ '.' :: p.category ++ '?' :: more := by
    rw [upToQuery, ha]
    simp only [List.append_assoc, List.cons_append]
  rw [hline]
  exact getCategory_found hbefore (URLGenerator.notMem_category (by decide) p) (URLGenerator.notMem_category (by decide) p)
    (URLGenerator.category_chars p).2

/-! ## Records -/

/-- the string passes the checks of the loop -/
def Accepted (str : Text) : Prop := isError str = false ∧ isSilent str = false

theorem hasKey_iff {key str : Text} : hasKey key str = true ↔ key <:+: str := by
  cases hf : strstr key str with
  | none => simpa [hasKey, hf] using strstr_eq_none.1 hf
  | some t =>
    have hin : key <:+: str := by
      by_contra hno
      rw [strstr_eq_none.2 hno] at hf
      cases hf
    simp [hasKey, hf, hin]

/-- ST(us)= and ET(us)= are there if TCST(us)= and TCET(us)= are -/
theorem accepted_iff {str : Text} : Accepted str ↔ urlIDMark <:+: str ∧ tcstKey <:+: str ∧ tcetKey <:+: str := by
  have hst : tcstKey <:+: str → hasKey stKey str := fun h => hasKey_iff.2 ((by decide : stKey <:+: tcstKey).trans h)
  have het : tcetKey <:+: str → hasKey etKey str := fun h => hasKey_iff.2 ((by decide : etKey <:+: tcetKey).trans h)
  rw [← hasKey_iff, ← hasKey_iff, ← hasKey_iff] at *
  unfold Accepted isError isSilent
  cases hasKey urlIDMark str <;> cases htcst : hasKey tcstKey str <;> cases htcet : hasKey tcetKey str <;> simp_all

/-- a string that is not accepted gives no record -/
theorem no_record_of_not_accepted {s t : St} {str : Text} {o : Outcome Record} (hno : ¬ Accepted str)
    (h : step s str = some (t, o)) : o = .error ∨ o = .records [] := by
  obtain ⟨herror, hsilent⟩ := step_classified s str t o h
  rw [herror, hsilent]
  by_contra hneither
  obtain ⟨h1, h2⟩ := not_or.1 hneither
  exact hno ⟨Bool.eq_false_iff.2 h1, Bool.eq_false_iff.2 h2⟩

/-- a string with all fields gives a record, if the times have the same number of digits -/
theorem step_of_fields {s : St} {str id category t₁ t₂ : Text} {b₁ b₂ b₃ b₄ : TimeBuf} (hid : getID str = some id)
    (htcst : getTCST str s.tcst = some (true, b₁)) (htcet : getTCET str s.tcet = some (true, b₂))
    (hst : getST str s.st = some (true, b₃)) (het : getET str s.et = some (true, b₄)) (hcat : getCategory str = some category)
    (h₁ : cstr b₁ = some t₁) (h₂ : cstr b₂ = some t₂) (hlen : t₁.length = t₂.length) :
    ∃ t rt, step s str = some (t, .records [⟨id, t₁, t₂, rt, category⟩]) := by
  have hpeek : peek t₂.length b₁ = some t₁ := hlen ▸ peek_cstr h₁
  have hrt : getTimeInterval b₁ b₂ = some (subDigits t₁ t₂).2 := by simp [getTimeInterval, h₂, hpeek]
  refine ⟨⟨b₁, b₂, b₃, b₄⟩, (subDigits t₁ t₂).2, ?_⟩
  simp [step, stepTC, require, hid, htcst, htcet, hst, het, hcat, hrt, h₁, h₂]

/-- what should be read from the line of a request that went to the connector -/
structure ReadBack (p : Page) (n : ℤ) (r : RequestRec) (current_time : ℤ) (s : St) (str : Text) : Prop where
  accepted : Accepted str
  id : getID str = some (longText n)
  category : getCategory str = some p.category
  st : ∃ b, getST str s.st = some (true, b) ∧ cstr b = some (longText r.request_time)
  et : ∃ b, getET str s.et = some (true, b) ∧ cstr b = some (longText current_time)
  tcst : ∃ b, getTCST str s.tcst = some (true, b) ∧ cstr b = some (longText r.connector_start_time)
  tcet : ∃ b, getTCET str s.tcet = some (true, b) ∧ cstr b = some (longText r.connector_end_time)
  recorded : (longText r.connector_start_time).length = (longText r.connector_end_time).length →
    ∃ t rt, step s str = some (t, .records [⟨longText n, longText r.connector_start_time, longText r.connector_end_time, rt,
      p.category⟩])

/-- the strings that the loop reads for a line -/
def lineStrings (line : Text) : List Text := readLines max_line_length (line.length + 1) (line ++ ['\n'])

section

variable {g : URLGenerator} {p : Page} (hp : IsRequestURL g p) (n : ℤ) (r : RequestRec) (current_time : ℤ)

include hp

/-- the line of a request that went to the connector -/
theorem readBack_iff (hg : g.version = .servlets) (hn : (longText n).length < max_id_length)
    (hstart : r.connector_start_time ≠ 0) (s : St) (rest : Text) :
    ReadBack p n r current_time s (fgets (max_line_length - 1) (logLine g p n r current_time ++ '\n' :: rest)).1 ↔
      r.connector_end_time = current_time ∧ IDShown g p n r current_time := by
  have hid := getID_logLine_iff hp n r current_time hn rest
  constructor
  · intro h
    refine ⟨?_, hid.1 h.id⟩
    obtain ⟨more, hmore⟩ := upToQuery_of_getID hp n r current_time h.id
    obtain ⟨b, hb, ht⟩ := h.et
    rw [hmore, upToQuery, List.append_assoc, List.cons_append] at hb
    obtain ⟨b', hb', ht'⟩ := getET_connector hstart current_time _ s.et
    rw [hb, Option.some.injEq, Prod.mk.injEq] at hb'
    rw [hb'.2] at ht
    exact longText_injective (Option.some.inj (ht'.symm.trans ht))
  · intro ⟨hend, hshown⟩
    have hfound := hid.2 hshown
    obtain ⟨more, hmore⟩ := upToQuery_of_getID hp n r current_time hfound
    have hcat := getCategory_line hg p r current_time more
    rw [← hmore] at hcat
    have hstr : (fgets (max_line_length - 1) (logLine g p n r current_time ++ '\n' :: rest)).1 =
        lineHead r current_time ++ '"' :: ((methodText ++ g.path p) ++ '?' :: more) := by
      rw [hmore, upToQuery, List.append_assoc, List.cons_append]
    obtain ⟨b₁, htcst, h₁⟩ := getTCST_line hstart current_time ((methodText ++ g.path p) ++ '?' :: more) s.tcst
    obtain ⟨b₂, htcet, h₂⟩ := getTCET_line hstart current_time ((methodText ++ g.path p) ++ '?' :: more) s.tcet
    obtain ⟨b₃, hst, h₃⟩ := getST_line hstart current_time ((methodText ++ g.path p) ++ '?' :: more) s.st
    obtain ⟨b₄, het, h₄⟩ := getET_connector hstart current_time ((methodText ++ g.path p) ++ '?' :: more) s.et
    rw [← hstr] at htcst htcet hst het
    exact
      { accepted := accepted_iff.2 ⟨hasKey_iff.1 (hasKey_of_getID hfound), hasKey_iff.1 (getField_ok htcst).symm,
          hasKey_iff.1 (getField_ok htcet).symm⟩
        id := hfound
        category := hcat
        st := ⟨b₃, hst, h₃⟩
        et := ⟨b₄, het, hend ▸ h₄⟩
        tcst := ⟨b₁, htcst, h₁⟩
        tcet := ⟨b₂, htcet, h₂⟩
        recorded := fun hlen => step_of_fields hfound htcst htcet hst het hcat h₁ h₂ hlen }

/-- without a comment table that is written as it is, the line of another request has no TCST(us)= -/
theorem tcst_notIn_logLine (hstart : r.connector_start_time = 0) (hraw : p.rawTable = none) :
    ¬ tcstKey <:+: logLine g p n r current_time := by
  have hhead : 'C' ∉ lineHead r current_time := by
    have hskip : 'C' ∉ lineStart r := notMem_lineStart (by decide) r
    have hfield : ∀ {k : Text} {t : ℤ}, 'C' ∉ k → 'C' ∉ timeField k t := fun hk => notMem_timeField hk (by decide) _
    rw [lineHead_eq, logRequestDurationMicroseconds, if_pos hstart]
    simp only [List.mem_append, List.mem_cons, not_or, hskip, hfield (show 'C' ∉ "ST(us)=".toList by decide),
      hfield (show 'C' ∉ "ET(us)=".toList by decide), hfield (show 'C' ∉ "RT(us)=".toList by decide), not_false_eq_true,
      true_and, and_true]
    decide
  have hfields : URLGenerator.NoRaw p.fields := by
    have hsplit := p.fields_split
    rw [hraw] at hsplit
    exact hsplit
  have hpath : '(' ∉ methodText ++ g.path p := by
    have hbase : '(' ∉ g.path p := fun h => absurd (g.isBaseChar_of_mem_path p h) (by decide)
    have hmethod : '(' ∉ methodText := by decide
    simp [hbase, hmethod]
  have hquery : '(' ∉ g.query (longText n) p.fields ++ behindQuery r := by
    have hq : '(' ∉ g.query (longText n) p.fields :=
      g.notMem_query (g.notMem_value hfields (by decide)) (notMem_longText (by decide)) (by decide) (by decide)
    have hprotocol : '(' ∉ protocolText := by decide
    have hstatus : '(' ∉ logStatus r.status := by
      unfold logStatus
      split_ifs <;> simp [notMem_longText (show isNumChar '(' = false by decide)]
    have hbytes : '(' ∉ clfLogBytesSent r.bytes_sent := by
      unfold clfLogBytesSent
      split_ifs <;> simp [notMem_natText (show '('.isDigit = false by decide)]
    simp [behindQuery, hq, hprotocol, hstatus, hbytes]
  rw [logLine_eq hp, upToQuery, List.append_assoc, List.cons_append, infix_append_cons (by decide),
    infix_append_cons (by decide)]
  rintro (h | h | h)
  · exact not_infix_of_mem (by decide) hhead h
  · exact not_infix_of_mem (by decide) hpath h
  · exact not_infix_of_mem (by decide) hquery h

/-- the line of a request that did not go to the connector -/
theorem no_record_iff (hstart : r.connector_start_time = 0) :
    (∀ str ∈ lineStrings (logLine g p n r current_time), ¬ Accepted str) ↔
      ∀ t, p.rawTable = some t → ∀ str ∈ lineStrings (logLine g p n r current_time),
        ¬ (urlIDMark <:+: str ∧ tcstKey <:+: str ∧ tcetKey <:+: str) := by
  simp only [accepted_iff]
  constructor
  · exact fun h _ _ => h
  · intro h str hstr hkeys
    cases hraw : p.rawTable with
    | some t => exact h t hraw str hstr hkeys
    | none =>
      have hin : tcstKey <:+: logLine g p n r current_time ++ ['\n'] := hkeys.2.1.trans (infix_of_mem_readLines hstr)
      rw [infix_append_cons (by decide)] at hin
      exact absurd hin (not_or.2 ⟨tcst_notIn_logLine hp n r current_time hstart hraw, by decide⟩)

end

/-- **Access log.** For every page of the servlet version whose URL has only characters of a URL, every urlID of at most 19
characters and all times: the line of a request that went to the connector is read back exactly if the connector ended at the
current time and the id is shown; the line of another request gives no record exactly if no comment table brings the keys of
the connector's times. -/
theorem access_log_iff (g : URLGenerator) (hg : g.version = .servlets) (p : Page) (hp : IsRequestURL g p) (n : ℤ)
    (hn : (longText n).length < max_id_length) (r : RequestRec) (current_time : ℤ) (_hcur : IsTime current_time) (s : St)
    (rest : Text) :
    (if r.connector_start_time = 0 then ∀ str ∈ lineStrings (logLine g p n r current_time), ¬ Accepted str
      else ReadBack p n r current_time s (fgets (max_line_length - 1) (logLine g p n r current_time ++ '\n' :: rest)).1) ↔
    if r.connector_start_time = 0 then
      ∀ t, p.rawTable = some t → ∀ str ∈ lineStrings (logLine g p n r current_time),
        ¬ (urlIDMark <:+: str ∧ tcstKey <:+: str ∧ tcetKey <:+: str)
    else r.connector_end_time = current_time ∧ IDShown g p n r current_time := by
  split_ifs with hstart
  · exact no_record_iff hp n r current_time hstart
  · exact readBack_iff hp n r current_time hg hn hstart s rest

/-- a request that went to Tomcat and came back a millisecond before it was logged -/
def aRequest : RequestRec where
  useragent_ip := "10.0.0.1".toList
  request_time := 1417392005000000
  exploded := ⟨5, 0, 0, 1, 11, 114, -18000⟩
  connector_start_time := 1417392005001000
  connector_end_time := 1417392005003000
  status := 200
  bytes_sent := 512
  ip_chars := by decide
  request_ok := by decide
  start_ok := by decide
  end_ok := by decide

theorem isRequestURL_viewStory : IsRequestURL site (.viewStory 5) :=
  ⟨by decide +kernel, fun t ht => by cases ht⟩

/-- logged in the very microsecond in which the connector ended, it is read back -/
theorem read_back_at_end :
    ReadBack (.viewStory 5) 7 aRequest 1417392005003000 parser.init
      (fgets (max_line_length - 1) (logLine site (.viewStory 5) 7 aRequest 1417392005003000 ++ ['\n'])).1 := by
  have hlen : (logLine site (.viewStory 5) 7 aRequest 1417392005003000).length < 1000 := by decide +kernel
  have hshown : IDShown site (.viewStory 5) 7 aRequest 1417392005003000 := by
    intro i hi
    have hle := (find_eq_some hi).1
    have hseven : (longText 7).length = 1 := by decide
    refine ⟨?_, fun t j ht => by cases ht⟩
    simp only [max_line_length]
    omega
  have h := (access_log_iff site rfl (.viewStory 5) isRequestURL_viewStory 7 (by decide) aRequest 1417392005003000 (by decide)
    parser.init []).2
  exact h ⟨rfl, hshown⟩

/-- a millisecond later, the end of the connector is read for the end of the request -/
theorem connector_end_for_end :
    (getET (fgets (max_line_length - 1) (logLine site (.viewStory 5) 7 aRequest 1417392005004000 ++ ['\n'])).1
        parser.init.et).bind (fun x => cstr x.2) = some "1417392005003000".toList ∧
      ¬ ReadBack (.viewStory 5) 7 aRequest 1417392005004000 parser.init
        (fgets (max_line_length - 1) (logLine site (.viewStory 5) 7 aRequest 1417392005004000 ++ ['\n'])).1 := by
  have het : (getET (fgets (max_line_length - 1) (logLine site (.viewStory 5) 7 aRequest 1417392005004000 ++ ['\n'])).1
      parser.init.et).bind (fun x => cstr x.2) = some "1417392005003000".toList := by decide +kernel
  refine ⟨het, fun h => ?_⟩
  obtain ⟨b, hb, hcur⟩ := h.et
  rw [hb, Option.bind_some, hcur] at het
  exact absurd het (by decide)

end Rubbos.Parsers.Apacheparser
