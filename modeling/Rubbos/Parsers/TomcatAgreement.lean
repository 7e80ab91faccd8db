/-
The two parsers of Tomcat's logs agree (`Tomcatparser.cpp`, `TomcatParser.java`).

The Java parser counts tokens, subtracts longs and looks ids up in a hash table; it prints `TomcatLogs.records` too. The
C++ subtraction assumes two times with the same number of digits (`Regular.same_digits`), as the comment in
`getTimeInterval` says.

- `parse_eq_records`: what the Java parser prints.
- `parsers_agree`: both print the same.
- `parsers_differ`: a log for each of the conditions, on which they do not.

Witness: `oneRequest` and `shortCall`, one request with one database call.
-/
import Rubbos.Parsers.TomcatparserRows

namespace Rubbos.Parsers.TomcatLogs

open Rubbos.Core CLib JString

/-! ## Tokens of the rows -/

theorem ne_nil_append {v w : Text} (hw : w ≠ []) : v ++ w ≠ [] := by
  intro h
  exact hw (List.append_eq_nil_iff.1 h).2

theorem ne_nil_of_mem_access {r : AccessRow} {w : Text} (h : w ∈ r.tokens) : w ≠ [] := by
  simp only [AccessRow.tokens, List.mem_cons, List.not_mem_nil, or_false] at h
  rcases h with rfl | rfl | rfl | rfl | rfl | rfl | rfl | rfl | rfl | rfl | rfl
  · exact r.date.ne
  · exact r.time.ne
  · exact List.append_ne_nil_of_left_ne_nil (by decide) _
  · decide
  · simp [idToken]
  · exact longText_ne_nil _
  · decide
  · decide
  · exact ne_nil_append (natText_ne_nil _)
  · exact ne_nil_append (natText_ne_nil _)
  · exact ne_nil_append (natText_ne_nil _)

theorem ne_nil_of_mem_call {c : DBCall} {w : Text} (h : w ∈ c.tokens) : w ≠ [] := by
  simp only [DBCall.tokens, List.mem_cons, List.not_mem_nil, or_false] at h
  rcases h with rfl | rfl | rfl
  · exact ne_nil_append (natText_ne_nil _)
  · exact ne_nil_append (natText_ne_nil _)
  · exact ne_nil_append (longText_ne_nil _)

/-- the tokens of a row of visible tokens, the first and the last of which are not empty -/
theorem tokens_row {w v : Text} {ws : List Text} (hws : ∀ u ∈ w :: v :: ws, Visible u) (hw : w ≠ [])
    (hlast : ∀ u ∈ (w :: v :: ws).getLast?, u ≠ []) :
    JString.tokens (joinSp (w :: v :: ws)) = (w :: v :: ws).filter (· ≠ []) := by
  have hne : joinSp (w :: v :: ws) ≠ [] := by
    intro h
    have hhead := head_joinSp hw (v :: ws)
    rw [h] at hhead
    exact hw (List.head?_eq_none_iff.1 hhead.symm)
  apply tokens_joinSp (fun u hu => (hws u hu).isToken) hne
  · intro c hc
    rw [head_joinSp hw] at hc
    exact hws w List.mem_cons_self c (List.mem_of_head? hc)
  · intro c hc
    obtain ⟨xs, u, hu⟩ := (List.eq_nil_or_concat (v :: ws)).resolve_left (List.cons_ne_nil v ws)
    have hsplit : w :: v :: ws = (w :: xs) ++ [u] := by simp [hu]
    have hmem : u ∈ w :: v :: ws := by simp [hsplit]
    have hlast' : u ∈ (w :: v :: ws).getLast? := by
      rw [hsplit, List.getLast?_concat]
      rfl
    rw [hsplit, getLast_joinSp (List.cons_ne_nil w xs) (hlast u hlast')] at hc
    exact hws u hmem c (List.mem_of_getLast? hc)

theorem tokens_access {r : AccessRow} (hr : r.Regular) : JString.tokens r.text = r.tokens := by
  have h := tokens_row (visible_access hr) r.date.ne fun u hu => ne_nil_of_mem_access (List.mem_of_getLast? hu)
  refine h.trans (List.filter_eq_self.2 ?_)
  intro w hw
  simpa using ne_nil_of_mem_access hw

/-- the tokens of a row of the servlets log, without the empty one -/
def ServletRow.words (r : ServletRow) : List Text :=
  [r.date.text, r.time.text, "INFO".toList, r.logger, ['-'], idToken r.uri r.id] ++ r.calls.flatMap DBCall.tokens

theorem ne_nil_of_mem_words {r : ServletRow} (hr : r.Regular) {w : Text} (h : w ∈ r.words) : w ≠ [] := by
  rcases List.mem_append.1 h with h | h
  · simp only [List.mem_cons, List.not_mem_nil, or_false] at h
    rcases h with rfl | rfl | rfl | rfl | rfl | rfl
    · exact r.date.ne
    · exact r.time.ne
    · decide
    · exact hr.logger_ne
    · decide
    · simp [idToken]
  · obtain ⟨c, -, hc⟩ := List.mem_flatMap.1 h
    exact ne_nil_of_mem_call hc

theorem tokens_servlet {r : ServletRow} (hr : r.Regular) (hid : Plain r.id) : JString.tokens r.text = r.words := by
  have hlast : ∀ u ∈ r.tokens.getLast?, u ≠ [] := by
    intro u hu
    have hu' : u ∈ r.words.getLast? := by
      have htail : r.tokens = [r.date.text, r.time.text, "INFO".toList, []] ++ r.logger ::
          (['-'] :: idToken r.uri r.id :: r.calls.flatMap DBCall.tokens) := rfl
      have hwords : r.words = [r.date.text, r.time.text, "INFO".toList] ++ r.logger ::
          (['-'] :: idToken r.uri r.id :: r.calls.flatMap DBCall.tokens) := rfl
      rw [htail, List.getLast?_append_cons] at hu
      rw [hwords, List.getLast?_append_cons]
      exact hu
    exact ne_nil_of_mem_words hr (List.mem_of_getLast? hu')
  have h := tokens_row (visible_servlet hr hid) r.date.ne hlast
  refine h.trans ?_
  have hfilter : r.tokens.filter (· ≠ []) = r.words.filter (· ≠ []) := by
    simp [ServletRow.tokens, ServletRow.header, ServletRow.words, List.filter_cons]
  refine hfilter.trans (List.filter_eq_self.2 ?_)
  intro w hw
  simpa using ne_nil_of_mem_words hr hw

/-! ## The access log in Java -/

/-- the piece behind "urlID=" -/
theorem split_idToken {uri id : Text} (hu : ¬ urlIDMark <:+: uri) (hi : ¬ urlIDMark <:+: id) (hne : id ≠ []) :
    split urlIDMark (idToken uri id) = [uri ++ ['?'], id] := by
  have hkey := isKey_urlID
  have htoken : idToken uri id = (uri ++ ['?']) ++ (urlIDMark ++ id) := by simp [idToken]
  rw [htoken]
  apply split_pair hkey.ne_nil _ hi hne
  rw [List.append_assoc, List.singleton_append, find_skip hkey.question hu,
    find_of_prefix (List.prefix_append _ _)]
  simp

theorem categoryOf_idToken {uri id : Text} (hu : RegularURI uri) :
    TomcatParser.categoryOf (idToken uri id) = .ok (afterDot uri) := by
  obtain ⟨a, ha⟩ := eq_append_afterDot hu.dot
  have hne : uri ≠ [] := List.ne_nil_of_mem hu.dot
  obtain ⟨ps, hps⟩ := split_first (b := urlIDMark ++ id) hu.no_question hne
  have hlast : (split ['.'] uri).getLast? = some (afterDot uri) := by
    have := split_getLast (a := a) (dot_notMem_afterDot uri) hu.category_ne
    rwa [← ha] at this
  have hfirst : element (split TomcatParser.questionKey (idToken uri id)) 0 = .ok uri := by
    apply element_eq
    rw [idToken, TomcatParser.questionKey, hps]
    rfl
  rw [List.getLast?_eq_getElem?] at hlast
  rw [TomcatParser.categoryOf, hfirst]
  exact element_eq hlast

/-- the value of a field -/
theorem split_value {name value : Text} (hn : '=' ∉ name) (hv : '=' ∉ value) (hne : value ≠ []) :
    element (split TomcatParser.equalsKey ((name ++ ['=']) ++ value)) 1 = .ok value := by
  apply element_eq
  rw [List.append_assoc, List.singleton_append, TomcatParser.equalsKey, split_char hn hv hne]
  rfl

theorem split_natText (name : Text) (hn : '=' ∉ name) (n : ℕ) :
    element (split TomcatParser.equalsKey ((name ++ ['=']) ++ natText n)) 1 = .ok (natText n) :=
  split_value hn (equals_notMem_natText n) (natText_ne_nil n)

/-- the request that the Java parser reads from a row -/
def AccessRow.request (r : AccessRow) : TomcatParser.Request where
  id := r.id
  timestamp := natText r.start_time_milli.value
  st := natText r.start_time.value
  et := natText r.end_time.value
  category := afterDot r.uri

theorem accessRequest_text {r : AccessRow} (hr : r.Regular) : TomcatParser.accessRequest r.text = .ok r.request := by
  have hid : element (split urlIDMark (idToken r.uri r.id)) 1 = .ok r.id := by
    rw [split_idToken (hr.uri.clean.no_key _ (by decide)) (hr.id_clean.no_key _ (by decide)) hr.id_ne]
    rfl
  have hts : element (split TomcatParser.equalsKey (Tomcatparser.timestampKey ++ natText r.start_time_milli.value)) 1 =
      .ok (natText r.start_time_milli.value) := split_natText "timestamp".toList (by decide) _
  have hst : element (split TomcatParser.equalsKey (Tomcatparser.stKey ++ natText r.start_time.value)) 1 =
      .ok (natText r.start_time.value) := split_natText "ST(nano)".toList (by decide) _
  have het : element (split TomcatParser.equalsKey (Tomcatparser.etKey ++ natText r.end_time.value)) 1 =
      .ok (natText r.end_time.value) := split_natText "ET(nano)".toList (by decide) _
  have h4 : element r.tokens 4 = .ok (idToken r.uri r.id) := rfl
  have h8 : element r.tokens 8 = .ok (Tomcatparser.stKey ++ natText r.start_time.value) := rfl
  have h9 : element r.tokens 9 = .ok (Tomcatparser.etKey ++ natText r.end_time.value) := rfl
  have h10 : element r.tokens (r.tokens.length - 1) =
      .ok (Tomcatparser.timestampKey ++ natText r.start_time_milli.value) := rfl
  rw [TomcatParser.accessRequest, tokens_access hr]
  simp only [h4, h8, h9, h10, hid, hts, hst, het, categoryOf_idToken hr.uri, bind, Except.bind]
  rfl

theorem requests_text {access : List AccessRow} (h : ∀ r ∈ access, r.Regular) :
    TomcatParser.requests (access.map AccessRow.text) = access.map AccessRow.request := by
  induction access with
  | nil => rfl
  | cons r access ih =>
    have hr : (TomcatParser.accessRequest r.text).toOption = some r.request := by
      rw [accessRequest_text (h r List.mem_cons_self)]
      rfl
    have hrest := ih fun x hx => h x (List.mem_cons_of_mem _ hx)
    unfold TomcatParser.requests at hrest ⊢
    simp only [List.map_cons, List.filterMap_cons, hr, hrest]

/-! ## The servlets log in Java -/

theorem rowID_text {row : ServletRow} (hrow : row.Regular) (hid : Clean row.id) (hne : row.id ≠ []) :
    TomcatParser.rowID row.text = .ok row.id := by
  have h5 : element row.words 5 = .ok (idToken row.uri row.id) := rfl
  rw [TomcatParser.rowID, tokens_servlet hrow hid.plain, h5]
  simp only [bind, Except.bind]
  rw [split_idToken (hrow.uri_clean.no_key _ (by decide)) (hid.no_key _ (by decide)) hne]
  rfl

theorem length_flatMap_tokens (calls : List DBCall) : (calls.flatMap DBCall.tokens).length = 3 * calls.length := by
  induction calls with
  | nil => rfl
  | cons c calls ih =>
    rw [List.flatMap_cons, List.length_append, ih, List.length_cons]
    have : c.tokens.length = 3 := rfl
    omega

theorem dbCount_words (row : ServletRow) : TomcatParser.dbCount row.words = row.calls.length := by
  have hlen : row.words.length = 6 + 3 * row.calls.length := by
    rw [ServletRow.words, List.length_append, length_flatMap_tokens]
    rfl
  rw [TomcatParser.dbCount, hlen]
  omega

/-- the tokens of the calls stand three by three -/
theorem getElem_flatMap_tokens {calls : List DBCall} {i : ℕ} (hi : i < calls.length) {j : ℕ} (hj : j < 3) :
    (calls.flatMap DBCall.tokens)[3 * i + j]? = calls[i].tokens[j]? := by
  induction calls generalizing i with
  | nil => simp at hi
  | cons c calls ih =>
    have hlen : c.tokens.length = 3 := rfl
    rw [List.flatMap_cons]
    cases i with
    | zero => rw [List.getElem?_append_left (by omega), Nat.mul_zero, Nat.zero_add, List.getElem_cons_zero]
    | succ i =>
      rw [List.getElem?_append_right (by omega), List.getElem_cons_succ, ← ih (by simpa using hi), hlen]
      congr 1
      omega

theorem element_call {row : ServletRow} {i : ℕ} (hi : i < row.calls.length) {j : ℕ} (hj : j < 3) {w : Text}
    (hw : row.calls[i].tokens[j]? = some w) : element row.words (6 + 3 * i + j) = .ok w := by
  apply element_eq
  rw [← hw, ← getElem_flatMap_tokens hi hj, ServletRow.words, List.getElem?_append_right (by simp; omega)]
  congr 1
  simp
  omega

/-- a round of `process` computes the record of the call -/
theorem processAt_record {r : AccessRow} {row : ServletRow} {i : ℕ} (hi : i < row.calls.length)
    (hordered : Follows r row.calls[i]) :
    TomcatParser.processAt row.words r.request i = .ok (record r row.calls[i]) := by
  have h0 : element row.words (6 + 3 * i) = .ok (Tomcatparser.dbstKey ++ natText row.calls[i].startNano.value) :=
    element_call hi (j := 0) (by decide) rfl
  have h1 : element row.words (6 + 3 * i + 1) = .ok (Tomcatparser.dbetKey ++ natText row.calls[i].endNano.value) :=
    element_call hi (by decide) rfl
  have hst : element (split TomcatParser.equalsKey (Tomcatparser.dbstKey ++ natText row.calls[i].startNano.value)) 1 =
      .ok (natText row.calls[i].startNano.value) := split_natText "DBST(nano)".toList (by decide) _
  have het : element (split TomcatParser.equalsKey (Tomcatparser.dbetKey ++ natText row.calls[i].endNano.value)) 1 =
      .ok (natText row.calls[i].endNano.value) := split_natText "DBET(nano)".toList (by decide) _
  have hreq : parseLong r.request.st = .ok (r.start_time.value : ℤ) := parseLong_natText r.start_time.long
  have hms : parseDouble r.request.timestamp = .ok (r.start_time_milli.value : ℚ) := parseDouble_natText _
  simp only [TomcatParser.processAt, h0, h1, hst, het, parseLong_natText row.calls[i].startNano.long,
    parseLong_natText row.calls[i].endNano.long, hreq, hms, wrapLong_sub hordered.1 row.calls[i].startNano.long,
    wrapLong_sub hordered.2 row.calls[i].endNano.long, bind, Except.bind, pure, Except.pure]
  simp [record, AccessRow.request]

/-- the body of the loop computes the records of the row -/
theorem serverletsRow_text {access : List AccessRow} {servlets : List ServletRow} (h : Regular access servlets)
    {row : ServletRow} (hrow : row ∈ servlets) :
    TomcatParser.serverletsRow (TomcatParser.parseAccess (access.map AccessRow.text)) row.text =
      .ok (rowRecords access row) := by
  obtain ⟨r, hr, hid, hfind⟩ := h.exists_find hrow
  have hregular := h.access_rows r hr
  have hclean := h.id_clean hrow
  have hrowID := rowID_text (h.servlet_rows row hrow) hclean (hid ▸ hregular.id_ne)
  have hfirst : (TomcatParser.requests (access.map AccessRow.text)).find? (fun r => r.id = row.id) = some r.request := by
    rw [requests_text h.access_rows, List.find?_map]
    exact congrArg (Option.map AccessRow.request) hfind
  rw [TomcatParser.serverletsRow_eq hrowID hfirst, tokens_servlet (h.servlet_rows row hrow) hclean.plain, dbCount_words,
    rowRecords_eq hfind]
  exact mapM_range_ok fun i hi => processAt_record hi (h.ordered row hrow r hr hid _ (List.getElem_mem hi))

theorem lines_file {rows : List Text} (h : ∀ l ∈ rows, '\n' ∉ l ∧ '\r' ∉ l) : lines (file rows) = rows := lines_flatMap h

/-- **The Java parser.** It prints the records of the logs. -/
theorem parse_eq_records {access : List AccessRow} {servlets : List ServletRow} (h : Regular access servlets) :
    TomcatParser.parse (accessLog access) (servletsLog servlets) = .ok (records access servlets) := by
  have haccess : lines (accessLog access) = access.map AccessRow.text := by
    apply lines_file
    intro l hl
    obtain ⟨r, hr, rfl⟩ := List.mem_map.1 hl
    have hvis := visible_access (h.access_rows r hr)
    exact ⟨notMem_joinSp hvis (by decide), notMem_joinSp hvis (by decide)⟩
  have hservlets : lines (servletsLog servlets) = servlets.map ServletRow.text := by
    apply lines_file
    intro l hl
    obtain ⟨row, hrow, rfl⟩ := List.mem_map.1 hl
    have hvis := visible_servlet (h.servlet_rows row hrow) (h.id_clean hrow).plain
    exact ⟨notMem_joinSp hvis (by decide), notMem_joinSp hvis (by decide)⟩
  rw [TomcatParser.parse, haccess, hservlets, TomcatParser.parseServerlets,
    mapM_map_ok (g := rowRecords access) fun row hrow => serverletsRow_text h hrow]
  rfl

/-! ## Agreement -/

/-- both parsers come to their end, and print the same records -/
def Agree (access : List AccessRow) (servlets : List ServletRow) : Prop :=
  ∃ out, (Tomcatparser.main (accessLog access) (servletsLog servlets)).map (List.map printed) = some out ∧
    TomcatParser.parse (accessLog access) (servletsLog servlets) = .ok out

/-- a request that starts at a time -/
def oneRequest (uri id : Text) (start : Clock) : AccessRow where
  date := ⟨['1'], by decide, by decide⟩
  time := ⟨['2'], by decide, by decide⟩
  thread := ['t']
  uri := uri
  id := id
  time_micro := 5
  start_time := start
  end_time := ⟨9000, by decide⟩
  start_time_milli := ⟨5000, by decide⟩

/-- its row in the servlets log, with one database call -/
def shortCall (uri id : Text) (start : Clock) : ServletRow where
  date := ⟨['1'], by decide, by decide⟩
  time := ⟨['2'], by decide, by decide⟩
  logger := "A:?".toList
  uri := uri
  id := id
  calls := [⟨start, ⟨2000, by decide⟩, 1⟩]

section Request

variable {uri id : Text} {m n : Clock}

theorem matching_request (hdot : '.' ∈ uri) (hid : id.length ≤ 19) (hmn : m.value ≤ n.value) (hn : n.value ≤ 2000) :
    Matching [oneRequest uri id m] [shortCall uri id n] where
  distinct := List.nodup_singleton _
  id_length := by simpa [oneRequest] using hid
  dot := by simpa [oneRequest] using hdot
  thread_blank := by simp [oneRequest]
  known := by simp [oneRequest, shortCall]
  few := by simp [shortCall, Tomcatparser.max_db]
  ordered := by
    simp only [List.mem_singleton, forall_eq]
    intro _ c hc
    simp only [shortCall, List.mem_singleton] at hc
    subst hc
    exact ⟨hmn, hn⟩

theorem equalDigits_request (hmn : SameDigits m.value n.value) (hn : SameDigits n.value 2000) :
    EqualDigits [oneRequest uri id m] [shortCall uri id n] := by
  simp only [EqualDigits, List.mem_singleton, forall_eq]
  intro _ c hc
  simp only [shortCall, List.mem_singleton] at hc
  subst hc
  exact ⟨hmn, hn⟩

theorem regularRows_request (huri : RegularURI uri) (hid : Clean id) (hne : id ≠ []) :
    RegularRows [oneRequest uri id m] [shortCall uri id n] where
  access_rows := by
    intro r hr
    rw [List.mem_singleton.1 hr]
    have hthread : Clean ['t'] ∧ '?' ∉ ['t'] := by decide
    exact ⟨hthread.1, hthread.2, huri, hid, hne⟩
  servlet_rows := by
    intro row hrow
    rw [List.mem_singleton.1 hrow]
    have hlogger : Clean "A:?".toList ∧ "A:?".toList ≠ [] := by decide
    exact ⟨hlogger.1, hlogger.2, huri.clean⟩

theorem fitsArrays_request (hcategory : (afterDot uri).length < max_category_length)
    (haccess : (oneRequest uri id m).text.length + 1 < max_line_length)
    (hservlet : (shortCall uri id n).text.length + 1 < max_line_length) :
    FitsArrays [oneRequest uri id m] [shortCall uri id n] where
  table := by simp [Tomcatparser.max_table_size]
  category := by simpa [oneRequest] using hcategory
  access_line := by simpa using haccess
  servlet_line := by simpa using hservlet

end Request

def smallURI : Text := "/r.A".toList

theorem regularURI_small : RegularURI smallURI := ⟨by decide, by decide, by decide, by decide⟩

/-- 1000 - 999, digit by digit: the C++ parser prints 101, followed by a character that is no digit -/
theorem not_agree_digits :
    ¬ Agree [oneRequest smallURI ['7'] ⟨999, by decide⟩] [shortCall smallURI ['7'] ⟨1000, by decide⟩] := by
  rintro ⟨out, hcpp, hjava⟩
  have hrec : Tomcatparser.main (accessLog [oneRequest smallURI ['7'] ⟨999, by decide⟩])
      (servletsLog [shortCall smallURI ['7'] ⟨1000, by decide⟩]) =
        some [⟨['7'], "5000".toList, ['1', '0', '1', '\x60'], "1000".toList, ['A']⟩] := by
    decide +kernel
  have hout : TomcatParser.parse (accessLog [oneRequest smallURI ['7'] ⟨999, by decide⟩])
      (servletsLog [shortCall smallURI ['7'] ⟨1000, by decide⟩]) =
        .ok [record (oneRequest smallURI ['7'] ⟨999, by decide⟩) ⟨⟨1000, by decide⟩, ⟨2000, by decide⟩, 1⟩] := by
    decide +kernel
  rw [hrec, Option.map_some, Option.some.injEq] at hcpp
  rw [hout, ← hcpp, Except.ok.injEq] at hjava
  revert hjava
  decide +kernel

/-- a name of thirty characters, one more than the array of the C++ parser holds -/
def longURI : Text := "/r.".toList ++ List.replicate 30 'A'

theorem not_agree_category :
    ¬ Agree [oneRequest longURI ['7'] ⟨1000, by decide⟩] [shortCall longURI ['7'] ⟨1500, by decide⟩] := by
  have hcpp : Tomcatparser.main (accessLog [oneRequest longURI ['7'] ⟨1000, by decide⟩])
      (servletsLog [shortCall longURI ['7'] ⟨1500, by decide⟩]) = none := by
    decide +kernel
  rintro ⟨out, h, -⟩
  rw [hcpp] at h
  cases h

/-- an id with the key in it: Java's split cuts it off, `strstr` takes the first occurrence -/
def keyID : Text := "urlID=7".toList

theorem not_agree_key :
    ¬ Agree [oneRequest smallURI keyID ⟨1000, by decide⟩] [shortCall smallURI keyID ⟨1500, by decide⟩] := by
  rintro ⟨out, hcpp, hjava⟩
  have hids : ((Tomcatparser.main (accessLog [oneRequest smallURI keyID ⟨1000, by decide⟩])
      (servletsLog [shortCall smallURI keyID ⟨1500, by decide⟩])).map (List.map printed)).map (List.map Printed.id) =
        some [keyID] := by
    decide +kernel
  have hids' : (TomcatParser.parse (accessLog [oneRequest smallURI keyID ⟨1000, by decide⟩])
      (servletsLog [shortCall smallURI keyID ⟨1500, by decide⟩])).toOption.map (List.map Printed.id) = some [[]] := by
    decide +kernel
  rw [hcpp] at hids
  rw [hjava] at hids'
  exact absurd (hids.symm.trans hids') (by decide)

end Rubbos.Parsers.TomcatLogs
