/-
What the C++ parser of Tomcat's logs prints (`Tomcatparser.cpp`), row by row.

Keys are found by substring search: a key is skipped over every token that does not hold it, and the tokens of a regular
row hold the keys only where they are meant. `getDB` goes on one character behind the DBET key it has found, so the proof
carries the tokens that are left (`DBCall.rest`). The buffers of the arrays keep what earlier rows have left in them; what
a row reads, it has written itself.

- `accessTable_lines`: the table has an entry for each request.
- `getDBLoop_calls`: the arrays hold the calls of a row.
- `main_eq_records`: the parser prints `TomcatLogs.records`.
-/
import Rubbos.Parsers.TomcatLogs

namespace Rubbos.Parsers.TomcatLogs

open Rubbos.Core CLib JString

/-- the line printed for a record of the C++ parser, in exact arithmetic -/
def printed (d : DBRecord) : Printed where
  id := d.id
  stimestamp := (atof d.timestamp + atof d.exet / 1000000) / 1000
  etimestamp := (atof d.timestamp + atof d.exet / 1000000 + atof d.rt / 1000000) / 1000
  category := d.category
  rt := atof d.rt / 1000000

/-! ## Keys -/

theorem isFieldKey_st : IsFieldKey Tomcatparser.stKey := ⟨.of_name "ST(nano)".toList rfl rfl, by decide⟩

theorem isFieldKey_et : IsFieldKey Tomcatparser.etKey := ⟨.of_name "ET(nano)".toList rfl rfl, by decide⟩

theorem isFieldKey_timestamp : IsFieldKey Tomcatparser.timestampKey := ⟨.of_name "timestamp".toList rfl rfl, by decide⟩

theorem isFieldKey_dbst : IsFieldKey Tomcatparser.dbstKey := ⟨.of_name "DBST(nano)".toList rfl rfl, by decide⟩

theorem isFieldKey_dbet : IsFieldKey Tomcatparser.dbetKey := ⟨.of_name "DBET(nano)".toList rfl rfl, by decide⟩

/-! ## The access log in C++ -/

/-- the tokens before the id -/
def AccessRow.head (r : AccessRow) : List Text := [r.date.text, r.time.text, threadMark ++ r.thread, pad]

/-- the tokens between the id and the fields -/
def AccessRow.mid (r : AccessRow) : List Text := [longText r.time_micro, pad, pad]

theorem plain_pad : Plain pad := by decide

theorem plain_head {r : AccessRow} (hr : r.Regular) : ∀ u ∈ r.head, Plain u := by
  have hthread : Plain (threadMark ++ r.thread) := by
    apply Plain.append _ hr.thread_clean.plain
    decide
  intro u hu
  simp only [AccessRow.head, List.mem_cons, List.not_mem_nil, or_false] at hu
  rcases hu with rfl | rfl | rfl | rfl
  · exact r.date.plain
  · exact r.time.plain
  · exact hthread
  · exact plain_pad

theorem plain_mid (r : AccessRow) : ∀ u ∈ r.mid, Plain u := by
  intro u hu
  simp only [AccessRow.mid, List.mem_cons, List.not_mem_nil, or_false] at hu
  rcases hu with rfl | rfl | rfl
  · exact plain_longText _
  · exact plain_pad
  · exact plain_pad

theorem not_infix_head {r : AccessRow} {key : Text} (hkey : IsKey key) (hthread : ¬ key <:+: r.thread) :
    ∀ u ∈ r.head, ¬ key <:+: u := by
  intro u hu
  simp only [AccessRow.head, List.mem_cons, List.not_mem_nil, or_false] at hu
  rcases hu with rfl | rfl | rfl | rfl
  · exact hkey.not_infix_plain (r.date.notMem rfl)
  · exact hkey.not_infix_plain (r.time.notMem rfl)
  · -- a key has no ':', so it does not begin in the mark
    rw [show threadMark ++ r.thread = "ThreaD".toList ++ ':' :: r.thread from rfl, infix_append_cons hkey.colon]
    rintro (h | h)
    · exact hkey.not_infix_plain (by decide) h
    · exact hthread h
  · exact hkey.not_infix_plain (by decide)

theorem not_infix_mid {r : AccessRow} {key : Text} (hkey : IsKey key) : ∀ u ∈ r.mid, ¬ key <:+: u := by
  intro u hu
  simp only [AccessRow.mid, List.mem_cons, List.not_mem_nil, or_false] at hu
  rcases hu with rfl | rfl | rfl
  · exact hkey.not_infix_plain (equals_notMem_longText _)
  · exact hkey.not_infix_plain (by decide)
  · exact hkey.not_infix_plain (by decide)

/-- the tokens before the fields hold no key of a field -/
theorem not_infix_front {r : AccessRow} (hr : r.Regular) {key : Text} (hkey : IsFieldKey key) (hmem : key ∈ keys) :
    ∀ u ∈ r.head ++ idToken r.uri r.id :: r.mid, ¬ key <:+: u := by
  intro u hu
  rcases List.mem_append.1 hu with h | h
  · exact not_infix_head hkey.toIsKey (hr.thread_clean.no_key key hmem) u h
  · rcases List.mem_cons.1 h with rfl | h
    · exact not_infix_idToken hkey (hr.uri.clean.no_key key hmem) (hr.id_clean.no_key key hmem)
    · exact not_infix_mid hkey.toIsKey u h

/-- a URI ends in the name behind its last '.' -/
theorem eq_append_afterDot {uri : Text} (h : '.' ∈ uri) : ∃ a, uri = a ++ '.' :: afterDot uri := by
  have hsplit := List.takeWhile_append_dropWhile (p := fun c => decide (c ≠ '.')) (l := uri.reverse)
  cases hd : uri.reverse.dropWhile (fun c => decide (c ≠ '.')) with
  | nil =>
    rw [List.dropWhile_eq_nil_iff] at hd
    have := hd '.' (by simpa using h)
    simp at this
  | cons c t =>
    have hne : uri.reverse.dropWhile (fun c => decide (c ≠ '.')) ≠ [] := by
      rw [hd]
      exact List.cons_ne_nil c t
    have hc : c = '.' := by
      have := List.head_dropWhile_not (fun c => decide (c ≠ '.')) hne
      simp only [hd, List.head_cons] at this
      simpa using this
    refine ⟨t.reverse, ?_⟩
    rw [hd, hc] at hsplit
    have hrev := congrArg List.reverse hsplit
    simpa [afterDot] using hrev.symm

theorem dot_notMem_afterDot (uri : Text) : '.' ∉ afterDot uri := by
  intro h
  have := List.mem_takeWhile_imp (List.mem_reverse.1 h)
  simp at this

theorem question_notMem_head {r : AccessRow} (hr : r.Regular) : ∀ u ∈ r.head, '?' ∉ u := by
  intro u hu
  simp only [AccessRow.head, List.mem_cons, List.not_mem_nil, or_false] at hu
  rcases hu with rfl | rfl | rfl | rfl
  · exact r.date.notMem rfl
  · exact r.time.notMem rfl
  · intro h
    rcases List.mem_append.1 h with h | h
    · exact absurd h (by decide)
    · exact hr.thread_no_question h
  · decide

theorem getCategory_line {r : AccessRow} (hr : r.Regular) (hfits : (afterDot r.uri).length < max_category_length)
    (post : List Text) :
    getCategory (joinSp (r.head ++ idToken r.uri r.id :: post) ++ ['\n']) = some (afterDot r.uri) := by
  obtain ⟨rest, hrest, -⟩ := joinSp_line (idToken r.uri r.id) post
  obtain ⟨a, ha⟩ := eq_append_afterDot hr.uri.dot
  have hsub : ∀ c ∈ afterDot r.uri, c ∈ r.uri := by
    intro c hc
    rw [ha]
    simp [hc]
  have hline : joinSp (r.head ++ idToken r.uri r.id :: post) ++ ['\n'] =
      (joinSp r.head ++ ' ' :: a) ++ '.' :: afterDot r.uri ++ '?' :: (urlIDMark ++ r.id ++ rest) := by
    rw [joinSp_append (by simp [AccessRow.head]), List.append_assoc, List.cons_append, hrest, idToken]
    nth_rewrite 1 [ha]
    simp
  have ha' : '?' ∉ a := fun h => hr.uri.no_question (by rw [ha]; simp [h])
  rw [hline]
  apply getCategory_found
  · intro h
    rcases List.mem_append.1 h with h | h
    · rcases mem_joinSp h with h | ⟨u, hu, hc⟩
      · exact absurd h (by decide)
      · exact question_notMem_head hr u hu hc
    · rcases List.mem_cons.1 h with h | h
      · exact absurd h (by decide)
      · exact ha' h
  · exact fun h => hr.uri.no_question (hsub _ h)
  · exact dot_notMem_afterDot _
  · exact hfits

/-- a field with a number holds a key only if its name ends in it -/
theorem not_infix_number {key : Text} (hkey : IsKey key) (name : Text) (hname : '=' ∉ name)
    (hend : ¬ key <:+ name ++ ['=']) {n : ℕ} : ¬ key <:+: (name ++ ['=']) ++ natText n :=
  not_infix_field hkey name hname hend (hkey.not_infix_plain (equals_notMem_natText n))

/-- what a field function leaves in its buffer -/
def Reads (key str : Text) (n : ℕ) : Prop :=
  ∀ b : TimeBuf, ∃ b', getField key str b = some (true, b') ∧ cstr b' = some (natText n)

theorem reads_st {r : AccessRow} (hr : r.Regular) : Reads Tomcatparser.stKey (r.text ++ ['\n']) r.start_time.value :=
  getField_field isFieldKey_st.toIsKey _ (not_infix_front hr isFieldKey_st (by decide)) r.start_time.long

theorem reads_et {r : AccessRow} (hr : r.Regular) : Reads Tomcatparser.etKey (r.text ++ ['\n']) r.end_time.value := by
  refine getField_field isFieldKey_et.toIsKey (r.head ++ idToken r.uri r.id :: r.mid ++
    [Tomcatparser.stKey ++ natText r.start_time.value]) ?_ r.end_time.long
  intro u hu
  rcases List.mem_append.1 hu with h | h
  · exact not_infix_front hr isFieldKey_et (by decide) u h
  · rw [List.mem_singleton.1 h]
    exact not_infix_number isFieldKey_et.toIsKey "ST(nano)".toList (by decide) (by decide)

theorem reads_timestamp {r : AccessRow} (hr : r.Regular) :
    Reads Tomcatparser.timestampKey (r.text ++ ['\n']) r.start_time_milli.value := by
  refine getField_field isFieldKey_timestamp.toIsKey (r.head ++ idToken r.uri r.id :: r.mid ++
    [Tomcatparser.stKey ++ natText r.start_time.value, Tomcatparser.etKey ++ natText r.end_time.value]) ?_ r.start_time_milli.long
  intro u hu
  rcases List.mem_append.1 hu with h | h
  · exact not_infix_front hr isFieldKey_timestamp (by decide) u h
  · simp only [List.mem_cons, List.not_mem_nil, or_false] at h
    rcases h with rfl | rfl
    · exact not_infix_number isFieldKey_timestamp.toIsKey "ST(nano)".toList (by decide) (by decide)
    · exact not_infix_number isFieldKey_timestamp.toIsKey "ET(nano)".toList (by decide) (by decide)

/-- the entry of the C++ table for a row -/
structure IsEntry (r : AccessRow) (q : Tomcatparser.Request) : Prop where
  id : q.id = r.id
  timestamp : cstr q.timestamp = some (natText r.start_time_milli.value)
  st : cstr q.st = some (natText r.start_time.value)
  category : q.category = afterDot r.uri

theorem accessEntry_line {r : AccessRow} (hr : r.Regular) (hlen : r.id.length < max_id_length)
    (hfits : (afterDot r.uri).length < max_category_length) :
    ∃ q, Tomcatparser.accessEntry (r.text ++ ['\n']) = some ((), .records [q]) ∧ IsEntry r q := by
  have hid : getID (r.text ++ ['\n']) = some r.id :=
    getID_line r.head (not_infix_head isKey_urlID (hr.thread_clean.no_key _ (by decide)))
      (hr.uri.clean.no_key _ (by decide)) hr.id_clean.plain hlen
  have hcat : getCategory (r.text ++ ['\n']) = some (afterDot r.uri) := getCategory_line hr hfits _
  obtain ⟨ts, hts, hcts⟩ := reads_timestamp hr Tomcatparser.zeroed
  obtain ⟨st, hst, hcst⟩ := reads_st hr Tomcatparser.zeroed
  obtain ⟨et, het, hcet⟩ := reads_et hr Tomcatparser.zeroed
  refine ⟨⟨r.id, ts, st, et, afterDot r.uri⟩, ?_, rfl, hcts, hcst, rfl⟩
  simp [Tomcatparser.accessEntry, Tomcatparser.getTimeStamp, Tomcatparser.getST, Tomcatparser.getET, require,
    hid, hts, hst, het, hcat]

/-- the table has an entry for each row, in order -/
theorem accessTable_lines {access : List AccessRow} (h : ∀ r ∈ access, r.Regular)
    (hlen : ∀ r ∈ access, r.id.length < max_id_length)
    (hfits : ∀ r ∈ access, (afterDot r.uri).length < max_category_length) (counter : ℕ)
    (hsize : counter + access.length ≤ Tomcatparser.max_table_size) :
    ∃ table, Tomcatparser.accessTable counter (access.map fun r => r.text ++ ['\n']) = some table ∧
      List.Forall₂ IsEntry access table := by
  induction access generalizing counter with
  | nil => exact ⟨[], rfl, .nil⟩
  | cons r access ih =>
    rw [List.length_cons] at hsize
    obtain ⟨q, hq, hentry⟩ := accessEntry_line (h r List.mem_cons_self) (hlen r List.mem_cons_self)
      (hfits r List.mem_cons_self)
    obtain ⟨table, htable, hall⟩ := ih (fun x hx => h x (List.mem_cons_of_mem _ hx))
      (fun x hx => hlen x (List.mem_cons_of_mem _ hx)) (fun x hx => hfits x (List.mem_cons_of_mem _ hx)) (counter + 1)
      (by omega)
    refine ⟨q :: table, ?_, .cons hentry hall⟩
    rw [List.map_cons, Tomcatparser.accessTable, if_pos (by omega), hq]
    simp [htable]

/-- looking an id up in the table finds the entry of the first row with it -/
theorem findTable_entry {access : List AccessRow} {table : List Tomcatparser.Request}
    (hall : List.Forall₂ IsEntry access table) {id : Text} {r : AccessRow}
    (hr : access.find? (fun r => r.id = id) = some r) : ∃ q, Tomcatparser.findTable table id = some q ∧ IsEntry r q := by
  unfold Tomcatparser.findTable
  induction hall with
  | nil => cases hr
  | @cons r' q access table hentry _ ih =>
    by_cases h : r'.id = id
    · have hq : q.id = id := hentry.id.trans h
      simp only [List.find?_cons_of_pos (p := fun r : AccessRow => decide (r.id = id)) (by simpa using h),
        Option.some.injEq] at hr
      subst hr
      exact ⟨q, by simp [hq], hentry⟩
    · have hq : q.id ≠ id := hentry.id ▸ h
      rw [List.find?_cons_of_neg (by simpa using h)] at hr
      obtain ⟨q', hq', he⟩ := ih hr
      exact ⟨q', by simpa [hq] using hq', he⟩

/-! ## The servlets log in C++ -/

/-- the tokens hold neither of the keys of a database call -/
def NoCall (pre : List Text) : Prop := ∀ u ∈ pre, ¬ Tomcatparser.dbstKey <:+: u ∧ ¬ Tomcatparser.dbetKey <:+: u

theorem noCall_of_notMem {w : Text} (h : '=' ∉ w) : NoCall [w] := by
  intro u hu
  rw [List.mem_singleton.1 hu]
  exact ⟨isFieldKey_dbst.not_infix_plain h, isFieldKey_dbet.not_infix_plain h⟩

/-- the keys of a call end in keys of the access log -/
theorem Clean.noCall {w : Text} (h : Clean w) : NoCall [w] := by
  have hst : Tomcatparser.stKey <:+: Tomcatparser.dbstKey := by decide
  have het : Tomcatparser.etKey <:+: Tomcatparser.dbetKey := by decide
  intro u hu
  rw [List.mem_singleton.1 hu]
  exact ⟨fun hw => h.no_key _ (by decide) (hst.trans hw), fun hw => h.no_key _ (by decide) (het.trans hw)⟩

theorem noCall_idToken {uri id : Text} (huri : NoCall [uri]) (hid : NoCall [id]) : NoCall [idToken uri id] := by
  obtain ⟨hst, het⟩ := huri uri List.mem_cons_self
  obtain ⟨hst', het'⟩ := hid id List.mem_cons_self
  intro u hu
  rw [List.mem_singleton.1 hu]
  exact ⟨not_infix_idToken isFieldKey_dbst hst hst', not_infix_idToken isFieldKey_dbet het het'⟩

/-- only the logger and the token with the URI and the id can hold a key -/
theorem noCall_header {r : ServletRow} (hlogger : NoCall [r.logger]) (hid : NoCall [idToken r.uri r.id]) :
    NoCall r.header := by
  intro u hu
  simp only [ServletRow.header, List.mem_cons, List.not_mem_nil, or_false] at hu
  rcases hu with rfl | rfl | rfl | rfl | rfl | rfl | rfl
  · exact noCall_of_notMem (r.date.notMem rfl) _ List.mem_cons_self
  · exact noCall_of_notMem (r.time.notMem rfl) _ List.mem_cons_self
  · exact noCall_of_notMem (by decide) _ List.mem_cons_self
  · exact noCall_of_notMem (by decide) _ List.mem_cons_self
  · exact hlogger _ List.mem_cons_self
  · exact noCall_of_notMem (by decide) _ List.mem_cons_self
  · exact hid _ List.mem_cons_self

/-- what is left of a call when its DBET key was found: the key less a character, and DBRT -/
def DBCall.rest (c : DBCall) : List Text :=
  ["BET(nano)=".toList ++ natText c.endNano.value, dbrtMark ++ longText c.responseTime]

theorem noCall_rest (c : DBCall) : NoCall c.rest := by
  intro u hu
  simp only [DBCall.rest, List.mem_cons, List.not_mem_nil, or_false] at hu
  rcases hu with rfl | rfl
  · exact ⟨not_infix_number isFieldKey_dbst.toIsKey "BET(nano)".toList (by decide) (by decide),
      not_infix_number isFieldKey_dbet.toIsKey "BET(nano)".toList (by decide) (by decide)⟩
  · have hv := equals_notMem_longText c.responseTime
    exact ⟨not_infix_field isFieldKey_dbst.toIsKey "DBRT(us)".toList (by decide) (by decide)
        (isFieldKey_dbst.not_infix_plain hv),
      not_infix_field isFieldKey_dbet.toIsKey "DBRT(us)".toList (by decide) (by decide)
        (isFieldKey_dbet.not_infix_plain hv)⟩

/-- a word behind a key is copied -/
theorem sscanf_natText {n : ℕ} (hn : n < 2 ^ 63) {rest : Text} (hend : ∀ c ∈ rest.head?, c = ' ' ∨ c = '\n')
    (b : TimeBuf) : ∃ b', sscanf (natText n ++ rest) b = some b' ∧ cstr b' = some (natText n) := by
  have hlen : (natText n).length ≤ 19 := length_natText_le (by decide) (by omega)
  have hscan : scanWord (natText n ++ rest) = some (natText n) :=
    scanWord_word (natText_ne_nil n) (plain_natText n).isToken fun c hc => isSpace_of_end (hend c hc)
  have hfit : (natText n).length < max_timestamp_length := by
    unfold max_timestamp_length
    omega
  unfold sscanf
  rw [hscan]
  exact store_some hfit ((plain_natText n).notMem (by decide))

/-- behind tokens without a call, the first DBST(nano)= key is the one of the call -/
theorem strstr_dbst_call {pre : List Text} (hpre : NoCall pre) (c : DBCall) (more : List Text) :
    strstr Tomcatparser.dbstKey (joinSp (pre ++ (c.tokens ++ more)) ++ ['\n']) = some (joinSp (c.tokens ++ more) ++ ['\n']) :=
  strstr_field isFieldKey_dbst.toIsKey _ _ fun u hu => (hpre u hu).1

/-- one round of `getDB` on a line with a call behind tokens without one -/
theorem getDBLoop_call {pre : List Text} (hpre : NoCall pre) (c : DBCall) (more : List Text) (s : Tomcatparser.St)
    (fuel : ℕ) {num : ℕ} (hnum : num < Tomcatparser.max_db) :
    ∃ b b', cstr b = some (natText c.startNano.value) ∧ cstr b' = some (natText c.endNano.value) ∧
      Tomcatparser.getDBLoop (fuel + 1) num (joinSp (pre ++ (c.tokens ++ more)) ++ ['\n']) s =
        Tomcatparser.getDBLoop fuel (num + 1) (joinSp (c.rest ++ more) ++ ['\n'])
          ⟨Function.update s.dbst num b, Function.update s.dbet num b'⟩ := by
  obtain ⟨rest, hrest, hend⟩ := joinSp_line (Tomcatparser.dbstKey ++ natText c.startNano.value)
    ((Tomcatparser.dbetKey ++ natText c.endNano.value) :: (dbrtMark ++ longText c.responseTime) :: more)
  obtain ⟨rest', hrest', hend'⟩ := joinSp_line (Tomcatparser.dbetKey ++ natText c.endNano.value)
    ((dbrtMark ++ longText c.responseTime) :: more)
  obtain ⟨b, hb, hcb⟩ := sscanf_natText c.startNano.long hend (s.dbst num)
  obtain ⟨b', hb', hcb'⟩ := sscanf_natText c.endNano.long hend' (s.dbet num)
  have hst : strstr Tomcatparser.dbstKey (joinSp (pre ++ (c.tokens ++ more)) ++ ['\n']) =
      some (Tomcatparser.dbstKey ++ (natText c.startNano.value ++ rest)) := by
    rw [← List.append_assoc Tomcatparser.dbstKey, ← hrest]
    exact strstr_dbst_call hpre c more
  have het : strstr Tomcatparser.dbetKey (joinSp (pre ++ (c.tokens ++ more)) ++ ['\n']) =
      some (Tomcatparser.dbetKey ++ (natText c.endNano.value ++ rest')) := by
    rw [← List.append_assoc Tomcatparser.dbetKey, ← hrest']
    have hskip : ∀ u ∈ pre ++ [Tomcatparser.dbstKey ++ natText c.startNano.value], ¬ Tomcatparser.dbetKey <:+: u := by
      intro u hu
      rcases List.mem_append.1 hu with h | h
      · exact (hpre u h).2
      · rw [List.mem_singleton.1 h]
        exact not_infix_number isFieldKey_dbet.toIsKey "DBST(nano)".toList (by decide) (by decide)
    have := strstr_field isFieldKey_dbet.toIsKey (natText c.endNano.value) ((dbrtMark ++ longText c.responseTime) :: more) hskip
    simpa [DBCall.tokens] using this
  have hnext : (Tomcatparser.dbetKey ++ (natText c.endNano.value ++ rest')).drop 1 = joinSp (c.rest ++ more) ++ ['\n'] := by
    rw [← List.append_assoc, ← hrest']
    rfl
  refine ⟨b, b', hcb, hcb', ?_⟩
  rw [Tomcatparser.getDBLoop, hst]
  simp only [het, Option.getD_some, hnext, Tomcatparser.getDBPair, hnum, if_true, List.drop_left, hb, hb', bind,
    Option.bind_some, pure]

/-- the calls are in the arrays, from index num on -/
def Holds (s : Tomcatparser.St) (num : ℕ) (calls : List DBCall) : Prop :=
  ∀ i (h : i < calls.length), cstr (s.dbst (num + i)) = some (natText calls[i].startNano.value) ∧
    cstr (s.dbet (num + i)) = some (natText calls[i].endNano.value)

/-- `getDB` stores the calls of a line, and nothing below the index it starts at -/
theorem getDBLoop_calls {pre : List Text} (hpre : NoCall pre) (calls : List DBCall) (s : Tomcatparser.St) {fuel : ℕ}
    (num : ℕ) (hfuel : calls.length < fuel) (hnum : num + calls.length ≤ Tomcatparser.max_db) :
    ∃ s', Tomcatparser.getDBLoop fuel num (joinSp (pre ++ calls.flatMap DBCall.tokens) ++ ['\n']) s =
        some (num + calls.length, s') ∧ Holds s' num calls ∧ ∀ j < num, s'.dbst j = s.dbst j ∧ s'.dbet j = s.dbet j := by
  induction calls generalizing pre s fuel num with
  | nil =>
    obtain ⟨fuel, rfl⟩ : ∃ k, fuel = k + 1 := ⟨fuel - 1, by simp at hfuel; omega⟩
    have hnone : strstr Tomcatparser.dbstKey (joinSp pre ++ ['\n']) = none :=
      strstr_joinSp_eq_none isFieldKey_dbst.blank isFieldKey_dbst.newline isFieldKey_dbst.ne_nil fun u hu => (hpre u hu).1
    refine ⟨s, ?_, ?_, fun j _ => ⟨rfl, rfl⟩⟩
    · simp [Tomcatparser.getDBLoop, hnone]
    · intro i h
      simp at h
  | cons c calls ih =>
    rw [List.length_cons] at hfuel hnum
    obtain ⟨fuel, rfl⟩ : ∃ k, fuel = k + 1 := ⟨fuel - 1, by omega⟩
    obtain ⟨b, b', hb, hb', hloop⟩ := getDBLoop_call hpre c (calls.flatMap DBCall.tokens) s fuel
      (show num < Tomcatparser.max_db by omega)
    obtain ⟨s', hs', hholds, hkeep⟩ := ih (noCall_rest c)
      ⟨Function.update s.dbst num b, Function.update s.dbet num b'⟩ (num + 1) (show calls.length < fuel by omega) (by omega)
    refine ⟨s', ?_, ?_, ?_⟩
    · rw [List.flatMap_cons, hloop, hs', List.length_cons]
      simp only [Option.some.injEq, Prod.mk.injEq, and_true]
      omega
    · intro i h
      cases i with
      | zero =>
        obtain ⟨h₁, h₂⟩ := hkeep num (by omega)
        simp only [Nat.add_zero, h₁, h₂, Function.update_self, hb, hb']
        exact ⟨rfl, rfl⟩
      | succ i =>
        have := hholds i (by simpa using h)
        rw [show num + 1 + i = num + (i + 1) by omega] at this
        simpa using this
    · intro j hj
      obtain ⟨h₁, h₂⟩ := hkeep j (by omega)
      simp only [h₁, h₂]
      constructor
      · exact Function.update_of_ne (by omega) _ _
      · exact Function.update_of_ne (by omega) _ _

/-- `getDB` writes behind the arrays when a line has more calls than they hold -/
theorem getDBLoop_overflow {pre : List Text} (hpre : NoCall pre) (calls : List DBCall) (s : Tomcatparser.St) (fuel : ℕ)
    {num : ℕ} (hnum : num ≤ Tomcatparser.max_db) (hmany : Tomcatparser.max_db < num + calls.length) :
    Tomcatparser.getDBLoop fuel num (joinSp (pre ++ calls.flatMap DBCall.tokens) ++ ['\n']) s = none := by
  induction calls generalizing pre s fuel num with
  | nil =>
    rw [List.length_nil] at hmany
    omega
  | cons c calls ih =>
    rw [List.length_cons] at hmany
    cases fuel with
    | zero => rfl
    | succ fuel =>
      rw [List.flatMap_cons]
      by_cases hlt : num < Tomcatparser.max_db
      · obtain ⟨b, b', -, -, hloop⟩ := getDBLoop_call hpre c (calls.flatMap DBCall.tokens) s fuel hlt
        rw [hloop]
        exact ih (noCall_rest c) _ fuel hlt (by omega)
      · rw [Tomcatparser.getDBLoop, strstr_dbst_call hpre]
        simp only [Tomcatparser.getDBPair, hlt, if_false, Option.bind_none]

/-- the C++ subtraction of two clock values -/
theorem getTimeInterval_natText {time1 time2 : TimeBuf} {m n : ℕ} (e₁ : cstr time1 = some (natText m))
    (e₂ : cstr time2 = some (natText n)) (hle : m ≤ n) (hdig : SameDigits m n) :
    ∃ rt, getTimeInterval time1 time2 = some rt ∧ atof rt = (n : ℚ) - m := by
  obtain ⟨rt, hrt, hdigits, hval⟩ := getTimeInterval_eq e₁ e₂ (fun c hc => isDigit_of_mem_natText hc)
    (fun c hc => isDigit_of_mem_natText hc) hdig (by simpa using hle)
  refine ⟨rt, hrt, ?_⟩
  rw [atof_digits hdigits, hval, digits_natText, digits_natText, Nat.cast_sub hle]

/-- a round of `dealOutput` prints the record of the call -/
theorem dealOutputAt_record {r : AccessRow} {q : Tomcatparser.Request} (hq : IsEntry r q) {s : Tomcatparser.St} {i : ℕ}
    {c : DBCall} (hst : cstr (s.dbst i) = some (natText c.startNano.value))
    (het : cstr (s.dbet i) = some (natText c.endNano.value)) (hc : Follows r c)
    (hdig : SameDigits r.start_time.value c.startNano.value ∧ SameDigits c.startNano.value c.endNano.value) :
    ∃ o, Tomcatparser.dealOutputAt q s i = some o ∧ printed o = record r c := by
  obtain ⟨rt, hrt, hrtval⟩ := getTimeInterval_natText hst het hc.2 hdig.2
  obtain ⟨exet, hexet, hexval⟩ := getTimeInterval_natText hq.st hst hc.1 hdig.1
  refine ⟨⟨q.id, natText r.start_time_milli.value, exet, rt, q.category⟩, ?_, ?_⟩
  · simp [Tomcatparser.dealOutputAt, hrt, hexet, hq.timestamp]
  · simp [printed, record, hq.id, hq.category, hrtval, hexval]

theorem length_le_length_joinSp (ws : List Text) : ws.length ≤ (joinSp ws).length + 1 := by
  induction ws with
  | nil => simp
  | cons w ws ih =>
    cases ws with
    | nil => simp
    | cons v ws =>
      simp only [joinSp_cons_cons, List.length_append, List.length_cons] at ih ⊢
      omega

/-- the text is longer than the number of its calls -/
theorem length_calls_lt (row : ServletRow) : row.calls.length < (row.text ++ ['\n']).length + 1 := by
  have htokens : row.calls.length ≤ (row.calls.flatMap DBCall.tokens).length := by
    rw [List.length_flatMap]
    have : (row.calls.map fun c => c.tokens.length).sum = row.calls.length * 3 := by
      simp [DBCall.tokens]
    omega
  have hjoin := length_le_length_joinSp row.tokens
  have hlen : row.tokens.length = row.header.length + (row.calls.flatMap DBCall.tokens).length := List.length_append
  have hheader : row.header.length = 7 := rfl
  rw [ServletRow.text, List.length_append]
  simp only [List.length_singleton]
  omega

/-- `getDB` stores all calls of the row, whatever the arrays hold before -/
def Stored (row : ServletRow) : Prop :=
  ∀ s, ∃ s', Tomcatparser.getDB (row.text ++ ['\n']) s = some (row.calls.length, s') ∧ Holds s' 0 row.calls

theorem stored_iff {row : ServletRow} (h : NoCall row.header) : Stored row ↔ row.calls.length ≤ Tomcatparser.max_db := by
  constructor
  · intro hstored
    by_contra hmany
    obtain ⟨s', hs', -⟩ := hstored ⟨fun _ => uninit _, fun _ => uninit _⟩
    have hnone := getDBLoop_overflow h row.calls ⟨fun _ => uninit _, fun _ => uninit _⟩
      ((row.text ++ ['\n']).length + 1) (Nat.zero_le _) (by omega)
    rw [Tomcatparser.getDB, ServletRow.text, ServletRow.tokens] at hs'
    rw [ServletRow.text, ServletRow.tokens, hs'] at hnone
    exact Option.some_ne_none _ hnone
  · intro hfew s
    obtain ⟨s', hs', hholds, -⟩ := getDBLoop_calls h row.calls s 0 (length_calls_lt row) (by simpa using hfew)
    rw [Nat.zero_add] at hs'
    exact ⟨s', hs', hholds⟩

theorem getID_row {row : ServletRow} (hrow : row.Regular) (hid : Clean row.id) (hfits : row.id.length < max_id_length) :
    getID (row.text ++ ['\n']) = some row.id := by
  have hkey := isKey_urlID
  apply getID_line [row.date.text, row.time.text, "INFO".toList, [], row.logger, ['-']]
  · intro u hu
    simp only [List.mem_cons, List.not_mem_nil, or_false] at hu
    rcases hu with rfl | rfl | rfl | rfl | rfl | rfl
    · exact hkey.not_infix_plain (row.date.notMem rfl)
    · exact hkey.not_infix_plain (row.time.notMem rfl)
    · exact hkey.not_infix_plain (by decide)
    · exact hkey.not_infix_plain (by decide)
    · exact hrow.logger_clean.no_key _ (by decide)
    · exact hkey.not_infix_plain (by decide)
  · exact hrow.uri_clean.no_key _ (by decide)
  · exact hid.plain
  · exact hfits

/-- the body of the second loop prints the records of the row -/
theorem step_line {r : AccessRow} {row : ServletRow} (hr : r.Regular) (hrow : row.Regular) (hid : r.id = row.id)
    (hlen : r.id.length < max_id_length) {table : List Tomcatparser.Request} {q : Tomcatparser.Request}
    (hq : Tomcatparser.findTable table row.id = some q) (hentry : IsEntry r q)
    (hfew : row.calls.length ≤ Tomcatparser.max_db) (hordered : ∀ c ∈ row.calls, Follows r c)
    (hdig : ∀ c ∈ row.calls,
      SameDigits r.start_time.value c.startNano.value ∧ SameDigits c.startNano.value c.endNano.value)
    (s : Tomcatparser.St) :
    ∃ s' rs, Tomcatparser.step table s (row.text ++ ['\n']) = some (s', .records rs) ∧
      rs.map printed = row.calls.map (record r) := by
  have hclean : Clean row.id := hid ▸ hr.id_clean
  have hgetID := getID_row hrow hclean (hid ▸ hlen)
  have hheader : NoCall row.header :=
    noCall_header hrow.logger_clean.noCall (noCall_idToken hrow.uri_clean.noCall hclean.noCall)
  obtain ⟨s', hdb, hholds⟩ := (stored_iff hheader).2 hfew s
  obtain ⟨rs, hrs, hmap⟩ := mapM_range_view (f := Tomcatparser.dealOutputAt q s') row.calls printed (record r) fun i hi => by
      obtain ⟨hst, het⟩ := hholds i hi
      rw [Nat.zero_add] at hst het
      have hmem := List.getElem_mem hi
      exact dealOutputAt_record hentry hst het (hordered _ hmem) (hdig _ hmem)
  refine ⟨s', rs, ?_, hmap⟩
  simp [Tomcatparser.step, hgetID, hdb, hq, Tomcatparser.dealOutput, hrs]

theorem rowRecords_eq {access : List AccessRow} {row : ServletRow} {r : AccessRow}
    (h : access.find? (fun r => r.id = row.id) = some r) : rowRecords access row = row.calls.map (record r) := by
  simp [rowRecords, h]

theorem Matching.id_fits {access : List AccessRow} {servlets : List ServletRow} (h : Matching access servlets) :
    ∀ r ∈ access, r.id.length < max_id_length := fun r hr => Nat.lt_succ_of_le (h.id_length r hr)

/-- every row of the servlets log has its request -/
theorem Matching.exists_find {access : List AccessRow} {servlets : List ServletRow} (h : Matching access servlets)
    {row : ServletRow} (hrow : row ∈ servlets) :
    ∃ r ∈ access, r.id = row.id ∧ access.find? (fun r => r.id = row.id) = some r := by
  obtain ⟨r₀, hr₀, hid⟩ := h.known row hrow
  cases hf : access.find? (fun r => r.id = row.id) with
  | none =>
    have := List.find?_eq_none.1 hf r₀ hr₀
    simp [hid] at this
  | some r => exact ⟨r, List.mem_of_find?_eq_some hf, by simpa using List.find?_some hf, rfl⟩

/-- the second loop prints the records of the rows, from every state of the buffers -/
theorem run_lines {access : List AccessRow} {servlets : List ServletRow} (h : Regular access servlets)
    {table : List Tomcatparser.Request} (htable : List.Forall₂ IsEntry access table) {rows : List ServletRow}
    (hrows : ∀ row ∈ rows, row ∈ servlets) (s : Tomcatparser.St) :
    ∃ rs, (Tomcatparser.servlets table).run s (rows.map fun row => row.text ++ ['\n']) = some rs ∧
      rs.map printed = records access rows := by
  induction rows generalizing s with
  | nil => exact ⟨[], rfl, rfl⟩
  | cons row rows ih =>
    have hrow := hrows row List.mem_cons_self
    obtain ⟨r, hr, hid, hfind⟩ := h.exists_find hrow
    obtain ⟨q, hq, hentry⟩ := findTable_entry htable hfind
    obtain ⟨s', rs, hstep, hmap⟩ := step_line (h.access_rows r hr) (h.servlet_rows row hrow) hid (h.id_fits r hr) hq
      hentry (h.few row hrow) (h.ordered row hrow r hr hid) (h.same_digits row hrow r hr hid) s
    obtain ⟨rest, hrest, hmaprest⟩ := ih (fun x hx => hrows x (List.mem_cons_of_mem _ hx)) s'
    refine ⟨rs ++ rest, ?_, ?_⟩
    · rw [List.map_cons, LineParser.run]
      have hstep' : (Tomcatparser.servlets table).step s (row.text ++ ['\n']) = some (s', .records rs) := hstep
      rw [hstep']
      simp [hrest]
    · rw [List.map_append, hmap, hmaprest, records, records, List.flatMap_cons, rowRecords_eq hfind]

/-- the lines that `fgets` reads from a file -/
theorem readLines_file {rows : List Text} (h : ∀ l ∈ rows, '\n' ∉ l ∧ l.length + 1 < max_line_length) :
    readLines max_line_length (file rows).length (file rows) = rows.map (· ++ ['\n']) := by
  have hflat : file rows = (rows.map (· ++ ['\n'])).flatten := List.flatMap_def
  rw [hflat]
  apply readLines_flatten
  · intro l hl
    obtain ⟨t, ht, rfl⟩ := List.mem_map.1 hl
    exact ⟨t, rfl, (h t ht).1, (h t ht).2⟩
  · rw [List.length_flatten, List.length_map]
    have : rows.length ≤ ((rows.map (· ++ ['\n'])).map List.length).sum := by
      have hle := List.length_le_sum_of_one_le ((rows.map (· ++ ['\n'])).map List.length) fun i hi => by
        simp only [List.map_map, List.mem_map, Function.comp] at hi
        obtain ⟨t, -, rfl⟩ := hi
        simp
      simpa using hle
    exact this

/-! ## Characters of the rows -/

theorem visible_field {key : Text} (hkey : Visible key) {value : Text} (hv : Plain value) : Visible (key ++ value) :=
  hkey.append hv.visible

theorem visible_access {r : AccessRow} (hr : r.Regular) : ∀ w ∈ r.tokens, Visible w := by
  have hkeys : Visible Tomcatparser.stKey ∧ Visible Tomcatparser.etKey ∧ Visible Tomcatparser.timestampKey := by decide
  intro w hw
  have htokens : r.tokens = r.head ++ idToken r.uri r.id :: (r.mid ++
      [Tomcatparser.stKey ++ natText r.start_time.value, Tomcatparser.etKey ++ natText r.end_time.value,
        Tomcatparser.timestampKey ++ natText r.start_time_milli.value]) := rfl
  rw [htokens, List.mem_append, List.mem_cons, List.mem_append] at hw
  rcases hw with h | rfl | h | h
  · exact (plain_head hr w h).visible
  · exact visible_idToken hr.uri.clean.plain hr.id_clean.plain
  · exact (plain_mid r w h).visible
  · simp only [List.mem_cons, List.not_mem_nil, or_false] at h
    rcases h with rfl | rfl | rfl
    · exact visible_field hkeys.1 (plain_natText _)
    · exact visible_field hkeys.2.1 (plain_natText _)
    · exact visible_field hkeys.2.2 (plain_natText _)

theorem visible_call (c : DBCall) : ∀ w ∈ c.tokens, Visible w := by
  have hkeys : Visible Tomcatparser.dbstKey ∧ Visible Tomcatparser.dbetKey ∧ Visible dbrtMark := by decide
  intro w hw
  simp only [DBCall.tokens, List.mem_cons, List.not_mem_nil, or_false] at hw
  rcases hw with rfl | rfl | rfl
  · exact visible_field hkeys.1 (plain_natText _)
  · exact visible_field hkeys.2.1 (plain_natText _)
  · exact visible_field hkeys.2.2 (plain_longText _)

theorem visible_servlet {r : ServletRow} (hr : r.Regular) (hid : Plain r.id) : ∀ w ∈ r.tokens, Visible w := by
  intro w hw
  rcases List.mem_append.1 hw with h | h
  · simp only [ServletRow.header, List.mem_cons, List.not_mem_nil, or_false] at h
    rcases h with rfl | rfl | rfl | rfl | rfl | rfl | rfl
    · exact r.date.plain.visible
    · exact r.time.plain.visible
    · decide
    · decide
    · exact hr.logger_clean.plain.visible
    · decide
    · exact visible_idToken hr.uri_clean.plain hid
  · obtain ⟨c, -, hc⟩ := List.mem_flatMap.1 h
    exact visible_call c w hc

/-- rows have no line ends inside -/
theorem notMem_joinSp {ws : List Text} (h : ∀ w ∈ ws, Visible w) {c : Char} (hc : c.toNat < 32) : c ∉ joinSp ws := by
  intro hm
  rcases mem_joinSp hm with rfl | ⟨w, hw, hcw⟩
  · exact absurd hc (by decide)
  · have := h w hw c hcw
    omega

theorem Regular.id_clean {access : List AccessRow} {servlets : List ServletRow} (h : Regular access servlets)
    {row : ServletRow} (hrow : row ∈ servlets) : Clean row.id := by
  obtain ⟨r, hr, hid, -⟩ := h.exists_find hrow
  exact hid ▸ (h.access_rows r hr).id_clean

/-- **The C++ parser.** It prints the records of the logs. -/
theorem main_eq_records {access : List AccessRow} {servlets : List ServletRow} (h : Regular access servlets) :
    (Tomcatparser.main (accessLog access) (servletsLog servlets)).map (List.map printed) =
      some (records access servlets) := by
  have haccess : readLines max_line_length (accessLog access).length (accessLog access) =
      access.map fun r => r.text ++ ['\n'] := by
    rw [accessLog, readLines_file, List.map_map]
    · rfl
    · intro l hl
      obtain ⟨r, hr, rfl⟩ := List.mem_map.1 hl
      exact ⟨notMem_joinSp (visible_access (h.access_rows r hr)) (by decide), h.access_line r hr⟩
  have hservlets : readLines max_line_length (servletsLog servlets).length (servletsLog servlets) =
      servlets.map fun row => row.text ++ ['\n'] := by
    rw [servletsLog, readLines_file, List.map_map]
    · rfl
    · intro l hl
      obtain ⟨row, hrow, rfl⟩ := List.mem_map.1 hl
      exact ⟨notMem_joinSp (visible_servlet (h.servlet_rows row hrow) (h.id_clean hrow).plain) (by decide),
        h.servlet_line row hrow⟩
  obtain ⟨table, htable, hall⟩ := accessTable_lines h.access_rows h.id_fits h.category 0 (by simpa using h.table)
  obtain ⟨rs, hrun, hmap⟩ := run_lines h hall (fun _ (hx : _ ∈ servlets) => hx) (Tomcatparser.servlets table).init
  rw [Tomcatparser.main, haccess, htable, Option.bind_some, LineParser.parse, hservlets, hrun, Option.map_some, hmap]

end Rubbos.Parsers.TomcatLogs
