/-
The logs that Tomcat's parsers read, as they are written.

A row of the access log is what `ReqListener.requestDestroyed` appends; a row of the servlets log is what a servlet hands
to log4j (pattern `%d{yyyy-MM-dd HH:mm:ss} %-5p %c{1}:%L - %m%n`): the URI, the id, and three fields for each database
call. Both are tokens with one blank between two of them, but for the second blank behind INFO.

`records` says what the logs mean: one record for each database call, with the times counted from the start of the
request.

- `Matching`: an access log and a servlets log that belong together.
- `Regular`: matching logs that fit into the arrays of the C++ parser and in which no field holds the key of another.
-/
import Rubbos.Core.Tokens
import Rubbos.Parsers.Tomcatparser
import Rubbos.Parsers.TomcatParserJava

namespace Rubbos.Parsers.TomcatLogs

open Rubbos.Core CLib JString

/-! ## Rows -/

/-- the characters of a date and of a time -/
def isStamp (c : Char) : Bool := c.isDigit || c ∈ ['/', '-', ':', '.']

/-- a date or a time as it is printed -/
structure Stamp where
  text : Text
  ne : text ≠ []
  chars : ∀ c ∈ text, isStamp c

/-- the value of `System.nanoTime()` or `System.currentTimeMillis()` -/
structure Clock where
  value : ℕ
  long : value < 2 ^ 63

/-- what `requestDestroyed` logs about a request -/
structure AccessRow where
  date : Stamp
  time : Stamp
  thread : Text
  uri : Text
  id : Text
  time_micro : ℤ
  start_time : Clock
  end_time : Clock
  start_time_milli : Clock

/-- what a servlet logs about a database call -/
structure DBCall where
  startNano : Clock
  endNano : Clock
  responseTime : ℤ

/-- what a servlet logs about a request -/
structure ServletRow where
  date : Stamp
  time : Stamp
  /-- the class and the line of the logger -/
  logger : Text
  uri : Text
  id : Text
  calls : List DBCall

def threadMark : Text := "ThreaD:".toList
def pad : Text := "pad".toList
def dbrtMark : Text := "DBRT(us)=".toList

/-- the URI and the id -/
def idToken (uri id : Text) : Text := uri ++ '?' :: (urlIDMark ++ id)

def AccessRow.tokens (r : AccessRow) : List Text :=
  [r.date.text, r.time.text, threadMark ++ r.thread, pad, idToken r.uri r.id, longText r.time_micro, pad, pad,
    Tomcatparser.stKey ++ natText r.start_time.value, Tomcatparser.etKey ++ natText r.end_time.value,
    Tomcatparser.timestampKey ++ natText r.start_time_milli.value]

def DBCall.tokens (c : DBCall) : List Text :=
  [Tomcatparser.dbstKey ++ natText c.startNano.value, Tomcatparser.dbetKey ++ natText c.endNano.value,
    dbrtMark ++ longText c.responseTime]

def ServletRow.header (r : ServletRow) : List Text :=
  [r.date.text, r.time.text, "INFO".toList, [], r.logger, ['-'], idToken r.uri r.id]

def ServletRow.tokens (r : ServletRow) : List Text := r.header ++ r.calls.flatMap DBCall.tokens

def AccessRow.text (r : AccessRow) : Text := joinSp r.tokens

def ServletRow.text (r : ServletRow) : Text := joinSp r.tokens

/-- a file with one row on each line -/
def file (rows : List Text) : Text := rows.flatMap (· ++ ['\n'])

def accessLog (access : List AccessRow) : Text := file (access.map AccessRow.text)

def servletsLog (servlets : List ServletRow) : Text := file (servlets.map ServletRow.text)

/-! ## Meaning -/

/-- the record of a database call of a request -/
def record (r : AccessRow) (c : DBCall) : Printed where
  id := r.id
  stimestamp := (r.start_time_milli.value + ((c.startNano.value : ℚ) - r.start_time.value) / 1000000) / 1000
  etimestamp := (r.start_time_milli.value + ((c.startNano.value : ℚ) - r.start_time.value) / 1000000 +
    ((c.endNano.value : ℚ) - c.startNano.value) / 1000000) / 1000
  category := afterDot r.uri
  rt := ((c.endNano.value : ℚ) - c.startNano.value) / 1000000

/-- the records of a row of the servlets log -/
def rowRecords (access : List AccessRow) (row : ServletRow) : List Printed :=
  ((access.find? fun r => r.id = row.id).map fun r => row.calls.map (record r)).getD []

def records (access : List AccessRow) (servlets : List ServletRow) : List Printed := servlets.flatMap (rowRecords access)

/-! ## Regular rows -/

/-- visible ASCII characters -/
def isPlain (c : Char) : Bool := 32 < c.toNat && c.toNat < 127

def Plain (w : Text) : Prop := ∀ c ∈ w, isPlain c

instance (w : Text) : Decidable (Plain w) := inferInstanceAs (Decidable (∀ c ∈ w, isPlain c))

/-- the keys that are searched for; those of a database call have the second or the third of them in their end -/
def keys : List Text := [urlIDMark, Tomcatparser.stKey, Tomcatparser.etKey, Tomcatparser.timestampKey]

/-- a value that is not taken for something else: plain characters, and no key in it -/
structure Clean (w : Text) : Prop where
  plain : Plain w
  no_key : ∀ key ∈ keys, ¬ key <:+: w

instance (w : Text) : Decidable (Clean w) :=
  decidable_of_iff (Plain w ∧ ∀ key ∈ keys, ¬ key <:+: w) ⟨fun h => ⟨h.1, h.2⟩, fun h => ⟨h.plain, h.no_key⟩⟩

/-- a URI of a servlet: without '?', with a name behind the last '.' -/
structure RegularURI (uri : Text) : Prop where
  clean : Clean uri
  no_question : '?' ∉ uri
  dot : '.' ∈ uri
  category_ne : afterDot uri ≠ []

/-- a row that the parsers read as it is meant -/
structure AccessRow.Regular (r : AccessRow) : Prop where
  thread_clean : Clean r.thread
  thread_no_question : '?' ∉ r.thread
  uri : RegularURI r.uri
  id_clean : Clean r.id
  id_ne : r.id ≠ []

structure ServletRow.Regular (r : ServletRow) : Prop where
  logger_clean : Clean r.logger
  logger_ne : r.logger ≠ []
  uri_clean : Clean r.uri

/-- the numbers have the same number of digits -/
def SameDigits (m n : ℕ) : Prop := (natText m).length = (natText n).length

instance (m n : ℕ) : Decidable (SameDigits m n) := inferInstanceAs (Decidable ((natText m).length = (natText n).length))

/-- the call falls into the time of the request -/
def Follows (r : AccessRow) (c : DBCall) : Prop :=
  r.start_time.value ≤ c.startNano.value ∧ c.startNano.value ≤ c.endNano.value

/-- logs that belong together: distinct ids of at most 19 characters, URIs with a '.', threads without blanks; rows of the
servlets log for requests of the access log, with at most twenty calls, in the time of the request -/
structure Matching (access : List AccessRow) (servlets : List ServletRow) : Prop where
  distinct : (access.map AccessRow.id).Nodup
  id_length : ∀ r ∈ access, r.id.length ≤ 19
  dot : ∀ r ∈ access, '.' ∈ r.uri
  thread_blank : ∀ r ∈ access, ' ' ∉ r.thread
  known : ∀ row ∈ servlets, ∃ r ∈ access, r.id = row.id
  few : ∀ row ∈ servlets, row.calls.length ≤ Tomcatparser.max_db
  ordered : ∀ row ∈ servlets, ∀ r ∈ access, r.id = row.id → ∀ c ∈ row.calls, Follows r c

/-- the times that are subtracted have the same number of digits -/
def EqualDigits (access : List AccessRow) (servlets : List ServletRow) : Prop :=
  ∀ row ∈ servlets, ∀ r ∈ access, r.id = row.id → ∀ c ∈ row.calls,
    SameDigits r.start_time.value c.startNano.value ∧ SameDigits c.startNano.value c.endNano.value

/-- the logs fit into the arrays of the C++ parser -/
structure FitsArrays (access : List AccessRow) (servlets : List ServletRow) : Prop where
  table : access.length ≤ Tomcatparser.max_table_size
  category : ∀ r ∈ access, (afterDot r.uri).length < max_category_length
  access_line : ∀ r ∈ access, r.text.length + 1 < max_line_length
  servlet_line : ∀ row ∈ servlets, row.text.length + 1 < max_line_length

structure RegularRows (access : List AccessRow) (servlets : List ServletRow) : Prop where
  access_rows : ∀ r ∈ access, r.Regular
  servlet_rows : ∀ row ∈ servlets, row.Regular

/-- logs that both parsers read as they are meant -/
structure Regular (access : List AccessRow) (servlets : List ServletRow) : Prop extends Matching access servlets,
    FitsArrays access servlets, RegularRows access servlets where
  same_digits : EqualDigits access servlets

/-! ## Characters of tokens -/

theorem isPlain_iff {c : Char} : isPlain c ↔ 32 < c.toNat ∧ c.toNat < 127 := by
  simp [isPlain]

theorem isPlain_of_isNumChar {c : Char} (h : isNumChar c) : isPlain c := by
  simp only [isNumChar, Bool.or_eq_true, decide_eq_true_eq] at h
  rcases h with h | rfl
  · have hd := toNat_of_isDigit h
    exact isPlain_iff.2 ⟨by omega, by omega⟩
  · decide

theorem isPlain_of_isStamp {c : Char} (h : isStamp c) : isPlain c := by
  simp only [isStamp, Bool.or_eq_true, decide_eq_true_eq, List.mem_cons, List.not_mem_nil, or_false] at h
  rcases h with h | rfl | rfl | rfl | rfl
  · exact isPlain_of_isNumChar (by simp [isNumChar, h])
  all_goals decide

theorem Stamp.plain (s : Stamp) : Plain s.text := fun c hc => isPlain_of_isStamp (s.chars c hc)

theorem plain_longText (n : ℤ) : Plain (longText n) := fun _ hc => isPlain_of_isNumChar (isNumChar_of_mem_longText hc)

theorem plain_natText (n : ℕ) : Plain (natText n) :=
  fun _ hc => isPlain_of_isNumChar (by simp [isNumChar, isDigit_of_mem_natText hc])

theorem Plain.append {v w : Text} (hv : Plain v) (hw : Plain w) : Plain (v ++ w) := by
  intro c hc
  rcases List.mem_append.1 hc with h | h
  · exact hv c h
  · exact hw c h

theorem Stamp.notMem (s : Stamp) {c : Char} (hc : isStamp c = false) : c ∉ s.text := by
  intro h
  simp [s.chars c h] at hc

theorem equals_notMem_longText (n : ℤ) : '=' ∉ longText n := notMem_longText (by decide)

theorem equals_notMem_natText (n : ℕ) : '=' ∉ natText n := notMem_natText (by decide)

theorem Plain.notMem {w : Text} (h : Plain w) {c : Char} (hc : c.toNat ≤ 32) : c ∉ w := by
  intro hm
  have := (isPlain_iff.1 (h c hm)).1
  omega

/-- visible characters -/
def Visible (w : Text) : Prop := ∀ c ∈ w, 32 < c.toNat

instance (w : Text) : Decidable (Visible w) := inferInstanceAs (Decidable (∀ c ∈ w, 32 < c.toNat))

theorem Visible.isToken {w : Text} (h : Visible w) : IsToken w := by
  intro c hc
  by_contra hs
  have h₁ := isSpace_toNat (by simpa using hs)
  have h₂ := h c hc
  omega

theorem Plain.visible {w : Text} (h : Plain w) : Visible w := fun c hc => (isPlain_iff.1 (h c hc)).1

theorem Plain.isToken {w : Text} (h : Plain w) : IsToken w := h.visible.isToken

theorem Visible.append {v w : Text} (hv : Visible v) (hw : Visible w) : Visible (v ++ w) := by
  intro c hc
  rcases List.mem_append.1 hc with h | h
  · exact hv c h
  · exact hw c h

theorem visible_idToken {uri id : Text} (hu : Plain uri) (hi : Plain id) : Visible (idToken uri id) := by
  have hmark : Visible ('?' :: urlIDMark) := by decide
  have h := (hu.visible.append hmark).append hi.visible
  simpa [idToken] using h

/-! ## Keys and tokens -/

/-- the keys of the parsers: a name without separators and '=' -/
structure IsKey (key : Text) : Prop where
  marked : ∃ name, key = name ++ ['='] ∧ '=' ∉ name
  separators : ∀ c ∈ [' ', '\n', ':', '?'], c ∉ key

theorem IsKey.of_name {key : Text} (name : Text) (hkey : key = name ++ ['='])
    (hname : name.all (· ∉ ['=', ' ', '\n', ':', '?'])) : IsKey key := by
  have hnotMem : ∀ c ∈ ['=', ' ', '\n', ':', '?'], c ∉ name := by
    intro c hc hmem
    have := List.all_eq_true.1 hname c hmem
    rw [decide_eq_true_eq] at this
    exact this hc
  subst hkey
  refine ⟨⟨name, rfl, hnotMem _ List.mem_cons_self⟩, fun c hc => ?_⟩
  have hne : c ≠ '=' := by
    rintro rfl
    exact absurd hc (by decide)
  simp [hnotMem c (List.mem_cons_of_mem _ hc), hne]

theorem IsKey.blank {key : Text} (h : IsKey key) : ' ' ∉ key := h.separators _ (by decide)

theorem IsKey.newline {key : Text} (h : IsKey key) : '\n' ∉ key := h.separators _ (by decide)

theorem IsKey.colon {key : Text} (h : IsKey key) : ':' ∉ key := h.separators _ (by decide)

theorem IsKey.question {key : Text} (h : IsKey key) : '?' ∉ key := h.separators _ (by decide)

/-- the key of a field, which urlID= does not end in -/
structure IsFieldKey (key : Text) : Prop extends IsKey key where
  not_id : ¬ key <:+ urlIDMark

theorem isKey_urlID : IsKey urlIDMark := .of_name ['u', 'r', 'l', 'I', 'D'] rfl rfl

theorem IsKey.ne_nil {key : Text} (h : IsKey key) : key ≠ [] := by
  obtain ⟨name, rfl, -⟩ := h.marked
  simp

/-- a token without '=' holds no key -/
theorem IsKey.not_infix_plain {key w : Text} (h : IsKey key) (hw : '=' ∉ w) : ¬ key <:+: w := by
  obtain ⟨name, rfl, -⟩ := h.marked
  exact not_infix_of_mem (x := '=') (by simp) hw

/-- a token `name=value` holds a key only if the name ends in it or the value holds it -/
theorem not_infix_field {key value : Text} (hkey : IsKey key) (name : Text) (hname : '=' ∉ name)
    (hend : ¬ key <:+ name ++ ['=']) (hvalue : ¬ key <:+: value) : ¬ key <:+: (name ++ ['=']) ++ value := by
  obtain ⟨k, rfl, hk⟩ := hkey.marked
  rw [List.append_assoc, List.singleton_append, infix_marked hk hname]
  rintro (⟨t, rfl⟩ | h)
  · exact hend ⟨t, by simp⟩
  · exact hvalue h

/-- the token of the id holds no key but urlID= -/
theorem not_infix_idToken {key uri id : Text} (hkey : IsFieldKey key) (hu : ¬ key <:+: uri) (hi : ¬ key <:+: id) :
    ¬ key <:+: idToken uri id := by
  rw [idToken, infix_append_cons hkey.question]
  rintro (h | h)
  · exact hu h
  · exact not_infix_field hkey.toIsKey ['u', 'r', 'l', 'I', 'D'] (by decide) hkey.not_id hi h

/-! ## Reading a line of tokens -/

theorem joinSp_line (w : Text) (post : List Text) :
    ∃ rest, joinSp (w :: post) ++ ['\n'] = w ++ rest ∧ ∀ c ∈ rest.head?, c = ' ' ∨ c = '\n' := by
  cases post with
  | nil => exact ⟨['\n'], rfl, by simp⟩
  | cons v post => exact ⟨' ' :: joinSp (v :: post) ++ ['\n'], by simp [joinSp_cons_cons], by simp⟩

theorem isSpace_of_end {c : Char} (h : c = ' ' ∨ c = '\n') : isSpace c := by
  rcases h with rfl | rfl <;> decide

/-- the line from the first token that starts with the key on, if no token before holds it -/
theorem strstr_field {key : Text} (hkey : IsKey key) (value : Text) (post : List Text) {pre : List Text}
    (hpre : ∀ u ∈ pre, ¬ key <:+: u) :
    strstr key (joinSp (pre ++ (key ++ value) :: post) ++ ['\n']) = some (joinSp ((key ++ value) :: post) ++ ['\n']) := by
  obtain ⟨rest, hrest, -⟩ := joinSp_line (key ++ value) post
  rw [strstr_joinSp hkey.blank hpre, hrest, List.append_assoc]
  exact strstr_of_prefix (List.prefix_append _ _)

/-- a field of a line is copied -/
theorem getField_field {key : Text} (hkey : IsKey key) (pre : List Text) {post : List Text} {n : ℕ}
    (hpre : ∀ u ∈ pre, ¬ key <:+: u) (hn : n < 2 ^ 63) (b : TimeBuf) :
    ∃ b', getField key (joinSp (pre ++ (key ++ natText n) :: post) ++ ['\n']) b = some (true, b') ∧
      cstr b' = some (natText n) := by
  obtain ⟨rest, hrest, hend⟩ := joinSp_line (key ++ natText n) post
  have hfind := strstr_field hkey (natText n) post hpre
  rw [hrest, List.append_assoc] at hfind
  have hlen : (natText n).length ≤ 19 := length_natText_le (by decide) (by omega)
  apply getField_found hfind (natText_ne_nil n) (plain_natText n).isToken ((plain_natText n).notMem (by decide))
  · intro c hc
    exact isSpace_of_end (hend c hc)
  · unfold max_timestamp_length
    omega

/-- the id of a line -/
theorem getID_line (pre : List Text) {post : List Text} {uri id : Text} (hpre : ∀ u ∈ pre, ¬ urlIDMark <:+: u)
    (hu : ¬ urlIDMark <:+: uri) (hid : Plain id) (hfits : id.length < max_id_length) :
    getID (joinSp (pre ++ idToken uri id :: post) ++ ['\n']) = some id := by
  obtain ⟨rest, hrest, hend⟩ := joinSp_line (idToken uri id) post
  have hkey := isKey_urlID
  have hfind : strstr urlIDMark (joinSp (pre ++ idToken uri id :: post) ++ ['\n']) = some (urlIDMark ++ (id ++ rest)) := by
    rw [strstr_joinSp hkey.blank hpre, hrest]
    have hsplit : idToken uri id ++ rest = uri ++ '?' :: (urlIDMark ++ (id ++ rest)) := by simp [idToken]
    rw [hsplit, strstr_skip hkey.question hu]
    exact strstr_of_prefix (List.prefix_append _ _)
  exact getID_found hfind hid.isToken hfits hend

end Rubbos.Parsers.TomcatLogs
