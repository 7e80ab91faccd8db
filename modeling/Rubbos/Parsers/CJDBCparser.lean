/-
The parser of the C-JDBC log (`CJDBCparser.cpp`): `getID` and the loop of `main`.

The servlets put the id of the request into a comment of every SQL statement. `getID` scans the word behind the first
"/*" into an array of twenty characters, and only then takes a leading "urlID=" off: a word that does not fit is written
behind the end of the array. Every missing field ends the loop.

- `getID_tag_iff`: which ids come back, for each of the two comments that the servlets write.
- `CJDBCparser.parser`: the loop as a `LineParser`.

Witness: `oldID`, an id of fourteen digits.
-/
import Rubbos.Core.LineLoop
import Rubbos.Parsers.Fields

namespace Rubbos.Parsers.CJDBCparser

open Rubbos.Core CLib

/-! ## Model -/

def tagMark : Text := ['/', '*']
def timeStampKey : Text := "STimeStamp(ms)=".toList
def dbstKey : Text := "DBST(nano)=".toList
def dbetKey : Text := "DBET(nano)=".toList
def stKey : Text := "ST(nano)=".toList
def etKey : Text := "ET(nano)=".toList

/-- `getID(str, id)`: the id, if there is a comment; undefined if the word in it is too long for tmp -/
def getID (str : Text) : Option (Option Text) :=
  match strstr tagMark str with
  | none => some none
  | some t => do
    let tmp ← sscanf (t.drop 2) (memset0 max_id_length (uninit max_id_length))
    let w ← cstr tmp
    return some (if hasKey urlIDMark w then w.drop 6 else w)

def getTimeStamp (str : Text) (b : TimeBuf) : Option (Bool × TimeBuf) := getField timeStampKey str b

def getDBST (str : Text) (b : TimeBuf) : Option (Bool × TimeBuf) := getField dbstKey str b

def getDBET (str : Text) (b : TimeBuf) : Option (Bool × TimeBuf) := getField dbetKey str b

def getST (str : Text) (b : TimeBuf) : Option (Bool × TimeBuf) := getField stKey str b

def getET (str : Text) (b : TimeBuf) : Option (Bool × TimeBuf) := getField etKey str b

/-- `getCategory(str, category)` -/
def getCategory (str : Text) : Text :=
  if hasKey "SELECT".toList str then "SELECT".toList
  else if hasKey "INSERT".toList str then "INSERT".toList
  else if hasKey "UPDATE".toList str then "UPDATE".toList
  else if hasKey "DELETE".toList str then "DELETE".toList
  else "OTHERS".toList

/-- the buffers that live across lines -/
structure St where
  timestamp : TimeBuf
  dbst : TimeBuf
  dbet : TimeBuf
  st : TimeBuf
  et : TimeBuf

/-- the body of the loop behind `getID` -/
def stepID (s : St) (str id : Text) : Option (St × Outcome DBRecord) :=
  require (getTimeStamp str s.timestamp) (fun b => { s with timestamp := b }) fun timestamp =>
  require (getDBST str s.dbst) (fun b => { s with timestamp, dbst := b }) fun dbst =>
  require (getDBET str s.dbet) (fun b => { s with timestamp, dbst, dbet := b }) fun dbet =>
  require (getST str s.st) (fun b => { s with timestamp, dbst, dbet, st := b }) fun st =>
  require (getET str s.et) (fun b => { s with timestamp, dbst, dbet, st, et := b }) fun et => do
    let exet1 ← getTimeInterval st dbst
    let dbrt ← getTimeInterval dbst dbet
    let ts ← cstr timestamp
    return (⟨timestamp, dbst, dbet, st, et⟩, .records [⟨id, ts, exet1, dbrt, getCategory str⟩])

/-- the body of the loop -/
def step (s : St) (str : Text) : Option (St × Outcome DBRecord) :=
  match getID str with
  | none => none
  | some none => some (s, .error)
  | some (some id) => stepID s str id

/-! ## The loop as a parser of lines -/

structure St.Refines (s s' : St) : Prop where
  timestamp : CLib.Refines s.timestamp s'.timestamp
  dbst : CLib.Refines s.dbst s'.dbst
  dbet : CLib.Refines s.dbet s'.dbet
  st : CLib.Refines s.st s'.st
  et : CLib.Refines s.et s'.et

/-- a line that lacks a field -/
def isError (str : Text) : Bool :=
  !(hasKey tagMark str && hasKey timeStampKey str && hasKey dbstKey str && hasKey dbetKey str && hasKey stKey str &&
    hasKey etKey str)

theorem stepID_refines {s s' : St} (str id : Text) (h : s.Refines s') :
    Follows St.Refines (stepID s str id) (stepID s' str id) := by
  refine follows_require h.timestamp (fun c c' hc => ⟨hc, h.dbst, h.dbet, h.st, h.et⟩) fun ts ts' hts => ?_
  refine follows_require h.dbst (fun c c' hc => ⟨hts, hc, h.dbet, h.st, h.et⟩) fun dbst dbst' hdbst => ?_
  refine follows_require h.dbet (fun c c' hc => ⟨hts, hdbst, hc, h.st, h.et⟩) fun dbet dbet' hdbet => ?_
  refine follows_require h.st (fun c c' hc => ⟨hts, hdbst, hdbet, hc, h.et⟩) fun st st' hst => ?_
  refine follows_require h.et (fun c c' hc => ⟨hts, hdbst, hdbet, hst, hc⟩) fun et et' het => ?_
  intro t o hto
  simp only [bind, Option.bind_eq_some_iff, pure, Option.some.injEq, Prod.mk.injEq] at hto ⊢
  obtain ⟨exet1, hex, dbrt, hrt, w, hw, rfl, rfl⟩ := hto
  exact ⟨_, ⟨exet1, getTimeInterval_refines hst hdbst hex, dbrt, getTimeInterval_refines hdbst hdbet hrt, w,
    cstr_refines hts hw, rfl, rfl⟩, hts, hdbst, hdbet, hst, het⟩

theorem step_refines (s s' : St) (str : Text) (h : s.Refines s') : Follows St.Refines (step s str) (step s' str) := by
  unfold step
  rcases getID str with _ | _ | id
  · intro t o hto
    cases hto
  · exact Follows.some h _
  · exact stepID_refines str id h

theorem getID_eq_some_none {str : Text} (h : getID str = some none) : hasKey tagMark str = false := by
  unfold getID at h
  unfold hasKey
  cases hs : strstr tagMark str with
  | none => rfl
  | some t => simp [hs, Option.bind_eq_some_iff] at h

theorem hasKey_of_getID_eq_some_some {str id : Text} (h : getID str = some (some id)) : hasKey tagMark str = true := by
  unfold getID at h
  unfold hasKey
  cases hs : strstr tagMark str with
  | none => simp [hs] at h
  | some t => rfl

theorem stepID_classified (s : St) {str : Text} (id : Text) (htag : hasKey tagMark str) :
    Classified (isError str) false (stepID s str id) := by
  refine classified_require (fun hk => by simp [isError, hk]) fun hts ts => ?_
  refine classified_require (fun hk => by simp [isError, hk]) fun hdbst dbst => ?_
  refine classified_require (fun hk => by simp [isError, hk]) fun hdbet dbet => ?_
  refine classified_require (fun hk => by simp [isError, hk]) fun hst st => ?_
  refine classified_require (fun hk => by simp [isError, hk]) fun het et => ?_
  intro t o hto
  simp only [bind, Option.bind_eq_some_iff, pure, Option.some.injEq, Prod.mk.injEq] at hto
  obtain ⟨exet1, -, dbrt, -, w, -, -, rfl⟩ := hto
  simp [isError, htag, hts, hdbst, hdbet, hst, het]

theorem step_classified (s : St) (str : Text) : Classified (isError str) false (step s str) := by
  unfold step
  rcases hid : getID str with _ | _ | id
  · intro t o hto
    cases hto
  · have : isError str = true := by simp [isError, getID_eq_some_none hid]
    rw [this]
    exact Classified.error s
  · exact stepID_classified s id (hasKey_of_getID_eq_some_some hid)

/-- the loop on the strings that `fgets` returns; every line is reported or gives a record -/
def parser : LineParser St Text DBRecord where
  step := step
  init := ⟨uninit _, uninit _, uninit _, uninit _, uninit _⟩
  stop := true
  isError := isError
  isSilent := fun _ => false
  refines := St.Refines
  init_refines := fun _ =>
    ⟨uninit_refines _, uninit_refines _, uninit_refines _, uninit_refines _, uninit_refines _⟩
  step_refines := step_refines
  step_classified := step_classified

/-! ## The comments of the servlets -/

/-- the two comments that the servlets write behind a statement -/
inductive Tag where
  /-- `" /* urlID=" + request.getParameter("urlID") + " */"` -/
  | urlID
  /-- `" /* " + urlID + " */"` -/
  | plain
deriving DecidableEq, Repr

/-- the word in the comment -/
def Tag.word : Tag → Text → Text
  | .urlID, id => urlIDMark ++ id
  | .plain, id => id

def Tag.text (tag : Tag) (id : Text) : Text := tagMark ++ ' ' :: (tag.word id ++ [' ', '*', '/'])

/-- `getID` on the first comment of a line -/
theorem getID_comment {pre w post : Text} (hpre : ¬ tagMark <:+: pre) (hw : w ≠ []) (hs : ∀ c ∈ w, isSpace c = false)
    (h0 : NUL ∉ w) : getID (pre ++ (tagMark ++ ' ' :: (w ++ [' ', '*', '/'])) ++ post) =
      if w.length < max_id_length then some (some (if hasKey urlIDMark w then w.drop 6 else w)) else none := by
  have hline : pre ++ (tagMark ++ ' ' :: (w ++ [' ', '*', '/'])) ++ post =
      pre ++ '/' :: '*' :: (' ' :: (w ++ (' ' :: '*' :: '/' :: post))) := by simp [tagMark]
  have hfind : strstr tagMark (pre ++ (tagMark ++ ' ' :: (w ++ [' ', '*', '/'])) ++ post) =
      some ('/' :: '*' :: (' ' :: (w ++ (' ' :: '*' :: '/' :: post)))) := by
    rw [hline]
    exact strstr_pair (by decide) hpre
  have hscan : scanWord (' ' :: (w ++ (' ' :: '*' :: '/' :: post))) = some w := by
    have hblank : scanWord (' ' :: (w ++ (' ' :: '*' :: '/' :: post))) = scanWord (w ++ (' ' :: '*' :: '/' :: post)) := rfl
    rw [hblank]
    apply scanWord_word hw hs
    intro c hc
    cases hc
    rfl
  have hdrop : ('/' :: '*' :: (' ' :: (w ++ (' ' :: '*' :: '/' :: post)))).drop 2 =
      ' ' :: (w ++ (' ' :: '*' :: '/' :: post)) := rfl
  unfold getID
  rw [hfind]
  simp only [hdrop, sscanf, hscan]
  by_cases hlen : w.length < max_id_length
  · obtain ⟨b, hb, hc⟩ := store_some (b := memset0 max_id_length (uninit max_id_length)) hlen h0
    simp [hb, hc, hlen]
  · simp [store, hlen]

theorem word_ne_nil (tag : Tag) (n : ℕ) : tag.word (natText n) ≠ [] := by
  cases tag with
  | urlID => simp [Tag.word, urlIDMark]
  | plain => exact natText_ne_nil n

theorem mem_word {tag : Tag} {n : ℕ} {c : Char} (h : c ∈ tag.word (natText n)) : isSpace c = false ∧ c ≠ NUL := by
  have hmem : c ∈ urlIDMark ∨ c ∈ natText n := by
    cases tag with
    | urlID => exact List.mem_append.1 h
    | plain => exact Or.inr h
  rcases hmem with h | h
  · have hmark : ∀ c ∈ urlIDMark, isSpace c = false ∧ c ≠ NUL := by decide
    exact hmark c h
  · constructor
    · exact isSpace_eq_false_of_isNumChar (by simp [isNumChar, isDigit_of_mem_natText h])
    · rintro rfl
      exact absurd h (notMem_natText (by decide))

/-- the word without "urlID=" is the id -/
theorem word_id (tag : Tag) (n : ℕ) :
    (if hasKey urlIDMark (tag.word (natText n)) then (tag.word (natText n)).drop 6 else tag.word (natText n)) =
      natText n := by
  cases tag with
  | urlID =>
    have hkey : hasKey urlIDMark (Tag.urlID.word (natText n)) = true := by
      simp [hasKey, Tag.word, strstr_of_prefix (List.prefix_append urlIDMark (natText n))]
    rw [if_pos hkey]
    rfl
  | plain =>
    have hno : ¬ urlIDMark <:+: natText n := not_infix_of_mem (x := '=') (by decide) (notMem_natText (by decide))
    have hkey : hasKey urlIDMark (Tag.plain.word (natText n)) = false := by
      simp [hasKey, Tag.word, strstr_eq_none.2 hno]
    rw [if_neg (by simp [hkey])]
    rfl

/-- the word of a long fits the array, unless "urlID=" stands before fourteen digits or more -/
theorem length_word_lt_iff (tag : Tag) {n : ℕ} (hn : n < 2 ^ 63) :
    (tag.word (natText n)).length < max_id_length ↔ tag = .plain ∨ n < 10 ^ 13 := by
  cases tag with
  | urlID =>
    have hlen : (Tag.urlID.word (natText n)).length = 6 + (natText n).length := by
      simp only [Tag.word, List.length_append]
      rfl
    have hdigits : (natText n).length ≤ 13 ↔ n < 10 ^ 13 := Nat.length_toDigits_le_iff (by decide) (by decide)
    rw [hlen, ← hdigits]
    simp only [max_id_length, reduceCtorEq, false_or]
    omega
  | plain =>
    have hlen : (natText n).length ≤ 19 := length_natText_le (by decide) (by omega)
    simp only [Tag.word, max_id_length, true_or, iff_true]
    omega

/-- **Ids through SQL.** A line whose first comment is one of the servlets': the id comes back unless the comment has the
form /* urlID=X */ and X more than thirteen digits. -/
theorem getID_tag_iff (tag : Tag) (n : ℕ) (hn : n < 2 ^ 63) (pre post : Text) (hpre : ¬ tagMark <:+: pre) :
    getID (pre ++ tag.text (natText n) ++ post) = some (some (natText n)) ↔ tag = .plain ∨ n < 10 ^ 13 := by
  rw [← length_word_lt_iff tag hn]
  rw [Tag.text, getID_comment hpre (word_ne_nil tag n) (fun c hc => (mem_word hc).1) fun h => (mem_word h).2 rfl]
  rw [word_id]
  simp

theorem getID_tag_iff_short :
    getID ("UPDATE ".toList ++ Tag.urlID.text (natText 7) ++ ['\n']) = some (some (natText 7)) ↔
      Tag.urlID = .plain ∨ 7 < 10 ^ 13 :=
  getID_tag_iff .urlID 7 (by decide) "UPDATE ".toList ['\n'] (by decide)

/-- nanoseconds of a bit more than a day -/
def oldID : ℕ := 10 ^ 14 - 1

theorem oldID_does_not_fit : ¬ ∀ (tag : Tag) (n : ℕ), n < 2 ^ 63 → ∀ pre post : Text, ¬ tagMark <:+: pre →
    getID (pre ++ tag.text (natText n) ++ post) = some (some (natText n)) := by
  intro h
  have hold := h .urlID oldID (by decide) [] [] (by decide)
  revert hold
  decide

end Rubbos.Parsers.CJDBCparser
