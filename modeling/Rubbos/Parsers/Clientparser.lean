/-
The parser of the client's trace (`Clientparser.cpp`, `myClientparser.cpp`): `parseFile`.

Lines that do not begin with "Request :" are skipped. From the others it takes the id, the time stamp, the start and the
end time and the category, in this order, and leaves the loop at the first line that lacks one of them. What it prints
(`stimestamp`, `etimestamp`, the response time) is `atof` of the texts kept here in a record.

- `Clientparser.parser`: the loop as a `LineParser`.
-/
import Rubbos.Core.LineLoop
import Rubbos.Parsers.Fields

namespace Rubbos.Parsers

open Rubbos.Core CLib

/-- what a record is printed from -/
structure Record where
  id : Text
  timestamp : Text
  interval : Text
  category : Text
deriving DecidableEq, Repr

namespace Clientparser

/-! ## Model -/

def requestKey : Text := "Request :".toList
def timeStampKey : Text := "STimeStamp(ms)".toList
def stKey : Text := "GetConST(nano)=".toList
def etKey : Text := ' ' :: "ET(nano)=".toList

def getTimeStamp (str : Text) (b : TimeBuf) : Option (Bool × TimeBuf) := getField timeStampKey str b

def getST (str : Text) (b : TimeBuf) : Option (Bool × TimeBuf) := getField stKey str b

def getET (str : Text) (b : TimeBuf) : Option (Bool × TimeBuf) := getField etKey str b

def checkRequest (str : Text) : Bool := find requestKey str = some 0

/-- the buffers that live across lines -/
structure St where
  timestamp : TimeBuf
  st : TimeBuf
  et : TimeBuf

/-- the body of the loop -/
def step (s : St) (str : Text) : Option (St × Outcome Record) :=
  if !checkRequest str then some (s, .records [])
  else
    match getID str with
    | none => some (s, .error)
    | some id =>
      require (getTimeStamp str s.timestamp) (fun b => ⟨b, s.st, s.et⟩) fun timestamp =>
      require (getST str s.st) (fun b => ⟨timestamp, b, s.et⟩) fun st =>
      require (getET str s.et) (fun b => ⟨timestamp, st, b⟩) fun et => do
        let category ← getCategory str
        let exet1 ← getTimeInterval st et
        let ts ← cstr timestamp
        return (⟨timestamp, st, et⟩, .records [⟨id, ts, exet1, category⟩])

/-! ## The loop as a parser of lines -/

structure St.Refines (s s' : St) : Prop where
  timestamp : CLib.Refines s.timestamp s'.timestamp
  st : CLib.Refines s.st s'.st
  et : CLib.Refines s.et s'.et

/-- a request line that lacks a field -/
def isError (str : Text) : Bool :=
  checkRequest str && !(hasKey urlIDMark str && hasKey timeStampKey str && hasKey stKey str && hasKey etKey str)

theorem step_refines (s s' : St) (str : Text) (h : s.Refines s') : Follows St.Refines (step s str) (step s' str) := by
  unfold step
  split_ifs
  · exact Follows.some h _
  · cases getID str with
    | none => exact Follows.some h _
    | some id =>
      refine follows_require h.timestamp (fun c c' hc => ⟨hc, h.st, h.et⟩) fun ts ts' hts => ?_
      refine follows_require h.st (fun c c' hc => ⟨hts, hc, h.et⟩) fun st st' hst => ?_
      refine follows_require h.et (fun c c' hc => ⟨hts, hst, hc⟩) fun et et' het => ?_
      intro t o hto
      simp only [bind, Option.bind_eq_some_iff, pure, Option.some.injEq, Prod.mk.injEq] at hto ⊢
      obtain ⟨category, hcat, exet1, hex, w, hw, rfl, rfl⟩ := hto
      exact ⟨_, ⟨category, hcat, exet1, getTimeInterval_refines hst het hex, w, cstr_refines hts hw, rfl, rfl⟩,
        hts, hst, het⟩

theorem step_classified (s : St) (str : Text) : Classified (isError str) (!checkRequest str) (step s str) := by
  unfold step
  by_cases hreq : checkRequest str
  · simp only [hreq, Bool.not_true, Bool.false_eq_true, if_false]
    cases hid : getID str with
    | none =>
      have : isError str = true := by simp [isError, hreq, getID_eq_none.1 hid]
      rw [this]
      exact Classified.error s
    | some id =>
      have hurl := hasKey_of_getID hid
      refine classified_require (fun hk => by simp [isError, hreq, hurl, hk]) fun hts ts => ?_
      refine classified_require (fun hk => by simp [isError, hreq, hurl, hts, hk]) fun hst st => ?_
      refine classified_require (fun hk => by simp [isError, hreq, hurl, hts, hst, hk]) fun het et => ?_
      intro t o hto
      simp only [bind, Option.bind_eq_some_iff, pure, Option.some.injEq, Prod.mk.injEq] at hto
      obtain ⟨category, -, exet1, -, w, -, -, rfl⟩ := hto
      simp [isError, hreq, hurl, hts, hst, het]
  · simp only [hreq, Bool.not_false, if_true]
    have : isError str = false := by simp [isError, hreq]
    rw [this]
    exact Classified.records s []

/-- `parseFile` on the strings that `fgets` returns -/
def parser : LineParser St Text Record where
  step := step
  init := ⟨uninit _, uninit _, uninit _⟩
  stop := true
  isError := isError
  isSilent := fun str => !checkRequest str
  refines := St.Refines
  init_refines := fun _ => ⟨uninit_refines _, uninit_refines _, uninit_refines _⟩
  step_refines := step_refines
  step_classified := step_classified

/-- `parseFile(fpin, ...)`: the records written for a file -/
def parseFile (file : Text) : Option (List Record) := parser.parse (readLines max_line_length file.length file)

end Clientparser

end Rubbos.Parsers
