/-
The parser of Apache's access log (`Apacheparser.cpp`): the loop of `main`.

A line without an id is reported, a line without TCST(us)= (a request that Apache answered alone) is passed over in
silence, and from then on a missing field is reported. Every one of these exits is a `continue`. ST(us)= and ET(us)= are
required and copied, but not used.

- `Apacheparser.parser`: the loop as a `LineParser`.
-/
import Rubbos.Core.LineLoop
import Rubbos.Parsers.Fields

namespace Rubbos.Parsers.Apacheparser

open Rubbos.Core CLib

/-! ## Model -/

def tcstKey : Text := "TCST(us)=".toList
def tcetKey : Text := "TCET(us)=".toList
def stKey : Text := "ST(us)=".toList
def etKey : Text := "ET(us)=".toList

def getTCST (str : Text) (b : TimeBuf) : Option (Bool × TimeBuf) := getField tcstKey str b

def getTCET (str : Text) (b : TimeBuf) : Option (Bool × TimeBuf) := getField tcetKey str b

def getST (str : Text) (b : TimeBuf) : Option (Bool × TimeBuf) := getField stKey str b

def getET (str : Text) (b : TimeBuf) : Option (Bool × TimeBuf) := getField etKey str b

/-- what a record is printed from -/
structure Record where
  id : Text
  tcst : Text
  tcet : Text
  tcrt : Text
  category : Text
deriving DecidableEq, Repr

/-- the buffers that live across lines -/
structure St where
  tcst : TimeBuf
  tcet : TimeBuf
  st : TimeBuf
  et : TimeBuf

/-- the body of the loop behind `getTCST` -/
def stepTC (s : St) (str id : Text) : Option (St × Outcome Record) :=
  require (getTCET str s.tcet) (fun b => { s with tcet := b }) fun tcet =>
  require (getST str s.st) (fun b => { s with tcet, st := b }) fun st =>
  require (getET str s.et) (fun b => { s with tcet, st, et := b }) fun et => do
    let category ← getCategory str
    let tcrt ← getTimeInterval s.tcst tcet
    let t₁ ← cstr s.tcst
    let t₂ ← cstr tcet
    return (⟨s.tcst, tcet, st, et⟩, .records [⟨id, t₁, t₂, tcrt, category⟩])

/-- the body of the loop -/
def step (s : St) (str : Text) : Option (St × Outcome Record) :=
  match getID str with
  | none => some (s, .error)
  | some id =>
    match getTCST str s.tcst with
    | none => none
    | some (false, b) => some ({ s with tcst := b }, .records [])
    | some (true, b) => stepTC { s with tcst := b } str id

/-! ## The loop as a parser of lines -/

structure St.Refines (s s' : St) : Prop where
  tcst : CLib.Refines s.tcst s'.tcst
  tcet : CLib.Refines s.tcet s'.tcet
  st : CLib.Refines s.st s'.st
  et : CLib.Refines s.et s'.et

/-- a line of a request that went to Tomcat, or without an id, that lacks a field -/
def isError (str : Text) : Bool :=
  !hasKey urlIDMark str || hasKey tcstKey str && !(hasKey tcetKey str && hasKey stKey str && hasKey etKey str)

def isSilent (str : Text) : Bool := hasKey urlIDMark str && !hasKey tcstKey str

theorem stepTC_refines {s s' : St} (str id : Text) (h : s.Refines s') :
    Follows St.Refines (stepTC s str id) (stepTC s' str id) := by
  refine follows_require h.tcet (fun c c' hc => ⟨h.tcst, hc, h.st, h.et⟩) fun tcet tcet' htcet => ?_
  refine follows_require h.st (fun c c' hc => ⟨h.tcst, htcet, hc, h.et⟩) fun st st' hst => ?_
  refine follows_require h.et (fun c c' hc => ⟨h.tcst, htcet, hst, hc⟩) fun et et' het => ?_
  intro t o hto
  simp only [bind, Option.bind_eq_some_iff, pure, Option.some.injEq, Prod.mk.injEq] at hto ⊢
  obtain ⟨category, hcat, tcrt, hrt, t₁, ht₁, t₂, ht₂, rfl, rfl⟩ := hto
  exact ⟨_, ⟨category, hcat, tcrt, getTimeInterval_refines h.tcst htcet hrt, t₁, cstr_refines h.tcst ht₁, t₂,
    cstr_refines htcet ht₂, rfl, rfl⟩, h.tcst, htcet, hst, het⟩

theorem step_refines (s s' : St) (str : Text) (h : s.Refines s') : Follows St.Refines (step s str) (step s' str) := by
  unfold step
  cases getID str with
  | none => exact Follows.some h _
  | some id =>
    intro t o hto
    simp only at hto ⊢
    cases hg : getTCST str s.tcst with
    | none => simp [hg] at hto
    | some r =>
      obtain ⟨ok, b⟩ := r
      obtain ⟨b', hb', hr⟩ := getField_refines h.tcst hg
      rw [hg] at hto
      rw [show getTCST str s'.tcst = some (ok, b') from hb']
      have h' : St.Refines { s with tcst := b } { s' with tcst := b' } := ⟨hr, h.tcet, h.st, h.et⟩
      cases ok with
      | false => exact Follows.some h' _ t o hto
      | true => exact stepTC_refines str id h' t o hto

theorem stepTC_classified (s : St) {str : Text} (id : Text) (hurl : hasKey urlIDMark str) (htcst : hasKey tcstKey str) :
    Classified (isError str) (isSilent str) (stepTC s str id) := by
  refine classified_require (fun hk => by simp [isError, isSilent, htcst, hk]) fun htcet tcet => ?_
  refine classified_require (fun hk => by simp [isError, isSilent, htcst, hk]) fun hst st => ?_
  refine classified_require (fun hk => by simp [isError, isSilent, htcst, hk]) fun het et => ?_
  intro t o hto
  simp only [bind, Option.bind_eq_some_iff, pure, Option.some.injEq, Prod.mk.injEq] at hto
  obtain ⟨category, -, tcrt, -, t₁, -, t₂, -, -, rfl⟩ := hto
  simp [isError, isSilent, hurl, htcst, htcet, hst, het]

theorem step_classified (s : St) (str : Text) : Classified (isError str) (isSilent str) (step s str) := by
  unfold step
  cases hid : getID str with
  | none =>
    have hurl := getID_eq_none.1 hid
    have he : isError str = true := by simp [isError, hurl]
    have hs : isSilent str = false := by simp [isSilent, hurl]
    rw [he, hs]
    exact Classified.error s
  | some id =>
    have hurl := hasKey_of_getID hid
    intro t o hto
    simp only at hto
    cases hg : getTCST str s.tcst with
    | none => simp [hg] at hto
    | some r =>
      obtain ⟨ok, b⟩ := r
      have hok : ok = hasKey tcstKey str := getField_ok hg
      rw [hg] at hto
      cases ok with
      | false =>
        have he : isError str = false := by simp [isError, hurl, ← hok]
        have hs : isSilent str = true := by simp [isSilent, hurl, ← hok]
        rw [he, hs]
        exact Classified.records _ [] t o hto
      | true => exact stepTC_classified _ id hurl hok.symm t o hto

/-- the loop on the strings that `fgets` returns -/
def parser : LineParser St Text Record where
  step := step
  init := ⟨uninit _, uninit _, uninit _, uninit _⟩
  stop := false
  isError := isError
  isSilent := isSilent
  refines := St.Refines
  init_refines := fun _ => ⟨uninit_refines _, uninit_refines _, uninit_refines _, uninit_refines _⟩
  step_refines := step_refines
  step_classified := step_classified

end Rubbos.Parsers.Apacheparser
