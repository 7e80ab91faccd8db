/-
The C++ parser of Tomcat's logs (`Tomcatparser.cpp`): `findTable`, `getDB`, `dealOutput` and the two loops of `main`.

The first loop fills a table with the requests of the access log. The entries are global, so their bytes are zero before
they are written. The second loop looks the id of every row of the servlets log up in the table and prints a record for
each pair DBST(nano)=.. DBET(nano)=.. of the row. `getDB` copies the pairs into two arrays of `max_db` buffers that live
across rows; a pair with a higher index is written behind the arrays. The result of `getDB` is never negative, so the test
behind it never fires.

- `accessTable`: the table.
- `servlets table`: the second loop as a `LineParser`.
- `getDB_eq_zero_iff`: a row gives no record exactly when it has no DBST(nano)= key.
-/
import Rubbos.Core.Effect
import Rubbos.Core.LineLoop
import Rubbos.Parsers.Fields

namespace Rubbos.Parsers.Tomcatparser

open Rubbos.Core CLib

/-! ## Model -/

def max_table_size : ℕ := 20000000
def max_db : ℕ := 20

def timestampKey : Text := "timestamp=".toList
def stKey : Text := "ST(nano)=".toList
def etKey : Text := "ET(nano)=".toList
def dbstKey : Text := "DBST(nano)=".toList
def dbetKey : Text := "DBET(nano)=".toList

/-- an entry of the table -/
structure Request where
  id : Text
  timestamp : TimeBuf
  st : TimeBuf
  et : TimeBuf
  category : Text

/-- a buffer of a global entry -/
def zeroed : TimeBuf := memset0 max_timestamp_length (uninit max_timestamp_length)

def getTimeStamp (str : Text) (b : TimeBuf) : Option (Bool × TimeBuf) := getField timestampKey str b

def getST (str : Text) (b : TimeBuf) : Option (Bool × TimeBuf) := getField stKey str b

def getET (str : Text) (b : TimeBuf) : Option (Bool × TimeBuf) := getField etKey str b

/-- the body of the first loop, for an entry that is still zero: an error ends the loop -/
def accessEntry (str : Text) : Option (Unit × Outcome Request) :=
  match getID str with
  | none => some ((), .error)
  | some id =>
    require (getTimeStamp str zeroed) (fun _ => ()) fun timestamp =>
    require (getST str zeroed) (fun _ => ()) fun st =>
    require (getET str zeroed) (fun _ => ()) fun et =>
      (getCategory str).map fun category => ((), .records [⟨id, timestamp, st, et, category⟩])

/-- the first loop, with `counter` entries in the table -/
def accessTable : (counter : ℕ) → List Text → Option (List Request)
  | _, [] => some []
  | counter, str :: rows =>
    if counter < max_table_size then
      match accessEntry str with
      | none => none
      | some (_, .error) => some []
      | some (_, .records rs) => (accessTable (counter + rs.length) rows).map (rs ++ ·)
    else none

def findTable (table : List Request) (id : Text) : Option Request := table.find? fun r => r.id = id

/-- the arrays dbst and dbet; only the rows below `max_db` are there -/
structure St where
  dbst : ℕ → TimeBuf
  dbet : ℕ → TimeBuf

/-- one round of the loop of `getDB` for the text at the DBST(nano)= key and the text at the DBET(nano)= key, if any -/
def getDBPair (num : ℕ) (t : Text) (t₂ : Option Text) (s : St) : Option St :=
  if num < max_db then do
    let b ← sscanf (t.drop dbstKey.length) (s.dbst num)
    let t₂ ← t₂
    let b₂ ← sscanf (t₂.drop dbetKey.length) (s.dbet num)
    return ⟨Function.update s.dbst num b, Function.update s.dbet num b₂⟩
  else none

/-- the loop of `getDB` at index num; every round makes the text shorter -/
def getDBLoop : (fuel : ℕ) → (num : ℕ) → Text → St → Option (ℕ × St)
  | 0, _, _, _ => none
  | fuel + 1, num, str, s =>
    match strstr dbstKey str with
    | none => some (num, s)
    | some t =>
      (getDBPair num t (strstr dbetKey str) s).bind fun s' =>
        getDBLoop fuel (num + 1) (((strstr dbetKey str).getD []).drop 1) s'

/-- `getDB(str, dbst, dbet)` -/
def getDB (str : Text) (s : St) : Option (ℕ × St) := getDBLoop (str.length + 1) 0 str s

/-- a round of `dealOutput` -/
def dealOutputAt (r : Request) (s : St) (i : ℕ) : Option DBRecord := do
  let rt ← getTimeInterval (s.dbst i) (s.dbet i)
  let exet ← getTimeInterval r.st (s.dbst i)
  let ts ← cstr r.timestamp
  return ⟨r.id, ts, exet, rt, r.category⟩

/-- `dealOutput(location, dbst, dbet, dbcounter, fp)` -/
def dealOutput (r : Request) (s : St) (dbcounter : ℕ) : Option (List DBRecord) :=
  (List.range dbcounter).mapM (dealOutputAt r s)

/-- the body of the second loop -/
def step (table : List Request) (s : St) (str : Text) : Option (St × Outcome DBRecord) :=
  match getID str with
  | none => some (s, .error)
  | some id =>
    (getDB str s).bind fun (dbcounter, s') =>
      match findTable table id with
      | none => some (s', .error)
      | some r => (dealOutput r s' dbcounter).map fun rs => (s', .records rs)

/-! ## The pairs of a row -/

structure St.Refines (s s' : St) : Prop where
  dbst : ∀ i, CLib.Refines (s.dbst i) (s'.dbst i)
  dbet : ∀ i, CLib.Refines (s.dbet i) (s'.dbet i)

theorem update_refines {a a' : ℕ → TimeBuf} (h : ∀ i, CLib.Refines (a i) (a' i)) {b b' : TimeBuf}
    (hb : CLib.Refines b b') (num i : ℕ) : CLib.Refines (Function.update a num b i) (Function.update a' num b' i) := by
  by_cases hi : i = num
  · subst hi
    simpa using hb
  · simpa [hi] using h i

theorem getDBPair_refines {s s' t : St} (h : s.Refines s') {num : ℕ} {u : Text} {u₂ : Option Text}
    (hp : getDBPair num u u₂ s = some t) : ∃ t', getDBPair num u u₂ s' = some t' ∧ t.Refines t' := by
  unfold getDBPair at hp ⊢
  split_ifs at hp ⊢
  simp only [bind, Option.bind_eq_some_iff, pure, Option.some.injEq] at hp ⊢
  obtain ⟨b, hb, v, rfl, b₂, hb₂, rfl⟩ := hp
  obtain ⟨b', hb', href⟩ := sscanf_refines (h.dbst num) hb
  obtain ⟨b₂', hb₂', href₂⟩ := sscanf_refines (h.dbet num) hb₂
  exact ⟨_, ⟨b', hb', v, rfl, b₂', hb₂', rfl⟩, fun i => update_refines h.dbst href num i,
    fun i => update_refines h.dbet href₂ num i⟩

theorem getDBLoop_refines {s s' t : St} (h : s.Refines s') {fuel num n : ℕ} {str : Text}
    (hl : getDBLoop fuel num str s = some (n, t)) : ∃ t', getDBLoop fuel num str s' = some (n, t') ∧ t.Refines t' := by
  induction fuel generalizing num str s s' with
  | zero => simp [getDBLoop] at hl
  | succ fuel ih =>
    unfold getDBLoop at hl ⊢
    cases hs : strstr dbstKey str with
    | none =>
      simp only [hs, Option.some.injEq, Prod.mk.injEq] at hl ⊢
      obtain ⟨rfl, rfl⟩ := hl
      exact ⟨s', ⟨rfl, rfl⟩, h⟩
    | some u =>
      simp only [hs, Option.bind_eq_some_iff] at hl ⊢
      obtain ⟨v, hv, hrest⟩ := hl
      obtain ⟨v', hv', href⟩ := getDBPair_refines h hv
      obtain ⟨t', ht', hrt⟩ := ih href hrest
      exact ⟨t', ⟨v', hv', ht'⟩, hrt⟩

theorem getDBLoop_le {s t : St} {fuel num n : ℕ} {str : Text} (hl : getDBLoop fuel num str s = some (n, t)) : num ≤ n := by
  induction fuel generalizing num str s with
  | zero => simp [getDBLoop] at hl
  | succ fuel ih =>
    unfold getDBLoop at hl
    cases hs : strstr dbstKey str with
    | none =>
      simp only [hs, Option.some.injEq, Prod.mk.injEq] at hl
      exact hl.1.le
    | some u =>
      simp only [hs, Option.bind_eq_some_iff] at hl
      obtain ⟨v, -, hrest⟩ := hl
      have := ih hrest
      omega

/-- the number of pairs is 0 exactly when the key is missing -/
theorem getDB_eq_zero_iff {s t : St} {n : ℕ} {str : Text} (h : getDB str s = some (n, t)) :
    n = 0 ↔ hasKey dbstKey str = false := by
  unfold getDB getDBLoop at h
  unfold hasKey
  cases hs : strstr dbstKey str with
  | none =>
    simp only [hs, Option.some.injEq, Prod.mk.injEq] at h
    simp [← h.1]
  | some u =>
    simp only [hs, Option.bind_eq_some_iff] at h
    obtain ⟨v, -, hrest⟩ := h
    have := getDBLoop_le hrest
    simp only [Option.isSome_some, Bool.true_eq_false, iff_false]
    omega

theorem dealOutputAt_refines {r : Request} {s s' : St} (h : s.Refines s') {i : ℕ} {o : DBRecord}
    (ho : dealOutputAt r s i = some o) : dealOutputAt r s' i = some o := by
  simp only [dealOutputAt, bind, Option.bind_eq_some_iff, pure] at ho ⊢
  obtain ⟨rt, hrt, exet, hexet, ts, hts, ho⟩ := ho
  have hself : CLib.Refines r.st r.st := by
    unfold CLib.Refines
    rw [List.forall₂_same]
    simp
  exact ⟨rt, getTimeInterval_refines (h.dbst i) (h.dbet i) hrt, exet,
    getTimeInterval_refines hself (h.dbst i) hexet, ts, hts, ho⟩

theorem dealOutput_refines {r : Request} {s s' : St} (h : s.Refines s') {n : ℕ} {rs : List DBRecord}
    (hrs : dealOutput r s n = some rs) : dealOutput r s' n = some rs :=
  mapM_some_of_forall₂ ((forall₂_of_mapM_some hrs).imp fun _ _ => dealOutputAt_refines h)

theorem length_dealOutput {r : Request} {s : St} {n : ℕ} {rs : List DBRecord} (hrs : dealOutput r s n = some rs) :
    rs.length = n := by
  have := (forall₂_of_mapM_some hrs).length_eq
  simpa using this.symm

/-! ## The second loop as a parser of lines -/

/-- a row without an id, or with an id that is not in the table -/
def isError (table : List Request) (str : Text) : Bool := ((getID str).bind (findTable table)).isNone

def isSilent (table : List Request) (str : Text) : Bool := !isError table str && !hasKey dbstKey str

theorem step_refines (table : List Request) (s s' : St) (str : Text) (h : s.Refines s') :
    Follows St.Refines (step table s str) (step table s' str) := by
  unfold step
  cases getID str with
  | none => exact Follows.some h _
  | some id =>
    intro t o hto
    simp only [Option.bind_eq_some_iff, Prod.exists] at hto ⊢
    obtain ⟨n, u, hu, hto⟩ := hto
    obtain ⟨u', hu', href⟩ := getDBLoop_refines h hu
    cases hf : findTable table id with
    | none =>
      obtain ⟨t', ht', hr⟩ := Follows.some href .error t o (by simpa [hf] using hto)
      exact ⟨t', ⟨n, u', hu', by simpa [hf] using ht'⟩, hr⟩
    | some r =>
      simp only [hf, Option.map_eq_some_iff, Prod.mk.injEq] at hto ⊢
      obtain ⟨rs, hrs, rfl, rfl⟩ := hto
      exact ⟨u', ⟨n, u', hu', rs, dealOutput_refines href hrs, rfl, rfl⟩, href⟩

theorem step_classified (table : List Request) (s : St) (str : Text) :
    Classified (isError table str) (isSilent table str) (step table s str) := by
  unfold step
  cases hid : getID str with
  | none =>
    have he : isError table str = true := by simp [isError, hid]
    have hs : isSilent table str = false := by simp [isSilent, he]
    rw [he, hs]
    exact Classified.error s
  | some id =>
    intro t o hto
    simp only [Option.bind_eq_some_iff, Prod.exists] at hto
    obtain ⟨n, u, hu, hto⟩ := hto
    have hn := getDB_eq_zero_iff hu
    cases hf : findTable table id with
    | none =>
      have he : isError table str = true := by simp [isError, hid, hf]
      have hs : isSilent table str = false := by simp [isSilent, he]
      rw [he, hs]
      exact Classified.error u t o (by simpa [hf] using hto)
    | some r =>
      simp only [hf, Option.map_eq_some_iff, Prod.mk.injEq] at hto
      obtain ⟨rs, hrs, -, rfl⟩ := hto
      have he : isError table str = false := by simp [isError, hid, hf]
      have hlen := length_dealOutput hrs
      have hnil : rs = [] ↔ hasKey dbstKey str = false := by
        rw [← hn, ← hlen, List.length_eq_zero_iff]
      simp [isSilent, he, hnil]

/-- the second loop on the strings that `fgets` returns -/
def servlets (table : List Request) : LineParser St Text DBRecord where
  step := step table
  init := ⟨fun _ => uninit _, fun _ => uninit _⟩
  stop := true
  isError := isError table
  isSilent := isSilent table
  refines := St.Refines
  init_refines := fun _ => ⟨fun _ => uninit_refines _, fun _ => uninit_refines _⟩
  step_refines := step_refines table
  step_classified := step_classified table

/-- `main`: the records written for an access log and a servlets log -/
def main (access servletsLog : Text) : Option (List DBRecord) :=
  (accessTable 0 (readLines max_line_length access.length access)).bind fun table =>
    (servlets table).parse (readLines max_line_length servletsLog.length servletsLog)

end Rubbos.Parsers.Tomcatparser
