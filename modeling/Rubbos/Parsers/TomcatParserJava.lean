/-
The Java parser of Tomcat's logs (`TomcatParser.java`): `parseAccess`, `parseServerlets` and `process`.

A request of the access log goes to `accesstable` if it is the first with its id; a later one with the same id and
another category is to go to `accesscollisiontable`. Rows of the servlets log are looked up in the first table and, where
the second one has the id, the category of the row decides between the two requests.

`Hashtable.contains` looks for a value, not for a key. The tables hold Requests, and no Request equals a String, so that
`accesscollisiontable.contains(id)` is false for every id: the branch that compares categories is dead.

Numbers are exact here (`Printed`). An exception that is not caught ends the program before it has written anything.

- `get_accesstable`: the first request with an id is the one that is kept.
- `serverletsRow_eq`: every row is charged to it.
- `attributed_iff`: so a row of a request that shares its id is charged to the right one exactly when that one came first.

Witness: `sharedAccess`, an id shared by ViewStory and Search.
-/
import Rubbos.Core.Effect
import Rubbos.Core.JSplit
import Rubbos.Parsers.Fields

namespace Rubbos.Parsers

open Rubbos.Core JString

/-- a line of the output -/
structure Printed where
  id : Text
  stimestamp : ℚ
  etimestamp : ℚ
  category : Text
  rt : ℚ
deriving DecidableEq, Repr

namespace TomcatParser

/-! ## Model -/

def equalsKey : Text := ['=']
def questionKey : Text := ['?']
def dotKey : Text := ['.']

structure Request where
  id : Text
  timestamp : Text
  st : Text
  et : Text
  category : Text
deriving DecidableEq, Repr

/-- objects as `equals` tells them apart -/
inductive Obj where
  | string (s : Text)
  | request (r : Request)
deriving DecidableEq, Repr

/-- `Hashtable<String, Request>`, the newest entry of a key first -/
abbrev Hashtable := List (Text × Request)

namespace Hashtable

/-- `get(id)`; where the source asks `containsKey(id)` first, it is the case that there is a request -/
def get (t : Hashtable) (id : Text) : Option Request := (t.find? fun e => e.1 = id).map (·.2)

/-- `contains(value)`: some key maps to the value -/
def contains (t : Hashtable) (value : Obj) : Bool := t.any fun e => Obj.request e.2 = value

def put (t : Hashtable) (id : Text) (r : Request) : Hashtable := (id, r) :: t

end Hashtable

structure Tables where
  accesstable : Hashtable
  accesscollisiontable : Hashtable

/-- the category in a token `uri?urlID=id` -/
def categoryOf (token : Text) : Except Exc Text := do
  let strcat := split dotKey (← element (split questionKey token) 0)
  element strcat (strcat.length - 1)

/-- the request in a row of the access log -/
def accessRequest (row : Text) : Except Exc Request := do
  let strs := tokens row
  let id ← element (split urlIDMark (← element strs 4)) 1
  let timestamp ← element (split equalsKey (← element strs (strs.length - 1))) 1
  let st ← element (split equalsKey (← element strs 8)) 1
  let et ← element (split equalsKey (← element strs 9)) 1
  let category ← categoryOf (← element strs 4)
  return ⟨id, timestamp, st, et, category⟩

/-- enter a request into the tables -/
def enter (t : Tables) (req : Request) : Tables :=
  match Hashtable.get t.accesstable req.id with
  | none => { t with accesstable := Hashtable.put t.accesstable req.id req }
  | some existedreq =>
    if req.category ≠ existedreq.category then
      if Hashtable.contains t.accesscollisiontable (.string req.id) then t
      else { t with accesscollisiontable := Hashtable.put t.accesscollisiontable req.id req }
    else t

/-- the body of the loop of `parseAccess`: a row that is too short is passed over -/
def accessRow (t : Tables) (row : Text) : Tables :=
  match accessRequest row with
  | .ok req => enter t req
  | .error _ => t

def parseAccess (rows : List Text) : Tables := rows.foldl accessRow ⟨[], []⟩

/-- a round of the loop of `process` -/
def processAt (strs : List Text) (request : Request) (i : ℕ) : Except Exc Printed := do
  let dbst ← parseLong (← element (split equalsKey (← element strs (6 + 3 * i))) 1)
  let dbet ← parseLong (← element (split equalsKey (← element strs (6 + 3 * i + 1))) 1)
  let rt := wrapLong (dbet - dbst)
  let exet := wrapLong (dbst - (← parseLong request.st))
  let rt1 : ℚ := rt / 1000000
  let exet1 : ℚ := exet / 1000000
  let timestamp ← parseDouble request.timestamp
  return ⟨request.id, (timestamp + exet1) / 1000, (timestamp + exet1 + rt1) / 1000, request.category, rt1⟩

/-- `process(db, strs, request)` -/
def process (db : ℕ) (strs : List Text) (request : Request) : Except Exc (List Printed) :=
  (List.range db).mapM (processAt strs request)

/-- `db = (len-5)/3` -/
def dbCount (strs : List Text) : ℕ := (strs.length - 5) / 3

/-- the id of a row of the servlets log -/
def rowID (row : Text) : Except Exc Text := do element (split urlIDMark (← element (tokens row) 5)) 1

/-- the category of a row of the servlets log -/
def rowCategory (row : Text) : Except Exc Text := do categoryOf (← element (tokens row) 5)

/-- the body of the loop of `parseServerlets` -/
def serverletsRow (t : Tables) (row : Text) : Except Exc (List Printed) := do
  let strs := tokens row
  let id ← rowID row
  match Hashtable.get t.accesstable id with
  | none => return []
  | some request =>
    if !Hashtable.contains t.accesscollisiontable (.string id) then process (dbCount strs) strs request
    else
      -- collision, then compare category
      match Hashtable.get t.accesscollisiontable id with
      | none => return []
      | some existedreq =>
        let category ← rowCategory row
        if category = request.category then process (dbCount strs) strs request
        else if category = existedreq.category then process (dbCount strs) strs existedreq
        else return []

/-- `parseServerlets()`: what is written at the end -/
def parseServerlets (t : Tables) (rows : List Text) : Except Exc (List Printed) := do
  return (← rows.mapM (serverletsRow t)).flatten

/-- `parse()`: the records written for an access log and a servlets log -/
def parse (access servletsLog : Text) : Except Exc (List Printed) :=
  parseServerlets (parseAccess (lines access)) (lines servletsLog)

/-! ## The tables -/

/-- the requests of an access log -/
def requests (rows : List Text) : List Request := rows.filterMap fun row => (accessRequest row).toOption

/-- no Request is a String -/
@[simp] theorem contains_string (t : Hashtable) (id : Text) : Hashtable.contains t (.string id) = false := by
  simp [Hashtable.contains]

theorem get_put (t : Hashtable) (id id' : Text) (r : Request) :
    Hashtable.get (Hashtable.put t id' r) id = if id' = id then some r else Hashtable.get t id := by
  by_cases h : id' = id <;> simp [Hashtable.get, Hashtable.put, h]

theorem get_enter (t : Tables) (req : Request) (id : Text) :
    Hashtable.get (enter t req).accesstable id =
      (Hashtable.get t.accesstable id).or (if req.id = id then some req else none) := by
  unfold enter
  cases hg : Hashtable.get t.accesstable req.id with
  | none =>
    simp only [get_put]
    by_cases h : req.id = id
    · subst h
      simp [hg]
    · simp [h]
  | some existedreq =>
    have hkeep : ∀ t' : Tables, t'.accesstable = t.accesstable → Hashtable.get t'.accesstable id =
        (Hashtable.get t.accesstable id).or (if req.id = id then some req else none) := by
      intro t' ht
      rw [ht]
      by_cases h : req.id = id
      · subst h
        simp [hg]
      · simp [h]
    apply hkeep
    dsimp only
    split_ifs
    all_goals rfl

theorem get_foldl (rows : List Text) (t : Tables) (id : Text) :
    Hashtable.get (rows.foldl accessRow t).accesstable id =
      (Hashtable.get t.accesstable id).or ((requests rows).find? fun r => r.id = id) := by
  induction rows generalizing t with
  | nil => simp [requests]
  | cons row rows ih =>
    rw [List.foldl_cons, ih]
    cases hr : accessRequest row with
    | error e =>
      have hrow : accessRow t row = t := by simp [accessRow, hr]
      have hreq : requests (row :: rows) = requests rows := by simp [requests, hr, Except.toOption]
      rw [hrow, hreq]
    | ok req =>
      have hrow : accessRow t row = enter t req := by simp [accessRow, hr]
      have hreq : requests (row :: rows) = req :: requests rows := by simp [requests, hr, Except.toOption]
      rw [hrow, hreq, get_enter, Option.or_assoc]
      by_cases h : req.id = id <;> simp [h]

/-- the first request with an id is the one in the table -/
theorem get_accesstable (rows : List Text) (id : Text) :
    Hashtable.get (parseAccess rows).accesstable id = (requests rows).find? fun r => r.id = id := by
  have hempty : Hashtable.get ([] : Hashtable) id = none := rfl
  rw [parseAccess, get_foldl, hempty, Option.none_or]

/-- every row is charged to the first request with its id -/
theorem serverletsRow_eq {rows : List Text} {row id : Text} {first : Request} (hid : rowID row = .ok id)
    (hfirst : (requests rows).find? (fun r => r.id = id) = some first) :
    serverletsRow (parseAccess rows) row = process (dbCount (tokens row)) (tokens row) first := by
  have hget := get_accesstable rows id
  rw [hfirst] at hget
  simp [serverletsRow, hid, hget, bind, Except.bind]

/-! ## Requests that share an id -/

theorem category_of_processAt {strs : List Text} {r : Request} {i : ℕ} {p : Printed} (h : processAt strs r i = .ok p) :
    p.category = r.category := by
  simp only [processAt, bind_eq_ok] at h
  obtain ⟨_, -, _, -, _, -, _, -, _, -, _, -, _, -, _, -, h⟩ := h
  cases h
  rfl

theorem process_zero (strs : List Text) (r : Request) : process 0 strs r = .ok [] := by
  simp [process, pure, Except.pure]

theorem process_ok {db : ℕ} {strs : List Text} {r : Request} {out : List Printed} (h : process db strs r = .ok out) :
    out.length = db ∧ ∀ p ∈ out, p.category = r.category := by
  have hall := forall₂_of_mapM_ok h
  refine ⟨by simpa using hall.length_eq.symm, ?_⟩
  intro p hp
  obtain ⟨i, -, hi⟩ := exists_of_mem_right hall hp
  exact category_of_processAt hi

/-- the first request with an id and a category -/
def matching (rows : List Text) (id category : Text) : Option Request :=
  (requests rows).find? fun r => r.id = id ∧ r.category = category

/-- the request that a row of the servlets log belongs to: its id and its category, if there is one -/
def owner (rows : List Text) (row : Text) : Except Exc (Option Request) := do
  return matching rows (← rowID row) (← rowCategory row)

/-- the first request with an id is the first of its category -/
theorem matching_first {rows : List Text} {id : Text} {first : Request}
    (h : (requests rows).find? (fun r => r.id = id) = some first) : matching rows id first.category = some first := by
  rw [List.find?_eq_some_iff_append] at h
  obtain ⟨hid, as, bs, hlist, has⟩ := h
  rw [matching, List.find?_eq_some_iff_append]
  refine ⟨by simpa using hid, as, bs, hlist, ?_⟩
  intro a ha
  have := has a ha
  simp_all

/-- the first request with the id is the owner, if it has the category -/
theorem owner_eq_first {rows : List Text} {row id : Text} {first r : Request} (hid : rowID row = .ok id)
    (hfirst : (requests rows).find? (fun r => r.id = id) = some first) (howner : owner rows row = .ok (some r))
    (hcat : first.category = r.category) : r = first := by
  simp only [owner, hid, bind_eq_ok, pure, Except.pure, Except.ok.injEq] at howner
  obtain ⟨_, rfl, category, -, hr⟩ := howner
  have hr' : r.category = category := by
    have := List.find?_some hr
    simp_all
  rw [← hr', ← hcat, matching_first hfirst, Option.some.injEq] at hr
  exact hr.symm

/-- **Requests that share an id.** A row of the servlets log that belongs to a request, and whose numbers can be read: it
is charged to that request exactly when the first request with the id is of the same category, or when the row has no
database calls at all. -/
theorem attributed_iff (rows : List Text) (row id : Text) (first r : Request) (out : List Printed)
    (hid : rowID row = .ok id) (hfirst : (requests rows).find? (fun r => r.id = id) = some first)
    (howner : owner rows row = .ok (some r)) (hnum : process (dbCount (tokens row)) (tokens row) first = .ok out) :
    serverletsRow (parseAccess rows) row = process (dbCount (tokens row)) (tokens row) r ↔
      first.category = r.category ∨ dbCount (tokens row) = 0 := by
  rw [serverletsRow_eq hid hfirst, hnum]
  constructor
  · intro h
    obtain ⟨hlen, hof⟩ := process_ok hnum
    obtain ⟨-, hof'⟩ := process_ok h.symm
    rcases out with _ | ⟨p, out⟩
    · exact Or.inr hlen.symm
    · left
      calc first.category = p.category := (hof p List.mem_cons_self).symm
        _ = r.category := hof' p List.mem_cons_self
  · rintro (h | h)
    · have hsame : r = first := owner_eq_first hid hfirst howner h
      rw [hsame, hnum]
    · rw [h, process_zero] at hnum
      rw [h, process_zero, ← hnum]

/-- ViewStory and Search with the id 7, ViewStory first -/
def sharedAccess : List Text :=
  ["d t ThreaD:a pad /r.ViewStory?urlID=7 5 pad pad ST(nano)=100 ET(nano)=900 timestamp=5000".toList,
   "d t ThreaD:b pad /r.Search?urlID=7 5 pad pad ST(nano)=200 ET(nano)=900 timestamp=6000".toList]

def viewStoryRequest : Request := ⟨['7'], "5000".toList, "100".toList, "900".toList, "ViewStory".toList⟩

def searchRequest : Request := ⟨['7'], "6000".toList, "200".toList, "900".toList, "Search".toList⟩

theorem requests_sharedAccess : requests sharedAccess = [viewStoryRequest, searchRequest] := by decide +kernel

/-- a row of the servlets log, with one database call -/
def sharedRow (script : Text) : Text :=
  "d t INFO  L:? - /r.".toList ++ script ++ "?urlID=7 DBST(nano)=300 DBET(nano)=400 DBRT(us)=0".toList

theorem attributed_iff_viewStory :
    serverletsRow (parseAccess sharedAccess) (sharedRow "ViewStory".toList) =
        process 1 (tokens (sharedRow "ViewStory".toList)) viewStoryRequest ↔
      viewStoryRequest.category = viewStoryRequest.category ∨ dbCount (tokens (sharedRow "ViewStory".toList)) = 0 :=
  attributed_iff sharedAccess (sharedRow "ViewStory".toList) ['7'] viewStoryRequest viewStoryRequest
    [⟨['7'], (5000 + 200 / 1000000) / 1000, (5000 + 200 / 1000000 + 100 / 1000000) / 1000, "ViewStory".toList,
      100 / 1000000⟩] (by decide +kernel) (by rw [requests_sharedAccess]; rfl) (by decide +kernel) (by decide +kernel)

/-- the row of Search is charged to ViewStory -/
theorem search_charged_to_viewStory : ¬ ∀ (rows : List Text) (row id : Text) (r₁ r₂ r : Request),
    r₁ ∈ requests rows → r₂ ∈ requests rows → r₁.id = id → r₂.id = id → r₁.category ≠ r₂.category →
    rowID row = .ok id → rowCategory row = .ok r.category → (r = r₁ ∨ r = r₂) →
    serverletsRow (parseAccess rows) row = process (dbCount (tokens row)) (tokens row) r := by
  intro h
  have hsearch := h sharedAccess (sharedRow "Search".toList) ['7'] viewStoryRequest searchRequest searchRequest
    (by simp [requests_sharedAccess]) (by simp [requests_sharedAccess]) rfl rfl (by decide) (by decide +kernel)
    (by decide +kernel) (Or.inr rfl)
  revert hsearch
  decide +kernel

end TomcatParser

end Rubbos.Parsers
