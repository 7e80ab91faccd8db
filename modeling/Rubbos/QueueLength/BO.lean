/-
Profiles of the requests in a `QueueLength` file (`BO.py`): the loop of `main` over the lines.

Time is cut into buckets of a tenth of a second. For every model (a category of requests, and "total" for all of them) and
every bucket of the window the tool counts the requests that start and end in it, adds up for how long requests were there,
and collects response times. Every table has the models and the buckets as keys from the beginning, so writing anywhere
else is a KeyError. The numbers are floats, so a `Rounding` is a parameter, and so is `float` of a text.

- `bumpAll_ok`: a list of changes raises nothing exactly if the table has their keys, and then changes each entry for itself.
- `addMulti2_eq`: the cuts and the loop of `addMulti2` as such a list.
- `processRow_ok`: so does a row, in all six tables.
-/
import Rubbos.Core.Decimal
import Rubbos.Core.Effect
import Rubbos.Core.Python
import Rubbos.Core.Rounding

namespace Rubbos.QueueLength.BO

open Rubbos.Core Python

/-! ## Model -/

/-- the arguments of the tool; the times are what `time.mktime` returns for them -/
structure Options where
  startTime : ℤ
  endTime : ℤ
  workloadType : Text
  node : Text

def multiCountInSec : ℚ := 10

def stimeEpoch (o : Options) : ℚ := o.startTime

def etimeEpoch (R : Rounding) (o : Options) : ℚ := R.fl (o.endTime + R.fl 59.999999)

def total : Text := "total".toList

def models (o : Options) : List Text :=
  if "RO".toList <:+: o.workloadType then
    if "Mysql".toList <:+: o.node then ["total", "SELECT", "INSERT", "UPDATE", "DELETE"].map String.toList
    else
      ["total", "StoriesOfTheDay", "Browse", "BrowseCategories", "BrowseStoriesByCategory", "BrowseStoriesInCategory",
        "OlderStories", "ViewStory", "ViewComment", "Search", "SearchInStories", "SearchInComments", "SearchInUsers", "jpg",
        "html"].map String.toList
  else
    if "Mysql".toList <:+: o.node then
      ["total", "select", "SELECT", "INSERT", "insert", "UPDATE", "update", "DELETE", "delete", "commit;", "SHOW", "SET",
        "/bin", "#"].map String.toList
    else
      ["total", "StoriesOfTheDay", "BrowseCategories", "BrowseStoriesByCategory", "OlderStories", "ViewStory",
        "SubmitStory", "StoreStory", "ViewComment", "PostComment", "StoreComment", "ModerateComment", "StoreModeratorLog",
        "ReviewStories", "AcceptStory", "RejectStory", "Search", "RegisterUser", "Author", "jpg", "html"].map String.toList

/-- `int(x)` of a float -/
def trunc (x : ℚ) : ℤ := if x < 0 then ⌈x⌉ else ⌊x⌋

/-- a dictionary of dictionaries, by model and bucket -/
abbrev Table (α : Type) := Text → ℤ → Option α

variable {α : Type}

/-- the tables before the first line -/
def initial (R : Rounding) (o : Options) (v : α) : Table α := fun model b =>
  if model ∈ models o ∧ 10 * trunc (stimeEpoch o) ≤ b ∧ b ≤ 10 * trunc (etimeEpoch R o) + 9 then some v else none

/-- `dic[model][b] = f(dic[model][b])` -/
def bump (dic : Table α) (model : Text) (b : ℤ) (f : α → α) : Except PyExc (Table α) :=
  match dic model b with
  | none => .error .keyError
  | some v => .ok fun model' b' => if model' = model ∧ b' = b then some (f v) else dic model' b'

/-- first for "total", then for the model -/
def bumpBoth (dic : Table α) (model : Text) (b : ℤ) (f : α → α) : Except PyExc (Table α) := do
  let dic ← bump dic total b f
  bump dic model b f

/-- the bucket of a time -/
def bucket (R : Rounding) (t : ℚ) : ℤ := ⌊R.fl (t * multiCountInSec)⌋

/-- the bucket of a time is in the window: `incInOut` does not return early -/
def Seen (R : Rounding) (o : Options) (t : ℚ) : Prop :=
  ¬ (bucket R t : ℚ) < R.fl (stimeEpoch o * multiCountInSec) ∧ ¬ R.fl (etimeEpoch R o * multiCountInSec) < bucket R t

instance (R : Rounding) (o : Options) (t : ℚ) : Decidable (Seen R o t) := inferInstanceAs (Decidable (_ ∧ _))

def incInOut (R : Rounding) (o : Options) (incTime : ℚ) (model : Text) (dicMulti : Table ℕ) : Except PyExc (Table ℕ) :=
  if Seen R o incTime then bumpBoth dicMulti model (bucket R incTime) (· + 1) else .ok dicMulti

/-- `+= x` on floats -/
def plus (R : Rounding) (x v : ℚ) : ℚ := R.fl (v + x)

/-- `while (add_from2 < add_to2)`, so many times -/
def addWhole (R : Rounding) (model : Text) : (n : ℕ) → (addFrom2 : ℤ) → Table ℚ → Except PyExc (Table ℚ)
  | 0, _, dicMulti => .ok dicMulti
  | n + 1, addFrom2, dicMulti => do
    let dicMulti ← bumpBoth dicMulti model addFrom2 (plus R 1)
    addWhole R model n (addFrom2 + 1) dicMulti

/-- `addMulti2` behind the cuts at the window, for the globals stime_epoch and multi_count_in_sec -/
def addCut (R : Rounding) (stimeEpoch multiCountInSec addFrom addTo : ℚ) (model : Text) (dicMulti : Table ℚ) :
    Except PyExc (Table ℚ) := do
  let from10 := R.fl (addFrom * multiCountInSec)
  let to10 := R.fl (addTo * multiCountInSec)
  if ⌈from10⌉ ≤ ⌊to10⌋ then
    let dicMulti ←
      if R.fl (stimeEpoch * multiCountInSec) ≤ (⌈from10⌉ - 1 : ℤ) then
        bumpBoth dicMulti model (⌈from10⌉ - 1) (plus R (R.fl (⌈from10⌉ - from10)))
      else .ok dicMulti
    let dicMulti ← bumpBoth dicMulti model ⌊to10⌋ (plus R (R.fl (to10 - ⌊to10⌋)))
    addWhole R model (⌊to10⌋ - ⌈from10⌉).toNat ⌈from10⌉ dicMulti
  else bumpBoth dicMulti model ⌊to10⌋ (plus R (R.fl (R.fl (addTo - addFrom) * multiCountInSec)))

/-- `addMulti2` for any globals; a model is a text and never 0, so nothing is printed -/
def addMulti2At (R : Rounding) (stimeEpoch etimeEpoch multiCountInSec addFrom addTo : ℚ) (model : Text) (dicMulti : Table ℚ) :
    Except PyExc (Table ℚ) :=
  if addTo < stimeEpoch then .ok dicMulti
  else
    let addFrom := if addFrom < stimeEpoch then stimeEpoch else addFrom
    if etimeEpoch < addFrom then .ok dicMulti
    else
      let addTo := if etimeEpoch < addTo then etimeEpoch else addTo
      addCut R stimeEpoch multiCountInSec addFrom addTo model dicMulti

def addMulti2 (R : Rounding) (o : Options) (addFrom addTo : ℚ) (model : Text) (dicMulti : Table ℚ) : Except PyExc (Table ℚ) :=
  addMulti2At R (stimeEpoch o) (etimeEpoch R o) multiCountInSec addFrom addTo model dicMulti

/-- the two cuts of `addMulti2` leave something: it does not return early -/
def Overlaps (R : Rounding) (o : Options) (addFrom addTo : ℚ) : Prop :=
  ¬ addTo < stimeEpoch o ∧ ¬ etimeEpoch R o < max addFrom (stimeEpoch o)

instance (R : Rounding) (o : Options) (addFrom addTo : ℚ) : Decidable (Overlaps R o addFrom addTo) :=
  inferInstanceAs (Decidable (_ ∧ _))

/-- the list of five of `HTTP_in` and `HTTP_out_rs` -/
structure Cell where
  count : ℕ
  sum : ℚ
  atLeast10ms : ℕ
  atLeast100ms : ℕ
  atLeast1s : ℕ
deriving DecidableEq, Repr

def Cell.add (R : Rounding) (rs : ℚ) (c : Cell) : Cell where
  count := c.count + 1
  sum := R.fl (c.sum + rs)
  atLeast10ms := if R.fl 0.01 ≤ rs then c.atLeast10ms + 1 else c.atLeast10ms
  atLeast100ms := if R.fl 0.1 ≤ rs then c.atLeast100ms + 1 else c.atLeast100ms
  atLeast1s := if 1 ≤ rs then c.atLeast1s + 1 else c.atLeast1s

/-- `incInOutRS` with its switch on, as it is always called -/
def incInOutRS (R : Rounding) (o : Options) (incTime rs : ℚ) (model : Text) (dicMulti : Table Cell) :
    Except PyExc (Table Cell) :=
  if Seen R o incTime then bumpBoth dicMulti model (bucket R incTime) (Cell.add R rs) else .ok dicMulti

structure Profiles where
  httpInput : Table ℕ
  httpOutput : Table ℕ
  httpMulti : Table ℚ
  httpMultiLongReqs : Table ℚ
  httpIn : Table Cell
  httpOutRs : Table Cell

def initialProfiles (R : Rounding) (o : Options) : Profiles where
  httpInput := initial R o 0
  httpOutput := initial R o 0
  httpMulti := initial R o 0
  httpMultiLongReqs := initial R o 0
  httpIn := initial R o ⟨0, 0, 0, 0, 0⟩
  httpOutRs := initial R o ⟨0, 0, 0, 0, 0⟩

structure Row where
  stime : ℚ
  etime : ℚ
  model : Text
deriving DecidableEq, Repr

def Row.reqRS (R : Rounding) (r : Row) : ℚ := R.fl (r.etime - r.stime)

/-- the body of the loop behind the parsing of the line -/
def processRow (R : Rounding) (o : Options) (p : Profiles) (r : Row) : Except PyExc Profiles := do
  let httpInput ← incInOut R o r.stime r.model p.httpInput
  let httpOutput ← incInOut R o r.etime r.model p.httpOutput
  let httpMulti ← addMulti2 R o r.stime r.etime r.model p.httpMulti
  let p := { p with httpInput, httpOutput, httpMulti }
  if r.reqRS R < 0 then return p
  else if 3 < r.reqRS R then
    let httpMultiLongReqs ← addMulti2 R o r.stime r.etime r.model p.httpMultiLongReqs
    return { p with httpMultiLongReqs }
  else
    let httpIn ← incInOutRS R o r.stime (r.reqRS R) r.model p.httpIn
    let httpOutRs ← incInOutRS R o r.etime (r.reqRS R) r.model p.httpOutRs
    return { p with httpIn, httpOutRs }

/-- `float(s)`, `none` for an infinity or NaN -/
abbrev ReadFloat := Text → Except LibExc (Option ℚ)

/-- `float(s)` of a decimal number, without underscores -/
def decimalFloat : ReadFloat := fun s =>
  match readDecimal (strip s) with
  | some (v, []) => .ok (some v)
  | _ => .error .valueError

/-- `parts[i]` -/
def part (parts : List Text) (i : ℕ) : Except PyExc Text :=
  match parts[i]? with
  | some p => .ok p
  | none => .error .indexError

/-- `float(parts[i])` of a time: what is not finite has no bucket, and raises when it is looked for. Python raises an OverflowError
for an infinity and a ValueError for NaN, and nothing catches either; here both are a ValueError. -/
def timePart (float : ReadFloat) (parts : List Text) (i : ℕ) : Except PyExc ℚ := do
  match ← (float (← part parts i)).mapError .library with
  | some t => return t
  | none => throw (.library .valueError)

/-- a line; the heading is passed over -/
def parseLine (float : ReadFloat) (line : Text) : Except PyExc (Option Row) :=
  if "startingTime".toList <:+: line then .ok none
  else do
    let parts := split [','] line
    let reqType ← part parts 2
    let stime ← timePart float parts 0
    let etime ← timePart float parts 1
    let _ ← (float (← part parts 3)).mapError .library
    return some ⟨stime, etime, strip reqType⟩

/-- the body of the loop -/
def processLine (R : Rounding) (o : Options) (float : ReadFloat) (p : Profiles) (line : Text) : Except PyExc Profiles := do
  match ← parseLine float line with
  | none => return p
  | some r => processRow R o p r

/-- the loop over the lines of the file -/
def mainLoop (R : Rounding) (o : Options) (float : ReadFloat) (lines : List Text) : Except PyExc Profiles :=
  lines.foldlM (processLine R o float) (initialProfiles R o)

/-! ## Changes of a table -/

section

variable {dic dic' : Table α} {model m : Text} {b : ℤ} {f : α → α} {changes : List (ℤ × (α → α))}

/-- changes one after the other, each for "total" and for the model -/
def bumpAll (model : Text) (changes : List (ℤ × (α → α))) (dic : Table α) : Except PyExc (Table α) :=
  changes.foldlM (fun dic c => bumpBoth dic model c.1 c.2) dic

/-- how often a change for a model is made to the entry of m: twice if both are "total" -/
def times (model m : Text) : ℕ := (if m = total then 1 else 0) + if m = model then 1 else 0

/-- what the changes do to one entry -/
def effect (model : Text) (changes : List (ℤ × (α → α))) (m : Text) (b : ℤ) (v : α) : α :=
  changes.foldl (fun v c => if c.1 = b then (c.2)^[times model m] v else v) v

@[simp] theorem effect_nil (v : α) : effect model [] m b v = v := rfl

@[simp] theorem effect_cons (c : ℤ × (α → α)) (v : α) :
    effect model (c :: changes) m b v =
      effect model changes m b (if c.1 = b then (c.2)^[times model m] v else v) := rfl

/-- a table whose entries are changed by what stands for them -/
def change (dic : Table α) (g : Text → ℤ → α → α) : Table α := fun m b => (dic m b).map (g m b)

@[simp] theorem isSome_change {g : Text → ℤ → α → α} : (change dic g m b).isSome = (dic m b).isSome := by simp [change]

theorem change_change (g h : Text → ℤ → α → α) :
    change (change dic g) h = change dic fun m b v => h m b (g m b v) := by
  funext m b
  simp [change, Function.comp_def]

theorem bump_ok :
    bump dic model b f = .ok dic' ↔
      (dic model b).isSome ∧ dic' = change dic fun m b' v => if m = model ∧ b' = b then f v else v := by
  unfold bump
  cases hv : dic model b with
  | none => simp
  | some v =>
    have hfun : (fun m b' => if m = model ∧ b' = b then some (f v) else dic m b') =
        change dic fun m b' v => if m = model ∧ b' = b then f v else v := by
      funext m b'
      by_cases h : m = model ∧ b' = b
      · obtain ⟨rfl, rfl⟩ := h
        simp [change, hv]
      · simp [change, h]
    simp only [hfun, Except.ok.injEq, Option.isSome_some, true_and]
    exact eq_comm

theorem iterate_times (v : α) :
    f^[times model m] v = if m = model then f (if m = total then f v else v) else if m = total then f v else v := by
  unfold times
  split_ifs <;> rfl

theorem bumpBoth_ok :
    bumpBoth dic model b f = .ok dic' ↔ ((dic total b).isSome ∧ (dic model b).isSome) ∧
      dic' = change dic fun m b' v => if b = b' then f^[times model m] v else v := by
  have hboth : (change (change dic fun m b' v => if m = total ∧ b' = b then f v else v) fun m b' v =>
      if m = model ∧ b' = b then f v else v) = change dic fun m b' v => if b = b' then f^[times model m] v else v := by
    rw [change_change]
    congr 1
    funext m b' v
    by_cases hb : b = b'
    · subst hb
      simp [iterate_times]
    · simp [hb, Ne.symm hb]
  unfold bumpBoth
  rw [bind_eq_ok]
  constructor
  · rintro ⟨mid, hmid, h⟩
    obtain ⟨ht, rfl⟩ := bump_ok.1 hmid
    obtain ⟨hm, rfl⟩ := bump_ok.1 h
    exact ⟨⟨ht, by simpa using hm⟩, hboth⟩
  · rintro ⟨⟨ht, hm⟩, rfl⟩
    exact ⟨_, bump_ok.2 ⟨ht, rfl⟩, bump_ok.2 ⟨by simpa using hm, hboth.symm⟩⟩

/-- **The changes of a table.** They raise nothing exactly if the table has their keys, and then each entry is changed for
itself. -/
theorem bumpAll_ok :
    bumpAll model changes dic = .ok dic' ↔ (∀ c ∈ changes, (dic total c.1).isSome ∧ (dic model c.1).isSome) ∧
      dic' = change dic (effect model changes) := by
  induction changes generalizing dic with
  | nil =>
    have hid : change dic (effect model []) = dic := by
      funext m b
      exact Option.map_id'
    simp only [hid, List.not_mem_nil, false_imp_iff, implies_true, true_and]
    exact ⟨fun h => (Except.ok.inj h).symm, fun h => h ▸ rfl⟩
  | cons c changes ih =>
    have hcons : bumpAll model (c :: changes) dic = bumpBoth dic model c.1 c.2 >>= bumpAll model changes := rfl
    rw [hcons, bind_eq_ok]
    simp only [bumpBoth_ok, ih, List.forall_mem_cons]
    constructor
    · rintro ⟨mid, ⟨hc, rfl⟩, hkeys, rfl⟩
      exact ⟨⟨hc, by simpa using hkeys⟩, by rw [change_change]; rfl⟩
    · rintro ⟨⟨hc, hkeys⟩, rfl⟩
      exact ⟨_, ⟨hc, rfl⟩, by simpa using hkeys, by rw [change_change]; rfl⟩

/-- a relation that every change keeps when it is made on both sides -/
theorem effect_rel {Q : α → α → Prop} {v w : α} (h : ∀ c ∈ changes, ∀ v w, Q v w → Q (c.2 v) (c.2 w)) (hvw : Q v w) :
    Q (effect model changes m b v) (effect model changes m b w) := by
  induction changes generalizing v w with
  | nil => exact hvw
  | cons c changes ih =>
    have hiter : ∀ n, Q ((c.2)^[n] v) ((c.2)^[n] w) := by
      intro n
      induction n with
      | zero => exact hvw
      | succ n ihn =>
        rw [Function.iterate_succ_apply', Function.iterate_succ_apply']
        exact h c List.mem_cons_self _ _ ihn
    rw [effect_cons, effect_cons]
    refine ih (fun d hd => h d (List.mem_cons_of_mem c hd)) ?_
    split
    · exact hiter _
    · exact hvw

/-- what every change keeps, the entry keeps -/
theorem effect_induct {P : α → Prop} {v : α} (h : ∀ c ∈ changes, ∀ v, P v → P (c.2 v)) (hv : P v) :
    P (effect model changes m b v) :=
  effect_rel (Q := fun v _ => P v) (w := v) (fun c hc v _ hPv => h c hc v hPv) hv

end

/-! ## The changes of a row -/

/-- the change of `incInOut` and `incInOutRS` -/
def inOut (R : Rounding) (o : Options) (t : ℚ) (f : α → α) : List (ℤ × (α → α)) :=
  if Seen R o t then [(bucket R t, f)] else []

/-- the shares of a stay between the cuts in the buckets -/
def sharesCut (R : Rounding) (o : Options) (addFrom addTo : ℚ) : List (ℤ × ℚ) :=
  let from10 := R.fl (addFrom * multiCountInSec)
  let to10 := R.fl (addTo * multiCountInSec)
  if ⌈from10⌉ ≤ ⌊to10⌋ then
    (if R.fl (stimeEpoch o * multiCountInSec) ≤ (⌈from10⌉ - 1 : ℤ) then [(⌈from10⌉ - 1, R.fl (⌈from10⌉ - from10))] else []) ++
      (⌊to10⌋, R.fl (to10 - ⌊to10⌋)) :: (List.range (⌊to10⌋ - ⌈from10⌉).toNat).map fun (i : ℕ) => (⌈from10⌉ + i, 1)
  else [(⌊to10⌋, R.fl (R.fl (addTo - addFrom) * multiCountInSec))]

def shares (R : Rounding) (o : Options) (addFrom addTo : ℚ) : List (ℤ × ℚ) :=
  if Overlaps R o addFrom addTo then sharesCut R o (max addFrom (stimeEpoch o)) (min addTo (etimeEpoch R o)) else []

def stay (R : Rounding) (o : Options) (addFrom addTo : ℚ) : List (ℤ × (ℚ → ℚ)) :=
  (shares R o addFrom addTo).map fun s => (s.1, plus R s.2)

section

variable {R : Rounding} {o : Options} {model : Text}

@[simp] theorem bumpAll_nil (dic : Table α) : bumpAll model [] dic = .ok dic := rfl

theorem bumpAll_cons (c : ℤ × (α → α)) (l : List (ℤ × (α → α))) (dic : Table α) :
    bumpAll model (c :: l) dic = bumpBoth dic model c.1 c.2 >>= bumpAll model l := rfl

theorem bumpAll_singleton (c : ℤ × (α → α)) (dic : Table α) :
    bumpAll model [c] dic = bumpBoth dic model c.1 c.2 := by
  rw [bumpAll_cons]
  exact bind_pure _

theorem incInOut_eq (t : ℚ) (dic : Table ℕ) :
    incInOut R o t model dic = bumpAll model (inOut R o t (· + 1)) dic := by
  unfold incInOut inOut
  split
  · rw [bumpAll_singleton]
  · rfl

theorem incInOutRS_eq (t rs : ℚ) (dic : Table Cell) :
    incInOutRS R o t rs model dic = bumpAll model (inOut R o t (Cell.add R rs)) dic := by
  unfold incInOutRS inOut
  split
  · rw [bumpAll_singleton]
  · rfl

theorem addWhole_eq (n : ℕ) (b : ℤ) (dic : Table ℚ) :
    addWhole R model n b dic = bumpAll model ((List.range n).map fun (i : ℕ) => (b + i, plus R 1)) dic := by
  induction n generalizing b dic with
  | zero => rfl
  | succ n ih =>
    rw [List.range_succ_eq_map, List.map_cons, List.map_map, bumpAll_cons]
    unfold addWhole
    simp only [Nat.cast_zero, add_zero]
    congr 1
    funext dic
    rw [ih]
    congr 2
    funext i
    simp only [Function.comp_apply, Nat.succ_eq_add_one, Nat.cast_add, Nat.cast_one]
    ring_nf

/-- a last part and the whole buckets before it -/
theorem bumpBoth_addWhole (b b' : ℤ) (x : ℚ) (n : ℕ) (dic : Table ℚ) :
    (bumpBoth dic model b (plus R x) >>= addWhole R model n b') =
      bumpAll model (((b, x) :: (List.range n).map fun (i : ℕ) => (b' + i, (1 : ℚ))).map fun s => (s.1, plus R s.2)) dic := by
  rw [List.map_cons, bumpAll_cons, List.map_map]
  congr 1
  funext dic
  rw [addWhole_eq]
  rfl

theorem addCut_eq (addFrom addTo : ℚ) (dic : Table ℚ) :
    addCut R (stimeEpoch o) multiCountInSec addFrom addTo model dic =
      bumpAll model ((sharesCut R o addFrom addTo).map fun s => (s.1, plus R s.2)) dic := by
  unfold addCut sharesCut
  simp only
  split_ifs with h h'
  · rw [List.singleton_append, List.map_cons, bumpAll_cons]
    congr 1
    funext dic
    exact bumpBoth_addWhole _ _ _ _ dic
  · exact bumpBoth_addWhole _ _ _ _ dic
  · rw [List.map_singleton, bumpAll_singleton]

/-- the cuts of `addMulti2` -/
theorem addMulti2_eq (addFrom addTo : ℚ) (dic : Table ℚ) :
    addMulti2 R o addFrom addTo model dic = bumpAll model (stay R o addFrom addTo) dic := by
  have hfrom : (if addFrom < stimeEpoch o then stimeEpoch o else addFrom) = max addFrom (stimeEpoch o) := by
    split
    · next h => exact (max_eq_right h.le).symm
    · next h => exact (max_eq_left (not_lt.1 h)).symm
  have hto : (if etimeEpoch R o < addTo then etimeEpoch R o else addTo) = min addTo (etimeEpoch R o) := by
    split
    · next h => exact (min_eq_right h.le).symm
    · next h => exact (min_eq_left (not_lt.1 h)).symm
  unfold addMulti2 addMulti2At stay shares
  simp only [hfrom, hto]
  split
  · next h =>
    have hno : ¬ Overlaps R o addFrom addTo := fun hov => hov.1 h
    simp [hno]
  · next h =>
    split
    · next h' =>
      have hno : ¬ Overlaps R o addFrom addTo := fun hov => hov.2 h'
      simp [hno]
    · next h' =>
      have hov : Overlaps R o addFrom addTo := ⟨h, h'⟩
      rw [addCut_eq, if_pos hov]

/-- the changes of a row in the multiplicity of the long requests -/
def longStay (R : Rounding) (o : Options) (r : Row) : List (ℤ × (ℚ → ℚ)) :=
  if 3 < r.reqRS R then stay R o r.stime r.etime else []

/-- the changes of a row in the response times, by its start or its end -/
def response (R : Rounding) (o : Options) (r : Row) (t : ℚ) : List (ℤ × (Cell → Cell)) :=
  if r.reqRS R < 0 ∨ 3 < r.reqRS R then [] else inOut R o t (Cell.add R (r.reqRS R))

/-- the tables have the keys that a row needs -/
structure RowFits (R : Rounding) (o : Options) (p : Profiles) (r : Row) : Prop where
  input : ∀ c ∈ inOut R o r.stime (· + 1), (p.httpInput total c.1).isSome ∧ (p.httpInput r.model c.1).isSome
  output : ∀ c ∈ inOut R o r.etime (· + 1), (p.httpOutput total c.1).isSome ∧ (p.httpOutput r.model c.1).isSome
  multi : ∀ c ∈ stay R o r.stime r.etime, (p.httpMulti total c.1).isSome ∧ (p.httpMulti r.model c.1).isSome
  long : ∀ c ∈ longStay R o r, (p.httpMultiLongReqs total c.1).isSome ∧ (p.httpMultiLongReqs r.model c.1).isSome
  responseIn : ∀ c ∈ response R o r r.stime, (p.httpIn total c.1).isSome ∧ (p.httpIn r.model c.1).isSome
  responseOut : ∀ c ∈ response R o r r.etime, (p.httpOutRs total c.1).isSome ∧ (p.httpOutRs r.model c.1).isSome

/-- the tables after a row -/
def rowEffect (R : Rounding) (o : Options) (p : Profiles) (r : Row) : Profiles where
  httpInput := change p.httpInput (effect r.model (inOut R o r.stime (· + 1)))
  httpOutput := change p.httpOutput (effect r.model (inOut R o r.etime (· + 1)))
  httpMulti := change p.httpMulti (effect r.model (stay R o r.stime r.etime))
  httpMultiLongReqs := change p.httpMultiLongReqs (effect r.model (longStay R o r))
  httpIn := change p.httpIn (effect r.model (response R o r r.stime))
  httpOutRs := change p.httpOutRs (effect r.model (response R o r r.etime))

variable {p p' : Profiles} {r : Row}

theorem change_effect_nil (dic : Table α) : change dic (effect model []) = dic := by
  funext m b
  exact Option.map_id'

/-- the six tables one after the other -/
theorem processRow_eq : processRow R o p r = (do
    let httpInput ← bumpAll r.model (inOut R o r.stime (· + 1)) p.httpInput
    let httpOutput ← bumpAll r.model (inOut R o r.etime (· + 1)) p.httpOutput
    let httpMulti ← bumpAll r.model (stay R o r.stime r.etime) p.httpMulti
    let httpMultiLongReqs ← bumpAll r.model (longStay R o r) p.httpMultiLongReqs
    let httpIn ← bumpAll r.model (response R o r r.stime) p.httpIn
    let httpOutRs ← bumpAll r.model (response R o r r.etime) p.httpOutRs
    return { httpInput, httpOutput, httpMulti, httpMultiLongReqs, httpIn, httpOutRs }) := by
  unfold processRow longStay response
  simp only [incInOut_eq, addMulti2_eq, incInOutRS_eq]
  congr 1; funext httpInput
  congr 1; funext httpOutput
  congr 1; funext httpMulti
  rcases lt_or_ge (r.reqRS R) 0 with hneg | hnonneg
  · have hshort : ¬ 3 < r.reqRS R := by linarith
    simp [hneg, hshort, bind, Except.bind]
  · by_cases hlong : 3 < r.reqRS R
    · simp [not_lt.2 hnonneg, hlong, bind, Except.bind]
    · simp [not_lt.2 hnonneg, hlong, bind, Except.bind]

/-- **A row.** It raises nothing exactly if the tables have its keys, and then every table is changed for itself. -/
theorem processRow_ok : processRow R o p r = .ok p' ↔ RowFits R o p r ∧ p' = rowEffect R o p r := by
  rw [processRow_eq]
  simp only [bind_eq_ok, bumpAll_ok, pure, Except.pure, Except.ok.injEq]
  constructor
  · rintro ⟨_, ⟨h1, rfl⟩, _, ⟨h2, rfl⟩, _, ⟨h3, rfl⟩, _, ⟨h4, rfl⟩, _, ⟨h5, rfl⟩, _, ⟨h6, rfl⟩, rfl⟩
    exact ⟨⟨h1, h2, h3, h4, h5, h6⟩, rfl⟩
  · rintro ⟨⟨h1, h2, h3, h4, h5, h6⟩, rfl⟩
    exact ⟨_, ⟨h1, rfl⟩, _, ⟨h2, rfl⟩, _, ⟨h3, rfl⟩, _, ⟨h4, rfl⟩, _, ⟨h5, rfl⟩, _, ⟨h6, rfl⟩, rfl⟩

/-- a line that is read does what its row does -/
theorem processLine_ok {float : ReadFloat} {line : Text} :
    processLine R o float p line = .ok p' ↔
      parseLine float line = .ok none ∧ p' = p ∨ ∃ r, parseLine float line = .ok (some r) ∧ processRow R o p r = .ok p' := by
  unfold processLine
  rw [bind_eq_ok]
  constructor
  · rintro ⟨row, hrow, h⟩
    cases row with
    | none => exact .inl ⟨hrow, (Except.ok.inj h).symm⟩
    | some r => exact .inr ⟨r, hrow, h⟩
  · rintro (⟨hrow, rfl⟩ | ⟨r, hrow, h⟩)
    · exact ⟨none, hrow, rfl⟩
    · exact ⟨some r, hrow, h⟩

end

end Rubbos.QueueLength.BO
