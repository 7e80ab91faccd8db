/-
Registering a user (`RegisterUser.java`).

The servlet looks for the nickname, INSERTs the user and SELECTs the row again, for the page. The column nickname is UNIQUE, so
the INSERT of a nickname that somebody else has inserted in between fails; so does, in the strict mode of the database, one with
a text that is longer than its column.

Statements are single steps that may fail, and the texts of a request are taken to stand in the SQL as they are meant: the servlet
escapes none of them, and an apostrophe in one of them may write other columns of the row.

- `findNickname_of_unique`, `findUser_of_unique`: what a SELECT finds.
- `unique_insert`: the INSERT keeps nicknames unique.
-/
import Rubbos.Core.Interleaving
import Rubbos.Servlets.Tables

namespace Rubbos.Servlets

open Rubbos.Core Interleaving Tables

namespace Tables

/-- `SELECT * FROM users WHERE nickname=…` -/
def Db.findNickname (db : Db) (nickname : Text) : Option (ℕ × User) := db.users.rows.find? fun e => e.2.nickname = nickname

/-- the column nickname is UNIQUE -/
def Db.UniqueNicknames (db : Db) : Prop :=
  ∀ k l u v, db.users.get? k = some u → db.users.get? l = some v → u.nickname = v.nickname → k = l

variable {db : Db} {nickname password : Text} {k : ℕ} {u : User}

theorem get?_of_findNickname (h : db.findNickname nickname = some (k, u)) :
    db.users.get? k = some u ∧ u.nickname = nickname :=
  ⟨Table.mem_rows.1 (List.mem_of_find?_eq_some h), by simpa using List.find?_some h⟩

theorem get?_of_findUser (h : db.findUser nickname password = some (k, u)) :
    db.users.get? k = some u ∧ u.nickname = nickname ∧ u.password = password :=
  ⟨Table.mem_rows.1 (List.mem_of_find?_eq_some h), by simpa using List.find?_some h⟩

/-- a SELECT by nickname finds the only row that there can be -/
theorem findNickname_of_unique (h : db.UniqueNicknames) (hu : db.users.get? k = some u) :
    db.findNickname u.nickname = some (k, u) := by
  cases hfind : db.findNickname u.nickname with
  | none =>
    have hnone := List.find?_eq_none.1 hfind (k, u) (Table.mem_rows.2 hu)
    simp at hnone
  | some e =>
    obtain ⟨l, v⟩ := e
    obtain ⟨hv, hname⟩ := get?_of_findNickname hfind
    obtain rfl := h k l u v hu hv hname.symm
    rw [hu] at hv
    rw [Option.some.inj hv]

theorem findUser_of_unique (h : db.UniqueNicknames) (hu : db.users.get? k = some u) :
    db.findUser u.nickname u.password = some (k, u) := by
  cases hfind : db.findUser u.nickname u.password with
  | none =>
    have hnone := List.find?_eq_none.1 hfind (k, u) (Table.mem_rows.2 hu)
    simp at hnone
  | some e =>
    obtain ⟨l, v⟩ := e
    obtain ⟨hv, hname, -⟩ := get?_of_findUser hfind
    obtain rfl := h k l u v hu hv hname.symm
    rw [hu] at hv
    rw [Option.some.inj hv]

end Tables

namespace RegisterUser

/-! ## Model -/

structure Request where
  firstname : Option Text
  lastname : Option Text
  nickname : Option Text
  email : Option Text
  password : Option Text
deriving DecidableEq

/-- the parameters after the checks -/
structure Registration where
  firstname : Text
  lastname : Text
  nickname : Text
  email : Text
  password : Text
deriving DecidableEq

inductive Point where
  /-- `SELECT * FROM users WHERE nickname=…` -/
  | selectNickname (q : Registration)
  /-- `INSERT INTO users … VALUES (…, 0, 0, NOW())` -/
  | insertUser (q : Registration)
  /-- `SELECT * FROM users WHERE nickname=…`, for the page -/
  | selectUser (q : Registration)
deriving DecidableEq

/-- what is printed; the page that welcomes a user has the row that was read, without its date -/
inductive Report where
  | page (out : Output)
  | welcome (q : Registration) (id : ℕ) (rating access : ℤ)
deriving DecidableEq

def start (r : Request) : Option Point × List Report :=
  match r.firstname, r.lastname, r.nickname, r.email, r.password with
  | none, _, _, _, _ => (none, [.page (.html "You must provide a story title!<br>")])
  | _, none, _, _, _ => (none, [.page (.html "<h3>You must provide a story body!<br></h3>")])
  | _, _, none, _, _ => (none, [.page (.html "<h3>You must provide a category!<br></h3>")])
  | _, _, _, none, _ => (none, [.page (.html "<h3>You must provide an email address!<br></h3>")])
  | _, _, _, _, none => (none, [.page (.html "<h3>You must provide a password!<br></h3>")])
  | some firstname, some lastname, some nickname, some email, some password =>
    (some (.selectNickname ⟨firstname, lastname, nickname, email, password⟩), [])

/-- the texts fit their columns -/
def Registration.Fits (q : Registration) : Prop :=
  q.firstname.length ≤ 20 ∧ q.lastname.length ≤ 20 ∧ q.nickname.length ≤ 20 ∧ q.password.length ≤ 20 ∧ q.email.length ≤ 50

instance (q : Registration) : Decidable q.Fits := inferInstanceAs (Decidable (_ ∧ _))

/-- the row that is inserted -/
def Registration.row (q : Registration) : User := ⟨q.nickname, q.password, 0, 0⟩

/-- `catch (Exception e)` -/
def failed (db : Db) : Outcome Db Point Report := ⟨db, none, [.page (.exception "Exception registering user " "<br>")]⟩

def taken : Output :=
  .html ("The nickname you have chosen is already taken by someone else. " ++ "Please choose a new nickname.<br>\n")

/-- a statement that succeeds, as far as the database lets it -/
def succeed (db : Db) : Point → Outcome Db Point Report
  | .selectNickname q =>
    match db.findNickname q.nickname with
    | some _ => ⟨db, none, [.page taken]⟩
    | none => ⟨db, some (.insertUser q), []⟩
  | .insertUser q =>
    if q.Fits ∧ db.findNickname q.nickname = none then
      ⟨{ db with users := db.users.insert q.row }, some (.selectUser q), []⟩
    else failed db
  | .selectUser q =>
    match db.findNickname q.nickname with
    -- `rs.getInt("id")` throws
    | none => failed db
    | some (id, u) => ⟨db, none, [.welcome q id u.rating u.access, .page .footer]⟩

/-- a statement that throws -/
def fail (db : Db) : Point → Outcome Db Point Report
  | .selectNickname _ => ⟨db, none, [.page (.exception "ERROR: Nickname query failed" "")]⟩
  | .insertUser _ | .selectUser _ => failed db

def servlet : Program Db Request Point Report where
  start := start
  exec := fun db p ok => if ok then succeed db p else fail db p

/-! ## The INSERT -/

variable {db : Db} {q : Registration}

theorem unique_insert (h : db.UniqueNicknames) (hnew : db.findNickname q.nickname = none) :
    ({ db with users := db.users.insert q.row } : Db).UniqueNicknames := by
  have hother : ∀ k u, db.users.get? k = some u → u.nickname ≠ q.nickname := by
    intro k u hu hname
    have hnone := List.find?_eq_none.1 hnew (k, u) (Table.mem_rows.2 hu)
    exact absurd hname (by simpa using hnone)
  intro k l u v hu hv hname
  simp only [Table.get?_insert] at hu hv
  split_ifs at hu hv with hk hl hl
  · rw [hk, hl]
  · cases hu
    exact absurd hname.symm (hother l v hv)
  · cases hv
    exact absurd hname (hother k u hu)
  · exact h k l u v hu hv hname

end RegisterUser

end Rubbos.Servlets
