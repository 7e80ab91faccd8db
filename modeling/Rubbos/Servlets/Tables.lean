/-
The tables that the servlets share (`rubbos.sql`), and what a servlet prints.

The tables are those of the schema, with the columns that a modelled servlet reads or writes. `comments` and `old_comments`
have the same columns, and so do `stories`, `old_stories` and `submissions`; a servlet gets the name of a table of comments
as a parameter and splices it into its statements, so a name that is not one of the two makes the statement fail.
-/
import Rubbos.Core.Table
import Rubbos.Core.Text

namespace Rubbos.Servlets.Tables

open Rubbos.Core

structure User where
  nickname : Text
  password : Text
  rating : ℤ
  access : ℤ
deriving DecidableEq

structure Comment where
  writer : ℕ
  story_id : ℕ
  parent : ℕ
  childs : ℕ
  rating : ℤ
  date : Text
  subject : Text
  comment : Text
deriving DecidableEq

/-- a row of `stories`, `old_stories` or `submissions` -/
structure Story where
  title : Text
  body : Text
  date : Text
  writer : ℕ
  category : ℕ
deriving DecidableEq

structure ModeratorLog where
  moderator_id : ℕ
  comment_id : ℕ
  rating : ℤ
deriving DecidableEq

structure Db where
  users : Table User
  comments : Table Comment
  old_comments : Table Comment
  stories : Table Story
  old_stories : Table Story
  submissions : Table Story
  moderator_log : Table ModeratorLog

/-- the tables of comments -/
inductive CommentTable where
  | comments
  | old_comments
deriving DecidableEq, Repr

/-- the parameter comment_table: the name of a table of comments, or some other text -/
inductive TableName where
  | known (table : CommentTable)
  | other (text : Text)
deriving DecidableEq, Repr

def TableName.text : TableName → Text
  | .known .comments => "comments".toList
  | .known .old_comments => "old_comments".toList
  | .other text => text

def Db.get (db : Db) : CommentTable → Table Comment
  | .comments => db.comments
  | .old_comments => db.old_comments

def Db.set (db : Db) (table : CommentTable) (t : Table Comment) : Db :=
  match table with
  | .comments => { db with comments := t }
  | .old_comments => { db with old_comments := t }

@[simp] theorem Db.get_set (db : Db) (a b : CommentTable) (t : Table Comment) :
    (db.set a t).get b = if b = a then t else db.get b := by
  cases a <;> cases b <;> rfl

@[simp] theorem Db.users_set (db : Db) (a : CommentTable) (t : Table Comment) : (db.set a t).users = db.users := by
  cases a <;> rfl

@[simp] theorem Db.moderator_log_set (db : Db) (a : CommentTable) (t : Table Comment) :
    (db.set a t).moderator_log = db.moderator_log := by
  cases a <;> rfl

/-- an update of the users leaves the comments alone -/
@[simp] theorem Db.get_users (db : Db) (a : CommentTable) (u : Table User) : ({ db with users := u }).get a = db.get a := by
  cases a <;> rfl

@[simp] theorem Db.get_moderator_log (db : Db) (a : CommentTable) (l : Table ModeratorLog) :
    ({ db with moderator_log := l }).get a = db.get a := by
  cases a <;> rfl

/-- what a servlet prints; the text of an exception is left open -/
inductive Output where
  /-- `sp.printHTMLheader(title)` -/
  | header (title : String)
  | html (text : String)
  /-- `sp.printHTML(before + e + after)` -/
  | exception (before after : String)
  | footer
deriving DecidableEq, Repr

/-- `SELECT id, … FROM users WHERE nickname=… AND password=…` -/
def Db.findUser (db : Db) (nickname password : Text) : Option (ℕ × User) :=
  db.users.rows.find? fun e => e.2.nickname = nickname ∧ e.2.password = password

end Rubbos.Servlets.Tables
