/-
The SQL statements with texts of users in them (`StoreStory.java`, `StoreComment.java`, `ServletPrinter.authenticate`,
`AcceptStory.java`).

The servlets write the parameters between quotes as they are, and the urlID of the request into a comment at the end. What MySQL
makes of a statement is what its lexer makes of it; what is meant is a `Template`. `AcceptStory` reads a submission back and writes
its title and its body between quotes once more.

- `statements_lex_iff`: every statement is lexed as it is meant exactly if the lexer changes none of the texts and the urlID stays
  in its comment.
- `apostrophe_ends_title`: a title with an apostrophe.
-/
import Rubbos.Core.SqlLexer

namespace Rubbos.Servlets.SqlStatements

open Rubbos.Core Sql

/-- a number or the name of a table, as a parameter or a column has it -/
structure Code where
  text : Text
  isCode : IsCode text

/-! ## The statements -/

namespace StoreStory

def authentication (nickname password urlID : Text) : Text :=
  "SELECT id,access FROM users WHERE nickname='".toList ++ nickname ++ "' AND password='".toList ++ password ++
    ("'".toList ++ " /* urlID=".toList) ++ urlID ++ " */".toList

def insert (table : Code) (title body : Text) (userId : ℤ) (category : Code) (urlID : Text) : Text :=
  ("INSERT INTO ".toList ++ table.text ++ " (title, body, date, writer, category) VALUES ('".toList) ++ title ++ "', '".toList ++
    body ++ ("', NOW(), ".toList ++ longText userId ++ ", ".toList ++ category.text ++ (")".toList ++ " /* urlID=".toList)) ++
    urlID ++ " */".toList

end StoreStory

namespace StoreComment

def insert (comment_table : Code) (userId : ℤ) (storyId parent : Code) (subject body urlID : Text) : Text :=
  ("INSERT INTO ".toList ++ comment_table.text ++ " (writer, story_id, parent, childs, rating, date, subject, comment)".toList ++
    " VALUES (".toList ++ longText userId ++ ", ".toList ++ storyId.text ++ ", ".toList ++ parent.text ++ ", 0, 0, NOW(), '".toList) ++
    subject ++ "', '".toList ++ body ++ ("')".toList ++ " /* urlID=".toList) ++ urlID ++ " */".toList

def update (comment_table parent : Code) (urlID : Text) : Text :=
  ("UPDATE ".toList ++ comment_table.text ++ " SET childs=childs+1 WHERE id=".toList ++ parent.text ++ " /* urlID=".toList) ++ urlID ++
    " */".toList

end StoreComment

/-- `ServletPrinter.authenticate` -/
def authenticate (nickname password urlID : Text) : Text :=
  "SELECT id FROM users WHERE nickname='".toList ++ nickname ++ "' AND password='".toList ++ password ++
    ("'".toList ++ " /* ".toList) ++ urlID ++ " */".toList

/-- a row of submissions: a date, a writer and a category have no quote in them -/
structure Submission where
  title : Text
  body : Text
  date : Code
  writer : Code
  category : Code

/-- `AcceptStory`: the insert of a submission -/
def AcceptStory.insert (row : Submission) (urlID : Text) : Text :=
  "INSERT INTO stories (title, body, date, writer, category) VALUES ('".toList ++ row.title ++ "', '".toList ++ row.body ++
    "', '".toList ++ row.date.text ++
    ("', ".toList ++ row.writer.text ++ ", ".toList ++ row.category.text ++ (")".toList ++ " /* urlID=".toList)) ++ urlID ++
    " */".toList

/-! ## What is meant -/

def StoreStory.authenticationTemplate (nickname password urlID : Text) : Template where
  head := "SELECT id,access FROM users WHERE nickname=".toList
  literals := [(nickname, " AND password=".toList), (password, " ".toList)]
  comment := " urlID=".toList ++ urlID ++ " ".toList

def StoreStory.insertTemplate (table : Code) (title body : Text) (userId : ℤ) (category : Code) (urlID : Text) : Template where
  head := "INSERT INTO ".toList ++ table.text ++ " (title, body, date, writer, category) VALUES (".toList
  literals := [(title, ", ".toList), (body, ", NOW(), ".toList ++ longText userId ++ ", ".toList ++ category.text ++ ") ".toList)]
  comment := " urlID=".toList ++ urlID ++ " ".toList

def StoreComment.insertTemplate (comment_table : Code) (userId : ℤ) (storyId parent : Code) (subject body urlID : Text) :
    Template where
  head := "INSERT INTO ".toList ++ comment_table.text ++ " (writer, story_id, parent, childs, rating, date, subject, comment)".toList ++
    " VALUES (".toList ++ longText userId ++ ", ".toList ++ storyId.text ++ ", ".toList ++ parent.text ++ ", 0, 0, NOW(), ".toList
  literals := [(subject, ", ".toList), (body, ") ".toList)]
  comment := " urlID=".toList ++ urlID ++ " ".toList

def StoreComment.updateTemplate (comment_table parent : Code) (urlID : Text) : Template where
  head := "UPDATE ".toList ++ comment_table.text ++ " SET childs=childs+1 WHERE id=".toList ++ parent.text ++ " ".toList
  literals := []
  comment := " urlID=".toList ++ urlID ++ " ".toList

def authenticateTemplate (nickname password urlID : Text) : Template where
  head := "SELECT id FROM users WHERE nickname=".toList
  literals := [(nickname, " AND password=".toList), (password, " ".toList)]
  comment := " ".toList ++ urlID ++ " ".toList

def AcceptStory.insertTemplate (row : Submission) (urlID : Text) : Template where
  head := "INSERT INTO stories (title, body, date, writer, category) VALUES (".toList
  literals := [(row.title, ", ".toList), (row.body, ", ".toList),
    (row.date.text, ", ".toList ++ row.writer.text ++ ", ".toList ++ row.category.text ++ ") ".toList)]
  comment := " urlID=".toList ++ urlID ++ " ".toList

/-! ## The statements are their templates -/

section Shapes

variable {a b c d e f x y z u A B C D E i j k l m n : Text}

/-- a statement with a comment -/
theorem sql_comment (hA : A = a ++ '/' :: '*' :: e) (hD : D = f ++ ['*', '/']) : A ++ u ++ D = Template.sql ⟨a, [], e ++ u ++ f⟩ := by
  rw [hA, hD]
  simp [Template.sql, Template.quoted]

/-- two texts between quotes, and a comment -/
theorem sql_two (hA : A = a ++ ['\'']) (hB : B = '\'' :: (b ++ ['\''])) (hC : C = '\'' :: (c ++ '/' :: '*' :: e))
    (hD : D = f ++ ['*', '/']) : A ++ x ++ B ++ y ++ C ++ u ++ D = Template.sql ⟨a, [(x, b), (y, c)], e ++ u ++ f⟩ := by
  rw [hA, hB, hC, hD]
  simp [Template.sql, Template.quoted]

/-- three of them -/
theorem sql_three (hA : A = a ++ ['\'']) (hB : B = '\'' :: (b ++ ['\''])) (hC : C = '\'' :: (c ++ ['\'']))
    (hD : D = '\'' :: (d ++ '/' :: '*' :: e)) (hE : E = f ++ ['*', '/']) :
    A ++ x ++ B ++ y ++ C ++ z ++ D ++ u ++ E = Template.sql ⟨a, [(x, b), (y, c), (z, d)], e ++ u ++ f⟩ := by
  rw [hA, hB, hC, hD, hE]
  simp [Template.sql, Template.quoted]

/-- the end of an insert -/
theorem values_end (hA : A = '\'' :: a) (hB : B = b ++ '/' :: '*' :: e) :
    A ++ i ++ j ++ k ++ B = '\'' :: (a ++ i ++ j ++ k ++ b ++ '/' :: '*' :: e) := by
  rw [hA, hB]
  simp

end Shapes

theorem StoreStory.authentication_eq (nickname password urlID : Text) :
    StoreStory.authentication nickname password urlID = (authenticationTemplate nickname password urlID).sql :=
  sql_two (by decide) (by decide) (by decide) (by decide)

theorem StoreStory.insert_eq (table : Code) (title body : Text) (userId : ℤ) (category : Code) (urlID : Text) :
    StoreStory.insert table title body userId category urlID = (insertTemplate table title body userId category urlID).sql := by
  refine sql_two ?_ (by decide) (values_end (by decide) (by decide)) (by decide)
  have hvalues : " (title, body, date, writer, category) VALUES ('".toList =
      " (title, body, date, writer, category) VALUES (".toList ++ ['\''] := by decide
  rw [hvalues, ← List.append_assoc]

theorem StoreComment.insert_eq (comment_table : Code) (userId : ℤ) (storyId parent : Code) (subject body urlID : Text) :
    StoreComment.insert comment_table userId storyId parent subject body urlID =
      (insertTemplate comment_table userId storyId parent subject body urlID).sql := by
  refine sql_two ?_ (by decide) (by decide) (by decide)
  have hnow : ", 0, 0, NOW(), '".toList = ", 0, 0, NOW(), ".toList ++ ['\''] := by decide
  rw [hnow, ← List.append_assoc]

theorem StoreComment.update_eq (comment_table parent : Code) (urlID : Text) :
    StoreComment.update comment_table parent urlID = (updateTemplate comment_table parent urlID).sql := by
  refine sql_comment ?_ (by decide)
  have hcomment : " /* urlID=".toList = " ".toList ++ '/' :: '*' :: " urlID=".toList := by decide
  rw [hcomment, ← List.append_assoc]

theorem authenticate_eq (nickname password urlID : Text) :
    authenticate nickname password urlID = (authenticateTemplate nickname password urlID).sql :=
  sql_two (by decide) (by decide) (by decide) (by decide)

theorem AcceptStory.insert_eq (row : Submission) (urlID : Text) :
    AcceptStory.insert row urlID = (insertTemplate row urlID).sql :=
  sql_three (by decide) (by decide) (by decide) (values_end (by decide) (by decide))
    (by decide)

/-! ## What is lexed -/

theorem isCode_longText (n : ℤ) : IsCode (longText n) := by
  intro c hc
  have hnum := isNumChar_of_mem_longText hc
  refine ⟨?_, ?_, ?_⟩
  all_goals
    rintro rfl
    exact absurd hnum (by decide)

/-- the urlID of a statement, between what the servlet writes around it -/
theorem commented_urlID {p q urlID : Text} (hp : '*' ∉ p) (hq : q = [' ']) : Commented (p ++ urlID ++ q) ↔ Commented urlID := by
  rw [hq, List.append_assoc, commented_append_left hp, commented_append_blank]

section Lexed

variable {sql a b c d p q u x y z : Text}

/-- a statement with two texts between quotes -/
theorem lex_two (hsql : sql = Template.sql ⟨a, [(x, b), (y, c)], p ++ u ++ q⟩) (ha : IsCode a) (hb : IsCode b ∧ b ≠ [])
    (hc : IsCode c ∧ c ≠ []) (hp : '*' ∉ p) (hq : q = [' ']) :
    lex sql = some (Template.tokens ⟨a, [(x, b), (y, c)], p ++ u ++ q⟩) ↔
      (Verbatim x = true ∧ Verbatim y = true) ∧ Commented u := by
  have hvalid : Template.Valid ⟨a, [(x, b), (y, c)], p ++ u ++ q⟩ := ⟨ha, by simp [hb, hc]⟩
  rw [hsql, sql_tokens_iff hvalid]
  simp only [List.forall_mem_cons, List.not_mem_nil, false_imp_iff, implies_true, and_true, commented_urlID hp hq]

/-- three texts -/
theorem lex_three (hsql : sql = Template.sql ⟨a, [(x, b), (y, c), (z, d)], p ++ u ++ q⟩) (ha : IsCode a) (hb : IsCode b ∧ b ≠ [])
    (hc : IsCode c ∧ c ≠ []) (hd : IsCode d ∧ d ≠ []) (hp : '*' ∉ p) (hq : q = [' ']) :
    lex sql = some (Template.tokens ⟨a, [(x, b), (y, c), (z, d)], p ++ u ++ q⟩) ↔
      (Verbatim x = true ∧ Verbatim y = true ∧ Verbatim z = true) ∧ Commented u := by
  have hvalid : Template.Valid ⟨a, [(x, b), (y, c), (z, d)], p ++ u ++ q⟩ := ⟨ha, by simp [hb, hc, hd]⟩
  rw [hsql, sql_tokens_iff hvalid]
  simp only [List.forall_mem_cons, List.not_mem_nil, false_imp_iff, implies_true, and_true, commented_urlID hp hq]

/-- none -/
theorem lex_none (hsql : sql = Template.sql ⟨a, [], p ++ u ++ q⟩) (ha : IsCode a) (hp : '*' ∉ p) (hq : q = [' ']) :
    lex sql = some (Template.tokens ⟨a, [], p ++ u ++ q⟩) ↔ Commented u := by
  have hvalid : Template.Valid ⟨a, [], p ++ u ++ q⟩ := ⟨ha, by simp⟩
  rw [hsql, sql_tokens_iff hvalid]
  simp only [List.not_mem_nil, false_imp_iff, implies_true, true_and, commented_urlID hp hq]

end Lexed

theorem StoreStory.authentication_iff (nickname password urlID : Text) :
    lex (StoreStory.authentication nickname password urlID) = some (authenticationTemplate nickname password urlID).tokens ↔
      (Verbatim nickname = true ∧ Verbatim password = true) ∧ Commented urlID :=
  lex_two (authentication_eq nickname password urlID) (by decide) (by decide) (by decide) (by decide)
    (by decide)

/-- two numbers behind the texts of an insert -/
theorem isCode_values {a i b j c : Text} (ha : IsCode a) (hi : IsCode i) (hb : IsCode b) (hj : IsCode j) (hc : IsCode c ∧ c ≠ []) :
    IsCode (a ++ i ++ b ++ j ++ c) ∧ a ++ i ++ b ++ j ++ c ≠ [] :=
  ⟨isCode_append.2 ⟨isCode_append.2 ⟨isCode_append.2 ⟨isCode_append.2 ⟨ha, hi⟩, hb⟩, hj⟩, hc.1⟩,
    List.append_ne_nil_of_right_ne_nil _ hc.2⟩

theorem StoreStory.insert_iff (table : Code) (title body : Text) (userId : ℤ) (category : Code) (urlID : Text) :
    lex (StoreStory.insert table title body userId category urlID) =
      some (insertTemplate table title body userId category urlID).tokens ↔
        (Verbatim title = true ∧ Verbatim body = true) ∧ Commented urlID :=
  lex_two (insert_eq table title body userId category urlID)
    (isCode_append.2 ⟨isCode_append.2 ⟨by decide, table.isCode⟩, by decide⟩) (by decide)
    (isCode_values (by decide) (isCode_longText userId) (by decide) category.isCode (by decide))
    (by decide) (by decide)

theorem StoreComment.insert_iff (comment_table : Code) (userId : ℤ) (storyId parent : Code) (subject body urlID : Text) :
    lex (StoreComment.insert comment_table userId storyId parent subject body urlID) =
      some (insertTemplate comment_table userId storyId parent subject body urlID).tokens ↔
        (Verbatim subject = true ∧ Verbatim body = true) ∧ Commented urlID := by
  have hhead := (isCode_values (isCode_append.2 ⟨isCode_append.2 ⟨isCode_append.2 ⟨show IsCode "INSERT INTO ".toList by decide,
    comment_table.isCode⟩, show IsCode " (writer, story_id, parent, childs, rating, date, subject, comment)".toList by decide⟩,
    show IsCode " VALUES (".toList by decide⟩) (isCode_longText userId) (show IsCode ", ".toList by decide)
    storyId.isCode (show IsCode ", ".toList ∧ ", ".toList ≠ [] by decide)).1
  exact lex_two (insert_eq comment_table userId storyId parent subject body urlID)
    (isCode_append.2 ⟨isCode_append.2 ⟨hhead, parent.isCode⟩, by decide⟩) (by decide) (by decide)
    (by decide) (by decide)

theorem StoreComment.update_iff (comment_table parent : Code) (urlID : Text) :
    lex (StoreComment.update comment_table parent urlID) = some (updateTemplate comment_table parent urlID).tokens ↔
      Commented urlID :=
  lex_none (update_eq comment_table parent urlID)
    (isCode_values (by decide) comment_table.isCode (by decide) parent.isCode (by decide)).1
    (by decide) (by decide)

theorem authenticate_iff (nickname password urlID : Text) :
    lex (authenticate nickname password urlID) = some (authenticateTemplate nickname password urlID).tokens ↔
      (Verbatim nickname = true ∧ Verbatim password = true) ∧ Commented urlID :=
  lex_two (authenticate_eq nickname password urlID) (by decide) (by decide) (by decide) (by decide)
    (by decide)

theorem AcceptStory.insert_iff (row : Submission) (urlID : Text) :
    lex (AcceptStory.insert row urlID) = some (insertTemplate row urlID).tokens ↔
      (Verbatim row.title = true ∧ Verbatim row.body = true) ∧ Commented urlID := by
  have h := lex_three (AcceptStory.insert_eq row urlID) (by decide) (by decide) (by decide)
    (isCode_values (by decide) row.writer.isCode (by decide) row.category.isCode (by decide))
    (by decide) (by decide)
  exact h.trans (by simp only [verbatim_of_isCode row.date.isCode, and_true])

/-! ## All of them -/

/-- the texts of a user -/
structure Texts where
  nickname : Text
  password : Text
  title : Text
  body : Text
  subject : Text
  urlID : Text

/-- the other parts of the statements -/
structure Parts where
  table : Code
  userId : ℤ
  category : Code
  comment_table : Code
  storyId : Code
  parent : Code

/-- every statement is lexed as the one that is meant -/
structure Lexed (t : Texts) (p : Parts) (row : Submission) : Prop where
  authentication : lex (StoreStory.authentication t.nickname t.password t.urlID) =
    some (StoreStory.authenticationTemplate t.nickname t.password t.urlID).tokens
  story : lex (StoreStory.insert p.table t.title t.body p.userId p.category t.urlID) =
    some (StoreStory.insertTemplate p.table t.title t.body p.userId p.category t.urlID).tokens
  authenticate : lex (authenticate t.nickname t.password t.urlID) =
    some (authenticateTemplate t.nickname t.password t.urlID).tokens
  comment : lex (StoreComment.insert p.comment_table p.userId p.storyId p.parent t.subject t.body t.urlID) =
    some (StoreComment.insertTemplate p.comment_table p.userId p.storyId p.parent t.subject t.body t.urlID).tokens
  childs : lex (StoreComment.update p.comment_table p.parent t.urlID) =
    some (StoreComment.updateTemplate p.comment_table p.parent t.urlID).tokens
  accepted : lex (AcceptStory.insert row t.urlID) = some (AcceptStory.insertTemplate row t.urlID).tokens

/-- **The statements say what is meant** exactly if none of the texts has a quote, or a backslash in front of anything but `%` and
`_`, and the urlID stays in its comment. -/
theorem statements_lex_iff (t : Texts) (p : Parts) (row : Submission) :
    Lexed t p row ↔ (∀ s ∈ [t.nickname, t.password, t.title, t.body, t.subject, row.title, row.body], Verbatim s = true) ∧
      Commented t.urlID := by
  simp only [List.forall_mem_cons, List.not_mem_nil, false_imp_iff, implies_true, and_true]
  constructor
  · intro h
    obtain ⟨⟨hnickname, hpassword⟩, hurlID⟩ := (StoreStory.authentication_iff _ _ _).1 h.authentication
    obtain ⟨⟨htitle, hbody⟩, -⟩ := (StoreStory.insert_iff _ _ _ _ _ _).1 h.story
    obtain ⟨⟨hsubject, -⟩, -⟩ := (StoreComment.insert_iff _ _ _ _ _ _ _).1 h.comment
    obtain ⟨⟨hrowTitle, hrowBody⟩, -⟩ := (AcceptStory.insert_iff _ _).1 h.accepted
    exact ⟨⟨hnickname, hpassword, htitle, hbody, hsubject, hrowTitle, hrowBody⟩, hurlID⟩
  · rintro ⟨⟨hnickname, hpassword, htitle, hbody, hsubject, hrowTitle, hrowBody⟩, hurlID⟩
    exact ⟨(StoreStory.authentication_iff _ _ _).2 ⟨⟨hnickname, hpassword⟩, hurlID⟩,
      (StoreStory.insert_iff _ _ _ _ _ _).2 ⟨⟨htitle, hbody⟩, hurlID⟩,
      (authenticate_iff _ _ _).2 ⟨⟨hnickname, hpassword⟩, hurlID⟩,
      (StoreComment.insert_iff _ _ _ _ _ _ _).2 ⟨⟨hsubject, hbody⟩, hurlID⟩,
      (StoreComment.update_iff _ _ _).2 hurlID, (AcceptStory.insert_iff _ _).2 ⟨⟨hrowTitle, hrowBody⟩, hurlID⟩⟩

/-- the texts of an ordinary user, but for the title -/
def user (title : Text) : Texts := ⟨"user1".toList, "password1".toList, title, "Read this.".toList, "Re".toList, "7".toList⟩

def ids : Parts where
  table := ⟨"submissions".toList, by decide⟩
  userId := 1
  category := ⟨"2".toList, by decide⟩
  comment_table := ⟨"comments".toList, by decide⟩
  storyId := ⟨"3".toList, by decide⟩
  parent := ⟨"0".toList, by decide⟩

def submission : Submission where
  title := "News".toList
  body := "Read this.".toList
  date := ⟨"2001-01-01 00:00:00".toList, by decide⟩
  writer := ⟨"1".toList, by decide⟩
  category := ⟨"2".toList, by decide⟩

/-- an apostrophe ends the title -/
theorem apostrophe_ends_title : ¬ ∀ t p row, Lexed t p row := by
  intro h
  have hstory := (h (user "It's".toList) ids submission).story
  obtain ⟨⟨htitle, -⟩, -⟩ := (StoreStory.insert_iff _ _ _ _ _ _).1 hstory
  exact absurd htitle (by decide)

end Rubbos.Servlets.SqlStatements
