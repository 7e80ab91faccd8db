/-
The pages with lists of stories (`OlderStories.java`, `BrowseStoriesByCategory.java`, `Search.java`).

Each of them asks the database for a page of rows, LIMIT and OFFSET in the statement, and prints a line for each row and links
to the next and the previous page. `first()` puts the cursor of a result on its first row, and `while (rs.next())` goes on
behind it; the other two servlets go through the rows with `do … while (rs.next())`.

A page is a list of pieces: literals, texts of the request, lines and links. What stands behind the '?' of a link is spliced
together from texts and numbers, as the servlet has them. The comment with the urlID is left out of the statements.
-/
import Rubbos.Core.JString
import Rubbos.Servlets.Pages

namespace Rubbos.Servlets.StoryPages

open Rubbos.Core JString

/-! ## Pieces of a page -/

inductive Label where
  | next
  | previous
deriving DecidableEq, Repr

/-- a link to a page of the same servlet -/
structure Link where
  label : Label
  /-- the text behind the '?' -/
  query : Text
deriving DecidableEq

/-- a line with a story or a comment -/
structure Line where
  /-- behind `ViewStory?storyId=`, or behind `ViewComment?comment_table=` -/
  target : Text
  title : Text
  username : Text
  date : Text
deriving DecidableEq

inductive Printed where
  /-- `sp.printHTMLheader(title)` -/
  | header (title : Text)
  /-- a literal, or a text of the request -/
  | text (t : Text)
  | line (l : Line)
  | link (l : Link)
  /-- the text of an exception -/
  | exception
  | footer
deriving DecidableEq

/-- a literal -/
def html (t : String) : Printed := .text t.toList

def lines (page : List Printed) : List Line :=
  page.filterMap fun
    | .line l => some l
    | _ => none

def links (page : List Printed) : List Link :=
  page.filterMap fun
    | .link l => some l
    | _ => none

theorem lines_append (as bs : List Printed) : lines (as ++ bs) = lines as ++ lines bs := List.filterMap_append

theorem links_append (as bs : List Printed) : links (as ++ bs) = links as ++ links bs := List.filterMap_append

/-- texts are no lines and no links -/
theorem lines_links_texts {page : List Printed} (h : ∀ x ∈ page, ∃ t, x = .text t) : lines page = [] ∧ links page = [] := by
  unfold lines links
  rw [List.filterMap_eq_nil_iff, List.filterMap_eq_nil_iff]
  refine ⟨fun x hx => ?_, fun x hx => ?_⟩
  · obtain ⟨t, rfl⟩ := h x hx
    rfl
  · obtain ⟨t, rfl⟩ := h x hx
    rfl

/-! ## Results -/

/-- a result and its cursor: 0 is in front of the first row -/
structure ResultSet (ρ : Type) where
  rows : List ρ
  cursor : ℕ

variable {ρ : Type}

def ResultSet.open (rows : List ρ) : ResultSet ρ := ⟨rows, 0⟩

/-- `rs.first()` -/
def ResultSet.first (rs : ResultSet ρ) : Bool × ResultSet ρ :=
  if rs.rows = [] then (false, rs) else (true, { rs with cursor := 1 })

/-- the rows that `while (rs.next())` visits -/
def ResultSet.whileNext (rs : ResultSet ρ) : List ρ := rs.rows.drop rs.cursor

/-- the rows that `do … while (rs.next())` visits -/
def ResultSet.doWhileNext (rs : ResultSet ρ) : List ρ := rs.rows.drop (rs.cursor - 1)

/-- `first()` and `do … while (rs.next())` see every row -/
theorem doWhileNext_first (rows : List ρ) : (ResultSet.open rows).first.2.doWhileNext = rows := by
  cases rows <;> rfl

/-! ## Parameters -/

/-- a number with a default; `Integer.valueOf` throws when it is none -/
def intParameter (request : Request) (name : String) (n : ℤ) : Except Exc ℤ :=
  match request.getParameter name.toList with
  | none => .ok n
  | some text => parseInt text

/-- a story of the answer to a statement -/
structure Row where
  id : ℕ
  title : Text
  date : Text
  username : Text
deriving DecidableEq

def Row.line (r : Row) : Line := ⟨natText r.id, r.title, r.username, r.date⟩

inductive StoryTable where
  | stories
  | old_stories
deriving DecidableEq, Repr

/-- the `&page=…&nbOfStories=…` at the end of a link -/
def pageQuery (page nbOfStories : ℤ) : Text :=
  "&page=".toList ++ longText (wrapInt page) ++ "&nbOfStories=".toList ++ longText nbOfStories

/-! ## OlderStories -/

namespace OlderStories

structure Params where
  page : ℤ
  nbOfStories : ℤ
  day : Option Text
  month : Option Text
  year : Option Text
deriving DecidableEq

/-- the parameters; a date that is null is asked for a second time, which gives null again -/
def params (request : Request) : Except Exc Params := do
  let page ← intParameter request "page" 0
  let nbOfStories ← intParameter request "nbOfStories" 25
  return ⟨page, nbOfStories, request.getParameter "day".toList, request.getParameter "month".toList,
    request.getParameter "year".toList⟩

/-- `SELECT … WHERE date>=before AND date<=after … ORDER BY date DESC LIMIT limit OFFSET offset` -/
structure Statement where
  table : StoryTable
  before : Text
  after : Text
  limit : ℤ
  offset : ℤ
deriving DecidableEq

/-- `for (int i = a; i < b; i++)` -/
def options (a b : ℕ) : List Printed :=
  (List.range' a (b - a)).map fun i => html ("<OPTION value=\"" ++ toString i ++ "\">" ++ toString i ++ "</OPTION>\n")

def dateChooser : List Printed :=
  [html "<form action=\"/rubbos/servlet/edu.rice.rubbos.servlets.OlderStories\" method=POST>\n",
    html "<center><B>Date (day/month/year):</B><SELECT name=day>\n"] ++ options 1 32 ++
  [html "</SELECT>&nbsp/&nbsp<SELECT name=month>\n"] ++ options 1 13 ++
  [html "</SELECT>&nbsp/&nbsp<SELECT name=year>\n"] ++ options 2003 2013 ++
  [html "</SELECT><p><input type=submit value=\"Retrieve stories from this date!\"><p>\n"]

theorem text_of_mem_dateChooser : ∀ x ∈ dateChooser, ∃ t, x = .text t := by
  have hoptions : ∀ a b, ∀ x ∈ options a b, ∃ t, x = Printed.text t := by
    intro a b x hx
    obtain ⟨i, -, rfl⟩ := List.mem_map.1 hx
    exact ⟨_, rfl⟩
  intro x hx
  simp only [dateChooser, List.mem_append, List.mem_cons, List.not_mem_nil, or_false] at hx
  rcases hx with ((((((rfl | rfl) | hx) | rfl) | hx) | rfl) | hx) | rfl
  · exact ⟨_, rfl⟩
  · exact ⟨_, rfl⟩
  · exact hoptions _ _ x hx
  · exact ⟨_, rfl⟩
  · exact hoptions _ _ x hx
  · exact ⟨_, rfl⟩
  · exact hoptions _ _ x hx
  · exact ⟨_, rfl⟩

theorem lines_dateChooser : lines dateChooser = [] := (lines_links_texts text_of_mem_dateChooser).1

theorem links_dateChooser : links dateChooser = [] := (lines_links_texts text_of_mem_dateChooser).2

/-- the parameters of a link: `first` is `day=`, or what the link to the next page of a later page has in its place -/
def query (first day month year : Text) (page nbOfStories : ℤ) : Text :=
  first ++ day ++ "&month=".toList ++ month ++ "&year=".toList ++ year ++ pageQuery page nbOfStories

def before (day month year : Text) : Text := year ++ "-".toList ++ month ++ "-".toList ++ day ++ " 0:0:0".toList

def after (day month year : Text) : Text := year ++ "-".toList ++ month ++ "-".toList ++ day ++ " 23:59:59".toList

section Listing

variable (execute : Statement → Except Unit (List Row)) (p : Params) (day month year : Text)

def statement (table : StoryTable) : Statement :=
  ⟨table, before day month year, after day month year, p.nbOfStories, wrapInt (p.page * p.nbOfStories)⟩

/-- the first try block: the stories or, if there are none, the old ones -/
def find : Except Unit (StoryTable × ResultSet Row) := do
  let rs := ResultSet.open (← execute (statement p day month year .stories))
  if rs.first.1 then return (.stories, rs.first.2)
  return (.old_stories, ResultSet.open (← execute (statement p day month year .old_stories)))

/-- nothing is found -/
def nothing : List Printed :=
  (if p.page = 0 then [html "<h2>Sorry, but there are no story available for this date !</h2>"]
  else
    [html "<h2>Sorry, but there is no more stories available for this date.</h2><br>\n", html "<p><CENTER>\n",
      .link ⟨.previous, query "day=".toList day month year (p.page - 1) p.nbOfStories⟩, html "\n</CENTER>\n"]) ++ [.footer]

/-- the links at the end of the page. The link to the next page of a page that is not the first has no parameter day. -/
def pageLinks : List Printed :=
  if p.page = 0 then
    [html "<p><CENTER>\n", .link ⟨.next, query "day=".toList day month year (p.page + 1) p.nbOfStories⟩,
      html "\n</CENTER>\n"]
  else
    [html "<p><CENTER>\n", .link ⟨.previous, query "day=".toList day month year (p.page - 1) p.nbOfStories⟩,
      html "\n&nbsp&nbsp&nbsp",
      .link ⟨.next, query ("category=".toList ++ day ++ "=".toList) day month year (p.page + 1) p.nbOfStories⟩,
      html "\n\n</CENTER>\n"]

/-- the stories of the page, from the cursor on, or none if nothing is found -/
def listed : Except Unit (Option (List Row)) := do
  let (_, rs) ← find execute p day month year
  return if rs.first.1 then some rs.first.2.whileNext else none

def results : List Printed :=
  match listed execute p day month year with
  | .error _ => [html "Exception getting older stories: ", .exception, html "<br>"]
  | .ok none => nothing p day month year
  | .ok (some rows) => rows.map (fun r => .line r.line) ++ pageLinks p day month year ++ [.footer]

end Listing

def page (execute : Statement → Except Unit (List Row)) (p : Params) : List Printed :=
  .header "RUBBoS Older Stories".toList :: dateChooser ++
  match p.day, p.month, p.year with
  | some day, some month, some year =>
    [html "<br><h2>Stories of the ", .text day, html "/", .text month, html "/", .text year, html "</h2></center><br>"] ++
      results execute p day month year
  | _, _, _ => [html "<br><h2>Please select a date</h2><br>", .footer]

def doGet (execute : Statement → Except Unit (List Row)) (request : Request) : Except Exc (List Printed) := do
  let p ← params request
  return page execute p

end OlderStories

/-! ## BrowseStoriesByCategory -/

namespace BrowseStoriesByCategory

structure Params where
  page : ℤ
  nbOfStories : ℤ
  category : Option Text
  categoryName : Option Text
deriving DecidableEq

/-- the parameters; 0 stories are 25 -/
def params (request : Request) : Except Exc Params := do
  let page ← intParameter request "page" 0
  let nbOfStories ← intParameter request "nbOfStories" 0
  return ⟨page, if nbOfStories = 0 then 25 else nbOfStories, request.getParameter "category".toList,
    request.getParameter "categoryName".toList⟩

/-- `SELECT * FROM stories WHERE category= category ORDER BY date DESC LIMIT limit OFFSET offset` -/
structure Statement where
  category : Text
  limit : ℤ
  offset : ℤ
deriving DecidableEq

section Listing

variable (charset : Text → List UInt8) (execute : Statement → Except Unit (List Row)) (p : Params)
  (categoryId categoryName : Text)

/-- the parameters of a link, up to the page -/
def query : Text := "category=".toList ++ categoryId ++ "&categoryName=".toList ++ encode charset categoryName

/-- nothing is found. The link has the name of the variable where its value should be. -/
def nothing : List Printed :=
  (if p.page = 0 then [html "<h2>Sorry, but there is no story available in this category !</h2>"]
  else
    [html "<h2>Sorry, but there are no more stories available at this time.</h2><br>\n", html "<p><CENTER>\n",
      .link ⟨.previous, query charset categoryId categoryName ++ "&page=".toList ++ longText (wrapInt (p.page - 1)) ++
        "&nbOfStories=nbOfStories".toList⟩, html "\n</CENTER>\n"]) ++ [.footer]

def pageLinks : List Printed :=
  if p.page = 0 then
    [html "<p><CENTER>\n", .link ⟨.next, query charset categoryId categoryName ++ pageQuery (p.page + 1) p.nbOfStories⟩,
      html "\n</CENTER>\n"]
  else
    [html "<p><CENTER>\n", .link ⟨.previous, query charset categoryId categoryName ++ pageQuery (p.page - 1) p.nbOfStories⟩,
      html "\n&nbsp&nbsp&nbsp",
      .link ⟨.next, query charset categoryId categoryName ++ pageQuery (p.page + 1) p.nbOfStories⟩, html "\n\n</CENTER>\n"]

/-- the stories of the page, or none if nothing is found -/
def listed : Except Unit (Option (List Row)) := do
  let rs := ResultSet.open (← execute ⟨categoryId, p.nbOfStories, wrapInt (p.page * p.nbOfStories)⟩)
  return if rs.first.1 then some rs.first.2.doWhileNext else none

def results : List Printed :=
  match listed execute p categoryId with
  | .error _ => [html "Failed to execute Query for BrowseStoriesByCategory: ", .exception]
  | .ok none => nothing charset p categoryId categoryName
  | .ok (some rows) => rows.map (fun r => .line r.line) ++ pageLinks charset p categoryId categoryName ++ [.footer]

end Listing

def page (charset : Text → List UInt8) (execute : Statement → Except Unit (List Row)) (p : Params) : List Printed :=
  match p.categoryName, p.category with
  | none, _ => [html "Browse Stories By CategoryYou must provide a category name!<br>"]
  | _, none => [html "Browse Stories By CategoryYou must provide a category identifier!<br>"]
  | some categoryName, some categoryId =>
    [.header "RUBBoS Browse Stories By Category".toList, html "<br><h2>Stories in category ", .text categoryName,
      html "</h2><br>"] ++ results charset execute p categoryId categoryName

def doGet (charset : Text → List UInt8) (execute : Statement → Except Unit (List Row)) (request : Request) :
    Except Exc (List Printed) := do
  let p ← params request
  return page charset execute p

end BrowseStoriesByCategory

/-! ## Search -/

namespace Search

structure Params where
  type : ℤ
  page : ℤ
  nbOfStories : ℤ
  search : Option Text
deriving DecidableEq

/-- the parameters; nbOfStories is 25, with or without a parameter -/
def params (request : Request) : Except Exc Params := do
  let type ← intParameter request "type" 0
  let page ← intParameter request "page" 0
  return ⟨type, page, 25, request.getParameter "search".toList⟩

/-- where is searched: in the titles of stories, the subjects of comments or the names of authors -/
inductive Source where
  | stories
  | old_stories
  | comments
  | old_comments
  | authors
  | old_authors
deriving DecidableEq, Repr

/-- `… LIKE 'search%' … ORDER BY date DESC LIMIT limit OFFSET offset` -/
structure Statement where
  source : Source
  search : Text
  limit : ℤ
  offset : ℤ
deriving DecidableEq

/-- a story or a comment of the answer -/
structure Hit where
  id : Text
  /-- the story of a comment -/
  story_id : Text
  title : Text
  username : Text
  date : Text
deriving DecidableEq

def storyLine (h : Hit) : Printed := .line ⟨h.id, h.title, h.username, h.date⟩

def commentLine (comment_table : Text) (h : Hit) : Printed :=
  .line ⟨comment_table ++ "&storyId=".toList ++ h.story_id ++ "&commentId=".toList ++ h.id ++ "&filter=0&display=0".toList,
    h.title, h.username, h.date⟩

def typeOption (selected : Bool) (value : ℤ) (name : String) : Printed :=
  html ((if selected then "<OPTION selected value=\"" else "<OPTION value=\"") ++ toString value ++ "\">" ++ name ++
    "</OPTION>\n")

def form (p : Params) : List Printed :=
  [html ("<form action=\"/rubbos/servlet/edu.rice.rubbos.servlets.Search\" method=POST>\n<center><table>\n" ++
      "<tr><td><b>Search</b><td><input type=text size=50 name=search value="),
    .text (p.search.getD "null".toList), html ">\n<tr><td><b>in</b><td><SELECT name=type>\n",
    typeOption (p.type = 0) 0 "Stories", typeOption (p.type = 1) 1 "Comments", typeOption (p.type = 2) 2 "Authors",
    html "</SELECT></table><p><br>\n<input type=submit value=\"Search now!\"></center><p>\n"]

def title (p : Params) : Text :=
  if p.type = 0 then "Stories".toList else if p.type = 1 then "Comments".toList
  else if p.type = 2 then "Stories with author".toList else "null".toList

section Listing

variable (charset : Text → List UInt8) (execute : Statement → Except Unit (List Hit)) (p : Params) (search : Text)

/-- the parameters of a link: `first` is `search=`, or what the link to the next page of a later page has in its place -/
def query (first : Text) (page : ℤ) : Text :=
  first ++ encode charset search ++ "&type=".toList ++ longText p.type ++ pageQuery page p.nbOfStories

/-- nothing is found -/
def nothing (none more : List Printed) : List Printed :=
  (if p.page = 0 then none
  else more ++ [html "<p><CENTER>\n", .link ⟨.previous, query charset p search "search=".toList (p.page - 1)⟩,
    html "\n</CENTER>\n"]) ++ [.footer]

/-- the links at the end of the page. The link to the next page of a page that is not the first has no parameter search. -/
def pageLinks : List Printed :=
  if p.page = 0 then
    [html "<p><CENTER>\n", .link ⟨.next, query charset p search "search=".toList (p.page + 1)⟩, html "\n</CENTER>\n"]
  else
    [html "<p><CENTER>\n", .link ⟨.previous, query charset p search "search=".toList (p.page - 1)⟩,
      html "\n&nbsp&nbsp&nbsp",
      .link ⟨.next, query charset p search ("category=".toList ++ search ++ "=".toList) (p.page + 1)⟩,
      html "\n\n</CENTER>\n"]

/-- the hits and where they are from, or none if nothing is found; the error says whether it is the second statement that
throws -/
def find (new old : Source) : Except Bool (Option (Source × List Hit)) :=
  let offset := wrapInt (p.page * p.nbOfStories)
  match execute ⟨new, search, p.nbOfStories, offset⟩ with
  | .error _ => .error false
  | .ok rows =>
    let rs := ResultSet.open rows
    if rs.first.1 then .ok (some (new, rs.first.2.doWhileNext))
    else
      match execute ⟨old, search, p.nbOfStories, offset⟩ with
      | .error _ => .error true
      | .ok rows =>
        let rs := ResultSet.open rows
        .ok (if rs.first.1 then some (old, rs.first.2.doWhileNext) else none)

def storyResults : List Printed :=
  match find execute p search .stories .old_stories with
  | .error false => [html "Failed to execute Query for BrowseStoriesByCategory: ", .exception]
  | .error true => [html "Exception searching type 0: ", .exception, html "<br>"]
  | .ok none => nothing charset p search
      [html "<h2>Sorry, but there is no story matching <i>", .text search, html "</i> !</h2>"]
      [html "<h2>Sorry, but there are no more stories available matching <i>", .text search, html "</i>.</h2><br>\n"]
  | .ok (some (_, hits)) => hits.map storyLine ++ pageLinks charset p search ++ [.footer]

def commentResults : List Printed :=
  match find execute p search .comments .old_comments with
  | .error _ => [.exception, html "Exception in type==1"]
  | .ok none => nothing charset p search
      [html "<h2>Sorry, but there is no comment matching <i>", .text search, html "</i> !</h2>"]
      [html "<h2>Sorry, but there are no more comments available matching <i>", .text search, html "</i>.</h2><br>\n"]
  | .ok (some (source, hits)) =>
    hits.map (commentLine (if source = .comments then "comments".toList else "old_comments".toList)) ++
      pageLinks charset p search ++ [.footer]

def authorResults : List Printed :=
  match find execute p search .authors .old_authors with
  | .error _ => [.exception, html "Exception in type==2"]
  | .ok none => nothing charset p search
      [html "<h2>Sorry, but there is no story with author matching <i>", .text search, html "</i> !</h2>"]
      [html "<h2>Sorry, but there are no more stories available with author matching <i>$search</i>.</h2><br>\n"]
  | .ok (some (_, hits)) => hits.map storyLine ++ pageLinks charset p search ++ [.footer]

/-- for another type there is no result, and its rows are asked for all the same -/
def results : List Printed :=
  if p.type = 0 then storyResults charset execute p search
  else if p.type = 1 then commentResults charset execute p search
  else if p.type = 2 then authorResults charset execute p search
  else [.exception, html "Exception in type!=1", .footer]

end Listing

def page (charset : Text → List UInt8) (execute : Statement → Except Unit (List Hit)) (p : Params) : List Printed :=
  .header "RUBBoS search".toList :: form p ++
  match p.search with
  | none => [html "<br><center><h2>Please select a text to search for</h2></center><br>", .footer]
  | some search =>
    [html "<br><h2>", .text (title p), html " matching <i>", .text search, html "</i></h2></center><br>"] ++
      results charset execute p search

def doGet (charset : Text → List UInt8) (execute : Statement → Except Unit (List Hit)) (request : Request) :
    Except Exc (List Printed) := do
  let p ← params request
  return page charset execute p

end Search

end Rubbos.Servlets.StoryPages
