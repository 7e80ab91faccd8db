/-
The pages on which the servlets print links to comments (`Comment.java`, `ViewStory.java`, `ViewComment.java`,
`Search.java`, `ServletPrinter.java`).

`println` ends every message with a newline. What the database and the request provide is data: texts, numbers, the rows of
every query, and where a query or a row fails the text of the exception. A page that is left early has what was printed
until then. The comments below a comment are printed by a recursion that follows the ids; it is followed for a number of
levels (`none`: it goes deeper).

- `viewStory_refs`, `viewComment_refs`: on a page with comments the first reference to ViewComment is the form of the
  filter, and everything behind it is a link.
- `search_refs`: on a page of a search every reference is a link, and the links are the comments found.
-/
import Rubbos.Servlets.Html

namespace Rubbos.Servlets.CommentPages

open Rubbos.Core JString Html

/-! ## The printer -/

/-- what the printer adds to a page: the file `header.html`, or the message that it cannot be read, and the time spent -/
structure ServletPrinter where
  servletName : PlainText
  header : PlainText
  diffTime : PlainText

def printHTMLheader (sp : ServletPrinter) (title : PlainText) : Doc :=
  [text sp.header "<title>", text title "</title>\n"]

def printHTMLfooter (sp : ServletPrinter) : Doc :=
  [html "<br><hr>RUBBoS (C) Rice University/INRIA<br><i>Page generated by ", text sp.servletName " in ",
    text sp.diffTime "</i><br>\n</body>\n</html>\n"]

def printHTMLHighlighted (msg : PlainText) : Doc :=
  [html "<TABLE width=\"100%\" bgcolor=\"#CCCCFF\">\n",
    html "<TR><TD align=\"center\" width=\"100%\"><FONT size=\"4\" color=\"#000000\"><B>",
    text msg "</B></FONT></TD></TR>\n</TABLE><p>\n"]

def linkStart : Piece := html "<a href=\"/rubbos/servlet/"

@[simp] theorem isRef_linkStart : linkStart.isRef = false := rfl

@[simp] theorem isAction_linkStart : linkStart.isAction = false := rfl

/-! ## The filter -/

/-- the rows of a result set, and what is thrown behind them -/
structure ResultSet (α : Type) where
  rows : List α
  failure : Option PlainText

def optionStart (selected : Bool) (i : ℤ) : Doc :=
  [if selected then html "<OPTION selected value=\"" else html "<OPTION value=\"", num i "\">"]

def noCommentOption (selected : Bool) (i : ℤ) : Doc :=
  optionStart selected i ++ [num i ": 0 comment</OPTION>\n\n"]

def commentsOption (selected : Bool) (i count : ℤ) : Doc :=
  optionStart selected i ++ [num i ": ", num count " comments</OPTION>\n\n"]

/-- the options up to a rating, and the option reached -/
def optionsTo (filter rating i : ℤ) : Doc × ℤ :=
  if i < 6 ∧ rating ≠ i then
    let r := optionsTo filter rating (i + 1)
    (noCommentOption (i = filter) i ++ r.1, r.2)
  else ([], i)
termination_by (6 - i).toNat

/-- the loop over the ratings and their counts -/
def ratingOptions (filter : ℤ) : List (ℤ × ℤ) → (i : ℤ) → Doc × ℤ
  | [], i => ([], i)
  | (rating, count) :: rows, i =>
    let skipped := optionsTo filter rating i
    if rating = skipped.2 then
      let r := ratingOptions filter rows (skipped.2 + 1)
      (skipped.1 ++ commentsOption (skipped.2 = filter) skipped.2 count ++ r.1, r.2)
    else
      let r := ratingOptions filter rows skipped.2
      (skipped.1 ++ r.1, r.2)

/-- the options that are left -/
def optionsLeft (i : ℤ) : Doc :=
  if i < 6 then noCommentOption false i ++ optionsLeft (i + 1) else []
termination_by (6 - i).toNat

def chooserHead (commentId : JInt) (storyId : IntText) (commentTable : TableName) : Doc :=
  [html "<center><form action=\"/rubbos/servlet/",
    formAction .viewComment "\" method=POST>\n<input type=hidden name=commentId value=",
    num commentId.value ">\n<input type=hidden name=storyId value=",
    text storyId.plainText ">\n<input type=hidden name=comment_table value=",
    text commentTable.plainText ">\n<B>Filter :</B>&nbsp&nbsp<SELECT name=filter>\n\n"]

def chooserTail (display : JInt) : Doc :=
  [html "</SELECT>&nbsp&nbsp&nbsp&nbsp<SELECT name=display>\n<OPTION value=\"0\">Main threads</OPTION>\n\n",
    if display.value = 1 then html "<OPTION selected value=\"1\">Nested</OPTION>\n\n"
      else html "<OPTION value=\"1\">Nested</OPTION>\n\n",
    if display.value = 2 then html "<OPTION selected value=\"2\">All comments</OPTION>\n\n"
      else html "<OPTION value=\"2\">All comments</OPTION>\n\n",
    html "</SELECT>&nbsp&nbsp&nbsp&nbsp<input type=submit value=\"Refresh display\"></center><p>\n\n"]

/-- `displayFilterChooser`: what it prints, and what it throws -/
def displayFilterChooser (commentId : JInt) (storyId : IntText) (commentTable : TableName) (display filter : JInt)
    (ratings : ResultSet (ℤ × ℤ)) : Doc × Option PlainText :=
  let options := ratingOptions filter.value ratings.rows (-1)
  match ratings.failure with
  | some e => (chooserHead commentId storyId commentTable ++ options.1, some e)
  | none =>
    (chooserHead commentId storyId commentTable ++ options.1 ++ optionsLeft options.2 ++ chooserTail display, none)

/-! ## Comments -/

/-- a row of a comment table, with the name of its writer -/
structure Row where
  id : JInt
  parent : JInt
  childs : ℤ
  rating : ℤ
  date : PlainText
  subject : PlainText
  comment : PlainText
  nickname : PlainText

structure Comment extends Row where
  story_id : IntText

/-- `fetchLowerLevels`: one query for each level, as long as a comment of the level has children (`none`: a query fails) -/
def fetchLowerLevels (storyId : IntText) (display : JInt) : (answers : List (List Row)) → Option (List Comment)
  | [] => none
  | follow :: answers =>
    let level : List Comment := follow.map fun r =>
      { r with story_id := storyId, comment := if display.value = 1 then plain "" else r.comment }
    if follow.any (0 < ·.childs) then (fetchLowerLevels storyId display answers).map (level ++ ·) else some level

def fetchComments (storyId : IntText) (display : JInt) : (answers : List (List Row)) → Option (List Comment)
  | [] => none
  | rs :: answers =>
    let level : List Comment := rs.map fun r => { r with story_id := storyId }
    if rs.any (0 < ·.childs) then (fetchLowerLevels storyId display answers).map (level ++ ·) else some level

/-- `map.get(new Integer(cid))`, for the map that has every comment at its parent -/
def children (map : List Comment) (cid : JInt) : List Comment := map.filter (·.parent = cid)

section

variable (map : List Comment) (filter display : JInt) (commentTable : TableName)

/-- the link to the comment with an id -/
def Comment.view (c : Comment) (id : JInt) : Link :=
  .viewComment commentTable c.story_id id.printed filter.printed display.printed

def Comment.reply (c : Comment) : Link := .postComment commentTable c.story_id c.id.printed

def Comment.moderate (c : Comment) : Link := .moderateComment commentTable c.id.printed

/-- `for (i = 0; i < level; i++)` -/
def indent (level : ℕ) (p : Piece) : Doc := List.replicate level p

def cells (level : ℕ) : Doc := indent level (html "<TD>&nbsp&nbsp&nbsp\n")

/-- the line of a comment in a preview -/
def nestedLine (level : ℕ) (c : Comment) : Doc :=
  indent level (html " &nbsp &nbsp &nbsp \n") ++
  [linkStart, ref (c.view filter display commentTable c.id) "\">", text c.subject "</a> by ",
    text c.nickname " on ", text c.date "<br>\n\n"]

/-- the links below a comment -/
def replyLinks (c : Comment) : Doc :=
  [linkStart, ref (c.reply commentTable) "\">Reply to this</a>&nbsp|&nbsp", linkStart,
    ref (c.view filter display commentTable c.parent) "\">Parent</a>&nbsp|&nbsp", linkStart]

/-- a comment below another one, in full -/
def lowerTable (level : ℕ) (c : Comment) : Doc :=
  html "<TABLE bgcolor=\"#CCCCFF\"><TR>\n" :: cells level ++
  [html "<TD><FONT size=\"4\" color=\"#000000\"><B>", linkStart,
    ref (c.view filter display commentTable c.id) "\">", text c.subject "</a></B>&nbsp</FONT> (Score:",
    num c.rating ")</TABLE>\n\n", html "<TABLE>\n"] ++ cells level ++
  [html "<TD><B>Posted by ", text c.nickname " on ", text c.date "</B><p><TR>\n\n"] ++
  cells level ++ [html "<TD>", text c.comment "<TR>\n"] ++
  cells level ++ html "<TD><p>[ " :: replyLinks filter display commentTable c ++
  [ref (c.moderate commentTable) "\">Moderate</a> ]</TABLE><br>\n"]

/-- the line between comments -/
def rule : Piece := html "<br><hr><br>\n"

/-- the loop of `displayLowerLevelComments`; `below` is the call for the next level -/
def lowerLoop (below : JInt → Bool → Option Doc) (level : ℕ) : List Comment → (separator : Bool) → Option Doc
  | [], _ => some []
  | c :: al, separator => do
    let shown := filter.value ≤ c.rating
    let here := if shown then
        (if separator then [] else [html "<br><hr><br>\n"]) ++
          (if display.value = 1 then nestedLine filter display commentTable level c
            else lowerTable filter display commentTable level c)
      else []
    let separator := separator || shown
    let lower ← (if 0 < c.childs then below c.id separator else some [] : Option Doc)
    let rest ← lowerLoop below level al separator
    return here ++ lower ++ rest

/-- `displayLowerLevelComments`, for a number of levels -/
def displayLowerLevelComments : (fuel : ℕ) → (cid : JInt) → (level : ℕ) → (separator : Bool) → Option Doc
  | 0, _, _, _ => none
  | fuel + 1, cid, level, separator =>
    lowerLoop filter display commentTable (fun id => displayLowerLevelComments fuel id (level + 1)) level
      (children map cid) separator

/-- a comment at the top, in full -/
def topTable (c : Comment) : Doc :=
  [html "<br><hr><br>\n",
    html "<TABLE width=\"100%\" bgcolor=\"#CCCCFF\"><TR><TD><FONT size=\"4\" color=\"#000000\"><B>", linkStart,
    ref (c.view filter display commentTable c.id) "\">", text c.subject "</a></B>&nbsp</FONT> (Score:",
    num c.rating ")</TABLE>\n\n", html "<TABLE><TR><TD><B>Posted by ", text c.nickname " on ", text c.date "</B><p>\n\n",
    html "<TR><TD>", text c.comment "\n", html "<TR><TD><p>[ "] ++ replyLinks filter display commentTable c ++
  [ref (c.moderate commentTable) "\">Moderate</a> ]</TABLE>\n\n"]

/-- the loop of `displayComments` -/
def topLoop (fuel : ℕ) : List Comment → Option Doc
  | [] => some []
  | c :: al => do
    let shown := filter.value ≤ c.rating
    let here := if shown then topTable filter display commentTable c else []
    let lower ← (if 0 < display.value ∧ 0 < c.childs
      then displayLowerLevelComments map filter display commentTable fuel c.id 1 shown else some [] : Option Doc)
    let rest ← topLoop fuel al
    return here ++ lower ++ rest

def displayComments (fuel : ℕ) (cid : JInt) : Option Doc :=
  topLoop map filter display commentTable fuel (children map cid)

end

/-- the comments of a page: the answers to the queries for them, and what is thrown when these fail -/
structure CommentAnswers where
  ratings : ResultSet (ℤ × ℤ)
  levels : List (List Row)
  failure : PlainText

/-- the filter, the comments and the footer, as `ViewStory` and `ViewComment` print them; `failed` is the line of an
exception -/
def chooserAndComments (sp : ServletPrinter) (fuel : ℕ) (a : CommentAnswers) (failed : PlainText → Piece) (commentId : JInt)
    (storyId : IntText) (commentTable : TableName) (display filter parent : JInt) : Option Doc :=
  match displayFilterChooser commentId storyId commentTable display filter a.ratings with
  | (chooser, some e) => some (chooser ++ [failed e])
  | (chooser, none) =>
    match fetchComments storyId display a.levels with
    | none => some (chooser ++ [failed a.failure])
    | some map => do
      let comments ← displayComments map filter display commentTable fuel parent
      return chooser ++ comments ++ printHTMLfooter sp

/-! ## ViewStory -/

def zero : JInt := ⟨0, by decide⟩
def one : JInt := ⟨1, by decide⟩

def comments : TableName where
  text := "comments".toList
  isName := by decide
  plain s := not_infix_of_mem (dot_mem_className s) (by decide)

def old_comments : TableName where
  text := "old_comments".toList
  isName := by decide
  plain s := not_infix_of_mem (dot_mem_className s) (by decide)

structure Story where
  nickname : PlainText
  date : PlainText
  title : PlainText
  body : PlainText

/-- the text of an exception, printed without a blank behind "failed" -/
structure FailedQuery where
  text : Text
  plain : ∀ s, ¬ className s <:+: "ERROR: ViewStory query failed".toList ++ text

/-- the request and the answers of the database -/
structure ViewStory where
  storyId : Option IntText
  filter : Option IntText
  stories : Except FailedQuery (Option (Except PlainText Story))
  old_stories : Except PlainText (Option Story)
  answers : CommentAnswers

/-- the row of the story and the table of its comments; a story that is not in `stories` is looked for in `old_stories` -/
def ViewStory.found (r : ViewStory) : Option (Except PlainText Story) → Except PlainText (Option (TableName × Story))
  | some row => row.map fun story => some (comments, story)
  | none => r.old_stories.map fun row => row.map fun story => (old_comments, story)

def storyHead (sp : ServletPrinter) (comment_table : TableName) (storyId : JInt) (s : Story) : Doc :=
  printHTMLheader sp (.behind (lit "RUBBoS: Viewing story ") s.title) ++ printHTMLHighlighted s.title ++
  [text (plain "Posted by") " ", text s.nickname " on ", text s.date "<br>\n\n", text s.body "<br>\n\n",
    html "<p><center>", linkStart, ref (.postComment comment_table storyId.printed zero.printed)
      "\">Post a comment on this story</a></center><p>\n", html "<br><hr><br>\n"]

/-- `ViewStory.doGet`. The links to comments have the story id of the request, the link for a new comment has its value. -/
def viewStory (sp : ServletPrinter) (fuel : ℕ) (r : ViewStory) : Option Doc :=
  match r.storyId with
  | none => some [html "You must provide a story identifier!<br>\n"]
  | some storyIdtest =>
    let filter := (r.filter.map IntText.intValue).getD zero
    match r.stories with
    | .error e => some [.text ⟨_, e.plain⟩ (lit "\n")]
    | .ok row =>
      match r.found row with
      | .error e => some [html "Exception viewing story ", text e "<br>\n"]
      | .ok none => some [html "<h3>ERROR: Sorry, but this story does not exist.</h3><br>\n\n"]
      | .ok (some (comment_table, story)) =>
        (chooserAndComments sp fuel r.answers (fun e => .text (.behind (lit "Failed to execute Query for ViewStory: ") e)
          (lit "\n")) zero storyIdtest comment_table one filter zero).map
            (storyHead sp comment_table storyIdtest.intValue story ++ ·)

/-! ## ViewComment -/

/-- the request and the answers of the database -/
structure ViewComment where
  filter : Option IntText
  display : Option IntText
  storyId : Option IntText
  commentId : Option IntText
  comment_table : Option TableName
  /-- the parent of the comment -/
  parent : Except PlainText (Option JInt)
  answers : CommentAnswers

/-- `ViewComment.doGet` -/
def viewComment (sp : ServletPrinter) (fuel : ℕ) (r : ViewComment) : Option Doc :=
  let filter := (r.filter.map IntText.intValue).getD zero
  let display := (r.display.map IntText.intValue).getD zero
  match r.storyId, r.commentId, r.comment_table with
  | none, _, _ => some [text (plain "Viewing comment") ": You must provide a story identifier!<br>\n"]
  | some _, none, _ => some [text (plain "Viewing comment") ": You must provide a comment identifier!<br>\n"]
  | some _, some _, none => some [text (plain "Viewing comment") ": You must provide a comment table!<br>\n"]
  | some storyId, some commentId, some comment_table =>
    let parent : Except PlainText (Option JInt) := if commentId.value = 0 then .ok (some zero) else r.parent
    match parent with
    | .error e => some [html "Failure at 'SELECT parent' stmt: ", text e "\n"]
    | .ok none => some [html "<h3>ERROR: Sorry, but this comment does not exist.</h3><br>\n\n"]
    | .ok (some parent) =>
      (chooserAndComments sp fuel r.answers (fun e => .text (.behind (lit "Failed to execute Query for ViewComment: ") e)
        (lit "\n")) commentId.intValue storyId comment_table display filter parent).map
          (printHTMLheader sp (plain "RUBBoS: Viewing comments") ++ ·)

/-! ## Search -/

structure StoryHit where
  id : PlainText
  title : PlainText
  nickname : PlainText
  date : PlainText

structure CommentHit where
  story_id : IntText
  id : IntText
  subject : PlainText
  nickname : PlainText
  date : PlainText

/-- the request and the answers of the database: to the query and, if it finds nothing, to the query for the old ones -/
structure Search where
  type : Option IntText
  page : Option IntText
  search : Option PlainText
  stories : Except PlainText (ResultSet StoryHit)
  old_stories : Except PlainText (ResultSet StoryHit)
  comments : Except PlainText (ResultSet CommentHit)
  old_comments : Except PlainText (ResultSet CommentHit)
  /-- what `rs.getString` throws for an `rs` that is null -/
  nullPointer : PlainText
  charset : Charset

def Search.typeValue (r : Search) : ℤ := (r.type.map IntText.value).getD 0

def Search.pageValue (r : Search) : ℤ := (r.page.map IntText.value).getD 0

/-- `nbOfStories`, whatever the request says -/
def nbOfStories : ℤ := 25

def typeOption (selected : Bool) (value name : PlainText) : Doc :=
  [if selected then html "<OPTION selected value=\"" else html "<OPTION value=\"", text value "\">", text name "</OPTION>\n\n"]

def Search.form (r : Search) : Doc :=
  [html "<form action=\"/rubbos/servlet/edu.rice.rubbos.servlets.Search\" method=POST>\n<center><table>\n",
    html "<tr><td><b>Search</b><td><input type=text size=50 name=search value=",
    text (r.search.getD (plain "null")) ">\n<tr><td><b>in</b><td><SELECT name=type>\n\n"] ++
  typeOption (r.typeValue = 0) (plain "0") (plain "Stories") ++ typeOption (r.typeValue = 1) (plain "1") (plain "Comments") ++
  typeOption (r.typeValue = 2) (plain "2") (plain "Authors") ++
  [html "</SELECT></table><p><br>\n<input type=submit value=\"Search now!\"></center><p>\n\n"]

def Search.title (r : Search) : PlainText :=
  if r.typeValue = 0 then plain "Stories" else if r.typeValue = 1 then plain "Comments"
  else if r.typeValue = 2 then plain "Stories with author" else plain "null"

/-- the link to a page of the search, from the encoded text on -/
def Search.pageLink (r : Search) (search : PlainText) (page : ℤ) : Doc :=
  [text (search.encode r.charset) "&type=", num r.typeValue "&page=", num (wrapInt page) "&nbOfStories="]

def Search.previousPage (r : Search) (search : PlainText) : Doc :=
  html "<p><CENTER>\n<a href=\"/rubbos/servlet/edu.rice.rubbos.servlets.Search?search=" ::
    r.pageLink search (r.pageValue - 1) ++ [num nbOfStories "\">Previous page</a>\n</CENTER>\n\n"]

/-- the links at the end of the page. The link to the next page of a page that is not the first has no parameter
search. -/
def Search.pageLinks (r : Search) (search : PlainText) : Doc :=
  if r.pageValue = 0 then
    html "<p><CENTER>\n<a href=\"/rubbos/servlet/edu.rice.rubbos.servlets.Search?search=" ::
      r.pageLink search (r.pageValue + 1) ++ [num nbOfStories "\">Next page</a>\n</CENTER>\n\n"]
  else
    html "<p><CENTER>\n<a href=\"/rubbos/servlet/edu.rice.rubbos.servlets.Search?search=" ::
      r.pageLink search (r.pageValue - 1) ++
      [num nbOfStories "\">Previous page</a>\n&nbsp&nbsp&nbsp",
        html "<a href=\"/rubbos/servlet/edu.rice.rubbos.servlets.Search?category=", text search "="] ++ r.pageLink search (r.pageValue + 1) ++ [num nbOfStories "\">Next page</a>\n\n</CENTER>\n\n"]

def storyLine (h : StoryHit) : Doc :=
  [html "<a href=\"/rubbos/servlet/edu.rice.rubbos.servlets.ViewStory?storyId=", text h.id "\">", text h.title "</a> by ",
    text h.nickname " on ", text h.date "<br>\n\n"]

def CommentHit.view (comment_table : TableName) (h : CommentHit) : Link :=
  .viewComment comment_table h.story_id h.id zero.printed zero.printed

def commentLine (comment_table : TableName) (h : CommentHit) : Doc :=
  [linkStart, ref (h.view comment_table) "\">", text h.subject "</a> by ", text h.nickname " on ",
    text h.date "<br>\n\n"]

/-- `rs.first()` of the query or, if it finds nothing, of the query for the old ones; the bool says whether it is the old
one -/
def firstOf {α : Type} (rs : ResultSet α) (old : Except PlainText (ResultSet α)) : Except PlainText (Bool × ResultSet α) :=
  if rs.rows.isEmpty then
    match rs.failure with
    | some e => .error e
    | none => do
      let rs ← old
      match rs.rows.isEmpty, rs.failure with
      | true, some e => throw e
      | _, _ => return (true, rs)
  else .ok (false, rs)

/-- the comments that match, and their table -/
def Search.commentsFound (r : Search) : Except PlainText (TableName × ResultSet CommentHit) := do
  let rs ← r.comments
  let (old, rs) ← firstOf rs r.old_comments
  return (if old then CommentPages.old_comments else CommentPages.comments, rs)

/-- nothing matches: a page without results, or behind the last one -/
def Search.nothing (r : Search) (sp : ServletPrinter) (search : PlainText) (first more : Doc) : Doc :=
  (if r.pageValue = 0 then first else more ++ r.previousPage search) ++ printHTMLfooter sp

/-- the titles of the stories, and the end of the page -/
def Search.storyLines (r : Search) (sp : ServletPrinter) (search : PlainText) (rs : ResultSet StoryHit) : Doc :=
  rs.rows.flatMap storyLine ++
    (match rs.failure with
      | some e => [text e "Exception in type!=1\n"]
      | none => r.pageLinks search) ++ printHTMLfooter sp

def Search.storyResults (r : Search) (sp : ServletPrinter) (search : PlainText) : Doc :=
  match r.stories with
  | .error e => [html "Failed to execute Query for BrowseStoriesByCategory: ", text e "\n"]
  | .ok rs =>
    match firstOf rs r.old_stories with
    | .error e => [html "Exception searching type 0: ", text e "<br>\n"]
    | .ok (_, rs) =>
      if rs.rows.isEmpty then r.nothing sp search
        [html "<h2>Sorry, but there is no story matching <i>", text search "</i> !</h2>\n"]
        [html "<h2>Sorry, but there are no more stories available matching <i>", text search "</i>.</h2><br>\n\n"]
      else r.storyLines sp search rs

/-- a failure leaves the page behind the comments already printed -/
def Search.commentResults (r : Search) (sp : ServletPrinter) (search : PlainText) : Doc :=
  match r.commentsFound with
  | .error e => [text e "Exception in type==1\n"]
  | .ok (comment_table, rs) =>
    if rs.rows.isEmpty then r.nothing sp search
      [html "<h2>Sorry, but there is no comment matching <i>", text search "</i> !</h2>\n"]
      [html "<h2>Sorry, but there are no more comments available matching <i>", text search "</i>.</h2><br>\n\n"]
    else rs.rows.flatMap (commentLine comment_table) ++
      (match rs.failure with
        | some e => [text e "Exception in type==1\n"]
        | none => r.pageLinks search ++ printHTMLfooter sp)

def Search.authorResults (r : Search) (sp : ServletPrinter) (search : PlainText) : Doc :=
  match (do firstOf (← r.stories) r.old_stories) with
  | .error e => [text e "Exception in type==2\n"]
  | .ok (_, rs) =>
    if rs.rows.isEmpty then r.nothing sp search
      [html "<h2>Sorry, but there is no story with author matching <i>", text search "</i> !</h2>\n"]
      [html "<h2>Sorry, but there are no more stories available with author matching <i>$search</i>.</h2><br>\n\n"]
    else r.storyLines sp search rs

/-- `Search.doGet` -/
def search (sp : ServletPrinter) (r : Search) : Doc :=
  printHTMLheader sp (plain "RUBBoS search") ++ r.form ++
  match r.search with
  | none => html "<br><center><h2>Please select a text to search for</h2></center><br>\n" :: printHTMLfooter sp
  | some search =>
    [html "<br><h2>", text r.title " matching <i>", text search "</i></h2></center><br>\n"] ++
    if r.typeValue = 0 then r.storyResults sp search
    else if r.typeValue = 1 then r.commentResults sp search
    else if r.typeValue = 2 then r.authorResults sp search
    else text r.nullPointer "Exception in type!=1\n" :: printHTMLfooter sp

/-! ## References on a page with comments -/

/-- every reference is a link, apart from the form in front of the links to ViewComment -/
structure FormFirst (d : Doc) : Prop where
  links : ∀ s ≠ CommentScript.viewComment, refs s d = (Html.links s d).map some
  view : refs .viewComment d = [] ∨ refs .viewComment d = none :: (Html.links .viewComment d).map some

theorem formFirst_of_not_ref {d : Doc} (h : Without Piece.isRef d) : FormFirst d where
  links s _ := by simp [Html.links, refs_eq_nil h]
  view := .inl (refs_eq_nil h)

theorem links_chooserHead (s : CommentScript) (commentId : JInt) (storyId : IntText) (commentTable : TableName) :
    Html.links s (chooserHead commentId storyId commentTable) = [] := by
  cases s <;> rfl

theorem refs_chooserHead (s : CommentScript) (commentId : JInt) (storyId : IntText) (commentTable : TableName) :
    refs s (chooserHead commentId storyId commentTable) = if s = .viewComment then [none] else [] := by
  cases s <;> rfl

theorem formFirst_append {head rest : Doc} {commentId : JInt} {storyId : IntText} {commentTable : TableName}
    (hhead : Without Piece.isAction head) (hview : refs .viewComment head = [])
    (hrest : Without Piece.isAction rest) : FormFirst (head ++ (chooserHead commentId storyId commentTable ++ rest)) where
  links s hs := by
    rw [refs_append, refs_append, refs_chooserHead, if_neg hs, refs_eq_links hhead, refs_eq_links hrest, links_append,
      links_append, links_chooserHead]
    simp
  view := by
    have hnone : Html.links .viewComment head = [] := by simp [Html.links, hview]
    right
    rw [refs_append, refs_append, refs_chooserHead, hview, refs_eq_links hrest, links_append, links_append,
      links_chooserHead, hnone]
    simp

theorem without_optionStart (selected : Bool) (i : ℤ) : Without Piece.isRef (optionStart selected i) := by
  cases selected <;> simp [optionStart]

theorem without_noCommentOption (selected : Bool) (i : ℤ) : Without Piece.isRef (noCommentOption selected i) := by
  refine without_append.2 ⟨without_optionStart selected i, ?_⟩
  simp

theorem without_commentsOption (selected : Bool) (i count : ℤ) : Without Piece.isRef (commentsOption selected i count) := by
  refine without_append.2 ⟨without_optionStart selected i, ?_⟩
  simp

theorem without_optionsTo (filter rating i : ℤ) : Without Piece.isRef (optionsTo filter rating i).1 := by
  fun_induction optionsTo filter rating i with
  | case1 i h r ih =>
    exact without_append.2 ⟨without_noCommentOption _ i, ih⟩
  | case2 i h => simp

theorem without_ratingOptions (filter : ℤ) (rows : List (ℤ × ℤ)) (i : ℤ) :
    Without Piece.isRef (ratingOptions filter rows i).1 := by
  induction rows generalizing i with
  | nil => simp [ratingOptions]
  | cons row rows ih =>
    obtain ⟨rating, count⟩ := row
    have hskipped := without_optionsTo filter rating i
    simp only [ratingOptions]
    split
    · exact without_append.2 ⟨without_append.2 ⟨hskipped, without_commentsOption _ _ count⟩, ih _⟩
    · exact without_append.2 ⟨hskipped, ih _⟩

theorem without_optionsLeft (i : ℤ) : Without Piece.isRef (optionsLeft i) := by
  fun_induction optionsLeft i with
  | case1 i h ih => exact without_append.2 ⟨without_noCommentOption false i, ih⟩
  | case2 i h => simp

theorem without_chooserTail (display : JInt) : Without Piece.isRef (chooserTail display) := by
  simp only [chooserTail, without_cons]
  split_ifs <;> simp

/-- the form of the filter, and nothing but options behind its head -/
theorem displayFilterChooser_eq (commentId : JInt) (storyId : IntText) (commentTable : TableName) (display filter : JInt)
    (ratings : ResultSet (ℤ × ℤ)) : ∃ options : Doc, Without Piece.isRef options ∧
      displayFilterChooser commentId storyId commentTable display filter ratings =
        (chooserHead commentId storyId commentTable ++ options, ratings.failure) := by
  have hrows := without_ratingOptions filter.value ratings.rows (-1)
  unfold displayFilterChooser
  cases ratings.failure with
  | some e => exact ⟨_, hrows, rfl⟩
  | none =>
    refine ⟨(ratingOptions filter.value ratings.rows (-1)).1 ++
      optionsLeft (ratingOptions filter.value ratings.rows (-1)).2 ++ chooserTail display, ?_, ?_⟩
    · exact without_append.2 ⟨without_append.2 ⟨hrows, without_optionsLeft _⟩, without_chooserTail display⟩
    · simp only [List.append_assoc]

section

variable {map : List Comment} {filter display : JInt} {commentTable : TableName}

theorem without_indent {level : ℕ} {p : Piece} (h : p.isAction = false) : Without Piece.isAction (indent level p) := by
  intro p' hp'
  rw [List.eq_of_mem_replicate hp']
  exact h

theorem without_nestedLine (level : ℕ) (c : Comment) :
    Without Piece.isAction (nestedLine filter display commentTable level c) := by
  refine without_append.2 ⟨without_indent rfl, ?_⟩
  simp

variable (filter display commentTable) in
theorem without_replyLinks (c : Comment) : Without Piece.isAction (replyLinks filter display commentTable c) := by
  simp [replyLinks]

theorem without_lowerTable (level : ℕ) (c : Comment) :
    Without Piece.isAction (lowerTable filter display commentTable level c) := by
  have hcells : Without Piece.isAction (cells level) := without_indent rfl
  have hreply := without_replyLinks filter display commentTable c
  simp [lowerTable, hcells, hreply]

/-- every call for the next level prints links only -/
theorem without_lowerLoop {below : JInt → Bool → Option Doc} {level : ℕ}
    (hbelow : ∀ id separator d, below id separator = some d → Without Piece.isAction d) {al : List Comment}
    {separator : Bool} {d : Doc} (h : lowerLoop filter display commentTable below level al separator = some d) :
    Without Piece.isAction d := by
  induction al generalizing separator d with
  | nil =>
    obtain rfl : [] = d := Option.some.inj h
    simp
  | cons c al ih =>
    simp only [lowerLoop, Option.bind_eq_bind, Option.bind_eq_some_iff, Option.pure_def, Option.some.injEq] at h
    obtain ⟨lower, hlower, rest, hrest, rfl⟩ := h
    refine without_append.2 ⟨without_append.2 ⟨?_, ?_⟩, ih hrest⟩
    · split_ifs
      · exact without_append.2 ⟨by simp, without_nestedLine level c⟩
      · exact without_append.2 ⟨by simp, without_lowerTable level c⟩
      · exact without_append.2 ⟨by simp, without_nestedLine level c⟩
      · exact without_append.2 ⟨by simp, without_lowerTable level c⟩
      · simp
    · split_ifs at hlower with hchilds
      · exact hbelow _ _ _ hlower
      · obtain rfl : [] = lower := Option.some.inj hlower
        simp

theorem without_displayLowerLevelComments {fuel : ℕ} {cid : JInt} {level : ℕ} {separator : Bool} {d : Doc}
    (h : displayLowerLevelComments map filter display commentTable fuel cid level separator = some d) :
    Without Piece.isAction d := by
  induction fuel generalizing cid level separator d with
  | zero => cases h
  | succ fuel ih => exact without_lowerLoop (fun _ _ _ hbelow => ih hbelow) h

theorem without_topTable (c : Comment) : Without Piece.isAction (topTable filter display commentTable c) := by
  have hreply := without_replyLinks filter display commentTable c
  simp [topTable, hreply]

theorem without_topLoop {fuel : ℕ} {al : List Comment} {d : Doc}
    (h : topLoop map filter display commentTable fuel al = some d) : Without Piece.isAction d := by
  induction al generalizing d with
  | nil =>
    obtain rfl : [] = d := Option.some.inj h
    simp
  | cons c al ih =>
    simp only [topLoop, Option.bind_eq_bind, Option.bind_eq_some_iff, Option.pure_def, Option.some.injEq] at h
    obtain ⟨lower, hlower, rest, hrest, rfl⟩ := h
    refine without_append.2 ⟨without_append.2 ⟨?_, ?_⟩, ih hrest⟩
    · split_ifs
      · exact without_topTable c
      · simp
    · split_ifs at hlower with hchilds
      · exact without_displayLowerLevelComments hlower
      · obtain rfl : [] = lower := Option.some.inj hlower
        simp

end

theorem without_printHTMLheader (sp : ServletPrinter) (title : PlainText) :
    Without Piece.isRef (printHTMLheader sp title) := by
  simp [printHTMLheader]

theorem without_printHTMLfooter (sp : ServletPrinter) : Without Piece.isRef (printHTMLfooter sp) := by
  simp [printHTMLfooter]

/-- the form of the filter, and links behind it -/
theorem chooserAndComments_eq {sp : ServletPrinter} {fuel : ℕ} {a : CommentAnswers} {failed : PlainText → Piece}
    {commentId : JInt} {storyId : IntText} {commentTable : TableName} {display filter parent : JInt} {d : Doc}
    (hfailed : ∀ e, (failed e).isAction = false)
    (h : chooserAndComments sp fuel a failed commentId storyId commentTable display filter parent = some d) :
    ∃ rest : Doc, Without Piece.isAction rest ∧ d = chooserHead commentId storyId commentTable ++ rest := by
  obtain ⟨options, hoptions, heq⟩ := displayFilterChooser_eq commentId storyId commentTable display filter a.ratings
  have hoptions := hoptions.isAction
  unfold chooserAndComments at h
  rw [heq] at h
  cases hf : a.ratings.failure with
  | some e =>
    simp only [hf, Option.some.injEq] at h
    refine ⟨options ++ [failed e], ?_, by simp [← h]⟩
    simp [hoptions, hfailed]
  | none =>
    cases hc : fetchComments storyId display a.levels with
    | none =>
      simp only [hf, hc, Option.some.injEq] at h
      refine ⟨options ++ [failed a.failure], ?_, by simp [← h]⟩
      simp [hoptions, hfailed]
    | some map =>
      simp only [hf, hc, Option.bind_eq_bind, Option.bind_eq_some_iff, Option.pure_def, Option.some.injEq] at h
      obtain ⟨comments, hcomments, rfl⟩ := h
      refine ⟨options ++ (comments ++ printHTMLfooter sp), ?_, by simp⟩
      simp [hoptions, without_topLoop hcomments, (without_printHTMLfooter sp).isAction]

theorem without_storyHead (sp : ServletPrinter) (comment_table : TableName) (storyId : JInt) (s : Story) :
    Without Piece.isAction (storyHead sp comment_table storyId s) := by
  have hheader := fun t => (without_printHTMLheader sp t).isAction
  simp [storyHead, hheader, printHTMLHighlighted]

theorem refs_storyHead (sp : ServletPrinter) (comment_table : TableName) (storyId : JInt) (s : Story) :
    refs .viewComment (storyHead sp comment_table storyId s) = [] := rfl

/-- **The story page.** The first reference to ViewComment is the form of the filter, everything behind it is a link. -/
theorem viewStory_refs {sp : ServletPrinter} {fuel : ℕ} {r : ViewStory} {d : Doc} (h : viewStory sp fuel r = some d) :
    FormFirst d := by
  unfold viewStory at h
  split at h
  · obtain rfl := Option.some.inj h
    exact formFirst_of_not_ref (by simp)
  · next storyIdtest _ =>
    simp only at h
    split at h
    · obtain rfl := Option.some.inj h
      exact formFirst_of_not_ref (without_cons.2 ⟨rfl, without_nil⟩)
    · split at h
      · obtain rfl := Option.some.inj h
        exact formFirst_of_not_ref (by simp)
      · obtain rfl := Option.some.inj h
        exact formFirst_of_not_ref (by simp)
      · next comment_table story _ =>
        obtain ⟨d, hd, rfl⟩ := Option.map_eq_some_iff.1 h
        obtain ⟨rest, hrest, rfl⟩ := chooserAndComments_eq (fun e => rfl) hd
        exact formFirst_append (without_storyHead sp comment_table _ story) (refs_storyHead sp comment_table _ story) hrest

/-- **The comment page.** The first reference to ViewComment is the form of the filter, everything behind it is a link. -/
theorem viewComment_refs {sp : ServletPrinter} {fuel : ℕ} {r : ViewComment} {d : Doc}
    (h : viewComment sp fuel r = some d) : FormFirst d := by
  unfold viewComment at h
  simp only at h
  split at h
  · obtain rfl := Option.some.inj h
    exact formFirst_of_not_ref (by simp)
  · obtain rfl := Option.some.inj h
    exact formFirst_of_not_ref (by simp)
  · obtain rfl := Option.some.inj h
    exact formFirst_of_not_ref (by simp)
  · next storyId commentId comment_table _ _ _ =>
    split at h
    · obtain rfl := Option.some.inj h
      exact formFirst_of_not_ref (by simp)
    · obtain rfl := Option.some.inj h
      exact formFirst_of_not_ref (by simp)
    · obtain ⟨d, hd, rfl⟩ := Option.map_eq_some_iff.1 h
      obtain ⟨rest, hrest, rfl⟩ := chooserAndComments_eq (fun e => rfl) hd
      have hheader := without_printHTMLheader sp (plain "RUBBoS: Viewing comments")
      exact formFirst_append hheader.isAction (refs_eq_nil hheader) hrest

/-! ## References on a page of a search -/

section

variable (sp : ServletPrinter) (r : Search) (search : PlainText)

theorem without_typeOption (selected : Bool) (value name : PlainText) :
    Without Piece.isRef (typeOption selected value name) := by
  cases selected <;> simp [typeOption]

theorem without_form : Without Piece.isRef r.form := by
  simp [Search.form, without_typeOption]

theorem without_pageLink (page : ℤ) : Without Piece.isRef (r.pageLink search page) := by
  simp [Search.pageLink]

theorem without_previousPage : Without Piece.isRef (r.previousPage search) := by
  simp [Search.previousPage, without_pageLink]

theorem without_pageLinks : Without Piece.isRef (r.pageLinks search) := by
  unfold Search.pageLinks
  split <;> simp [without_pageLink]

variable {sp r search} in
theorem without_nothing {first more : Doc} (hfirst : Without Piece.isRef first) (hmore : Without Piece.isRef more) :
    Without Piece.isRef (r.nothing sp search first more) := by
  unfold Search.nothing
  split <;> simp [hfirst, hmore, without_previousPage, without_printHTMLfooter]

theorem without_storyLine (h : StoryHit) : Without Piece.isRef (storyLine h) := by
  simp [storyLine]

theorem without_storyLines (rs : ResultSet StoryHit) : Without Piece.isRef (r.storyLines sp search rs) := by
  have hlines : Without Piece.isRef (rs.rows.flatMap storyLine) := by
    intro p hp
    obtain ⟨h, -, hp⟩ := List.mem_flatMap.1 hp
    exact without_storyLine h p hp
  unfold Search.storyLines
  cases rs.failure <;> simp [hlines, without_pageLinks, without_printHTMLfooter]

theorem without_storyResults : Without Piece.isRef (r.storyResults sp search) := by
  unfold Search.storyResults
  split
  · simp
  · split
    · simp
    · split
      · exact without_nothing (by simp) (by simp)
      · exact without_storyLines sp r search _

theorem without_authorResults : Without Piece.isRef (r.authorResults sp search) := by
  unfold Search.authorResults
  split
  · simp
  · split
    · exact without_nothing (by simp) (without_cons.2 ⟨rfl, without_nil⟩)
    · exact without_storyLines sp r search _

/-- the links to comments of a search -/
def Search.commentLinks : List Link :=
  if r.search.isSome ∧ r.typeValue = 1 then
    match r.commentsFound with
    | .error _ => []
    | .ok (comment_table, rs) => rs.rows.map (CommentHit.view comment_table)
  else []

theorem refs_commentLines (s : CommentScript) (comment_table : TableName) (rows : List CommentHit) :
    refs s (rows.flatMap (commentLine comment_table)) =
      if s = .viewComment then (rows.map (CommentHit.view comment_table)).map some else [] := by
  induction rows with
  | nil => simp
  | cons h rows ih =>
    have hline : refs s (commentLine comment_table h) = if s = .viewComment then [some (h.view comment_table)] else [] := by
      cases s <;> rfl
    rw [List.flatMap_cons, refs_append, hline, ih]
    split <;> simp

theorem refs_commentResults (s : CommentScript) : refs s (r.commentResults sp search) =
    match r.commentsFound with
    | .error _ => []
    | .ok (comment_table, rs) => if s = .viewComment then (rs.rows.map (CommentHit.view comment_table)).map some else [] := by
  unfold Search.commentResults
  cases r.commentsFound with
  | error e => exact refs_eq_nil (by simp)
  | ok found =>
    obtain ⟨comment_table, rs⟩ := found
    have hend : ∀ e : Option PlainText, refs s (match e with
        | some e => [text e "Exception in type==1\n"]
        | none => r.pageLinks search ++ printHTMLfooter sp) = [] := by
      intro e
      cases e with
      | some e => rfl
      | none => exact refs_eq_nil (by simp [without_pageLinks, without_printHTMLfooter])
    cases hrows : rs.rows with
    | nil => simpa [hrows] using refs_eq_nil (without_nothing (by simp) (by simp))
    | cons h rows =>
      simp only [hrows, List.isEmpty_cons, Bool.false_eq_true, if_false, refs_append, refs_commentLines, hend,
        List.append_nil]

/-- **The search page.** Its references are links to the comments found, without a form in front. -/
theorem search_refs (s : CommentScript) : refs s (CommentPages.search sp r) =
    if s = .viewComment then r.commentLinks.map some else [] := by
  have hhead : refs s (printHTMLheader sp (plain "RUBBoS search") ++ r.form) = [] :=
    refs_eq_nil (without_append.2 ⟨without_printHTMLheader sp _, without_form r⟩)
  unfold CommentPages.search Search.commentLinks
  rw [refs_append, hhead, List.nil_append]
  cases r.search with
  | none =>
    rw [refs_eq_nil (by simp [without_printHTMLfooter])]
    simp
  | some search =>
    have htitle : refs s [html "<br><h2>", text r.title " matching <i>", text search "</i></h2></center><br>\n"] = [] := rfl
    rw [refs_append, htitle, List.nil_append]
    by_cases h₀ : r.typeValue = 0
    · simp [h₀, refs_eq_nil (without_storyResults sp r search)]
    · by_cases h₁ : r.typeValue = 1
      · simp only [h₁, Option.isSome_some, and_self, if_true, one_ne_zero, if_false, refs_commentResults]
        cases r.commentsFound <;> simp
      · by_cases h₂ : r.typeValue = 2
        · simp [h₂, refs_eq_nil (without_authorResults sp r search)]
        · have hnull : Without Piece.isRef (text r.nullPointer "Exception in type!=1\n" :: printHTMLfooter sp) := by
            simp [without_printHTMLfooter]
          simp [h₀, h₁, h₂, refs_eq_nil hnull]

theorem links_search : links .viewComment (CommentPages.search sp r) = r.commentLinks := by
  simp [links, search_refs]

end

end Rubbos.Servlets.CommentPages
