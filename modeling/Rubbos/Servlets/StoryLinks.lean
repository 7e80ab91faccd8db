/-
The links to stories (`OlderStories.java` and `Search.java`) and where they lead (`ViewStory.java`).

A link has the id of a story and nothing else. `ViewStory` looks the id up in `stories` and, if there is none, in
`old_stories`, so the two tables share their ids by convention only: `StoreStory` and `AcceptStory` insert into `stories` under
the next number of that table, whatever `old_stories` has. The ids are unsigned in the schema, and `ViewStory` reads an int.

Statements are single steps that may fail, and the texts of a request are taken to stand in the SQL as they are meant
(`SqlStatements.statements_lex_iff` says when).

- `StoreStory.servlet`: the statements of `StoreStory`, to be interleaved with those of `AcceptStory` and `RejectStory`.
- `leads_of_apart`: over tables whose ids are apart, every link leads to its story and the comments on it.
- `story_links_lead`: in every run whose INSERTs get ids that `old_stories` does not have.
- `new_story_hides_old`: an author stores a story, and the link of an old one leads to it.
-/
import Rubbos.Servlets.Html
import Rubbos.Servlets.OlderStories
import Rubbos.Servlets.PagingLinks
import Rubbos.Servlets.Submissions

namespace Rubbos.Servlets

open Rubbos.Core JString Interleaving Tables

/-! ## StoreStory -/

namespace StoreStory

/-- the parameters; the category is spliced into the statement, where it is a number, and the date is that of the statement -/
structure Request where
  nickname : Option Text
  password : Option Text
  title : Option Text
  body : Option Text
  category : Option ℕ
  now : Text
deriving DecidableEq

/-- the variable table -/
inductive Target where
  | submissions
  | stories
deriving DecidableEq, Repr

inductive Point where
  /-- `SELECT id,access FROM users WHERE nickname=… AND password=…`; the story does not have its writer yet -/
  | select (nickname password : Text) (story : Story)
  /-- `INSERT INTO table (title, body, date, writer, category) VALUES …` -/
  | insert (table : Target) (story : Story)
deriving DecidableEq

def head : List Output :=
  [.header "RUBBoS: Story submission result", .html "<center><h2>Story submission result:</h2></center><p>\n"]

def anonymous : Output := .html "Story stored by the 'Anonymous Coward'<br>\n"

def start (r : Request) : Option Point × List Output :=
  match r.title, r.body, r.category with
  | none, _, _ => (none, [.html "You must provide a story title!<br>"])
  | _, none, _ => (none, [.html "<h3>You must provide a story body!<br></h3>"])
  | _, _, none => (none, [.html "<h3>You must provide a category!<br></h3>"])
  | some title, some body, some category =>
    match r.nickname, r.password with
    | some nickname, some password => (some (.select nickname password ⟨title, body, r.now, 0, category⟩), head)
    | _, _ => (some (.insert .submissions ⟨title, body, r.now, 0, category⟩), head ++ [anonymous])

/-- where the story of a user goes, and what is printed: nobody is user 0 -/
def destination (user : Option (ℕ × User)) : ℕ × Target × Output :=
  match user with
  | none => (0, .submissions, anonymous)
  | some (userId, u) =>
    if userId = 0 then (0, .submissions, anonymous)
    else if u.access = 0 then
      (userId, .submissions, .html ("Story submitted by regular user " ++ toString userId ++ "<br>\n"))
    else (userId, .stories, .html ("Story posted by author " ++ toString userId ++ "<br>\n"))

def stored : Target → Output
  | .submissions => .html "Your story has been successfully stored in the submissions database table<br>\n"
  | .stories => .html "Your story has been successfully stored in the stories database table<br>\n"

/-- a statement that succeeds: its row can be read, and an INSERT counts one row, so `updateResult != 1` does not occur -/
def succeed (db : Db) : Point → Outcome Db Point Output
  | .select nickname password story =>
    let (userId, table, out) := destination (db.findUser nickname password)
    ⟨db, some (.insert table { story with writer := userId }), [out]⟩
  | .insert .submissions story =>
    ⟨{ db with submissions := db.submissions.insert story }, none, [stored .submissions, .footer]⟩
  | .insert .stories story => ⟨{ db with stories := db.stories.insert story }, none, [stored .stories, .footer]⟩

/-- a statement that throws -/
def fail (db : Db) : Point → Outcome Db Point Output
  | .select _ _ _ => ⟨db, none, [.exception "ERROR: Authentification query failed" ""]⟩
  | .insert _ _ => ⟨db, none, [.exception "Failed to execute Query for StoreStory: " ""]⟩

def servlet : Program Db Request Point Output where
  start := start
  exec := fun db p ok => if ok then succeed db p else fail db p

end StoreStory

namespace StoryLinks

open StoryPages Urlencoded

/-! ## Model -/

/-- the servlets that write stories -/
def servlets : Program Db (StoreStory.Request ⊕ Submissions.Request) (StoreStory.Point ⊕ Submissions.Point)
    (Output ⊕ Submissions.Report) :=
  StoreStory.servlet.sum Submissions.servlets

/-- the statement inserts into the stories -/
def Publishes : StoreStory.Point ⊕ Submissions.Point → Bool
  | .inl (.insert .stories _) => true
  | .inr (.acceptInsert _ _) => true
  | _ => false

/-- an INSERT into the stories gets an id that no old story has, and that is an int -/
def FreshId (db : Db) (p : StoreStory.Point ⊕ Submissions.Point) (ok : Bool) : Prop :=
  Publishes p = true → ok = true → db.old_stories.get? db.stories.next = none ∧ db.stories.next < 2 ^ 31

instance (db : Db) (p : StoreStory.Point ⊕ Submissions.Point) (ok : Bool) : Decidable (FreshId db p ok) :=
  inferInstanceAs (Decidable (_ → _ → _))

/-- what `ViewStory` shows before the comments -/
inductive Shown where
  | noIdentifier
  | noStory
  | story (title body username date : Text) (comment_table : CommentTable)
deriving DecidableEq

/-- `SELECT … FROM table, users WHERE table.id=n AND table.writer=users.id` -/
def joined (db : Db) (t : StoryTable) (n : ℤ) : Option (Story × User) :=
  if 0 ≤ n then ((OlderStories.table db t).get? n.toNat).bind fun s => (db.users.get? s.writer).map (s, ·) else none

/-- `ViewStory.doGet`, up to the comments -/
def viewStory (db : Db) (request : Rubbos.Servlets.Request) : Except Exc Shown :=
  match request.getParameter "storyId".toList with
  | none => .ok .noIdentifier
  | some text => do
    let storyId ← parseInt text
    let _ ← StoryPages.intParameter request "filter" 0
    match joined db .stories storyId with
    | some (s, u) => return .story s.title s.body u.nickname s.date .comments
    | none =>
      match joined db .old_stories storyId with
      | some (s, u) => return .story s.title s.body u.nickname s.date .old_comments
      | none => return .noStory

/-- the request of a link to a story -/
def followStory (codec : Codec) (l : Line) : Rubbos.Servlets.Request where
  uri := "/rubbos/servlet/edu.rice.rubbos.servlets.ViewStory".toList
  getParameter := Urlencoded.getParameter codec (query [("storyId".toList, l.target)])

/-- the table of the comments on the stories of a table -/
def commentsOf : StoryTable → CommentTable
  | .stories => .comments
  | .old_stories => .old_comments

/-- the link is for a row of the table, and leads to it and to its comments -/
def Leads (codec : Codec) (db : Db) (t : StoryTable) (l : Line) : Prop :=
  ∃ e ∈ (OlderStories.table db t).rows, ∃ username, l.target = natText e.1 ∧ l.title = e.2.title ∧
    viewStory db (followStory codec l) = .ok (.story e.2.title e.2.body username e.2.date (commentsOf t))

/-! ## The pages with links -/

/-- the table that `OlderStories` takes its stories from, and their lines -/
def olderLines (execute : OlderStories.Statement → Except Unit (List StoryPages.Row)) (p : OlderStories.Params) :
    Option (StoryTable × List Line) :=
  match p.day, p.month, p.year with
  | some day, some month, some year =>
    match OlderStories.find execute p day month year with
    | .ok (t, rs) => if rs.first.1 then some (t, rs.first.2.whileNext.map StoryPages.Row.line) else none
    | .error _ => none
  | _, _, _ => none

/-- the table of stories that is searched -/
def sourceTable : Search.Source → Option StoryTable
  | .stories | .authors => some .stories
  | .old_stories | .old_authors => some .old_stories
  | .comments | .old_comments => none

def hitLine (h : Search.Hit) : Line := ⟨h.id, h.title, h.username, h.date⟩

/-- the table of the stories that are found, and their lines -/
def foundLines (found : Except Bool (Option (Search.Source × List Search.Hit))) : Option (StoryTable × List Line) :=
  match found with
  | .ok (some (source, hits)) => (sourceTable source).map (·, hits.map hitLine)
  | _ => none

/-- the table that `Search` takes its stories from, and their lines; there are none for comments -/
def searchLines (execute : Search.Statement → Except Unit (List Search.Hit)) (p : Search.Params) :
    Option (StoryTable × List Line) :=
  p.search.bind fun search =>
    if p.type = 0 then foundLines (Search.find execute p search .stories .old_stories)
    else if p.type = 2 then foundLines (Search.find execute p search .authors .old_authors)
    else none

/-- the answers are rows of the table that is asked, joined with their writers -/
def OlderAnswers (db : Db) (execute : OlderStories.Statement → Except Unit (List StoryPages.Row)) : Prop :=
  ∀ q rows, execute q = .ok rows → ∀ r ∈ rows, ∃ e ∈ (OlderStories.table db q.table).rows, OlderStories.rowOf db e = some r

def SearchAnswers (db : Db) (execute : Search.Statement → Except Unit (List Search.Hit)) : Prop :=
  ∀ q hits, execute q = .ok hits → ∀ t, sourceTable q.source = some t → ∀ h ∈ hits,
    ∃ e ∈ (OlderStories.table db t).rows, OlderStories.rowOf db e = some ⟨e.1, h.title, h.date, h.username⟩ ∧ h.id = natText e.1

/-- the lines of a page are those of its source, and every one leads to its story -/
def PageLeads (codec : Codec) (db : Db) (page : List Line) (source : Option (StoryTable × List Line)) : Prop :=
  page = (source.map Prod.snd).getD [] ∧ ∀ t ls, source = some (t, ls) → ∀ l ∈ ls, Leads codec db t l

/-- every link to a story leads to it -/
structure LinksLead (codec : Codec) (db : Db) : Prop where
  older : ∀ execute p, OlderAnswers db execute → PageLeads codec db (StoryPages.lines (OlderStories.page execute p)) (olderLines execute p)
  search : ∀ charset execute p, SearchAnswers db execute → p.type = 0 ∨ p.type = 2 →
    PageLeads codec db (StoryPages.lines (Search.page charset execute p)) (searchLines execute p)

/-! ## The lines of the pages -/

theorem lines_hits (hits : List Search.Hit) :
    StoryPages.lines (hits.map Search.storyLine) = hits.map hitLine := by
  rw [StoryPages.lines, List.filterMap_map]
  exact congrFun List.filterMap_eq_map' hits

theorem lines_older (execute : OlderStories.Statement → Except Unit (List StoryPages.Row)) (p : OlderStories.Params) :
    StoryPages.lines (OlderStories.page execute p) = ((olderLines execute p).map Prod.snd).getD [] := by
  unfold OlderStories.page olderLines
  rw [OlderStories.lines_head]
  obtain ⟨page, nbOfStories, _ | day, _ | month, _ | year⟩ := p
  iterate 7 rfl
  rw [StoryPages.lines_append]
  simp only [OlderStories.results, OlderStories.listed]
  cases OlderStories.find execute ⟨page, nbOfStories, some day, some month, some year⟩ day month year with
  | error e => rfl
  | ok found =>
    obtain ⟨t, rs⟩ := found
    simp only [bind, Except.bind, pure, Except.pure]
    cases rs.first.1 with
    | false =>
      simp only [Bool.false_eq_true, if_false, OlderStories.nothing]
      split <;> rfl
    | true =>
      simp only [if_true, StoryPages.lines_append, OlderStories.lines_rows, OlderStories.lines_pageLinks, List.append_nil]
      exact List.append_nil _

theorem lines_nothing (charset : Text → List UInt8) (p : Search.Params) (search : Text) {none more : List Printed}
    (hnone : StoryPages.lines none = []) (hmore : StoryPages.lines more = []) :
    StoryPages.lines (Search.nothing charset p search none more) = [] := by
  unfold Search.nothing
  rw [StoryPages.lines_append]
  split
  · rw [hnone]
    rfl
  · rw [StoryPages.lines_append, hmore]
    rfl

theorem lines_searchLinks (charset : Text → List UInt8) (p : Search.Params) (search : Text) :
    StoryPages.lines (Search.pageLinks charset p search) = [] := by
  unfold Search.pageLinks
  split <;> rfl

/-- the lines of the page with the hits -/
theorem lines_hits_page (charset : Text → List UInt8) (p : Search.Params) (search : Text) (hits : List Search.Hit) :
    StoryPages.lines (hits.map Search.storyLine ++ Search.pageLinks charset p search ++ [.footer]) =
      hits.map hitLine := by
  simp only [StoryPages.lines_append, lines_hits, lines_searchLinks, List.append_nil]
  exact List.append_nil _

/-- the hits are an answer from one of the two sources -/
theorem execute_of_find {execute : Search.Statement → Except Unit (List Search.Hit)} {p : Search.Params} {search : Text}
    {new old source : Search.Source} {hits : List Search.Hit}
    (h : Search.find execute p search new old = .ok (some (source, hits))) :
    (source = new ∨ source = old) ∧ ∃ q, q.source = source ∧ execute q = .ok hits := by
  simp only [Search.find, doWhileNext_first] at h
  cases hnew : execute ⟨new, search, p.nbOfStories, wrapInt (p.page * p.nbOfStories)⟩ with
  | error e => simp [hnew] at h
  | ok rows =>
    rw [hnew] at h
    cases hold : execute ⟨old, search, p.nbOfStories, wrapInt (p.page * p.nbOfStories)⟩ with
    | error e =>
      simp only [hold] at h
      split at h
      · obtain ⟨rfl, rfl⟩ := Prod.mk.inj (Option.some.inj (Except.ok.inj h))
        exact ⟨.inl rfl, _, rfl, hnew⟩
      · cases h
    | ok olds =>
      simp only [hold] at h
      split at h
      · obtain ⟨rfl, rfl⟩ := Prod.mk.inj (Option.some.inj (Except.ok.inj h))
        exact ⟨.inl rfl, _, rfl, hnew⟩
      · have h := Except.ok.inj h
        split at h
        · obtain ⟨rfl, rfl⟩ := Prod.mk.inj (Option.some.inj h)
          exact ⟨.inr rfl, _, rfl, hold⟩
        · cases h

theorem lines_form (p : Search.Params) : StoryPages.lines (Search.form p) = [] := by
  refine (lines_links_texts ?_).1
  intro x hx
  simp only [Search.form, List.mem_cons, List.not_mem_nil, or_false] at hx
  rcases hx with rfl | rfl | rfl | rfl | rfl | rfl | rfl <;> exact ⟨_, rfl⟩

/-- the sources of a search for stories are tables of stories -/
theorem foundLines_find {execute : Search.Statement → Except Unit (List Search.Hit)} {p : Search.Params} {search : Text}
    {new old : Search.Source} (hnew : (sourceTable new).isSome) (hold : (sourceTable old).isSome) :
    ((foundLines (Search.find execute p search new old)).map Prod.snd).getD [] =
      match Search.find execute p search new old with
      | .ok (some (_, hits)) => hits.map hitLine
      | _ => [] := by
  cases hfind : Search.find execute p search new old with
  | error b => rfl
  | ok found =>
    obtain _ | ⟨source, hits⟩ := found
    · rfl
    · have hsource : (sourceTable source).isSome := by
        rcases (execute_of_find hfind).1 with rfl | rfl
        · exact hnew
        · exact hold
      obtain ⟨t, ht⟩ := Option.isSome_iff_exists.1 hsource
      simp only [ht, foundLines, Option.map_some, Option.getD_some]

theorem lines_storyResults (charset : Text → List UInt8) (execute : Search.Statement → Except Unit (List Search.Hit))
    (p : Search.Params) (search : Text) :
    StoryPages.lines (Search.storyResults charset execute p search) =
      ((foundLines (Search.find execute p search .stories .old_stories)).map Prod.snd).getD [] := by
  rw [foundLines_find rfl rfl, Search.storyResults]
  rcases Search.find execute p search .stories .old_stories with (_ | _) | _ | ⟨-, hits⟩
  · rfl
  · rfl
  · exact lines_nothing charset p search rfl rfl
  · exact lines_hits_page charset p search hits

theorem lines_authorResults (charset : Text → List UInt8) (execute : Search.Statement → Except Unit (List Search.Hit))
    (p : Search.Params) (search : Text) :
    StoryPages.lines (Search.authorResults charset execute p search) =
      ((foundLines (Search.find execute p search .authors .old_authors)).map Prod.snd).getD [] := by
  rw [foundLines_find rfl rfl, Search.authorResults]
  rcases Search.find execute p search .authors .old_authors with _ | _ | ⟨-, hits⟩
  · rfl
  · exact lines_nothing charset p search rfl rfl
  · exact lines_hits_page charset p search hits

theorem lines_search (charset : Text → List UInt8) (execute : Search.Statement → Except Unit (List Search.Hit))
    (p : Search.Params) (htype : p.type = 0 ∨ p.type = 2) :
    StoryPages.lines (Search.page charset execute p) = ((searchLines execute p).map Prod.snd).getD [] := by
  have hhead : ∀ rest, StoryPages.lines (.header "RUBBoS search".toList :: Search.form p ++ rest) = StoryPages.lines rest := by
    intro rest
    have hheader : StoryPages.lines [Printed.header "RUBBoS search".toList] = [] := rfl
    rw [← List.singleton_append, StoryPages.lines_append, StoryPages.lines_append, hheader, lines_form, List.nil_append,
      List.nil_append]
  unfold Search.page searchLines
  rw [hhead]
  cases p.search with
  | none => rfl
  | some search =>
    rw [StoryPages.lines_append, Option.bind_some]
    rcases htype with htype | htype
    · simp only [Search.results, htype, if_true]
      rw [lines_storyResults]
      rfl
    · have h0 : ¬ p.type = 0 := by omega
      have h1 : ¬ p.type = 1 := by omega
      rw [Search.results, if_neg h0, if_neg h1, if_pos htype, lines_authorResults, if_neg h0, if_pos htype]
      rfl

/-! ## Where a link leads -/

/-- the ids of the two tables are apart, and every one is an int -/
structure Apart (db : Db) : Prop where
  disjoint : ∀ k, db.stories.get? k = none ∨ db.old_stories.get? k = none
  range : ∀ t, ∀ e ∈ (OlderStories.table db t).rows, e.1 < 2 ^ 31

/-- the parameters of a link -/
theorem getParameter_follow (codec : Codec) {l : Line} {k : ℕ} (hl : l.target = natText k) :
    (followStory codec l).getParameter "storyId".toList = some (natText k) ∧
      (followStory codec l).getParameter "filter".toList = none := by
  have hclean : Clean (natText k) := longText_natCast k ▸ clean_longText k
  have hnames : ∀ f ∈ [("storyId".toList, natText k)], Name f.1 := by
    rw [← List.forall_mem_map (f := Prod.fst)]
    exact (by decide : ∀ n ∈ ["storyId".toList], Name n)
  have hwhole : ∀ f ∈ [("storyId".toList, natText k)], Whole f.2 := List.forall_mem_singleton.2 hclean.1
  have hfilter : "filter".toList ∉ [("storyId".toList, natText k)].map Prod.fst := by
    rw [List.map_singleton, List.mem_singleton]
    exact (by decide : "filter".toList ≠ "storyId".toList)
  have hget := getParameter_of_clean codec hnames (List.nodup_singleton _) hwhole (List.mem_singleton_self _) hclean
  have hnone := getParameter_eq_none codec (List.cons_ne_nil _ _) hnames hwhole hfilter
  rw [← hl] at hget hnone ⊢
  exact ⟨hget, hnone⟩

/-- the page of a link -/
theorem viewStory_follow (codec : Codec) (db : Db) {l : Line} {k : ℕ} (hl : l.target = natText k) (hk : k < 2 ^ 31) :
    viewStory db (followStory codec l) =
      match joined db .stories k with
      | some (s, u) => .ok (.story s.title s.body u.nickname s.date .comments)
      | none =>
        match joined db .old_stories k with
        | some (s, u) => .ok (.story s.title s.body u.nickname s.date .old_comments)
        | none => .ok .noStory := by
  obtain ⟨hid, hfilter⟩ := getParameter_follow codec hl
  have hparse : parseInt (natText k) = .ok (k : ℤ) := by
    rw [← longText_natCast]
    exact Html.parseInt_longText (by omega)
  unfold viewStory StoryPages.intParameter
  rw [hid, hfilter]
  simp only [hparse, bind, Except.bind]
  rfl

theorem joined_of_row {db : Db} {t : StoryTable} {e : ℕ × Story} {u : User} (he : e ∈ (OlderStories.table db t).rows)
    (hu : db.users.get? e.2.writer = some u) : joined db t e.1 = some (e.2, u) := by
  have hget : (OlderStories.table db t).get? e.1 = some e.2 := Table.mem_rows.1 he
  rw [joined, if_pos (Int.natCast_nonneg _), Int.toNat_natCast, hget, Option.bind_some, hu]
  rfl

theorem joined_of_none {db : Db} {t : StoryTable} {k : ℕ} (h : (OlderStories.table db t).get? k = none) :
    joined db t k = none := by
  rw [joined, if_pos (Int.natCast_nonneg _), Int.toNat_natCast, h]
  rfl

/-- a row of the answer, and the link that is printed for it -/
theorem leads_of_row (codec : Codec) {db : Db} (h : Apart db) {t : StoryTable} {e : ℕ × Story} {r : StoryPages.Row}
    (he : e ∈ (OlderStories.table db t).rows) (hr : OlderStories.rowOf db e = some r) {l : Line}
    (htarget : l.target = natText e.1) (htitle : l.title = r.title) : Leads codec db t l := by
  obtain ⟨u, hu, rfl⟩ := Option.map_eq_some_iff.1 hr
  refine ⟨e, he, u.nickname, htarget, htitle, ?_⟩
  rw [viewStory_follow codec db htarget (h.range t e he)]
  cases t with
  | stories =>
    rw [joined_of_row he hu]
    rfl
  | old_stories =>
    have hnone : db.stories.get? e.1 = none := by
      refine (h.disjoint e.1).resolve_right ?_
      have hget : db.old_stories.get? e.1 = some e.2 := Table.mem_rows.1 he
      rw [hget]
      exact Option.some_ne_none _
    rw [joined_of_none (t := .stories) hnone, joined_of_row he hu]
    rfl

theorem rows_first (rs : ResultSet ρ) : rs.first.2.rows = rs.rows := by
  unfold ResultSet.first
  split <;> rfl

/-- the rows that are found are an answer for their table -/
theorem execute_of_olderFind {execute : OlderStories.Statement → Except Unit (List StoryPages.Row)} {p : OlderStories.Params}
    {day month year : Text} {t : StoryTable} {rs : ResultSet StoryPages.Row}
    (h : OlderStories.find execute p day month year = .ok (t, rs)) :
    execute (OlderStories.statement p day month year t) = .ok rs.rows := by
  unfold OlderStories.find at h
  cases hnew : execute (OlderStories.statement p day month year .stories) with
  | error e => simp [hnew, bind, Except.bind] at h
  | ok rows =>
    rw [hnew] at h
    simp only [bind, Except.bind, pure, Except.pure] at h
    split at h
    · obtain ⟨rfl, rfl⟩ := Prod.mk.inj (Except.ok.inj h)
      rw [rows_first]
      exact hnew
    · split at h
      · cases h
      · next old hold =>
        obtain ⟨rfl, rfl⟩ := Prod.mk.inj (Except.ok.inj h)
        exact hold

theorem execute_of_olderLines {execute : OlderStories.Statement → Except Unit (List StoryPages.Row)} {p : OlderStories.Params}
    {t : StoryTable} {ls : List Line} (h : olderLines execute p = some (t, ls)) :
    ∃ q rows, q.table = t ∧ execute q = .ok rows ∧ ∀ l ∈ ls, ∃ r ∈ rows, l = r.line := by
  unfold olderLines at h
  split at h
  · split at h
    · next day month year _ _ _ t' rs hfind =>
      split at h
      · obtain ⟨rfl, rfl⟩ := Prod.mk.inj (Option.some.inj h)
        refine ⟨_, rs.rows, rfl, execute_of_olderFind hfind, ?_⟩
        intro l hl
        obtain ⟨r, hr, rfl⟩ := List.mem_map.1 hl
        exact ⟨r, rows_first rs ▸ List.mem_of_mem_drop hr, rfl⟩
      · cases h
    · cases h
  · cases h

/-- a server answers so -/
theorem olderAnswers_server {db : Db} (server : OlderStories.Server db) : OlderAnswers db server.execute := by
  intro q rows hrows r hr
  unfold OlderStories.Server.execute at hrows
  split at hrows
  · cases hrows
  · obtain rfl := Except.ok.inj hrows
    have hmem : r ∈ OlderStories.selected db q := (server.perm q).mem_iff.1 (List.mem_of_mem_drop (List.mem_of_mem_take hr))
    obtain ⟨e, he, hrow⟩ := List.mem_filterMap.1 hmem
    exact ⟨e, List.mem_of_mem_filter he, hrow⟩

theorem execute_of_foundLines {execute : Search.Statement → Except Unit (List Search.Hit)} {p : Search.Params} {search : Text}
    {new old : Search.Source} {t : StoryTable} {ls : List Line}
    (h : foundLines (Search.find execute p search new old) = some (t, ls)) :
    ∃ q hits, sourceTable q.source = some t ∧ execute q = .ok hits ∧ ls = hits.map hitLine := by
  unfold foundLines at h
  split at h
  · next source hits hfind =>
    obtain ⟨-, q, rfl, hq⟩ := execute_of_find hfind
    obtain ⟨t', ht', he⟩ := Option.map_eq_some_iff.1 h
    obtain ⟨rfl, rfl⟩ := Prod.mk.inj he
    exact ⟨q, hits, ht', hq, rfl⟩
  · cases h

theorem execute_of_searchLines {execute : Search.Statement → Except Unit (List Search.Hit)} {p : Search.Params}
    {t : StoryTable} {ls : List Line} (h : searchLines execute p = some (t, ls)) :
    ∃ q hits, sourceTable q.source = some t ∧ execute q = .ok hits ∧ ls = hits.map hitLine := by
  unfold searchLines at h
  obtain ⟨search, -, h⟩ := Option.bind_eq_some_iff.1 h
  split at h
  · exact execute_of_foundLines h
  · split at h
    · exact execute_of_foundLines h
    · cases h

/-- **Every link leads to its story**, over tables whose ids are apart. -/
theorem leads_of_apart (codec : Codec) {db : Db} (h : Apart db) : LinksLead codec db where
  older := by
    intro execute p hanswers
    refine ⟨lines_older execute p, ?_⟩
    intro t ls hls l hl
    obtain ⟨q, rows, rfl, hrows, hlines⟩ := execute_of_olderLines hls
    obtain ⟨r, hr, rfl⟩ := hlines l hl
    obtain ⟨e, he, hrow⟩ := hanswers q rows hrows r hr
    obtain ⟨u, -, hu⟩ := Option.map_eq_some_iff.1 hrow
    exact leads_of_row codec h he hrow (by rw [← hu]; rfl) rfl
  search := by
    intro charset execute p hanswers htype
    refine ⟨lines_search charset execute p htype, ?_⟩
    intro t ls hls l hl
    obtain ⟨q, hits, hsource, hhits, rfl⟩ := execute_of_searchLines hls
    obtain ⟨hit, hhit, rfl⟩ := List.mem_map.1 hl
    obtain ⟨e, he, hrow, hid⟩ := hanswers q hits hhits t hsource hit hhit
    exact leads_of_row codec h he hrow hid rfl

/-! ## Runs -/

/-- a new story under a fresh id -/
theorem apart_insert {db : Db} (h : Apart db) (hold : db.old_stories.get? db.stories.next = none)
    (hint : db.stories.next < 2 ^ 31) (s : Story) : Apart { db with stories := db.stories.insert s } where
  disjoint := by
    intro k
    simp only [Table.get?_insert]
    split
    · next hk => exact .inr (hk ▸ hold)
    · exact h.disjoint k
  range := by
    intro t e he
    cases t with
    | stories =>
      rcases List.mem_append.1 he with he | he
      · exact h.range .stories e he
      · rw [List.mem_singleton.1 he]
        exact hint
    | old_stories => exact h.range .old_stories e he

/-- a statement that leaves the stories alone -/
theorem apart_congr {db db' : Db} (h : Apart db) (hnew : db'.stories = db.stories) (hold : db'.old_stories = db.old_stories) :
    Apart db' where
  disjoint := by
    rw [hnew, hold]
    exact h.disjoint
  range := by
    intro t
    cases t with
    | stories =>
      simp only [OlderStories.table, hnew]
      exact h.range .stories
    | old_stories =>
      simp only [OlderStories.table, hold]
      exact h.range .old_stories

/-- only the statements that publish change the tables of stories -/
theorem stories_of_not_publishes (db : Db) {p : StoreStory.Point ⊕ Submissions.Point} {ok : Bool}
    (h : Publishes p = false ∨ ok = false) :
    (servlets.exec db p ok).db.stories = db.stories ∧ (servlets.exec db p ok).db.old_stories = db.old_stories := by
  obtain p | p := p
  · cases ok with
    | false => cases p <;> exact ⟨rfl, rfl⟩
    | true =>
      match p with
      | .select _ _ _ => exact ⟨rfl, rfl⟩
      | .insert .submissions _ => exact ⟨rfl, rfl⟩
      | .insert .stories _ => simp [Publishes] at h
  · cases ok with
    | false => cases p <;> exact ⟨rfl, rfl⟩
    | true =>
      match p with
      | .acceptSelect n =>
        simp only [servlets, Program.sum, Outcome.map, Submissions.servlets, Submissions.succeed, if_true]
        split <;> exact ⟨rfl, rfl⟩
      | .acceptInsert _ _ => simp [Publishes] at h
      | .acceptDelete _ => exact ⟨rfl, rfl⟩
      | .rejectSelect k =>
        simp only [servlets, Program.sum, Outcome.map, Submissions.servlets, Submissions.succeed, if_true]
        split <;> exact ⟨rfl, rfl⟩
      | .rejectDelete _ => exact ⟨rfl, rfl⟩

/-- a statement that publishes inserts one story -/
theorem stories_of_publishes (db : Db) {p : StoreStory.Point ⊕ Submissions.Point} (h : Publishes p = true) :
    ∃ s, (servlets.exec db p true).db = { db with stories := db.stories.insert s } := by
  match p with
  | .inl (.insert .stories s) => exact ⟨s, rfl⟩
  | .inr (.acceptInsert _ s) => exact ⟨s, rfl⟩

theorem apart_exec (db : Db) (p : StoreStory.Point ⊕ Submissions.Point) (ok : Bool) (h : Apart db) (hfresh : FreshId db p ok) :
    Apart (servlets.exec db p ok).db := by
  by_cases hp : Publishes p = true ∧ ok = true
  · obtain ⟨hpublishes, rfl⟩ := hp
    obtain ⟨s, hs⟩ := stories_of_publishes db hpublishes
    obtain ⟨hold, hint⟩ := hfresh hpublishes rfl
    rw [hs]
    exact apart_insert h hold hint s
  · have hquiet : Publishes p = false ∨ ok = false := by
      rw [not_and_or, Bool.not_eq_true, Bool.not_eq_true] at hp
      exact hp
    obtain ⟨hnew, hold⟩ := stories_of_not_publishes db hquiet
    exact apart_congr h hnew hold

/-- **Links to stories.** As long as every story is inserted under an int that no old story has, every link that
`OlderStories` or `Search` prints leads to its row and to the comments on it, in every state that any interleaving of requests
reaches. -/
theorem story_links_lead (codec : Codec) (db : Db) (hdb : Apart db)
    (es : List (Interleaving.Event (StoreStory.Request ⊕ Submissions.Request)))
    (hfresh : Along (step servlets) (OnStatement FreshId) (idle db) es) :
    LinksLead codec (Rubbos.Core.after (step servlets) (idle db) es).db :=
  leads_of_apart codec (database_invariant Apart FreshId apart_exec (idle db) es hdb hfresh)

/-! ## Two stories -/

def author : User := ⟨"author".toList, "secret".toList, 0, 1⟩

def oldStory : Story := ⟨"Old news".toList, "It was so.".toList, "2003-01-01 10:00:00".toList, 1, 1⟩

/-- an author, an old story under the given id, and no other story -/
def archive (k : ℕ) : Db where
  users := Table.empty.insert author
  comments := .empty
  old_comments := .empty
  stories := .empty
  old_stories := ⟨[(k, oldStory)], k + 1, Nat.succ_pos k, List.nodup_singleton k, by simp⟩
  submissions := .empty
  moderator_log := .empty

theorem apart_archive {k : ℕ} (hk : k < 2 ^ 31) : Apart (archive k) where
  disjoint := fun _ => .inl rfl
  range := by
    intro t e he
    cases t with
    | stories => cases he
    | old_stories =>
      rw [List.mem_singleton.1 he]
      exact hk

/-- the author stores a story -/
def storing : List (Interleaving.Event (StoreStory.Request ⊕ Submissions.Request)) :=
  [.request (.inl ⟨some author.nickname, some author.password, some "New story".toList, some "It is so.".toList, some 1,
    "2003-06-01 10:00:00".toList⟩), .statement 0 true, .statement 0 true]

/-- the new story gets the id 1, the old one has 2 -/
theorem links_lead_apart :
    LinksLead Urlencoded.utf8 (Rubbos.Core.after (step servlets) (idle (archive 2)) storing).db :=
  story_links_lead _ (archive 2) (apart_archive (by decide)) storing (by decide)

def oldHit : Search.Hit := ⟨natText 1, [], oldStory.title, author.nickname, oldStory.date⟩

/-- the answers to a search for the old story -/
def oldAnswer (q : Search.Statement) : Except Unit (List Search.Hit) :=
  .ok (if q.source = .old_stories then [oldHit] else [])

/-- **A new story hides an old one.** The author's story gets the id that the old one has, and the link of a search for the
old one leads to the new one. -/
theorem new_story_hides_old :
    Apart (archive 1) ∧ ¬ LinksLead Urlencoded.utf8 (Rubbos.Core.after (step servlets) (idle (archive 1)) storing).db := by
  refine ⟨apart_archive (by decide), ?_⟩
  intro h
  have hanswers : SearchAnswers (Rubbos.Core.after (step servlets) (idle (archive 1)) storing).db oldAnswer := by
    intro q hits hq t ht hit hhit
    obtain rfl := Except.ok.inj hq
    split at hhit
    · next hsource =>
      rw [hsource] at ht
      obtain rfl := Option.some.inj ht
      rw [List.mem_singleton.1 hhit]
      exact ⟨(1, oldStory), List.mem_singleton_self _, rfl, rfl⟩
    · cases hhit
  obtain ⟨-, hleads⟩ := h.search Urlencoded.utf8.bytes oldAnswer ⟨0, 0, 25, some "Old".toList⟩ hanswers (.inl rfl)
  obtain ⟨e, he, username, -, -, hview⟩ := hleads .old_stories [hitLine oldHit] rfl (hitLine oldHit) (List.mem_singleton_self _)
  rw [viewStory_follow (k := 1) _ _ rfl (by decide)] at hview
  obtain ⟨-, -, -, -, htable⟩ := Shown.story.inj (Except.ok.inj hview)
  cases htable

end StoryLinks

end Rubbos.Servlets
