/-
Fetching and displaying comments (`Comment.java`), over tables of comments.

`fetchComments` asks for the comments below a parent, and `fetchLowerLevels` for one level after the other, with one more
table in the join each time, until no comment of a level has a counter above 0. The database answers a query with the rows of
the join in any order, or the query throws: the join of level n has n + 2 tables, and a server may join no more than so many.
The comments go into a map by their parent, and `displayComments` walks through the map, again as far as the counters go.
What it prints is a list of separators and comments, every comment with its level, by which it is indented.

Premises: ids, parents and counters are numbers that an int holds.

- `displayComments_entries`: for a map whose counters are right and whose parents come first, the display is the preorder of
  the forest of the map, less the comments below the filter.
- `level_eq_answer`: the levels for which a page logs its calls are these answers.
- `comments_on_page`: the pages of ViewStory and ViewComment, from the rows of the queries to the text, have the comments of
  the display, or the line of the exception.
-/
import Rubbos.Core.Forest
import Rubbos.Servlets.Tables
import Rubbos.Servlets.CommentPages
import Rubbos.Servlets.LoggedCalls

namespace Rubbos.Servlets.CommentFetch

open Rubbos.Core Tables

/-! ## The answers of the database -/

/-- a row of the answer to a query for comments -/
structure Row where
  id : ℕ
  parent : ℕ
  childs : ℕ
  rating : ℤ
  date : Text
  subject : Text
  comment : Text
  nickname : Text
deriving DecidableEq

/-- the columns of a comment, joined with its writer -/
def rowOf (db : Db) (e : ℕ × Tables.Comment) : Option Row :=
  (db.users.get? e.2.writer).map fun u =>
    ⟨e.1, e.2.parent, e.2.childs, e.2.rating, e.2.date, e.2.subject, e.2.comment, u.nickname⟩

/-- what is asked for: `parent` is called cid in `fetchLowerLevels` -/
structure Query where
  table : CommentTable
  storyId : ℕ
  commentId : ℕ
  parent : ℕ

/-- the comments tn of the join t0, …, tn -/
def joined (db : Db) (q : Query) : ℕ → List (ℕ × Tables.Comment)
  | 0 => (db.get q.table).rows.filter fun e => e.2.parent = q.parent ∧ (q.commentId ≠ 0 → e.1 = q.commentId)
  | n + 1 => (joined db q n).flatMap fun e => (db.get q.table).rows.filter fun e' => e'.2.parent = e.1

/-- the rows of the query of level n; only the last comment of the join must be one of the story -/
def answer (db : Db) (q : Query) (n : ℕ) : List Row :=
  ((joined db q n).filter fun e => e.2.story_id = q.storyId).filterMap (rowOf db)

section Levels

variable (db : Db) (q : Query)

/-- a comment, by the columns that `LoggedCalls` compares -/
def compared (e : ℕ × Tables.Comment) : Servlets.Comment := ⟨e.1, e.2.parent, e.2.childs, e.2.story_id, e.2.writer⟩

/-- the table that is asked, and the users, for `LoggedCalls` -/
def comparedTable : List Servlets.Comment := (db.get q.table).rows.map compared

def comparedUsers : List ℤ := db.users.rows.map fun e => (e.1 : ℤ)

variable {db q}

theorem filter_compared (p : ℕ × Tables.Comment → Bool) (p' : Servlets.Comment → Bool) (h : ∀ e, p' (compared e) = p e) :
    (comparedTable db q).filter p' = ((db.get q.table).rows.filter p).map compared := by
  rw [comparedTable, List.filter_map]
  exact congrArg (List.map compared) (List.filter_congr fun e _ => h e)

/-- the joins below the story -/
theorem below_eq_joined (hcomment : q.commentId = 0) (hparent : q.parent = 0) (n : ℕ) :
    below (comparedTable db q) n = (joined db q n).map compared := by
  induction n with
  | zero =>
    refine filter_compared _ _ fun e => decide_eq_decide.2 ?_
    simp [compared, hcomment, hparent]
  | succ n ih =>
    have hreplies : ∀ e : ℕ × Tables.Comment, (comparedTable db q).filter (fun u => u.parent = (compared e).id) =
        ((db.get q.table).rows.filter fun e' => e'.2.parent = e.1).map compared :=
      fun e => filter_compared _ _ fun e' => decide_eq_decide.2 Nat.cast_inj
    rw [below, joined, ih, List.flatMap_map, List.map_flatMap]
    exact congrArg (List.flatMap · (joined db q n)) (funext hreplies)

theorem mem_comparedUsers {k : ℕ} : (k : ℤ) ∈ comparedUsers db ↔ (db.users.get? k).isSome := by
  simp only [comparedUsers, List.mem_map, Option.isSome_iff_exists]
  constructor
  · rintro ⟨e, he, hk⟩
    obtain rfl : e.1 = k := Nat.cast_inj.1 hk
    exact ⟨e.2, Table.mem_rows.1 he⟩
  · rintro ⟨u, hu⟩
    exact ⟨(k, u), Table.mem_rows.2 hu, rfl⟩

/-- **The levels of the logged calls** are the answers to the queries for the comments of a story. -/
theorem level_eq_answer (hcomment : q.commentId = 0) (hparent : q.parent = 0) (n : ℕ) :
    (level (comparedTable db q) (comparedUsers db) q.storyId n).map (fun t => (t.id, t.childs)) =
      (answer db q n).map fun r => ((r.id : ℤ), (r.childs : ℤ)) := by
  rw [level, below_eq_joined hcomment hparent, answer]
  induction joined db q n with
  | nil => rfl
  | cons e es ih =>
    rw [List.map_cons, List.filter_cons, List.filter_cons]
    by_cases hstory : e.2.story_id = q.storyId
    · rw [if_pos (decide_eq_true hstory)]
      cases hwriter : db.users.get? e.2.writer with
      | none =>
        have hno : ¬((compared e).story_id = q.storyId ∧ (compared e).writer ∈ comparedUsers db) := by
          rintro ⟨-, hmem⟩
          have := mem_comparedUsers.1 hmem
          rw [hwriter] at this
          cases this
        rw [if_neg (by simpa using hno), ih, List.filterMap_cons_none (by rw [rowOf, hwriter]; rfl)]
      | some u =>
        have hyes : (compared e).story_id = q.storyId ∧ (compared e).writer ∈ comparedUsers db :=
          ⟨Nat.cast_inj.2 hstory, mem_comparedUsers.2 (by rw [hwriter]; rfl)⟩
        rw [if_pos (decide_eq_true hyes), List.map_cons, ih, List.filterMap_cons_some (by rw [rowOf, hwriter]; rfl)]
        rfl
    · have hno : ¬((compared e).story_id = q.storyId ∧ (compared e).writer ∈ comparedUsers db) :=
        fun h => hstory (Nat.cast_inj.1 h.1)
      rw [if_neg (by simpa using hno), if_neg (by simpa using hstory), ih]

/-- the page of a story fits into the arrays when the query of level 18 has no rows -/
theorem shallow_iff_answer (hcomment : q.commentId = 0) (hparent : q.parent = 0)
    (h : WellKept (comparedTable db q) (comparedUsers db)) (call : Parsers.TomcatLogs.DBCall) (request : Request) :
    Shallow .ViewStory request (storyAnswers (comparedTable db q) (comparedUsers db) q.storyId call) ↔ answer db q 18 = [] := by
  rw [shallow_iff_depth call h, ← List.map_eq_nil_iff, level_eq_answer hcomment hparent, List.map_eq_nil_iff]

end Levels

/-! ## Fetching -/

/-- a comment of a lower level: the text is left out of a preview -/
def lower (display : ℤ) (r : Row) : Row := if display = 1 then { r with comment := [] } else r

/-- how it fails: a query throws, or there is no end to the levels -/
inductive Failure where
  | exception
  | endless
deriving DecidableEq

/-- `fetchLowerLevels` from a level on, for so many levels; ans are the answers of the database, none where a query throws -/
def fetchLowerLevels (display : ℤ) (ans : ℕ → Option (List Row)) : (fuel : ℕ) → (level : ℕ) → Except Failure (List Row)
  | 0, _ => .error .endless
  | fuel + 1, level =>
    match ans level with
    | none => .error .exception
    | some follow =>
      if follow.any (0 < ·.childs) then
        (fetchLowerLevels display ans fuel (level + 1)).map (follow.map (lower display) ++ ·)
      else .ok (follow.map (lower display))

/-- `fetchComments`: the comments of the map, in the order in which they are added -/
def fetchComments (display : ℤ) (ans : ℕ → Option (List Row)) (fuel : ℕ) : Except Failure (List Row) :=
  match ans 0 with
  | none => .error .exception
  | some rs =>
    if rs.any (0 < ·.childs) then (fetchLowerLevels display ans fuel 1).map (rs ++ ·) else .ok rs

/-! ## Displaying -/

/-- what the display reads of a comment -/
structure Columns (ρ κ : Type) where
  id : ρ → κ
  parent : ρ → κ
  hasChilds : ρ → Bool
  rating : ρ → ℤ

/-- what is printed -/
inductive Shown (ρ : Type) where
  | separator
  | comment (level : ℕ) (c : ρ)
deriving DecidableEq

/-- what is printed, with other comments -/
def Shown.map {ρ ρ' : Type} (f : ρ → ρ') : Shown ρ → Shown ρ'
  | .separator => .separator
  | .comment level c => .comment level (f c)

section Display

variable {ρ κ : Type} [DecidableEq κ] (cols : Columns ρ κ) (map : List ρ) (filter display : ℤ)

/-- `map.get(new Integer(cid))` -/
def children (cid : κ) : List ρ := map.filter fun c => cols.parent c = cid

/-- the loop of `displayLowerLevelComments`; `below` is the call for the next level -/
def lowerLoop (below : κ → Bool → Option (List (Shown ρ))) (level : ℕ) :
    List ρ → (separator : Bool) → Option (List (Shown ρ))
  | [], _ => some []
  | c :: al, separator => do
    let shown := filter ≤ cols.rating c
    let here := if shown then (if separator then [] else [.separator]) ++ [.comment level c] else []
    let lower ← (if cols.hasChilds c then below (cols.id c) (separator || shown) else some [] : Option (List (Shown ρ)))
    let rest ← lowerLoop below level al (separator || shown)
    return here ++ lower ++ rest

/-- `displayLowerLevelComments`, for a number of levels -/
def displayLowerLevelComments : (fuel : ℕ) → (cid : κ) → (level : ℕ) → (separator : Bool) → Option (List (Shown ρ))
  | 0, _, _, _ => none
  | fuel + 1, cid, level, separator =>
    lowerLoop cols filter (fun id => displayLowerLevelComments fuel id (level + 1)) level (children cols map cid) separator

/-- the loop of `displayComments` -/
def topLoop (fuel : ℕ) : List ρ → Option (List (Shown ρ))
  | [] => some []
  | c :: al => do
    let shown := filter ≤ cols.rating c
    let here := if shown then [.separator, .comment 0 c] else []
    let lower ← (if 0 < display ∧ cols.hasChilds c
      then displayLowerLevelComments cols map filter fuel (cols.id c) 1 shown else some [] : Option (List (Shown ρ)))
    let rest ← topLoop fuel al
    return here ++ lower ++ rest

def displayComments (fuel : ℕ) (cid : κ) : Option (List (Shown ρ)) :=
  topLoop cols map filter display fuel (children cols map cid)

end Display

def columns : Columns Row ℕ where
  id := Row.id
  parent := Row.parent
  hasChilds := fun r => 0 < r.childs
  rating := Row.rating

/-- `fetchAndDisplay` -/
def fetchAndDisplay (filter display : ℤ) (ans : ℕ → Option (List Row)) (parent : ℕ) (fuel : ℕ) :
    Except Failure (List (Shown Row)) :=
  (fetchComments display ans fuel).bind fun map =>
    match displayComments columns map filter display fuel parent with
    | none => .error .endless
    | some shown => .ok shown

/-! ## The display is a preorder -/

/-- the comments that are printed, with their levels -/
def entries {ρ : Type} (shown : List (Shown ρ)) : List (ρ × ℕ) :=
  shown.filterMap fun
    | .separator => none
    | .comment level c => some (c, level)

section Preorder

variable {ρ κ : Type} [DecidableEq κ] {cols : Columns ρ κ} {map : List ρ} {filter display : ℤ}

theorem entries_append (as bs : List (Shown ρ)) : entries (as ++ bs) = entries as ++ entries bs := List.filterMap_append

/-- the entries of a comment itself -/
theorem entries_here (level : ℕ) (c : ρ) (p : Prop) [Decidable p] (sep : List (Shown ρ)) (hsep : entries sep = []) :
    entries (if p then sep ++ [.comment level c] else []) = if p then [(c, level)] else [] := by
  split
  · rw [entries_append, hsep]
    rfl
  · rfl

/-- the preorder of the comments that pass the filter -/
def visible (cols : Columns ρ κ) (filter : ℤ) (es : List (ρ × ℕ)) : List (ρ × ℕ) := es.filter fun x => filter ≤ cols.rating x.1

omit [DecidableEq κ] in
theorem lowerLoop_entries {below : κ → Bool → Option (List (Shown ρ))} {g : ρ → Forest ρ} {level : ℕ} (al : List ρ)
    (hbelow : ∀ c ∈ al, cols.hasChilds c → ∀ sep, ∃ shown, below (cols.id c) sep = some shown ∧
      entries shown = visible cols filter ((g c).preorder (level + 1)))
    (hleaf : ∀ c ∈ al, ¬ cols.hasChilds c → g c = .nil) (sep : Bool) :
    ∃ shown, lowerLoop cols filter below level al sep = some shown ∧
      entries shown = visible cols filter ((Forest.growList g al).preorder level) := by
  induction al generalizing sep with
  | nil => exact ⟨[], rfl, rfl⟩
  | cons c al ih =>
    obtain ⟨rest, hrest, erest⟩ := ih (fun d hd => hbelow d (List.mem_cons_of_mem _ hd))
      (fun d hd => hleaf d (List.mem_cons_of_mem _ hd)) (sep || decide (filter ≤ cols.rating c))
    have hlower : ∃ shown, (if cols.hasChilds c then below (cols.id c) (sep || decide (filter ≤ cols.rating c)) else some []) =
        some shown ∧ entries shown = visible cols filter ((g c).preorder (level + 1)) := by
      by_cases hc : cols.hasChilds c
      · rw [if_pos hc]
        exact hbelow c List.mem_cons_self hc _
      · rw [if_neg hc, hleaf c List.mem_cons_self hc]
        exact ⟨[], rfl, rfl⟩
    obtain ⟨low, hlow, elow⟩ := hlower
    refine ⟨_, by simp only [lowerLoop, hlow, hrest, Option.bind_eq_bind, Option.bind_some, Option.pure_def]; rfl, ?_⟩
    rw [entries_append, entries_append, elow, erest]
    rw [entries_here level c _ _ (by cases sep <;> rfl)]
    simp only [Forest.growList, Forest.preorder, visible, List.cons_append, List.filter_cons, List.filter_append]
    split <;> simp_all

/-- a map in which the counters are right: a comment without childs has no replies -/
def LeavesCounted (cols : Columns ρ κ) (map : List ρ) : Prop :=
  ∀ c ∈ map, ¬ cols.hasChilds c → children cols map (cols.id c) = []

/-- the comments below one, in the order of the map -/
def branch (cols : Columns ρ κ) (map : List ρ) (c : ρ) : List ρ := children cols map (cols.id c)

theorem displayLowerLevelComments_entries (f : ρ → ℕ) (hf : ∀ c, ∀ b ∈ branch cols map c, f b < f c)
    (hleaf : LeavesCounted cols map) (n : ℕ) (cid : κ) (h : ∀ c ∈ children cols map cid, f c < n) (level : ℕ) (sep : Bool) :
    ∃ shown, displayLowerLevelComments cols map filter (n + 1) cid level sep = some shown ∧
      entries shown = visible cols filter ((Forest.grow (branch cols map) n (children cols map cid)).preorder level) := by
  induction n generalizing cid level sep with
  | zero =>
    have hnil : children cols map cid = [] := List.eq_nil_iff_forall_not_mem.2 fun c hc => Nat.not_lt_zero _ (h c hc)
    exact ⟨[], by rw [displayLowerLevelComments, hnil]; rfl, by rw [hnil]; rfl⟩
  | succ n ih =>
    apply lowerLoop_entries
    · intro c hc _ sep
      apply ih
      intro b hb
      have h1 := hf c b hb
      have h2 := h c hc
      omega
    · intro c hc hno
      rw [branch, hleaf c (List.mem_of_mem_filter hc) hno]
      cases n <;> rfl

theorem topLoop_entries (f : ρ → ℕ) (hf : ∀ c, ∀ b ∈ branch cols map c, f b < f c) (hleaf : LeavesCounted cols map)
    (hdisplay : 0 < display) (n : ℕ) (al : List ρ) (hmap : al ⊆ map) (hal : ∀ c ∈ al, f c < n + 1) :
    ∃ shown, topLoop cols map filter display (n + 1) al = some shown ∧
      entries shown = visible cols filter
        ((Forest.growList (fun c => Forest.grow (branch cols map) n (branch cols map c)) al).preorder 0) := by
  induction al with
  | nil => exact ⟨[], rfl, rfl⟩
  | cons c al ih =>
    obtain ⟨rest, hrest, erest⟩ := ih (fun d hd => hmap (List.mem_cons_of_mem _ hd))
      (fun d hd => hal d (List.mem_cons_of_mem _ hd))
    have hlower : ∃ shown, (if 0 < display ∧ cols.hasChilds c
        then displayLowerLevelComments cols map filter (n + 1) (cols.id c) 1 (decide (filter ≤ cols.rating c)) else some []) =
        some shown ∧ entries shown = visible cols filter ((Forest.grow (branch cols map) n (branch cols map c)).preorder 1) := by
      by_cases hc : cols.hasChilds c
      · rw [if_pos ⟨hdisplay, hc⟩]
        apply displayLowerLevelComments_entries f hf hleaf
        intro b hb
        have h1 := hf c b hb
        have h2 := hal c List.mem_cons_self
        omega
      · rw [if_neg (fun h => hc h.2), branch, hleaf c (hmap List.mem_cons_self) hc]
        exact ⟨[], rfl, by cases n <;> rfl⟩
    obtain ⟨low, hlow, elow⟩ := hlower
    refine ⟨_, by simp only [topLoop, hlow, hrest, Option.bind_eq_bind, Option.bind_some, Option.pure_def]; rfl, ?_⟩
    rw [entries_append, entries_append, elow, erest]
    have hhere := entries_here 0 c (filter ≤ cols.rating c) [.separator] rfl
    rw [List.singleton_append] at hhere
    rw [hhere]
    simp only [Forest.growList, Forest.preorder, visible, List.cons_append, List.filter_cons, List.filter_append]
    split <;> simp_all

/-- **The display is a preorder.** For a map whose counters are right and in which the replies to a comment are smaller by
some measure, what is printed below cid is the preorder of the forest of the map, less the comments below the filter. -/
theorem displayComments_entries (filter : ℤ) (f : ρ → ℕ) (hf : ∀ c, ∀ b ∈ branch cols map c, f b < f c)
    (hleaf : LeavesCounted cols map) (hdisplay : 0 < display) (n : ℕ) (cid : κ) (h : ∀ c ∈ children cols map cid, f c < n + 1) :
    ∃ shown, displayComments cols map filter display (n + 1) cid = some shown ∧
      entries shown = visible cols filter ((Forest.grow (branch cols map) (n + 1) (children cols map cid)).preorder 0) :=
  topLoop_entries f hf hleaf hdisplay n _ (List.filter_subset_self _) h

end Preorder

/-! ## The pages -/

section Pages

open Html

variable (map : List CommentPages.Comment) (filter display : JInt) (commentTable : Html.TableName)

def pageColumns : Columns CommentPages.Comment JInt where
  id := fun c => c.id
  parent := fun c => c.parent
  hasChilds := fun c => 0 < c.childs
  rating := fun c => c.rating

/-- the text of what is printed: at the top a table, below it a line or a table with one indentation for each level -/
def docOf : Shown CommentPages.Comment → Doc
  | .separator => [CommentPages.rule]
  | .comment 0 c => (CommentPages.topTable filter display commentTable c).tail
  | .comment (level + 1) c =>
    if display.value = 1 then CommentPages.nestedLine filter display commentTable (level + 1) c
    else CommentPages.lowerTable filter display commentTable (level + 1) c

@[simp] theorem pageColumns_rating (c : CommentPages.Comment) : pageColumns.rating c = c.rating := rfl

@[simp] theorem pageColumns_id (c : CommentPages.Comment) : pageColumns.id c = c.id := rfl

@[simp] theorem pageColumns_hasChilds (c : CommentPages.Comment) : pageColumns.hasChilds c = decide (0 < c.childs) := rfl

theorem lowerLoop_pages {below : JInt → Bool → Option (List (Shown CommentPages.Comment))} {level : ℕ}
    (al : List CommentPages.Comment) (sep : Bool) :
    CommentPages.lowerLoop filter display commentTable
      (fun id sep => (below id sep).map (·.flatMap (docOf filter display commentTable))) (level + 1) al sep =
    (lowerLoop pageColumns filter.value below (level + 1) al sep).map (·.flatMap (docOf filter display commentTable)) := by
  induction al generalizing sep with
  | nil => rfl
  | cons c al ih =>
    simp only [CommentPages.lowerLoop, lowerLoop, ih, Option.bind_eq_bind, Option.pure_def, pageColumns_rating,
      pageColumns_id, pageColumns_hasChilds, decide_eq_true_eq]
    by_cases hshown : filter.value ≤ c.rating
    · simp only [hshown, decide_true, Bool.or_true, if_true]
      cases lowerLoop pageColumns filter.value below (level + 1) al true with
      | none => split <;> cases below c.id true <;> simp
      | some rest =>
        cases below c.id true with
        | none => split <;> cases sep <;> simp [docOf, CommentPages.rule]
        | some low => split <;> cases sep <;> simp [docOf, CommentPages.rule]
    · simp only [hshown, decide_false, Bool.or_false, if_false]
      cases lowerLoop pageColumns filter.value below (level + 1) al sep with
      | none => split <;> cases below c.id sep <;> simp
      | some rest =>
        cases below c.id sep with
        | none => split <;> simp
        | some low => split <;> simp

theorem displayLowerLevelComments_pages (fuel : ℕ) (cid : JInt) (level : ℕ) (sep : Bool) :
    CommentPages.displayLowerLevelComments map filter display commentTable fuel cid (level + 1) sep =
      (displayLowerLevelComments pageColumns map filter.value fuel cid (level + 1) sep).map
        (·.flatMap (docOf filter display commentTable)) := by
  induction fuel generalizing cid level sep with
  | zero => rfl
  | succ fuel ih =>
    have hbelow : (fun id => CommentPages.displayLowerLevelComments map filter display commentTable fuel id (level + 1 + 1)) =
        fun id sep => (displayLowerLevelComments pageColumns map filter.value fuel id (level + 1 + 1) sep).map
          (·.flatMap (docOf filter display commentTable)) := by
      funext id sep
      exact ih id (level + 1) sep
    rw [CommentPages.displayLowerLevelComments, displayLowerLevelComments, ← lowerLoop_pages, hbelow]
    rfl

theorem topLoop_pages (fuel : ℕ) (al : List CommentPages.Comment) :
    CommentPages.topLoop map filter display commentTable fuel al =
      (topLoop pageColumns map filter.value display.value fuel al).map (·.flatMap (docOf filter display commentTable)) := by
  induction al with
  | nil => rfl
  | cons c al ih =>
    have htop : CommentPages.topTable filter display commentTable c =
        html "<br><hr><br>\n" :: (CommentPages.topTable filter display commentTable c).tail := rfl
    simp only [CommentPages.topLoop, topLoop, ih, displayLowerLevelComments_pages map filter display commentTable fuel c.id 0,
      Option.bind_eq_bind, Option.pure_def, pageColumns_rating, pageColumns_id, pageColumns_hasChilds, decide_eq_true_eq,
      zero_add]
    by_cases hshown : filter.value ≤ c.rating
    · simp only [hshown, decide_true, if_true]
      rw [htop]
      cases topLoop pageColumns map filter.value display.value fuel al with
      | none => split <;> cases displayLowerLevelComments pageColumns map filter.value fuel c.id 1 true <;> simp
      | some rest =>
        cases displayLowerLevelComments pageColumns map filter.value fuel c.id 1 true with
        | none => split <;> simp [docOf, CommentPages.rule]
        | some low => split <;> simp [docOf, CommentPages.rule]
    · simp only [hshown, decide_false, if_false]
      cases topLoop pageColumns map filter.value display.value fuel al with
      | none => split <;> cases displayLowerLevelComments pageColumns map filter.value fuel c.id 1 false <;> simp
      | some rest =>
        cases displayLowerLevelComments pageColumns map filter.value fuel c.id 1 false with
        | none => split <;> simp
        | some low => split <;> simp

/-- the display of a page is the text of what is printed here -/
theorem displayComments_pages (fuel : ℕ) (cid : JInt) :
    CommentPages.displayComments map filter display commentTable fuel cid =
      (displayComments pageColumns map filter.value display.value fuel cid).map
        (·.flatMap (docOf filter display commentTable)) := topLoop_pages map filter display commentTable fuel _

end Pages

/-! ## From the rows to the page -/

section Rename

variable {ρ κ ρ' κ' : Type} [DecidableEq κ] [DecidableEq κ'] {cols : Columns ρ κ} {cols' : Columns ρ' κ'} {f : ρ → ρ'}
  {k : κ → κ'} {map : List ρ} {filter : ℤ}

/-- the comments of a map under other names: the same columns, and the same comments below each of these keys -/
structure Renames (cols : Columns ρ κ) (cols' : Columns ρ' κ') (f : ρ → ρ') (k : κ → κ') (map : List ρ) (keys : Set κ) :
    Prop where
  id : ∀ c, cols'.id (f c) = k (cols.id c)
  hasChilds : ∀ c, cols'.hasChilds (f c) = cols.hasChilds c
  rating : ∀ c, cols'.rating (f c) = cols.rating c
  mem : ∀ c ∈ map, cols.id c ∈ keys
  children : ∀ cid ∈ keys, children cols' (map.map f) (k cid) = (children cols map cid).map f

variable {keys : Set κ} (h : Renames cols cols' f k map keys)

include h

theorem lowerLoop_map {below : κ → Bool → Option (List (Shown ρ))} {below' : κ' → Bool → Option (List (Shown ρ'))}
    (hbelow : ∀ cid ∈ keys, ∀ sep, below' (k cid) sep = (below cid sep).map (List.map (Shown.map f))) (level : ℕ) (al : List ρ)
    (hal : ∀ c ∈ al, c ∈ map) (sep : Bool) :
    lowerLoop cols' filter below' level (al.map f) sep =
      (lowerLoop cols filter below level al sep).map (List.map (Shown.map f)) := by
  induction al generalizing sep with
  | nil => rfl
  | cons c al ih =>
    have hc := hbelow _ (h.mem c (hal c List.mem_cons_self)) (sep || decide (filter ≤ cols.rating c))
    have hrest := ih (fun d hd => hal d (List.mem_cons_of_mem c hd)) (sep || decide (filter ≤ cols.rating c))
    simp only [List.map_cons, lowerLoop, h.id, h.hasChilds, h.rating, hc, hrest, Option.bind_eq_bind, Option.pure_def]
    cases lowerLoop cols filter below level al (sep || decide (filter ≤ cols.rating c)) with
    | none => split <;> cases below (cols.id c) (sep || decide (filter ≤ cols.rating c)) <;> simp
    | some rest =>
      cases below (cols.id c) (sep || decide (filter ≤ cols.rating c)) with
      | none => split <;> split <;> cases sep <;> simp [Shown.map]
      | some low => split <;> split <;> cases sep <;> simp [Shown.map]

theorem displayLowerLevelComments_map (filter : ℤ) (fuel : ℕ) (cid : κ) (hcid : cid ∈ keys) (level : ℕ) (sep : Bool) :
    displayLowerLevelComments cols' (map.map f) filter fuel (k cid) level sep =
      (displayLowerLevelComments cols map filter fuel cid level sep).map (List.map (Shown.map f)) := by
  induction fuel generalizing cid level sep with
  | zero => rfl
  | succ fuel ih =>
    rw [displayLowerLevelComments, displayLowerLevelComments, h.children cid hcid]
    exact lowerLoop_map h (fun id hid sep => ih id hid (level + 1) sep) level _ (fun c hc => List.mem_of_mem_filter hc) sep

/-- a display under other names -/
theorem displayComments_map (filter display : ℤ) (fuel : ℕ) (cid : κ) (hcid : cid ∈ keys) :
    displayComments cols' (map.map f) filter display fuel (k cid) =
      (displayComments cols map filter display fuel cid).map (List.map (Shown.map f)) := by
  rw [displayComments, displayComments, h.children cid hcid]
  have hal : ∀ c ∈ children cols map cid, c ∈ map := fun c hc => List.mem_of_mem_filter hc
  generalize children cols map cid = al at hal ⊢
  induction al with
  | nil => rfl
  | cons c al ih =>
    have hc := displayLowerLevelComments_map h filter fuel _ (h.mem c (hal c List.mem_cons_self)) 1
      (decide (filter ≤ cols.rating c))
    have hrest := ih fun d hd => hal d (List.mem_cons_of_mem c hd)
    simp only [List.map_cons, topLoop, h.id, h.hasChilds, h.rating, hc, hrest, Option.bind_eq_bind, Option.pure_def]
    cases topLoop cols map filter display fuel al with
    | none =>
      split <;> cases displayLowerLevelComments cols map filter fuel (cols.id c) 1 (decide (filter ≤ cols.rating c)) <;> simp
    | some rest =>
      cases displayLowerLevelComments cols map filter fuel (cols.id c) 1 (decide (filter ≤ cols.rating c)) with
      | none => split <;> split <;> simp [Shown.map]
      | some low => split <;> split <;> simp [Shown.map]

end Rename

section Rows

open Html

/-- a row of a page as a row of the tables, whose ids and counters are not negative -/
def rowOfPage (r : CommentPages.Row) : Row where
  id := r.id.value.toNat
  parent := r.parent.value.toNat
  childs := r.childs.toNat
  rating := r.rating
  date := r.date.text
  subject := r.subject.text
  comment := r.comment.text
  nickname := r.nickname.text

/-- the id and the parent are not negative -/
structure Counts (r : CommentPages.Row) : Prop where
  id : 0 ≤ r.id.value
  parent : 0 ≤ r.parent.value

variable {storyId : IntText} {filter display : JInt}

theorem lower_rowOfPage (r : CommentPages.Row) {t : PlainText} (ht : t.text = []) :
    lower display.value (rowOfPage r) = rowOfPage { r with comment := if display.value = 1 then t else r.comment } := by
  unfold lower
  by_cases h : display.value = 1
  · rw [if_pos h, if_pos h]
    simp only [rowOfPage, ht]
  · rw [if_neg h, if_neg h]

theorem any_rowOfPage (rs : List CommentPages.Row) :
    (rs.map rowOfPage).any (0 < ·.childs) = rs.any (0 < ·.childs) := by
  rw [List.any_map]
  refine congrArg (rs.any ·) (funext fun r => ?_)
  simp [rowOfPage]

/-- the levels of a page, as far as the list of answers goes -/
theorem fetchLowerLevels_pages {ans : ℕ → Option (List Row)} (storyId : IntText) (display : JInt) (answers : List (List CommentPages.Row)) (level fuel : ℕ)
    (hans : ∀ n, ans (level + n) = answers[n]?.map (List.map rowOfPage)) (hfuel : answers.length < fuel) :
    fetchLowerLevels display.value ans fuel level =
      match CommentPages.fetchLowerLevels storyId display answers with
      | none => .error .exception
      | some map => .ok (map.map fun c => rowOfPage c.toRow) := by
  induction answers generalizing level fuel with
  | nil =>
    obtain ⟨fuel, rfl⟩ := Nat.exists_eq_succ_of_ne_zero (by omega : fuel ≠ 0)
    have h0 : ans level = none := hans 0
    rw [fetchLowerLevels, h0]
    rfl
  | cons follow answers ih =>
    have h0 : ans level = some (follow.map rowOfPage) := hans 0
    have hnext : ∀ n, ans (level + 1 + n) = answers[n]?.map (List.map rowOfPage) := by
      intro n
      have := hans (n + 1)
      rwa [List.getElem?_cons_succ, show level + (n + 1) = level + 1 + n by omega] at this
    rw [List.length_cons] at hfuel
    obtain ⟨fuel, rfl⟩ := Nat.exists_eq_succ_of_ne_zero (by omega : fuel ≠ 0)
    have hlevel : (follow.map rowOfPage).map (lower display.value) =
        (follow.map fun r => ({ r with
          story_id := storyId, comment := if display.value = 1 then plain "" else r.comment } : CommentPages.Comment)).map
            fun c => rowOfPage c.toRow := by
      rw [List.map_map, List.map_map]
      exact List.map_congr_left fun r _ => lower_rowOfPage r rfl
    rw [fetchLowerLevels, h0]
    simp only [any_rowOfPage, CommentPages.fetchLowerLevels, hlevel]
    by_cases hdeep : follow.any (0 < ·.childs)
    · simp only [hdeep, if_true, ih (level + 1) fuel hnext (by omega)]
      cases CommentPages.fetchLowerLevels storyId display answers with
      | none => simp [Except.map]
      | some map => simp [Except.map]
    · simp only [hdeep, if_false, Bool.false_eq_true]

/-- the map of a page -/
theorem fetchComments_pages {ans : ℕ → Option (List Row)} (storyId : IntText) (display : JInt) (answers : List (List CommentPages.Row)) (fuel : ℕ)
    (hans : ∀ n, ans n = answers[n]?.map (List.map rowOfPage)) (hfuel : answers.length < fuel) :
    fetchComments display.value ans fuel =
      match CommentPages.fetchComments storyId display answers with
      | none => .error .exception
      | some map => .ok (map.map fun c => rowOfPage c.toRow) := by
  cases answers with
  | nil =>
    have h0 : ans 0 = none := hans 0
    rw [fetchComments, h0]
    rfl
  | cons rs answers =>
    have h0 : ans 0 = some (rs.map rowOfPage) := hans 0
    have hnext : ∀ n, ans (1 + n) = answers[n]?.map (List.map rowOfPage) := by
      intro n
      have := hans (n + 1)
      rwa [List.getElem?_cons_succ, Nat.add_comm] at this
    have hlevel : rs.map rowOfPage =
        (rs.map fun r => ({ r with story_id := storyId } : CommentPages.Comment)).map fun c => rowOfPage c.toRow := by
      rw [List.map_map]
      rfl
    rw [List.length_cons] at hfuel
    rw [fetchComments, h0]
    simp only [any_rowOfPage, CommentPages.fetchComments,
      fetchLowerLevels_pages storyId display answers 1 fuel hnext (by omega)]
    by_cases hdeep : rs.any (0 < ·.childs)
    · simp only [hdeep, if_true]
      cases CommentPages.fetchLowerLevels storyId display answers with
      | none => simp [Except.map]
      | some map => simp [Except.map, hlevel]
    · simp only [hdeep, if_false, Bool.false_eq_true, hlevel]

theorem counts_of_fetchLowerLevels {answers : List (List CommentPages.Row)} {map : List CommentPages.Comment}
    (h : CommentPages.fetchLowerLevels storyId display answers = some map) (hcounts : ∀ rs ∈ answers, ∀ r ∈ rs, Counts r) :
    ∀ c ∈ map, Counts c.toRow := by
  induction answers generalizing map with
  | nil => cases h
  | cons follow answers ih =>
    have hlevel : ∀ c ∈ follow.map fun r => ({ r with
        story_id := storyId, comment := if display.value = 1 then plain "" else r.comment } : CommentPages.Comment),
        Counts c.toRow := by
      intro c hc
      obtain ⟨r, hr, rfl⟩ := List.mem_map.1 hc
      have := hcounts follow List.mem_cons_self r hr
      exact ⟨this.id, this.parent⟩
    rw [CommentPages.fetchLowerLevels] at h
    split at h
    · obtain ⟨rest, hrest, rfl⟩ := Option.map_eq_some_iff.1 h
      intro c hc
      rcases List.mem_append.1 hc with hc | hc
      · exact hlevel c hc
      · exact ih hrest (fun rs hrs => hcounts rs (List.mem_cons_of_mem follow hrs)) c hc
    · cases h
      exact hlevel

theorem counts_of_fetchComments {answers : List (List CommentPages.Row)} {map : List CommentPages.Comment}
    (h : CommentPages.fetchComments storyId display answers = some map) (hcounts : ∀ rs ∈ answers, ∀ r ∈ rs, Counts r) :
    ∀ c ∈ map, Counts c.toRow := by
  cases answers with
  | nil => cases h
  | cons rs answers =>
    have hlevel : ∀ c ∈ rs.map fun r => ({ r with story_id := storyId } : CommentPages.Comment), Counts c.toRow := by
      intro c hc
      obtain ⟨r, hr, rfl⟩ := List.mem_map.1 hc
      exact hcounts rs List.mem_cons_self r hr
    rw [CommentPages.fetchComments] at h
    split at h
    · obtain ⟨rest, hrest, rfl⟩ := Option.map_eq_some_iff.1 h
      intro c hc
      rcases List.mem_append.1 hc with hc | hc
      · exact hlevel c hc
      · exact counts_of_fetchLowerLevels hrest (fun rs' hrs' => hcounts rs' (List.mem_cons_of_mem rs hrs')) c hc
    · cases h
      exact hlevel

theorem eq_iff_toNat {a b : JInt} (ha : 0 ≤ a.value) (hb : 0 ≤ b.value) : a.value.toNat = b.value.toNat ↔ a = b := by
  constructor
  · intro h
    have hvalue : a.value = b.value := by omega
    cases a
    cases b
    cases hvalue
    rfl
  · rintro rfl
    rfl

/-- the comments of a page are those of its rows -/
theorem renames_pages {map : List CommentPages.Comment} (hmap : ∀ c ∈ map, Counts c.toRow) :
    Renames pageColumns columns (fun c => rowOfPage c.toRow) (fun cid => cid.value.toNat) map {cid | 0 ≤ cid.value} where
  id _ := rfl
  hasChilds c := by simp [columns, rowOfPage]
  rating _ := rfl
  mem c hc := (hmap c hc).id
  children cid hcid := by
    rw [children, children, List.filter_map]
    refine congrArg (List.map _) (List.filter_congr fun c hc => ?_)
    exact decide_eq_decide.2 (eq_iff_toNat (hmap c hc).parent hcid)

/-- **The page has the comments of the display**: from the rows of the queries to the text, or to the line of the exception
when a query throws. -/
theorem comments_on_page (sp : CommentPages.ServletPrinter) (a : CommentPages.CommentAnswers) (failed : PlainText → Piece)
    (filter display : JInt) (storyId : IntText) (commentId parent : JInt) (commentTable : Html.TableName) (hratings : a.ratings.failure = none)
    {ans : ℕ → Option (List Row)} (hans : ∀ n, ans n = a.levels[n]?.map (List.map rowOfPage))
    (hcounts : ∀ rs ∈ a.levels, ∀ r ∈ rs, Counts r) (hparent : 0 ≤ parent.value) {fuel : ℕ} (hfuel : a.levels.length < fuel) :
    (fetchAndDisplay filter.value display.value ans parent.value.toNat fuel = .error .exception →
      CommentPages.chooserAndComments sp fuel a failed commentId storyId commentTable display filter parent =
        some ((CommentPages.displayFilterChooser commentId storyId commentTable display filter a.ratings).1 ++
          [failed a.failure])) ∧
    ∀ shown, fetchAndDisplay filter.value display.value ans parent.value.toNat fuel = .ok shown →
      ∃ shown' : List (Shown CommentPages.Comment), shown'.map (Shown.map fun c => rowOfPage c.toRow) = shown ∧
        CommentPages.chooserAndComments sp fuel a failed commentId storyId commentTable display filter parent =
          some ((CommentPages.displayFilterChooser commentId storyId commentTable display filter a.ratings).1 ++
            shown'.flatMap (docOf filter display commentTable) ++ CommentPages.printHTMLfooter sp) := by
  have hfetch := fetchComments_pages storyId display a.levels fuel hans hfuel
  have hchooser : ∃ chooser, CommentPages.displayFilterChooser commentId storyId commentTable display filter a.ratings =
      (chooser, none) := by
    unfold CommentPages.displayFilterChooser
    rw [hratings]
    exact ⟨_, rfl⟩
  obtain ⟨chooser, hchooser⟩ := hchooser
  simp only [CommentPages.chooserAndComments, hchooser, fetchAndDisplay, hfetch]
  cases hmap : CommentPages.fetchComments storyId display a.levels with
  | none =>
    refine ⟨fun _ => rfl, fun shown h => ?_⟩
    cases h
  | some map =>
    have hdisplay := displayComments_map (renames_pages (counts_of_fetchComments hmap hcounts)) filter.value display.value
      fuel parent hparent
    simp only [Except.bind, hdisplay, displayComments_pages]
    cases displayComments pageColumns map filter.value display.value fuel parent with
    | none =>
      constructor
      · intro h
        cases h
      · intro shown h
        cases h
    | some shown' =>
      constructor
      · intro h
        cases h
      · intro shown h
        exact ⟨shown', Except.ok.inj h, rfl⟩

end Rows

end Rubbos.Servlets.CommentFetch
