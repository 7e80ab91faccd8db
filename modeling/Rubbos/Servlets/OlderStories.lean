/-
Going through the stories of a date, page after page (`OlderStories.java` over the tables of `rubbos.sql`).

The database compares the DATETIME of a story with the two literals of the statement, joins the story with its writer, puts
the rows in some order by date, and answers with a window of them. The servlet calls `first()` to see whether there is a row,
and then `while (rs.next())`, so the first row of every page is not printed. When a page of `stories` is empty it takes the
same page of `old_stories`.

- `pages_complete_iff`: the pages together show every story of the date exactly if there is none.
- `first_story_not_shown`: one story, and a page without stories.
-/
import Rubbos.Core.Tokens
import Rubbos.Servlets.StoryPages
import Rubbos.Servlets.Tables

namespace Rubbos.Servlets.StoryPages.OlderStories

open Rubbos.Core Tables JString

/-! ## Dates -/

structure Date where
  year : ℕ
  month : ℕ
  day : ℕ
  year_range : 1000 ≤ year ∧ year ≤ 9999
  month_range : 1 ≤ month ∧ month ≤ 12
  day_range : 1 ≤ day ∧ day ≤ 31
deriving DecidableEq

/-- a value of a column of type DATETIME -/
structure DateTime where
  date : Date
  hour : ℕ
  minute : ℕ
  second : ℕ
  time_range : hour < 24 ∧ minute < 60 ∧ second < 60
deriving DecidableEq

/-- a number that grows with the date -/
def Date.number (d : Date) : ℕ := (d.year * 13 + d.month) * 32 + d.day

/-- a number that grows with the time: values are compared by it -/
def DateTime.number (m : DateTime) : ℕ := ((m.date.number * 24 + m.hour) * 60 + m.minute) * 60 + m.second

theorem number_injective : Function.Injective Date.number := by
  intro a b h
  have ha := a.month_range
  have hb := b.month_range
  have ha' := a.day_range
  have hb' := b.day_range
  unfold Date.number at h
  obtain ⟨hy, hm, hd⟩ : a.year = b.year ∧ a.month = b.month ∧ a.day = b.day := by omega
  cases a
  cases b
  simp_all

/-- the text of a DATETIME: six numbers, with something else between them -/
def readDateTime (t : Text) : Option DateTime :=
  match (t.splitOnP fun c => !c.isDigit).map digits with
  | [year, month, day, hour, minute, second] =>
    if h : (1000 ≤ year ∧ year ≤ 9999) ∧ (1 ≤ month ∧ month ≤ 12) ∧ (1 ≤ day ∧ day ≤ 31) ∧
        (hour < 24 ∧ minute < 60 ∧ second < 60) then
      some ⟨⟨year, month, day, h.1, h.2.1, h.2.2.1⟩, hour, minute, second, h.2.2.2⟩
    else none
  | _ => none

/-- `date>=before AND date<=after` -/
def between (before after date : Text) : Bool :=
  match readDateTime before, readDateTime after, readDateTime date with
  | some b, some a, some m => b.number ≤ m.number ∧ m.number ≤ a.number
  | _, _, _ => false

/-- the date of a story -/
def on (date : Date) (t : Text) : Bool := (readDateTime t).any fun m => m.date = date

/-! ## The database -/

def table (db : Db) : StoryTable → Table Story
  | .stories => db.stories
  | .old_stories => db.old_stories

/-- the columns of a story, joined with its writer -/
def rowOf (db : Db) (e : ℕ × Story) : Option Row :=
  (db.users.get? e.2.writer).map fun u => ⟨e.1, e.2.title, e.2.date, u.nickname⟩

def selected (db : Db) (q : Statement) : List Row :=
  ((table db q.table).rows.filter fun e => between q.before q.after e.2.date).filterMap (rowOf db)

/-- the number of a date, 0 for a text that is none -/
def stamp (t : Text) : ℕ := ((readDateTime t).map DateTime.number).getD 0

/-- a database server: it may arrange rows with the same date as it likes, for every statement anew -/
structure Server (db : Db) where
  arrange : Statement → List Row
  perm : ∀ q, (arrange q).Perm (selected db q)
  sorted : ∀ q, (arrange q).Pairwise fun a b => stamp b.date ≤ stamp a.date

/-- LIMIT and OFFSET are not negative, or the statement is wrong -/
def Server.execute {db : Db} (server : Server db) (q : Statement) : Except Unit (List Row) :=
  if q.limit < 0 ∨ q.offset < 0 then .error () else .ok (((server.arrange q).drop q.offset.toNat).take q.limit.toNat)

/-- the ids of the stories of a date -/
def storiesOn (db : Db) (date : Date) (t : StoryTable) : List ℕ :=
  ((table db t).rows.filter fun e => on date e.2.date).map Prod.fst

/-! ## Pages -/

/-- the request for a page of a date -/
def dateRequest (date : Date) (nbOfStories : ℤ) (page : ℤ) : Request where
  uri := "/rubbos/servlet/edu.rice.rubbos.servlets.OlderStories".toList
  getParameter := fun name =>
    [("page".toList, longText page), ("nbOfStories".toList, longText nbOfStories), ("day".toList, natText date.day),
      ("month".toList, natText date.month), ("year".toList, natText date.year)].lookup name

/-- its parameters -/
def datePage (date : Date) (nbOfStories : ℤ) (page : ℤ) : Params :=
  ⟨page, nbOfStories, some (natText date.day), some (natText date.month), some (natText date.year)⟩

/-- the stories that are listed on a page of a date -/
def listedOn {db : Db} (server : Server db) (date : Date) (nbOfStories : ℤ) (page : ℤ) : Except Unit (Option (List Row)) :=
  listed server.execute (datePage date nbOfStories page) (natText date.day) (natText date.month) (natText date.year)

/-- the pages 0, 1, 2, … show at most so many stories each, up to one that finds nothing, and together the stories of the
date, by their ids -/
def Complete {db : Db} (server : Server db) (date : Date) (nbOfStories : ℤ) : Prop :=
  ∃ N : ℕ, listedOn server date nbOfStories N = .ok none ∧
    (∀ p < N, ∃ rows, listedOn server date nbOfStories p = .ok (some rows) ∧ rows.length ≤ nbOfStories) ∧
    ((List.range N).flatMap fun p : ℕ => (lines (page server.execute (datePage date nbOfStories p))).map Line.target).Perm
      ((storiesOn db date .stories ++ storiesOn db date .old_stories).map natText)

/-! ## The literals of a date -/

/-- a literal is read back -/
theorem readDateTime_literal (date : Date) {time : Text} {hour minute second : ℕ}
    (htime : (time.splitOnP fun c => !c.isDigit).map digits = [hour, minute, second])
    (hrange : hour < 24 ∧ minute < 60 ∧ second < 60) :
    readDateTime (natText date.year ++ '-' :: (natText date.month ++ '-' :: (natText date.day ++ ' ' :: time))) =
      some ⟨date, hour, minute, second, hrange⟩ := by
  have hnum : ∀ n : ℕ, ∀ c ∈ natText n, (!c.isDigit) = false := fun n c hc => by simp [isDigit_of_mem_natText hc]
  unfold readDateTime
  rw [List.splitOnP_append_cons_of_forall_mem (hnum _) '-' (by decide),
    List.splitOnP_append_cons_of_forall_mem (hnum _) '-' (by decide),
    List.splitOnP_append_cons_of_forall_mem (hnum _) ' ' (by decide), List.map_cons, List.map_cons, List.map_cons, htime,
    digits_natText, digits_natText, digits_natText]
  have hvalid : (1000 ≤ date.year ∧ date.year ≤ 9999) ∧ (1 ≤ date.month ∧ date.month ≤ 12) ∧ (1 ≤ date.day ∧ date.day ≤ 31) ∧
      (hour < 24 ∧ minute < 60 ∧ second < 60) := ⟨date.year_range, date.month_range, date.day_range, hrange⟩
  simp only [hvalid, and_self, dite_true]

/-- the clause on the date of a story says that it is of the date -/
theorem between_eq_on (date : Date) (t : Text) :
    between (before (natText date.day) (natText date.month) (natText date.year))
      (after (natText date.day) (natText date.month) (natText date.year)) t = on date t := by
  have hbefore : before (natText date.day) (natText date.month) (natText date.year) =
      natText date.year ++ '-' :: (natText date.month ++ '-' :: (natText date.day ++ ' ' :: "0:0:0".toList)) := by
    simp [before]
  have hafter : after (natText date.day) (natText date.month) (natText date.year) =
      natText date.year ++ '-' :: (natText date.month ++ '-' :: (natText date.day ++ ' ' :: "23:59:59".toList)) := by
    simp [after]
  unfold between on
  rw [hbefore, hafter, readDateTime_literal date (by decide) (by decide : 0 < 24 ∧ 0 < 60 ∧ 0 < 60),
    readDateTime_literal date (by decide) (by decide : 23 < 24 ∧ 59 < 60 ∧ 59 < 60)]
  cases readDateTime t with
  | none => rfl
  | some m =>
    have hm := m.time_range
    have hiff : m.date.number = date.number ↔ m.date = date := number_injective.eq_iff
    refine decide_eq_decide.2 (Iff.trans ?_ hiff)
    simp only [DateTime.number]
    omega

/-! ## A page -/

theorem lines_rows (rows : List Row) : lines (rows.map fun r => Printed.line r.line) = rows.map Row.line := by
  unfold lines
  rw [List.filterMap_map]
  exact congrFun List.filterMap_eq_map' rows

theorem lines_pageLinks (p : Params) (day month year : Text) : lines (pageLinks p day month year) = [] := by
  unfold pageLinks
  split <;> rfl

/-- there are no lines before the results -/
theorem lines_head (rest : List Printed) :
    lines (.header "RUBBoS Older Stories".toList :: dateChooser ++ rest) = lines rest := by
  have hheader : lines [Printed.header "RUBBoS Older Stories".toList] = [] := rfl
  rw [← List.singleton_append, lines_append, lines_append, hheader, lines_dateChooser, List.nil_append, List.nil_append]

section Pages

variable {db : Db} (server : Server db) (date : Date) {n : ℕ}

/-- the rows of the date in a table -/
def count (db : Db) (date : Date) (t : StoryTable) : ℕ :=
  (((table db t).rows.filter fun e => on date e.2.date).filterMap (rowOf db)).length

theorem count_le (t : StoryTable) : count db date t ≤ (storiesOn db date t).length := by
  rw [count, storiesOn, List.length_map]
  exact List.length_filterMap_le _ _

/-- the number of rows on a page -/
def window (n p total : ℕ) : ℕ := min n (total - p * n)

theorem execute_of_lt {p : ℕ} (hp : p * n < 2 ^ 31) (t : StoryTable) :
    ∃ rows, server.execute (statement (datePage date n p) (natText date.day) (natText date.month) (natText date.year) t) =
      .ok rows ∧ rows.length = window n p (count db date t) := by
  have hoffset : wrapInt ((p : ℤ) * n) = ((p * n : ℕ) : ℤ) := by
    rw [wrapInt_of_lt (by positivity) (by exact_mod_cast hp)]
    push_cast
    rfl
  refine ⟨_, if_neg ?_, ?_⟩
  · simp only [statement, datePage, hoffset]
    omega
  · have hlength := (server.perm (statement (datePage date n p) (natText date.day) (natText date.month) (natText date.year)
      t)).length_eq
    rw [List.length_take, List.length_drop, hlength]
    simp only [selected, statement, between_eq_on, datePage, hoffset, Int.toNat_natCast, window, count]

theorem listedOn_of_lt {p : ℕ} (hp : p * n < 2 ^ 31) :
    (listedOn server date n p = .ok none ∧ window n p (count db date .stories) = 0 ∧
      window n p (count db date .old_stories) = 0) ∨
    ∃ rows, listedOn server date n p = .ok (some rows) ∧
      rows.length + 1 ≤ window n p (count db date .stories) + window n p (count db date .old_stories) ∧ rows.length ≤ n := by
  obtain ⟨rows, hrows, hlength⟩ := execute_of_lt server date hp .stories
  obtain ⟨old, hold, holdlength⟩ := execute_of_lt server date hp .old_stories
  have hle : ∀ total, window n p total ≤ n := fun total => Nat.min_le_left _ _
  have hn := hle (count db date .stories)
  have hn' := hle (count db date .old_stories)
  unfold listedOn listed find
  rw [hrows, hold]
  cases rows with
  | cons r rows =>
    rw [List.length_cons] at hlength
    exact .inr ⟨rows, rfl, by omega, by omega⟩
  | nil =>
    rw [List.length_nil] at hlength
    cases old with
    | nil => exact .inl ⟨rfl, by omega, by rw [← holdlength]; rfl⟩
    | cons r old =>
      rw [List.length_cons] at holdlength
      exact .inr ⟨old, rfl, by omega, by omega⟩

/-- behind the last int there is an exception -/
theorem listedOn_of_le {p : ℕ} (hp : 2 ^ 31 ≤ p * n) (hp' : p * n < 2 ^ 32) : listedOn server date n p = .error () := by
  have hoffset : wrapInt ((p : ℤ) * n) < 0 := wrapInt_neg (by exact_mod_cast hp) (by exact_mod_cast hp')
  have herror : server.execute (statement (datePage date n p) (natText date.day) (natText date.month) (natText date.year)
      .stories) = .error () := by
    refine if_pos (.inr ?_)
    exact hoffset
  unfold listedOn listed find
  rw [herror]
  rfl

/-! ## All pages -/

/-- the lines of a page are those of the stories that are listed on it -/
theorem lines_page {p : ℤ} {n : ℤ} {rows : List Row} (h : listedOn server date n p = .ok (some rows)) :
    lines (page server.execute (datePage date n p)) = rows.map Row.line := by
  have hpage : page server.execute (datePage date n p) = Printed.header "RUBBoS Older Stories".toList :: dateChooser ++
      ([html "<br><h2>Stories of the ", .text (natText date.day), html "/", .text (natText date.month), html "/",
        .text (natText date.year), html "</h2></center><br>"] ++
        results server.execute (datePage date n p) (natText date.day) (natText date.month) (natText date.year)) := rfl
  have hlisted : listed server.execute (datePage date n p) (natText date.day) (natText date.month) (natText date.year) =
      .ok (some rows) := h
  rw [hpage, lines_head, results, hlisted]
  simp only [lines_append, lines_rows, lines_pageLinks]
  simp [lines, html]

/-- the pages are asked for before the offset overflows -/
theorem offset_lt (hn : n < 2 ^ 31) (N : ℕ) (h : ∀ p ≤ N, ∃ found, listedOn server date n p = .ok found) : N * n < 2 ^ 31 := by
  induction N with
  | zero => simp
  | succ N ih =>
    have hprev := ih fun p hp => h p (by omega)
    obtain ⟨found, hfound⟩ := h (N + 1) le_rfl
    by_contra hover
    have hsucc : (N + 1) * n = N * n + n := by ring
    rw [listedOn_of_le server date (by omega) (by omega)] at hfound
    cases hfound

theorem sum_window (n total N : ℕ) : min total (N * n) + window n N total = min total ((N + 1) * n) := by
  have hsucc : (N + 1) * n = N * n + n := by ring
  unfold window
  omega

/-- every page leaves out a story at least -/
theorem length_lines_le (N : ℕ) (hN : N * n < 2 ^ 31) (h : ∀ p < N, ∃ rows, listedOn server date n p = .ok (some rows)) :
    ((List.range N).flatMap fun p : ℕ => (lines (page server.execute (datePage date n p))).map Line.target).length + N ≤
      min (count db date .stories) (N * n) + min (count db date .old_stories) (N * n) := by
  induction N with
  | zero => simp
  | succ N ih =>
    have hsucc : (N + 1) * n = N * n + n := by ring
    have hih := ih (by omega) fun p hp => h p (by omega)
    obtain ⟨rows, hrows⟩ := h N (Nat.lt_succ_self N)
    have hwindow : rows.length + 1 ≤ window n N (count db date .stories) + window n N (count db date .old_stories) := by
      rcases listedOn_of_lt server date (p := N) (n := n) (by omega) with ⟨hnone, -⟩ | ⟨rows', hrows', hle, -⟩
      · rw [hrows] at hnone
        cases hnone
      · rw [hrows] at hrows'
        cases hrows'
        exact hle
    have h1 := sum_window n (count db date .stories) N
    have h2 := sum_window n (count db date .old_stories) N
    rw [List.range_succ, List.flatMap_append, List.length_append, List.flatMap_singleton, lines_page server date hrows,
      List.length_map, List.length_map]
    omega

/-- complete pages have no story to show -/
theorem storiesOn_eq_nil (hn : n < 2 ^ 31) (h : Complete server date n) :
    storiesOn db date .stories = [] ∧ storiesOn db date .old_stories = [] := by
  obtain ⟨N, hend, hpages, hperm⟩ := h
  have hoffset : N * n < 2 ^ 31 := by
    refine offset_lt server date hn N fun p hp => ?_
    rcases Nat.lt_or_eq_of_le hp with hp | rfl
    · obtain ⟨rows, hrows, -⟩ := hpages p hp
      exact ⟨_, hrows⟩
    · exact ⟨_, hend⟩
  have hle := length_lines_le server date N hoffset fun p hp => (hpages p hp).imp fun _ => And.left
  have h1 : count db date .stories ≤ (storiesOn db date .stories).length := count_le date .stories
  have h2 : count db date .old_stories ≤ (storiesOn db date .old_stories).length := count_le date .old_stories
  rw [hperm.length_eq, List.length_map, List.length_append] at hle
  -- so many pages are too many, and without a page there are no lines
  have hN : N = 0 := by omega
  subst hN
  have hnil := hperm.symm.eq_nil
  rw [List.map_eq_nil_iff, List.append_eq_nil_iff] at hnil
  exact hnil

theorem complete_of_nil (hstories : storiesOn db date .stories = []) (hold : storiesOn db date .old_stories = []) :
    Complete server date n := by
  have h1 : count db date .stories ≤ (storiesOn db date .stories).length := count_le date .stories
  have h2 : count db date .old_stories ≤ (storiesOn db date .old_stories).length := count_le date .old_stories
  rw [hstories, List.length_nil] at h1
  rw [hold, List.length_nil] at h2
  refine ⟨0, ?_, fun p hp => absurd hp (Nat.not_lt_zero p), by simp [hstories, hold]⟩
  rcases listedOn_of_lt server date (p := 0) (n := n) (by simp) with ⟨hnone, -⟩ | ⟨rows, -, hle, -⟩
  · exact hnone
  · unfold window at hle
    omega

/-- **The pages are complete exactly if there is nothing to show.** For every contents of the tables, every order in which the
database puts stories of the same time, every date and every number of stories on a page: the pages 0, 1, 2, … up to the one
that finds nothing show every story of the date once if and only if neither table has a story of the date. -/
theorem pages_complete_iff (db : Db) (server : Server db) (date : Date) (nbOfStories : ℤ)
    (hn : 1 ≤ nbOfStories ∧ nbOfStories < 2 ^ 31) :
    Complete server date nbOfStories ↔ storiesOn db date .stories = [] ∧ storiesOn db date .old_stories = [] := by
  obtain ⟨n, rfl⟩ := Int.eq_ofNat_of_zero_le (by omega : 0 ≤ nbOfStories)
  exact ⟨storiesOn_eq_nil server date (by omega), fun h => complete_of_nil server date h.1 h.2⟩

end Pages

theorem pairwise_sorting (rows : List Row) :
    (rows.mergeSort fun a b => stamp b.date ≤ stamp a.date).Pairwise fun a b => stamp b.date ≤ stamp a.date := by
  refine (List.pairwise_mergeSort ?_ ?_ rows).imp fun h => of_decide_eq_true h
  · intro a b c hab hbc
    simp only [decide_eq_true_eq] at hab hbc ⊢
    omega
  · intro a b
    simp only [Bool.or_eq_true, decide_eq_true_eq]
    omega

/-- a server that leaves rows with the same date in the order of the table -/
def Server.sorting (db : Db) : Server db where
  arrange := fun q => (selected db q).mergeSort fun a b => stamp b.date ≤ stamp a.date
  perm := fun q => List.mergeSort_perm (selected db q) _
  sorted := fun q => pairwise_sorting (selected db q)

/-- the seventh of January 2003 -/
def january : Date := ⟨2003, 1, 7, by decide, by decide, by decide⟩

/-- a story of that date -/
def oneStory : Db where
  users := Table.empty.insert ⟨"author".toList, [], 0, 0⟩
  comments := .empty
  old_comments := .empty
  stories := Table.empty.insert ⟨"title".toList, [], "2003-01-07 12:30:05".toList, 1, 1⟩
  old_stories := .empty
  submissions := .empty
  moderator_log := .empty

theorem one_story_complete_iff :
    Complete (Server.sorting oneStory) january 25 ↔
      storiesOn oneStory january .stories = [] ∧ storiesOn oneStory january .old_stories = [] :=
  pages_complete_iff oneStory (Server.sorting oneStory) january 25 (by decide)

/-- the story is the first of its page -/
theorem first_story_not_shown :
    storiesOn oneStory january .stories = [1] ∧ ¬ Complete (Server.sorting oneStory) january 25 := by
  have hstory : storiesOn oneStory january .stories = [1] := by decide
  refine ⟨hstory, fun h => ?_⟩
  have hnil := (storiesOn_eq_nil (Server.sorting oneStory) january (n := 25) (by decide) h).1
  rw [hstory] at hnil
  cases hnil

end Rubbos.Servlets.StoryPages.OlderStories
