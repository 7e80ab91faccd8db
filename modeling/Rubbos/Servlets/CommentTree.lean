/-
The reply tree of a story, and its display (`Comment.java` over the tables of `StoreComment.java`).

In a table that StoreComment builds below existing comments of the same story, every parent is 0 or an older comment of the
story, and the counters are right. So the replies form a forest, the levels of which are the answers to the queries, and
nothing is lost where the counters stop the search. Each level takes a query, which joins one more table than the one before
and which the server may refuse.

Premises: the statements of StoreComment do not fail and are the ones that it means, so its texts splice into them as texts;
the tables do not change under the page; the database answers a query with the rows of its join, in any order, or throws.

- `comments_displayed_iff`: ViewStory and ViewComment print the comments of the tree that pass the filter, each once, in
  depth-first order and indented by its depth, exactly when the query of every level of the tree is answered.
- `tree_on_page`: so has the text of the page.
- `deep_chain_not_displayed`: a server that joins 61 tables, and a chain of 61 comments.
-/
import Rubbos.Servlets.CommentFetch
import Rubbos.Servlets.StoreComment

namespace Rubbos.Servlets.CommentFetch

open Rubbos.Core Tables
open StoreComment (Counted replies)

/-! ## Trees of replies -/

/-- a table of comments as StoreComment keeps it -/
structure Kept (db : Db) (t : Table Tables.Comment) : Prop where
  pos : ∀ k c, t.get? k = some c → 0 < k
  older : ∀ k c, t.get? k = some c → c.parent ≠ 0 → c.parent < k ∧ ∃ p, t.get? c.parent = some p ∧ p.story_id = c.story_id
  counted : Counted t
  writers : ∀ k c, t.get? k = some c → (db.users.get? c.writer).isSome

/-- the roots of a display: a comment, or those on the story itself -/
def Root (t : Table Tables.Comment) (storyId commentId k : ℕ) : Prop :=
  if commentId = 0 then ∃ c, t.get? k = some c ∧ c.story_id = storyId ∧ c.parent = 0 else k = commentId

/-- the comment k is d levels below a root -/
inductive Under (t : Table Tables.Comment) (storyId commentId : ℕ) : (k d : ℕ) → Prop
  | root {k : ℕ} (h : Root t storyId commentId k) : Under t storyId commentId k 0
  | reply {p d k : ℕ} {c : Tables.Comment} (hp : Under t storyId commentId p d) (hc : t.get? k = some c)
      (hparent : c.parent = p) :
      Under t storyId commentId k (d + 1)

/-- the query of a level is made: the first one, and that of every level of the tree -/
def Asked (t : Table Tables.Comment) (storyId commentId n : ℕ) : Prop := n = 0 ∨ ∃ k, Under t storyId commentId k n

/-- the query of a display: that of the story, or that of a comment with the parent that the table has -/
structure Asks (t : Table Tables.Comment) (q : Query) : Prop where
  story : q.commentId = 0 → q.parent = 0
  comment : q.commentId ≠ 0 → ∃ c, t.get? q.commentId = some c ∧ c.story_id = q.storyId ∧ c.parent = q.parent

/-- a join has rows of the table only -/
theorem joined_subset {db : Db} {q : Query} {n : ℕ} {e : ℕ × Tables.Comment} (h : e ∈ joined db q n) :
    e ∈ (db.get q.table).rows := by
  cases n with
  | zero => exact List.mem_of_mem_filter h
  | succ n =>
    obtain ⟨_, _, h'⟩ := List.mem_flatMap.1 h
    exact List.mem_of_mem_filter h'

/-- the comments with a parent -/
def replyIds (t : Table Tables.Comment) (k : ℕ) : List ℕ := (t.rows.filter fun e => e.2.parent = k).map Prod.fst

theorem mem_replyIds {t : Table Tables.Comment} {j k : ℕ} : j ∈ replyIds t k ↔ ∃ c, t.get? j = some c ∧ c.parent = k := by
  simp only [replyIds, List.mem_map, List.mem_filter, decide_eq_true_eq]
  constructor
  · rintro ⟨⟨i, c⟩, ⟨hmem, hparent⟩, rfl⟩
    exact ⟨c, Table.mem_rows.1 hmem, hparent⟩
  · rintro ⟨c, hc, hparent⟩
    exact ⟨(j, c), ⟨Table.mem_rows.2 hc, hparent⟩, rfl⟩

/-! ## The columns of a comment in the map -/

@[simp] theorem lower_id (display : ℤ) (r : Row) : (lower display r).id = r.id := by
  unfold lower
  split <;> rfl

theorem lower_columns (display : ℤ) (r : Row) : (lower display r).parent = r.parent ∧
    (lower display r).childs = r.childs ∧ (lower display r).rating = r.rating := by
  unfold lower
  split <;> exact ⟨rfl, rfl, rfl⟩

theorem map_lower_id (display : ℤ) (rs : List Row) : (rs.map (lower display)).map Row.id = rs.map Row.id := by
  rw [List.map_map]
  exact List.map_congr_left fun r _ => lower_id display r

/-- the row of a comment in the map, at a depth -/
def atDepth (display : ℤ) (d : ℕ) (r : Row) : Row := if d = 0 then r else lower display r

@[simp] theorem atDepth_id (display : ℤ) (d : ℕ) (r : Row) : (atDepth display d r).id = r.id := by
  unfold atDepth
  split
  · rfl
  · exact lower_id display r

theorem atDepth_columns (display : ℤ) (d : ℕ) (r : Row) : (atDepth display d r).parent = r.parent ∧
    (atDepth display d r).childs = r.childs ∧ (atDepth display d r).rating = r.rating := by
  unfold atDepth
  split
  · exact ⟨rfl, rfl, rfl⟩
  · exact lower_columns display r

/-- what a display shows: the preorder of a forest of comments, less those below the filter -/
structure Displays (db : Db) (q : Query) (filter display : ℤ) (shown : List (Shown Row)) (F : Forest Row) : Prop where
  /-- below a comment are the replies to it -/
  branches : F.All fun c below => (below.roots.map Row.id).Perm (replyIds (db.get q.table) c.id)
  order : entries shown = visible columns filter (F.preorder 0)
  once : ((F.preorder 0).map fun x => x.1.id).Nodup
  /-- the comments of the forest are those of the tree, at their depth below the root -/
  complete : ∀ k d, (∃ c, (c, d) ∈ F.preorder 0 ∧ c.id = k) ↔ Under (db.get q.table) q.storyId q.commentId k d
  /-- the comments have the columns of the table; in a preview the texts of the lower ones are left out -/
  rows : ∀ c d, (c, d) ∈ F.preorder 0 →
    ∃ e, (db.get q.table).get? c.id = some e ∧ (rowOf db (c.id, e)).map (atDepth display d) = some c

/-! ## The tree -/

section Tree

variable {db : Db} {q : Query} (hk : Kept db (db.get q.table)) (hq : Asks (db.get q.table) q)

include hk hq

/-- a comment of the tree is one of the story -/
theorem story_of_under {k d : ℕ} (h : Under (db.get q.table) q.storyId q.commentId k d) :
    ∃ c, (db.get q.table).get? k = some c ∧ c.story_id = q.storyId := by
  induction h with
  | root h =>
    unfold Root at h
    split at h
    · obtain ⟨c, hc, hstory, -⟩ := h
      exact ⟨c, hc, hstory⟩
    · next hne =>
      obtain ⟨c, hc, hstory, -⟩ := hq.comment hne
      exact ⟨c, h ▸ hc, hstory⟩
  | reply hp hc hparent ih =>
    obtain ⟨p, hget, hstory⟩ := ih
    rename_i c
    have hpos := hk.pos _ p hget
    obtain ⟨-, p', hget', hstory'⟩ := hk.older _ c hc (by omega)
    rw [hparent, hget] at hget'
    cases hget'
    exact ⟨c, hc, hstory'.symm.trans hstory⟩

omit hk in
/-- what the first query asks for is a root -/
theorem root_of_parent {k : ℕ} {c : Tables.Comment} (hc : (db.get q.table).get? k = some c) (hstory : c.story_id = q.storyId)
    (hroot : c.parent = q.parent) (hid : q.commentId ≠ 0 → k = q.commentId) :
    Under (db.get q.table) q.storyId q.commentId k 0 := by
  refine .root ?_
  unfold Root
  split
  · next h0 => exact ⟨c, hc, hstory, hroot.trans (hq.story h0)⟩
  · next hne => exact hid hne

omit hk in
/-- a root has the parent of the query -/
theorem parent_of_root {k : ℕ} (h : Root (db.get q.table) q.storyId q.commentId k) :
    ∃ c, (db.get q.table).get? k = some c ∧ c.story_id = q.storyId ∧ c.parent = q.parent ∧
      (q.commentId ≠ 0 → k = q.commentId) := by
  unfold Root at h
  split at h
  · next h0 =>
    obtain ⟨c, hc, hstory, hparent⟩ := h
    exact ⟨c, hc, hstory, hparent.trans (hq.story h0).symm, fun hne => absurd h0 hne⟩
  · next hne =>
    obtain ⟨c, hc, hstory, hparent⟩ := hq.comment hne
    exact ⟨c, h ▸ hc, hstory, hparent, fun _ => h⟩

/-- the comments of the tree are not older than the parent of the display, nor that parent itself -/
theorem parent_lt {k d : ℕ} (h : Under (db.get q.table) q.storyId q.commentId k d) : q.parent < k := by
  induction h with
  | root h =>
    obtain ⟨c, hc, -, hparent, -⟩ := parent_of_root hq h
    by_cases h0 : q.parent = 0
    · have := hk.pos _ c hc
      omega
    · have := (hk.older _ c hc (by omega)).1
      omega
  | reply hp hc hparent ih =>
    have := (hk.older _ _ hc (by omega)).1
    omega

/-- the depth is bounded by the id -/
theorem depth_lt {k d : ℕ} (h : Under (db.get q.table) q.storyId q.commentId k d) : d < k := by
  induction h with
  | root h =>
    obtain ⟨c, hc, -⟩ := parent_of_root hq h
    exact hk.pos _ c hc
  | reply hp hc hparent ih =>
    have := (hk.older _ _ hc (by omega)).1
    omega

omit hk hq in
/-- the parent of a comment below a root is in the tree -/
theorem under_succ {k d : ℕ} : Under (db.get q.table) q.storyId q.commentId k (d + 1) ↔
    ∃ c, (db.get q.table).get? k = some c ∧ Under (db.get q.table) q.storyId q.commentId c.parent d := by
  constructor
  · intro h
    cases h with
    | reply hp hc hparent => exact ⟨_, hc, hparent ▸ hp⟩
  · rintro ⟨c, hc, hp⟩
    exact .reply hp hc rfl

theorem depth_unique {k m n : ℕ} (hm : Under (db.get q.table) q.storyId q.commentId k m)
    (hn : Under (db.get q.table) q.storyId q.commentId k n) : m = n := by
  -- a root has the parent of the query, which is not in the tree
  have hroot : ∀ {k d}, Root (db.get q.table) q.storyId q.commentId k →
      ¬ Under (db.get q.table) q.storyId q.commentId k (d + 1) := by
    intro k d h hd
    obtain ⟨c, hc, -, hparent, -⟩ := parent_of_root hq h
    obtain ⟨c', hc', hp⟩ := (under_succ).1 hd
    rw [hc] at hc'
    cases hc'
    have := parent_lt hk hq hp
    omega
  induction hm generalizing n with
  | root h =>
    cases n with
    | zero => rfl
    | succ n => exact absurd hn (hroot h)
  | reply hp hc hparent ih =>
    cases n with
    | zero =>
      cases hn with
      | root h => exact absurd (.reply hp hc hparent) (hroot h)
    | succ n =>
      obtain ⟨c', hc', hp'⟩ := (under_succ).1 hn
      rw [hc] at hc'
      cases hc'
      rw [hparent] at hp'
      rw [ih hp']

/-! ## The answers are the levels of the tree -/

/-- the comments of a join, as far as they are of the story, are those of a level -/
theorem mem_joined {n k : ℕ} {c : Tables.Comment} : ((k, c) ∈ joined db q n ∧ c.story_id = q.storyId) ↔
    (db.get q.table).get? k = some c ∧ Under (db.get q.table) q.storyId q.commentId k n := by
  induction n generalizing k c with
  | zero =>
    simp only [joined, List.mem_filter, Table.mem_rows, decide_eq_true_eq]
    constructor
    · rintro ⟨⟨hc, hparent, hid⟩, hstory⟩
      exact ⟨hc, root_of_parent hq hc hstory hparent hid⟩
    · rintro ⟨hc, hunder⟩
      cases hunder with
      | root h =>
        obtain ⟨c', hc', hstory, hparent, hid⟩ := parent_of_root hq h
        rw [hc] at hc'
        cases hc'
        exact ⟨⟨hc, hparent, hid⟩, hstory⟩
  | succ n ih =>
    simp only [joined, List.mem_flatMap, List.mem_filter, Table.mem_rows, decide_eq_true_eq, under_succ]
    constructor
    · rintro ⟨⟨⟨p, e⟩, he, hc, hparent⟩, hstory⟩
      have hget : (db.get q.table).get? p = some e := Table.mem_rows.1 (joined_subset he)
      have hpos := hk.pos p e hget
      obtain ⟨-, e', he', hstory'⟩ := hk.older k c hc (by omega)
      rw [hparent, hget] at he'
      cases he'
      exact ⟨hc, c, hc, hparent ▸ (ih.1 ⟨he, hstory'.trans hstory⟩).2⟩
    · rintro ⟨hc, c', hc', hp⟩
      rw [hc] at hc'
      cases hc'
      obtain ⟨e, he, hestory⟩ := story_of_under hk hq hp
      have hpos := hk.pos _ e he
      obtain ⟨-, e', he', hstory'⟩ := hk.older k c hc (by omega)
      rw [he] at he'
      cases he'
      exact ⟨⟨(c.parent, e), (ih.2 ⟨he, hp⟩).1, hc, rfl⟩, hstory'.symm.trans hestory⟩

omit hk hq in
theorem nodup_rows (t : Table Tables.Comment) : t.rows.Nodup := t.nodup.of_map _

omit hk hq in
/-- a join has every comment once, since a comment has one parent -/
theorem nodup_joined (n : ℕ) : (joined db q n).Nodup := by
  induction n with
  | zero => exact (nodup_rows _).filter _
  | succ n ih =>
    rw [joined, List.nodup_flatMap]
    refine ⟨fun e _ => (nodup_rows _).filter _, ?_⟩
    refine ih.pairwise_of_forall_ne fun e he e' he' hne => ?_
    intro x hx hx'
    simp only [List.mem_filter, decide_eq_true_eq] at hx hx'
    have hfst : e.1 = e'.1 := hx.2.symm.trans hx'.2
    have h1 : (db.get q.table).get? e.1 = some e.2 := Table.mem_rows.1 (joined_subset he)
    have h2 : (db.get q.table).get? e'.1 = some e'.2 := Table.mem_rows.1 (joined_subset he')
    rw [hfst, h2] at h1
    exact hne (Prod.ext hfst (Option.some.inj h1).symm)

omit hq in
/-- every comment has its row in the answer, as its writer is a user -/
theorem rowOf_isSome {k : ℕ} {c : Tables.Comment} (hc : (db.get q.table).get? k = some c) :
    ∃ r, rowOf db (k, c) = some r ∧ r.id = k ∧ r.parent = c.parent ∧ r.childs = c.childs ∧ r.rating = c.rating := by
  obtain ⟨u, hu⟩ := Option.isSome_iff_exists.1 (hk.writers k c hc)
  exact ⟨_, by rw [rowOf, hu]; rfl, rfl, rfl, rfl, rfl⟩

omit hk hq in
theorem rowOf_id {e : ℕ × Tables.Comment} {r : Row} (h : rowOf db e = some r) : r.id = e.1 ∧ r.parent = e.2.parent ∧
    r.childs = e.2.childs ∧ r.rating = e.2.rating := by
  obtain ⟨u, -, rfl⟩ := Option.map_eq_some_iff.1 h
  exact ⟨rfl, rfl, rfl, rfl⟩

/-- the rows of an answer are those of the comments of a level -/
theorem mem_answer {n : ℕ} {r : Row} : r ∈ answer db q n ↔ Under (db.get q.table) q.storyId q.commentId r.id n ∧
    ∃ c, (db.get q.table).get? r.id = some c ∧ rowOf db (r.id, c) = some r := by
  simp only [answer, List.mem_filterMap, List.mem_filter, decide_eq_true_eq]
  constructor
  · rintro ⟨⟨k, c⟩, hmem, hr⟩
    obtain ⟨rfl, -⟩ := rowOf_id hr
    obtain ⟨hc, hunder⟩ := (mem_joined hk hq).1 hmem
    exact ⟨hunder, c, hc, hr⟩
  · rintro ⟨hunder, c, hc, hr⟩
    exact ⟨(r.id, c), (mem_joined hk hq).2 ⟨hc, hunder⟩, hr⟩

omit hk hq in
theorem nodup_answer (n : ℕ) : ((answer db q n).map Row.id).Nodup := by
  unfold answer
  have hkeys : (((joined db q n).filter fun e => e.2.story_id = q.storyId).map Prod.fst).Nodup := by
    refine List.Nodup.map_on ?_ ((nodup_joined n).filter _)
    intro e he e' he' hfst
    have h1 : (db.get q.table).get? e.1 = some e.2 := Table.mem_rows.1 (joined_subset (List.mem_of_mem_filter he))
    have h2 : (db.get q.table).get? e'.1 = some e'.2 := Table.mem_rows.1 (joined_subset (List.mem_of_mem_filter he'))
    rw [hfst, h2] at h1
    exact Prod.ext hfst (Option.some.inj h1).symm
  refine hkeys.sublist ?_
  generalize (joined db q n).filter (fun e => e.2.story_id = q.storyId) = es
  induction es with
  | nil => simp
  | cons e es ih =>
    rw [List.filterMap_cons]
    cases hr : rowOf db e with
    | none => exact ih.trans (List.sublist_cons_self _ _)
    | some r =>
      rw [List.map_cons, List.map_cons, (rowOf_id hr).1]
      exact ih.cons_cons _

/-! ## Fetching the tree -/

section Fetch

variable {rows : ℕ → List Row} (hrows : ∀ n, (rows n).Perm (answer db q n))

include hrows

theorem mem_ans {n : ℕ} {r : Row} : r ∈ rows n ↔ Under (db.get q.table) q.storyId q.commentId r.id n ∧
    ∃ c, (db.get q.table).get? r.id = some c ∧ rowOf db (r.id, c) = some r := by
  rw [(hrows n).mem_iff, mem_answer hk hq]

/-- every comment of a level is in the answer -/
theorem exists_ans {k n : ℕ} (h : Under (db.get q.table) q.storyId q.commentId k n) : ∃ r ∈ rows n, r.id = k := by
  obtain ⟨c, hc, -⟩ := story_of_under hk hq h
  obtain ⟨r, hr, hid, -⟩ := rowOf_isSome hk hc
  subst hid
  exact ⟨r, (mem_ans hk hq hrows).2 ⟨h, c, hc, hr⟩, rfl⟩

omit hk hq in
theorem nodup_ans (n : ℕ) : ((rows n).map Row.id).Nodup := ((hrows n).map _).nodup_iff.2 (nodup_answer n)

/-- a level has counters above 0 exactly when there is a next level -/
theorem deeper_iff {n : ℕ} : (rows n).any (0 < ·.childs) ↔ ∃ k, Under (db.get q.table) q.storyId q.commentId k (n + 1) := by
  rw [List.any_eq_true]
  constructor
  · rintro ⟨r, hr, hpos⟩
    obtain ⟨hunder, c, hc, hrow⟩ := (mem_ans hk hq hrows).1 hr
    have hchilds : 0 < replies (db.get q.table) r.id := by
      rw [← hk.counted r.id c hc, ← (rowOf_id hrow).2.2.1]
      simpa using hpos
    obtain ⟨⟨j, c'⟩, hmem, hparent⟩ := List.countP_pos_iff.1 hchilds
    exact ⟨j, .reply hunder (Table.mem_rows.1 hmem) (by simpa using hparent)⟩
  · rintro ⟨j, hj⟩
    obtain ⟨c', hc', hp⟩ := under_succ.1 hj
    obtain ⟨r, hr, hid⟩ := exists_ans hk hq hrows hp
    obtain ⟨-, c, hc, hrow⟩ := (mem_ans hk hq hrows).1 hr
    refine ⟨r, hr, ?_⟩
    have hchilds : 0 < replies (db.get q.table) r.id :=
      List.countP_pos_iff.2 ⟨(j, c'), Table.mem_rows.2 hc', by simp [hid]⟩
    rw [← hk.counted r.id c hc, ← (rowOf_id hrow).2.2.1] at hchilds
    simpa using hchilds

omit hk hq hrows in
/-- below an empty level there is nothing -/
theorem no_deeper {m n : ℕ} (hmn : m ≤ n) (h : ¬ ∃ k, Under (db.get q.table) q.storyId q.commentId k m) :
    ¬ ∃ k, Under (db.get q.table) q.storyId q.commentId k n := by
  induction n, hmn using Nat.le_induction with
  | base => exact h
  | succ n _ ih =>
    rintro ⟨k, hk'⟩
    obtain ⟨c, -, hp⟩ := under_succ.1 hk'
    exact ih ⟨_, hp⟩

/-- a level with no counter above 0 is the last one -/
theorem last_level {level : ℕ} (h : ¬ (rows level).any (0 < ·.childs)) {n : ℕ} {r : Row} (hn : level ≤ n) (hr : r ∈ rows n) :
    n = level := by
  by_contra hne
  rw [deeper_iff hk hq hrows] at h
  exact no_deeper (by omega : level + 1 ≤ n) h ⟨r.id, ((mem_ans hk hq hrows).1 hr).1⟩

/-- the comments of different levels are different -/
theorem ids_disjoint {m n : ℕ} {r r' : Row} (hr : r ∈ rows m) (hr' : r' ∈ rows n) (hid : r.id = r'.id) : m = n := by
  have h1 := ((mem_ans hk hq hrows).1 hr).1
  have h2 := ((mem_ans hk hq hrows).1 hr').1
  rw [hid] at h1
  exact depth_unique hk hq h1 h2

section Answers

variable {ans : ℕ → Option (List Row)}

/-- the last level ends the search -/
theorem fetchLowerLevels_last (display : ℤ) (fuel level : ℕ) (hlevel : ans level = some (rows level))
    (hlast : ¬ (rows level).any (0 < ·.childs)) :
    ∃ rest, fetchLowerLevels display ans (fuel + 1) level = .ok rest ∧
      (∀ r, r ∈ rest ↔ ∃ n r₀, level ≤ n ∧ r₀ ∈ rows n ∧ r = lower display r₀) ∧ (rest.map Row.id).Nodup := by
  refine ⟨(rows level).map (lower display), ?_, fun r => ?_, by rw [map_lower_id]; exact nodup_ans hrows level⟩
  · rw [fetchLowerLevels, hlevel]
    exact if_neg hlast
  · rw [List.mem_map]
    constructor
    · rintro ⟨r₀, hr₀, rfl⟩
      exact ⟨level, r₀, le_rfl, hr₀, rfl⟩
    · rintro ⟨n, r₀, hn, hr₀, rfl⟩
      rw [last_level hk hq hrows hlast hn hr₀] at hr₀
      exact ⟨r₀, hr₀, rfl⟩

/-- the levels from one on are fetched, each comment once, when their queries are answered -/
theorem fetchLowerLevels_spec (hans : ∀ n, Asked (db.get q.table) q.storyId q.commentId n → ans n = some (rows n))
    (display : ℤ) (fuel level : ℕ) (hfuel : (db.get q.table).next ≤ level + fuel)
    (hlevel : ∃ k, Under (db.get q.table) q.storyId q.commentId k level) :
    ∃ rest, fetchLowerLevels display ans (fuel + 1) level = .ok rest ∧
      (∀ r, r ∈ rest ↔ ∃ n r₀, level ≤ n ∧ r₀ ∈ rows n ∧ r = lower display r₀) ∧ (rest.map Row.id).Nodup := by
  induction fuel generalizing level with
  | zero =>
    refine fetchLowerLevels_last hk hq hrows display 0 level (hans level (.inr hlevel)) ?_
    rw [deeper_iff hk hq hrows]
    rintro ⟨k, hk'⟩
    obtain ⟨c, hc, -⟩ := story_of_under hk hq hk'
    have h1 := depth_lt hk hq hk'
    have h2 := Table.lt_next_of_get? hc
    omega
  | succ fuel ih =>
    by_cases hdeep : (rows level).any (0 < ·.childs)
    · obtain ⟨rest, hrest, hmem, hnodup⟩ := ih (level + 1) (by omega) ((deeper_iff hk hq hrows).1 hdeep)
      refine ⟨(rows level).map (lower display) ++ rest, ?_, fun r => ?_, ?_⟩
      · rw [fetchLowerLevels, hans level (.inr hlevel)]
        simp only [hdeep, if_true, hrest]
        rfl
      · rw [List.mem_append, List.mem_map, hmem]
        constructor
        · rintro (⟨r₀, hr₀, rfl⟩ | ⟨n, r₀, hn, hr₀, rfl⟩)
          · exact ⟨level, r₀, le_rfl, hr₀, rfl⟩
          · exact ⟨n, r₀, by omega, hr₀, rfl⟩
        · rintro ⟨n, r₀, hn, hr₀, rfl⟩
          rcases hn.eq_or_lt with rfl | hlt
          · exact .inl ⟨r₀, hr₀, rfl⟩
          · exact .inr ⟨n, r₀, hlt, hr₀, rfl⟩
      · rw [List.map_append, map_lower_id, List.nodup_append']
        refine ⟨nodup_ans hrows level, hnodup, ?_⟩
        intro k hk1 hk2
        obtain ⟨r, hr, rfl⟩ := List.mem_map.1 hk1
        obtain ⟨r', hr', hid⟩ := List.mem_map.1 hk2
        obtain ⟨n, r₀, hn, hr₀, rfl⟩ := (hmem r').1 hr'
        rw [lower_id] at hid
        have := ids_disjoint hk hq hrows hr₀ hr hid
        omega
    · exact fetchLowerLevels_last hk hq hrows display (fuel + 1) level (hans level (.inr hlevel)) hdeep

/-- **The map is the tree.** Its comments are those of the tree, each once, with the columns of the table. -/
theorem fetchComments_spec (hans : ∀ n, Asked (db.get q.table) q.storyId q.commentId n → ans n = some (rows n))
    (display : ℤ) (fuel : ℕ) (hfuel : (db.get q.table).next ≤ fuel) :
    ∃ map, fetchComments display ans (fuel + 1) = .ok map ∧
      (∀ r, r ∈ map ↔ ∃ n r₀, r₀ ∈ rows n ∧ r = atDepth display n r₀) ∧ (map.map Row.id).Nodup := by
  by_cases hdeep : (rows 0).any (0 < ·.childs)
  · obtain ⟨rest, hrest, hmem, hnodup⟩ := fetchLowerLevels_spec hk hq hrows hans display fuel 1 (by omega)
      ((deeper_iff hk hq hrows).1 hdeep)
    refine ⟨rows 0 ++ rest, ?_, fun r => ?_, ?_⟩
    · rw [fetchComments, hans 0 (.inl rfl)]
      simp only [hdeep, if_true, hrest]
      rfl
    · rw [List.mem_append, hmem]
      constructor
      · rintro (hr | ⟨n, r₀, hn, hr₀, rfl⟩)
        · exact ⟨0, r, hr, rfl⟩
        · exact ⟨n, r₀, hr₀, by rw [atDepth, if_neg (by omega)]⟩
      · rintro ⟨n, r₀, hr₀, rfl⟩
        cases n with
        | zero => exact .inl hr₀
        | succ n => exact .inr ⟨n + 1, r₀, by omega, hr₀, rfl⟩
    · rw [List.map_append, List.nodup_append']
      refine ⟨nodup_ans hrows 0, hnodup, ?_⟩
      intro k hk1 hk2
      obtain ⟨r, hr, rfl⟩ := List.mem_map.1 hk1
      obtain ⟨r', hr', hid⟩ := List.mem_map.1 hk2
      obtain ⟨n, r₀, hn, hr₀, rfl⟩ := (hmem r').1 hr'
      rw [lower_id] at hid
      have := ids_disjoint hk hq hrows hr₀ hr hid
      omega
  · refine ⟨rows 0, ?_, fun r => ⟨fun hr => ⟨0, r, hr, rfl⟩, ?_⟩, nodup_ans hrows 0⟩
    · rw [fetchComments, hans 0 (.inl rfl)]
      exact if_neg hdeep
    · rintro ⟨n, r₀, hr₀, rfl⟩
      obtain rfl := last_level hk hq hrows hdeep (Nat.zero_le n) hr₀
      exact hr₀

/-- the search for lower levels has an answer for each of them -/
theorem answered_of_fetchLowerLevels (hans : ∀ n rs, ans n = some rs → rs = rows n) {display : ℤ} {fuel level : ℕ}
    {rest : List Row} (h : fetchLowerLevels display ans fuel level = .ok rest) {n : ℕ} (hn : level ≤ n)
    (hasked : n = level ∨ ∃ k, Under (db.get q.table) q.storyId q.commentId k n) : (ans n).isSome := by
  induction fuel generalizing level rest with
  | zero => cases h
  | succ fuel ih =>
    rw [fetchLowerLevels] at h
    cases hlevel : ans level with
    | none =>
      rw [hlevel] at h
      cases h
    | some follow =>
      rcases hn.eq_or_lt with rfl | hlt
      · rw [hlevel]
        rfl
      have hunder := hasked.resolve_left (by omega)
      rw [hlevel] at h
      obtain rfl := hans level follow hlevel
      by_cases hdeep : (rows level).any (0 < ·.childs)
      · simp only [hdeep, if_true] at h
        cases hrest : fetchLowerLevels display ans fuel (level + 1) with
        | error e =>
          rw [hrest] at h
          cases h
        | ok rest' => exact ih hrest hlt (.inr hunder)
      · rw [deeper_iff hk hq hrows] at hdeep
        exact absurd hunder (no_deeper hlt hdeep)

/-- a map has an answer for every level of the tree -/
theorem answered_of_fetchComments (hans : ∀ n rs, ans n = some rs → rs = rows n) {display : ℤ} {fuel : ℕ} {map : List Row}
    (h : fetchComments display ans fuel = .ok map) {n : ℕ} (hasked : Asked (db.get q.table) q.storyId q.commentId n) :
    (ans n).isSome := by
  rw [fetchComments] at h
  cases hfirst : ans 0 with
  | none =>
    rw [hfirst] at h
    cases h
  | some rs =>
    rcases Nat.eq_zero_or_pos n with rfl | hpos
    · rw [hfirst]
      rfl
    have hunder := hasked.resolve_left (by omega)
    rw [hfirst] at h
    obtain rfl := hans 0 rs hfirst
    by_cases hdeep : (rows 0).any (0 < ·.childs)
    · simp only [hdeep, if_true] at h
      cases hrest : fetchLowerLevels display ans fuel 1 with
      | error e =>
        rw [hrest] at h
        cases h
      | ok rest => exact answered_of_fetchLowerLevels hk hq hrows hans hrest hpos (.inr hunder)
    · rw [deeper_iff hk hq hrows] at hdeep
      exact absurd hunder (no_deeper hpos hdeep)

end Answers

/-! ## The forest of the map -/

section Map

variable {map : List Row} {display : ℤ} (hmem : ∀ r, r ∈ map ↔ ∃ n r₀, r₀ ∈ rows n ∧ r = atDepth display n r₀)
  (hnodup : (map.map Row.id).Nodup)

include hmem

/-- the comments of the map are in the tree, with the columns of the table -/
theorem of_mem_map {r : Row} (hr : r ∈ map) : ∃ n c, Under (db.get q.table) q.storyId q.commentId r.id n ∧
    (db.get q.table).get? r.id = some c ∧ r.parent = c.parent ∧ r.childs = c.childs ∧ r.rating = c.rating ∧
    (rowOf db (r.id, c)).map (atDepth display n) = some r := by
  obtain ⟨n, r₀, hr₀, rfl⟩ := (hmem r).1 hr
  obtain ⟨hunder, c, hc, hrow⟩ := (mem_ans hk hq hrows).1 hr₀
  obtain ⟨-, hparent, hchilds, hrating⟩ := rowOf_id hrow
  obtain ⟨h1, h2, h3⟩ := atDepth_columns display n r₀
  rw [atDepth_id]
  exact ⟨n, c, hunder, hc, h1.trans hparent, h2.trans hchilds, h3.trans hrating, by rw [hrow]; rfl⟩

theorem exists_mem_map {k n : ℕ} (h : Under (db.get q.table) q.storyId q.commentId k n) : ∃ r ∈ map, r.id = k := by
  obtain ⟨r, hr, hid⟩ := exists_ans hk hq hrows h
  exact ⟨atDepth display n r, (hmem _).2 ⟨n, r, hr, rfl⟩, by rw [atDepth_id, hid]⟩

omit hk hq hrows hmem in
theorem mem_children {r : Row} {k : ℕ} : r ∈ children columns map k ↔ r ∈ map ∧ r.parent = k :=
  List.mem_filter.trans (and_congr_right fun _ => decide_eq_true_iff)

/-- replies are younger -/
theorem id_lt_of_mem_branch {c b : Row} (hb : b ∈ branch columns map c) : c.id < b.id ∧ b.id < (db.get q.table).next := by
  obtain ⟨hb, hparent⟩ := mem_children.1 hb
  have hparent : b.parent = c.id := hparent
  obtain ⟨n, e, -, he, hcol, -⟩ := of_mem_map hk hq hrows hmem hb
  refine ⟨?_, Table.lt_next_of_get? he⟩
  by_cases h0 : e.parent = 0
  · have := hk.pos _ e he
    omega
  · have := (hk.older _ e he h0).1
    omega

theorem leaves_counted : LeavesCounted columns map := by
  intro c hc hno
  obtain ⟨n, e, -, he, -, hchilds, -⟩ := of_mem_map hk hq hrows hmem hc
  have hzero : replies (db.get q.table) c.id = 0 := by
    rw [← hk.counted _ e he, ← hchilds]
    simpa [columns] using hno
  rw [List.eq_nil_iff_forall_not_mem]
  intro b hb
  obtain ⟨hb, hparent⟩ := mem_children.1 hb
  obtain ⟨m, e', -, he', hcol, -⟩ := of_mem_map hk hq hrows hmem hb
  rw [replies, List.countP_eq_zero] at hzero
  exact hzero _ (Table.mem_rows.2 he') (decide_eq_true (hcol.symm.trans hparent))

theorem mem_level {F : Forest Row} (hroots : F.roots = children columns map q.parent)
    (hF : F.Branches (branch columns map)) {n : ℕ} {r : Row} :
    r ∈ F.level n ↔ r ∈ map ∧ Under (db.get q.table) q.storyId q.commentId r.id n := by
  induction n generalizing r with
  | zero =>
    rw [Forest.level_zero, hroots, mem_children]
    refine and_congr_right fun hr => ?_
    obtain ⟨n, c, hunder, hc, hcol, -⟩ := of_mem_map hk hq hrows hmem hr
    constructor
    · intro hparent
      cases n with
      | zero => exact hunder
      | succ n =>
        obtain ⟨c', hc', hp⟩ := under_succ.1 hunder
        rw [hc] at hc'
        cases hc'
        have := parent_lt hk hq hp
        omega
    · intro h
      cases h with
      | root h =>
        obtain ⟨c', hc', -, hparent, -⟩ := parent_of_root hq h
        rw [hc] at hc'
        cases hc'
        exact hcol.trans hparent
  | succ n ih =>
    rw [Forest.level_succ hF, List.mem_flatMap]
    constructor
    · rintro ⟨c, hc, hr⟩
      obtain ⟨hr, hparent⟩ := mem_children.1 hr
      obtain ⟨m, e, -, he, hcol, -⟩ := of_mem_map hk hq hrows hmem hr
      exact ⟨hr, .reply (ih.1 hc).2 he (hcol.symm.trans hparent)⟩
    · rintro ⟨hr, hunder⟩
      obtain ⟨c, hc, hp⟩ := under_succ.1 hunder
      obtain ⟨p, hpmap, hpid⟩ := exists_mem_map hk hq hrows hmem hp
      obtain ⟨m, e, -, he, hcol, -⟩ := of_mem_map hk hq hrows hmem hr
      rw [hc] at he
      cases he
      refine ⟨p, ih.2 ⟨hpmap, by rwa [hpid]⟩, mem_children.2 ⟨hr, ?_⟩⟩
      rw [hcol]
      exact hpid.symm

include hnodup

theorem nodup_level {F : Forest Row} (hroots : F.roots = children columns map q.parent)
    (hF : F.Branches (branch columns map)) (n : ℕ) : ((F.level n).map Row.id).Nodup := by
  have hinj : ∀ r ∈ map, ∀ r' ∈ map, r.id = r'.id → r = r' := fun r hr r' hr' => List.inj_on_of_nodup_map hnodup hr hr'
  have hmap : map.Nodup := hnodup.of_map _
  have hcomments : (F.level n).Nodup := by
    induction n with
    | zero =>
      rw [Forest.level_zero, hroots]
      exact hmap.filter _
    | succ n ih =>
      rw [Forest.level_succ hF, List.nodup_flatMap]
      refine ⟨fun c _ => hmap.filter _, ih.pairwise_of_forall_ne fun c hc c' hc' hne => ?_⟩
      intro r hr hr'
      have hid : c.id = c'.id := (mem_children.1 hr).2.symm.trans (mem_children.1 hr').2
      have h1 := ((mem_level hk hq hrows hmem hroots hF).1 hc).1
      have h2 := ((mem_level hk hq hrows hmem hroots hF).1 hc').1
      exact hne (hinj c h1 c' h2 hid)
  refine List.Nodup.map_on ?_ hcomments
  intro r hr r' hr' hid
  exact hinj r ((mem_level hk hq hrows hmem hroots hF).1 hr).1 r' ((mem_level hk hq hrows hmem hroots hF).1 hr').1 hid

theorem branch_perm {F : Forest Row} (hroots : F.roots = children columns map q.parent)
    (hF : F.Branches (branch columns map)) :
    F.All fun c below => (below.roots.map Row.id).Perm (replyIds (db.get q.table) c.id) := by
  refine Forest.All.imp (e := 0) ?_ hF
  intro c d below hmemF hbelow
  obtain ⟨n, -, hlevel⟩ := Forest.mem_preorder.1 hmemF
  obtain ⟨hc, hunder⟩ := (mem_level hk hq hrows hmem hroots hF).1 hlevel
  rw [hbelow]
  have hleft : ((branch columns map c).map Row.id).Nodup := hnodup.sublist (List.filter_sublist.map _)
  have hright : (replyIds (db.get q.table) c.id).Nodup := (db.get q.table).nodup.sublist (List.filter_sublist.map _)
  rw [List.perm_ext_iff_of_nodup hleft hright]
  intro k
  rw [mem_replyIds, List.mem_map]
  constructor
  · rintro ⟨r, hr, rfl⟩
    obtain ⟨hr, hparent⟩ := mem_children.1 hr
    obtain ⟨m, e, -, he, hcol, -⟩ := of_mem_map hk hq hrows hmem hr
    exact ⟨e, he, hcol.symm.trans hparent⟩
  · rintro ⟨e, he, hparent⟩
    obtain ⟨r, hr, rfl⟩ := exists_mem_map hk hq hrows hmem (.reply hunder he hparent)
    obtain ⟨m, e', -, he', hcol, -⟩ := of_mem_map hk hq hrows hmem hr
    rw [he] at he'
    cases he'
    exact ⟨r, mem_children.2 ⟨hr, hcol.trans hparent⟩, rfl⟩

/-- the display of the map -/
theorem displayComments_spec (filter : ℤ) (hdisplay : 0 < display) (n : ℕ) (hn : (db.get q.table).next ≤ n) :
    ∃ shown F, displayComments columns map filter display (n + 1) q.parent = some shown ∧
      Displays db q filter display shown F := by
  have hsmaller : ∀ c, ∀ b ∈ branch columns map c, (db.get q.table).next - b.id < (db.get q.table).next - c.id := by
    intro c b hb
    have := id_lt_of_mem_branch hk hq hrows hmem hb
    omega
  obtain ⟨shown, hshown, hentries⟩ := displayComments_entries filter (fun r => (db.get q.table).next - r.id)
    hsmaller (leaves_counted hk hq hrows hmem) hdisplay n q.parent (fun c _ => by omega)
  obtain ⟨hroots, hF⟩ := Forest.branches_grow (fun r => (db.get q.table).next - r.id) hsmaller (n + 1)
    (children columns map q.parent) (fun c _ => by omega)
  have hlevel := @mem_level db q hk hq rows hrows map display hmem _ hroots hF
  refine ⟨shown, _, hshown, branch_perm hk hq hrows hmem hnodup hroots hF, hentries, ?_, ?_, ?_⟩
  · refine Forest.nodup_preorder Row.id (nodup_level hk hq hrows hmem hnodup hroots hF) ?_
    intro k m n' hm hn'
    obtain ⟨r, hr, rfl⟩ := List.mem_map.1 hm
    obtain ⟨r', hr', hid⟩ := List.mem_map.1 hn'
    have h1 := (hlevel.1 hr).2
    have h2 := (hlevel.1 hr').2
    rw [hid] at h2
    exact depth_unique hk hq h1 h2
  · intro k d
    constructor
    · rintro ⟨c, hc, rfl⟩
      obtain ⟨m, rfl, hm⟩ := Forest.mem_preorder.1 hc
      rw [zero_add]
      exact (hlevel.1 hm).2
    · intro hunder
      obtain ⟨r, hr, rfl⟩ := exists_mem_map hk hq hrows hmem hunder
      exact ⟨r, Forest.mem_preorder.2 ⟨d, by omega, hlevel.2 ⟨hr, hunder⟩⟩, rfl⟩
  · intro c d hc
    obtain ⟨m, rfl, hm⟩ := Forest.mem_preorder.1 hc
    obtain ⟨hcmap, hunder⟩ := hlevel.1 hm
    obtain ⟨m', e, hunder', he, -, -, -, hrow⟩ := of_mem_map hk hq hrows hmem hcmap
    rw [depth_unique hk hq hunder' hunder] at hrow
    exact ⟨e, he, by rw [zero_add]; exact hrow⟩

end Map

end Fetch

/-- **A tree is displayed**, with enough fuel for the number of comments, exactly when all its levels are answered. -/
theorem fetchAndDisplay_iff {ans : ℕ → Option (List Row)} (hans : ∀ n rs, ans n = some rs → rs.Perm (answer db q n))
    (filter : ℤ) {display : ℤ} (hdisplay : 0 < display) {fuel : ℕ} (hfuel : (db.get q.table).next < fuel) :
    (∃ shown F, fetchAndDisplay filter display ans q.parent fuel = .ok shown ∧ Displays db q filter display shown F) ↔
      ∀ n, Asked (db.get q.table) q.storyId q.commentId n → (ans n).isSome := by
  -- what an answer is or would be
  let rows : ℕ → List Row := fun n => (ans n).getD (answer db q n)
  have hrows : ∀ n, (rows n).Perm (answer db q n) := by
    intro n
    cases hn : ans n with
    | none => simp [rows, hn]
    | some rs => simpa [rows, hn] using hans n rs hn
  constructor
  · rintro ⟨shown, F, hshown, -⟩ n hasked
    cases hmap : fetchComments display ans fuel with
    | error e =>
      rw [fetchAndDisplay, hmap] at hshown
      cases hshown
    | ok map => exact answered_of_fetchComments hk hq hrows (fun n rs hn => by simp [rows, hn]) hmap hasked
  · intro hanswered
    obtain ⟨n, rfl⟩ := Nat.exists_eq_succ_of_ne_zero (by omega : fuel ≠ 0)
    have hanswers : ∀ n, Asked (db.get q.table) q.storyId q.commentId n → ans n = some (rows n) := by
      intro n hn
      obtain ⟨rs, hrs⟩ := Option.isSome_iff_exists.1 (hanswered n hn)
      simp [rows, hrs]
    obtain ⟨map, hmap, hmem, hnodup⟩ := fetchComments_spec hk hq hrows hanswers display n (by omega)
    obtain ⟨shown, F, hshown, hdisplays⟩ := displayComments_spec hk hq hrows hmem hnodup filter hdisplay n (by omega)
    refine ⟨shown, F, ?_, hdisplays⟩
    rw [fetchAndDisplay, hmap]
    simp only [Except.bind, hshown]

/-- **The page has the tree**: its text between the filter and the footer is that of the comments of the tree that pass the
filter, when every level is answered. -/
theorem tree_on_page (sp : CommentPages.ServletPrinter) (a : CommentPages.CommentAnswers)
    (failed : Html.PlainText → Html.Piece) (commentId parent filter display : Html.JInt) (storyId : Html.IntText)
    (commentTable : Html.TableName) (hratings : a.ratings.failure = none) (hcounts : ∀ rs ∈ a.levels, ∀ r ∈ rs, Counts r)
    (hparent : parent.value = q.parent) (hdisplay : 0 < display.value)
    (hans : ∀ (n : ℕ) (rs : List CommentPages.Row), a.levels[n]? = some rs → (rs.map rowOfPage).Perm (answer db q n))
    (hanswered : ∀ n, Asked (db.get q.table) q.storyId q.commentId n → n < a.levels.length)
    {fuel : ℕ} (hfuel : (db.get q.table).next < fuel) (hlevels : a.levels.length < fuel) :
    ∃ (shown : List (Shown CommentPages.Comment)) (F : Forest Row),
      CommentPages.chooserAndComments sp fuel a failed commentId storyId commentTable display filter parent =
        some ((CommentPages.displayFilterChooser commentId storyId commentTable display filter a.ratings).1 ++
          shown.flatMap (docOf filter display commentTable) ++ CommentPages.printHTMLfooter sp) ∧
      Displays db q filter.value display.value (shown.map (Shown.map fun c => rowOfPage c.toRow)) F := by
  let ans : ℕ → Option (List Row) := fun n => a.levels[n]?.map (List.map rowOfPage)
  have hperm : ∀ n rs, ans n = some rs → rs.Perm (answer db q n) := by
    intro n rs hn
    obtain ⟨rs', hrs', rfl⟩ := Option.map_eq_some_iff.1 hn
    exact hans n rs' hrs'
  have hsome : ∀ n, Asked (db.get q.table) q.storyId q.commentId n → (ans n).isSome := by
    intro n hn
    simpa [ans] using hanswered n hn
  obtain ⟨shown, F, hshown, hdisplays⟩ := (fetchAndDisplay_iff hk hq hperm filter.value hdisplay hfuel).2 hsome
  have hpage := comments_on_page sp a failed filter display storyId commentId parent commentTable hratings (fun _ => rfl)
    hcounts (by omega) hlevels
  rw [hparent, Int.toNat_natCast] at hpage
  obtain ⟨shown', rfl, htext⟩ := hpage.2 shown hshown
  exact ⟨shown', F, htext, hdisplays⟩

end Tree

/-! ## Tables that StoreComment builds -/

section Built

open Interleaving
open StoreComment (Point servlet insertOf ParentExists LosesReply exec_effect)

variable {table : CommentTable}

/-- a comment that is to be inserted has parent 0 or a parent of the same story -/
def inStory (table : CommentTable) (db : Db) : Point → Bool
  | .insert q _ => q.comment_table ≠ .known table ∨ q.parent = 0 ∨
      ((db.get table).get? q.parent).any (·.story_id = q.storyId)
  | _ => true

/-- comments are inserted with parent 0 or below a comment of the same story -/
def SameStory (table : CommentTable) (s : Interleaving.St Db Point Output) : Interleaving.Event StoreComment.Request → Prop
  | .statement n true => ∀ p ∈ s.running[n]?, inStory table s.db p
  | _ => True

instance (s : Interleaving.St Db Point Output) : ∀ e, Decidable (SameStory table s e)
  | .statement n true => inferInstanceAs (Decidable (∀ p ∈ s.running[n]?, inStory table s.db p))
  | .statement _ false => isTrue trivial
  | .request _ => isTrue trivial

theorem parent_of_inStory {db : Db} {q : StoreComment.Posted} {userId : ℕ} (h : inStory table db (.insert q userId))
    (htable : q.comment_table = .known table) (hne : q.parent ≠ 0) :
    ∃ p, (db.get table).get? q.parent = some p ∧ p.story_id = q.storyId := by
  simp only [inStory, htable, hne, ne_eq, not_true_eq_false, false_or, decide_eq_true_eq] at h
  obtain ⟨p, hp, hstory⟩ := (Option.any_eq_true _ _).1 h
  exact ⟨p, hp, decide_eq_true_iff.1 hstory⟩

/-- parents are older comments of the same story -/
structure Aged (t : Table Tables.Comment) : Prop where
  pos : ∀ k c, t.get? k = some c → 0 < k
  older : ∀ k c, t.get? k = some c → c.parent ≠ 0 → c.parent < k ∧ ∃ p, t.get? c.parent = some p ∧ p.story_id = c.story_id

theorem aged_insert {t : Table Tables.Comment} (h : Aged t) {r : Tables.Comment}
    (hr : r.parent ≠ 0 → ∃ p, t.get? r.parent = some p ∧ p.story_id = r.story_id) : Aged (t.insert r) where
  pos := by
    intro k c hc
    rw [Table.get?_insert] at hc
    split at hc
    · next hk =>
      have := t.next_pos
      omega
    · exact h.pos k c hc
  older := by
    intro k c hc hne
    -- the comments that were there are found under their ids
    have hold : ∀ {j p}, t.get? j = some p → (t.insert r).get? j = some p := by
      intro j p hp
      have := Table.lt_next_of_get? hp
      rw [Table.get?_insert, if_neg (by omega), hp]
    rw [Table.get?_insert] at hc
    split at hc
    · next hk =>
      cases hc
      obtain ⟨p, hp, hstory⟩ := hr hne
      have := Table.lt_next_of_get? hp
      exact ⟨by omega, p, hold hp, hstory⟩
    · obtain ⟨hlt, p, hp, hstory⟩ := h.older k c hc hne
      exact ⟨hlt, p, hold hp, hstory⟩

theorem aged_update {t : Table Tables.Comment} (h : Aged t) {j : ℕ} {f : Tables.Comment → Tables.Comment}
    (hf : ∀ c, (f c).parent = c.parent ∧ (f c).story_id = c.story_id) : Aged (t.update j f) := by
  -- a row of the new table has the parent and the story of the old one
  have hback : ∀ {k c}, (t.update j f).get? k = some c →
      ∃ c₀, t.get? k = some c₀ ∧ c.parent = c₀.parent ∧ c.story_id = c₀.story_id := by
    intro k c hc
    rw [Table.get?_update] at hc
    split at hc
    · obtain ⟨c₀, hc₀, rfl⟩ := Option.map_eq_some_iff.1 hc
      exact ⟨c₀, hc₀, hf c₀⟩
    · exact ⟨c, hc, rfl, rfl⟩
  refine ⟨?_, ?_⟩
  · intro k c hc
    obtain ⟨c₀, hc₀, -⟩ := hback hc
    exact h.pos k c₀ hc₀
  · intro k c hc hne
    obtain ⟨c₀, hc₀, hparent, hstory⟩ := hback hc
    rw [hparent] at hne ⊢
    obtain ⟨hlt, p, hp, hpstory⟩ := h.older k c₀ hc₀ hne
    refine ⟨hlt, ?_⟩
    rw [Table.get?_update]
    split
    · exact ⟨f p, by rw [hp]; rfl, (hf p).2.trans (hpstory.trans hstory.symm)⟩
    · exact ⟨p, hp, hpstory.trans hstory.symm⟩

theorem aged_statement {s : Interleaving.St Db Point Output} (h : Aged (s.db.get table)) {as bs : List Point} {p : Point}
    {ok : Bool} (hs : s.running = as ++ p :: bs) (hC : SameStory table s (.statement as.length ok)) :
    Aged ((servlet.exec s.db p ok).db.get table) := by
  cases exec_effect table s.db p ok with
  | quiet rows => rwa [rows]
  | lost _ _ _ rows => rwa [rows]
  | updated _ _ _ rows =>
    rw [rows]
    exact aged_update h fun c => ⟨rfl, rfl⟩
  | inserted hp hok htable rows next =>
    rename_i q userId
    subst hp hok
    rw [rows]
    exact aged_insert h (parent_of_inStory (hC (.insert q userId) (by simp [hs])) htable)

theorem aged_run {db : Db} (h : Aged (db.get table)) {es : List (Interleaving.Event StoreComment.Request)}
    (hC : Along (step servlet) (SameStory table) (idle db) es) :
    Aged ((after (step servlet) (idle db) es).db.get table) := by
  refine interleaving_invariant (P := servlet) (fun s => Aged (s.db.get table)) (SameStory table) ?_ ?_ _ es h hC
  · intro s i hs _
    exact hs
  · intro s as p bs ok hA hs hC
    exact aged_statement hA hs hC

theorem parentExists_of_sameStory {s : Interleaving.St Db Point Output} {e : Interleaving.Event StoreComment.Request}
    (h : SameStory table s e) : ParentExists table s e := by
  cases e with
  | request i => trivial
  | statement n ok =>
    cases ok with
    | false => trivial
    | true =>
      intro p hp e he htable
      cases p with
      | insert q userId =>
        cases he
        by_cases h0 : q.parent = 0
        · exact .inl h0
        · obtain ⟨c, hc, -⟩ := parent_of_inStory (h _ hp) htable h0
          exact .inr (by rw [hc]; rfl)
      | authenticate q => cases he
      | update q => cases he

/-- ViewStory asks for the comments on the story -/
def viewStoryQuery (table : CommentTable) (storyId : ℕ) : Query := ⟨table, storyId, 0, 0⟩

/-- ViewComment asks for a comment with the parent that it reads before, `SELECT parent FROM … WHERE id=…` -/
def viewCommentQuery (db : Db) (table : CommentTable) (storyId commentId : ℕ) : Option Query :=
  if commentId = 0 then some ⟨table, storyId, 0, 0⟩
  else ((db.get table).get? commentId).map fun c => ⟨table, storyId, commentId, c.parent⟩

/-- the query of a page: that of ViewStory, or that of ViewComment for the story or one of its comments -/
def PageQuery (db : Db) (table : CommentTable) (q : Query) : Prop :=
  q = viewStoryQuery table q.storyId ∨
    viewCommentQuery db table q.storyId q.commentId = some q ∧
      (q.commentId ≠ 0 → ((db.get table).get? q.commentId).any (·.story_id = q.storyId))

theorem asks_of_pageQuery {db : Db} {q : Query} (h : PageQuery db table q) : q.table = table ∧ Asks (db.get table) q := by
  rcases h with h | ⟨h, hstory⟩
  · rw [h]
    exact ⟨rfl, fun _ => rfl, fun hne => absurd rfl hne⟩
  · unfold viewCommentQuery at h
    split at h
    · have h := (Option.some.inj h).symm
      rw [h]
      exact ⟨rfl, fun _ => rfl, fun hne => absurd rfl hne⟩
    · next hne =>
      obtain ⟨c, hc, hq⟩ := Option.map_eq_some_iff.1 h
      obtain ⟨c', hc', hcstory⟩ := (Option.any_eq_true _ _).1 (hstory hne)
      rw [hc] at hc'
      cases hc'
      refine ⟨by rw [← hq], fun h0 => absurd h0 hne, fun _ => ⟨c, hc, decide_eq_true_iff.1 hcstory, ?_⟩⟩
      rw [← hq]

/-- a comment on story 5 and a reply to it -/
def commentAndReply : List (Interleaving.Event StoreComment.Request) :=
  .request (StoreComment.post 0) :: StoreComment.succeeds 3 ++ .request (StoreComment.post 1) :: StoreComment.succeeds 3

/-- the answers of a server that joins at most so many tables; the query of level n joins the users and n + 1 comments -/
def joins (maxTables : ℕ) (db : Db) (q : Query) (n : ℕ) : Option (List Row) :=
  if n + 2 ≤ maxTables then some (answer db q n) else none

theorem perm_of_joins {maxTables : ℕ} {db : Db} {q : Query} {n : ℕ} {rs : List Row} (h : joins maxTables db q n = some rs) :
    rs.Perm (answer db q n) := by
  unfold joins at h
  split at h
  · cases h
    exact .refl _
  · cases h

/-- a chain of n comments on story 5, each a reply to the one before -/
def chain (n : ℕ) : List (Interleaving.Event StoreComment.Request) :=
  (List.range n).flatMap fun parent => .request (StoreComment.post parent) :: StoreComment.succeeds 3

theorem chain_succeeds (n k : ℕ) : .statement k false ∉ chain n := by simp [chain, StoreComment.succeeds]

end Built

end Rubbos.Servlets.CommentFetch
