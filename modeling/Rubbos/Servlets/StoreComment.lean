/-
Storing comments (`StoreComment.java`).

The servlet looks the writer up, INSERTs the comment and then UPDATEs the number of replies of its parent, in two statements
with no transaction around them. When the UPDATE fails the request ends with an error page, and the comment stays.

- A statement is one step, and may fail without an effect; the steps of the requests interleave in any order.
- The texts of a request are taken to stand in the SQL as they are meant (`SqlStatements.statements_lex_iff` says when).

- `counters_iff`: in every interleaving, once no request runs, the counters are right exactly if no UPDATE of a parent has
  failed.
- `failed_update_loses_reply`: one that does.
-/
import Rubbos.Core.Interleaving
import Rubbos.Servlets.Tables

namespace Rubbos.Servlets.StoreComment

open Rubbos.Core Interleaving Tables

/-! ## Model -/

/-- the parameters of a request; what a statement splices in without quotes is a number here. `now` is the time of the
INSERT. -/
structure Request where
  nickname : Option Text
  password : Option Text
  storyId : Option ℕ
  parent : Option ℕ
  subject : Option Text
  body : Option Text
  comment_table : Option TableName
  now : Text
deriving DecidableEq

/-- the parameters after the checks -/
structure Posted where
  nickname : Text
  password : Text
  storyId : ℕ
  parent : ℕ
  subject : Text
  body : Text
  comment_table : TableName
  now : Text
deriving DecidableEq

inductive Point where
  /-- `sp.authenticate(nickname, password, …)` -/
  | authenticate (q : Posted)
  /-- `INSERT INTO …` -/
  | insert (q : Posted) (userId : ℕ)
  /-- `UPDATE … SET childs=childs+1 WHERE id=…` -/
  | update (q : Posted)
deriving DecidableEq

/-- a reference that is null, spliced into a text -/
def nullText : Text := ['n', 'u', 'l', 'l']

def start (r : Request) : Option Point × List Output :=
  match r.storyId, r.parent, r.subject, r.body, r.comment_table with
  | none, _, _, _, _ => (none, [.html "StoreComment, You must provide a story identifier!<br>"])
  | _, none, _, _, _ => (none, [.html "StoreComment, You must provide a follow up identifier!<br>"])
  | _, _, none, _, _ => (none, [.html "StoreComment, You must provide a comment subject!<br>"])
  | _, _, _, none, _ => (none, [.html "StoreComment, <h3>You must provide a comment body!<br></h3>"])
  | _, _, _, _, none => (none, [.html "Viewing comment, You must provide a comment table!<br>"])
  | some storyId, some parent, some subject, some body, some comment_table =>
    (some (.authenticate ⟨r.nickname.getD nullText, r.password.getD nullText, storyId, parent, subject, body, comment_table,
      r.now⟩),
      [.header "RUBBoS: Comment submission result", .html "<center><h2>Comment submission result:</h2></center><p>\n"])

/-- `catch (Exception e)` -/
def failed (db : Db) : Outcome Db Point Output := ⟨db, none, [.exception "Exception getting categories: " "<br>"]⟩

/-- the row that is inserted -/
def Posted.row (q : Posted) (userId : ℕ) : Tables.Comment := ⟨userId, q.storyId, q.parent, 0, 0, q.now, q.subject, q.body⟩

/-- `SET childs=childs+1` -/
def addReply (c : Tables.Comment) : Tables.Comment := { c with childs := c.childs + 1 }

/-- a statement that succeeds -/
def succeed (db : Db) : Point → Outcome Db Point Output
  | .authenticate q =>
    match db.findUser q.nickname q.password with
    | none => ⟨db, some (.insert q 0), [.html "Comment posted by the 'Anonymous Coward'<br>\n"]⟩
    | some (userId, _) =>
      ⟨db, some (.insert q userId), [.html (if userId = 0 then "Comment posted by the 'Anonymous Coward'<br>\n"
        else "Comment posted by user #" ++ toString userId ++ "<br>\n")]⟩
  | .insert q userId =>
    match q.comment_table with
    | .other _ => failed db
    | .known table => ⟨db.set table ((db.get table).insert (q.row userId)), some (.update q), []⟩
  | .update q =>
    match q.comment_table with
    | .other _ => failed db
    | .known table =>
      ⟨db.set table ((db.get table).update q.parent addReply), none,
        [.html ("Your comment has been successfully stored in the " ++ String.ofList q.comment_table.text ++
          " database table<br>\n"), .footer]⟩

/-- a statement that throws; what `authenticate` returns then is not a number, which ends the request as well -/
def fail (db : Db) : Point → Outcome Db Point Output
  | .authenticate _ => ⟨db, none, []⟩
  | .insert _ _ | .update _ => failed db

def servlet : Program Db Request Point Output where
  start := start
  exec := fun db p ok => if ok then succeed db p else fail db p

/-! ## Counters -/

/-- the number of replies to a comment -/
def replies (t : Table Tables.Comment) (k : ℕ) : ℕ := t.rows.countP fun e => e.2.parent = k

/-- the counter of every comment is the number of its replies -/
def Counted (t : Table Tables.Comment) : Prop := ∀ k c, t.get? k = some c → c.childs = replies t k

/-- every parent is 0 or a comment -/
def Referenced (t : Table Tables.Comment) : Prop := ∀ k c, t.get? k = some c → c.parent = 0 ∨ (t.get? c.parent).isSome

/-- the request is going to UPDATE the counter of the comment -/
def Updates (table : CommentTable) (k : ℕ) : Point → Bool
  | .update q => q.comment_table = .known table ∧ q.parent = k
  | _ => false

/-- the table for which the request is going to UPDATE a counter, and the comment -/
def updateOf : Point → Option (TableName × ℕ)
  | .update q => some (q.comment_table, q.parent)
  | _ => none

/-- the table into which the request is going to INSERT, and the parent -/
def insertOf : Point → Option (TableName × ℕ)
  | .insert q _ => some (q.comment_table, q.parent)
  | _ => none

/-- a comment is inserted with parent 0 or below a comment of the table -/
def ParentExists (table : CommentTable) (s : Interleaving.St Db Point Output) : Interleaving.Event Request → Prop
  | .statement n true => ∀ p ∈ s.running[n]?, ∀ e ∈ insertOf p, e.1 = .known table →
      e.2 = 0 ∨ ((s.db.get table).get? e.2).isSome
  | _ => True

/-- the UPDATE of the counter of a comment fails -/
def LosesReply (table : CommentTable) (s : Interleaving.St Db Point Output) : Interleaving.Event Request → Prop
  | .statement n false => ∃ p ∈ s.running[n]?, ∃ e ∈ updateOf p, e.1 = .known table ∧ ((s.db.get table).get? e.2).isSome
  | _ => False

instance (table : CommentTable) (s : Interleaving.St Db Point Output) : ∀ e, Decidable (ParentExists table s e)
  | .statement n true => inferInstanceAs (Decidable (∀ p ∈ s.running[n]?, ∀ e ∈ insertOf p, e.1 = .known table →
      e.2 = 0 ∨ ((s.db.get table).get? e.2).isSome))
  | .statement _ false => isTrue trivial
  | .request _ => isTrue trivial

/-! ## One statement -/

variable {table : CommentTable} {k : ℕ}

/-- what a statement does to a table of comments -/
inductive Effect (table : CommentTable) (db : Db) (p : Point) (ok : Bool) : Outcome Db Point Output → Prop
  | quiet {o} (rows : o.db.get table = db.get table)
      (pending : ∀ k, o.next.toList.countP (Updates table k) = [p].countP (Updates table k))
      (hp : ∀ q, p = .update q → q.comment_table ≠ .known table) : Effect table db p ok o
  | inserted {o q userId} (hp : p = .insert q userId) (hok : ok = true) (htable : q.comment_table = .known table)
      (rows : o.db.get table = (db.get table).insert (q.row userId)) (next : o.next = some (.update q)) :
      Effect table db p ok o
  | updated {o q} (hp : p = .update q) (hok : ok = true) (htable : q.comment_table = .known table)
      (rows : o.db.get table = (db.get table).update q.parent addReply)
      (next : o.next = none) : Effect table db p ok o
  | lost {o q} (hp : p = .update q) (hok : ok = false) (htable : q.comment_table = .known table)
      (rows : o.db.get table = db.get table) (next : o.next = none) : Effect table db p ok o

theorem exec_effect (table : CommentTable) (db : Db) (p : Point) (ok : Bool) :
    Effect table db p ok (servlet.exec db p ok) := by
  cases p with
  | authenticate q =>
    have hquiet : ∀ o : Outcome Db Point Output, o.db = db → (o.next = none ∨ ∃ userId, o.next = some (.insert q userId)) →
        Effect table db (.authenticate q) ok o := by
      intro o hdb hnext
      refine .quiet (by rw [hdb]) (fun k => ?_) (by simp)
      rcases hnext with h | ⟨userId, h⟩ <;> simp [h, Updates]
    cases ok with
    | false => exact hquiet _ rfl (.inl rfl)
    | true =>
      simp only [servlet, if_true, succeed]
      split
      · exact hquiet _ rfl (.inr ⟨_, rfl⟩)
      · exact hquiet _ rfl (.inr ⟨_, rfl⟩)
  | insert q userId =>
    cases ok with
    | false => exact .quiet rfl (fun k => by simp [servlet, fail, failed, Updates]) (by simp)
    | true =>
      simp only [servlet, if_true, succeed]
      split
      · exact .quiet rfl (fun k => by simp [failed, Updates]) (by simp)
      · next t ht =>
        by_cases htable : table = t
        · subst htable
          exact .inserted rfl rfl ht (by simp) rfl
        · have hne : t ≠ table := fun h => htable h.symm
          exact .quiet (by simp [htable]) (fun k => by simp [Updates, ht, hne]) (by simp)
  | update q =>
    by_cases htable : q.comment_table = .known table
    · cases ok with
      | false => exact .lost rfl rfl htable rfl rfl
      | true =>
        refine .updated rfl rfl htable ?_ ?_
        · simp [servlet, succeed, htable]
        · simp [servlet, succeed, htable]
    · have hp : ∀ q', Point.update q = .update q' → q'.comment_table ≠ .known table := by
        intro q' h
        cases h
        exact htable
      cases ok with
      | false => exact .quiet rfl (fun k => by simp [servlet, fail, failed, Updates, htable]) hp
      | true =>
        simp only [servlet, if_true, succeed]
        split
        · exact .quiet rfl (fun k => by simp [failed, Updates, htable]) hp
        · next t ht =>
          have hne : table ≠ t := by
            rintro rfl
            exact htable ht
          exact .quiet (by simp [hne]) (fun k => by simp [Updates, htable]) hp

/-! ## Replies that are not counted -/

/-- the replies that no counter knows of, and that no request is going to count -/
def slack (table : CommentTable) (k : ℕ) (s : Interleaving.St Db Point Output) : ℤ :=
  match (s.db.get table).get? k with
  | none => 0
  | some c => replies (s.db.get table) k - c.childs - s.running.countP (Updates table k)

/-- the parents of the comments, and of those that are still to be counted, are 0 or comments -/
structure Grounded (table : CommentTable) (s : Interleaving.St Db Point Output) : Prop where
  rows : Referenced (s.db.get table)
  running : ∀ p ∈ s.running, ∀ e ∈ updateOf p, e.1 = .known table → e.2 = 0 ∨ ((s.db.get table).get? e.2).isSome

theorem replies_update (t : Table Tables.Comment) (j : ℕ) (f : Tables.Comment → Tables.Comment)
    (hf : ∀ c, (f c).parent = c.parent) :
    replies (t.update j f) k = replies t k := by
  simp only [replies, Table.update, List.countP_map]
  congr 1
  funext e
  by_cases he : e.1 = j <;> simp [he, hf]

theorem replies_insert (t : Table Tables.Comment) (r : Tables.Comment) :
    replies (t.insert r) k = replies t k + if r.parent = k then 1 else 0 := by
  by_cases hr : r.parent = k <;> simp [replies, Table.insert, hr]

/-- no comment is a reply to one that is not there yet -/
theorem replies_next {t : Table Tables.Comment} (h : Referenced t) : replies t t.next = 0 := by
  have hpos := t.next_pos
  rw [replies, List.countP_eq_zero]
  intro e he hparent
  have hparent' : e.2.parent = t.next := by simpa using hparent
  rcases h e.1 e.2 (Table.mem_rows.1 he) with h0 | hsome
  · omega
  · rw [hparent', Table.get?_next] at hsome
    cases hsome

theorem updates_iff {p : Point} : Updates table k p ↔ updateOf p = some (.known table, k) := by
  cases p <;> simp [Updates, updateOf]

/-- nobody is going to count a reply to a comment that is not there yet -/
theorem pending_next {s : Interleaving.St Db Point Output} (h : Grounded table s) :
    s.running.countP (Updates table (s.db.get table).next) = 0 := by
  rw [List.countP_eq_zero]
  intro p hp hup
  have hpos := (s.db.get table).next_pos
  rcases h.running p hp _ (updates_iff.1 hup) rfl with h0 | hsome
  · omega
  · rw [Table.get?_next] at hsome
    cases hsome

theorem slack_quiet {s : Interleaving.St Db Point Output} {as bs : List Point} {p : Point} (hs : s.running = as ++ p :: bs)
    {o : Outcome Db Point Output} (rows : o.db.get table = s.db.get table)
    (pending : o.next.toList.countP (Updates table k) = [p].countP (Updates table k)) :
    slack table k (advance s as bs o) = slack table k s := by
  have hrows : (advance s as bs o).db.get table = s.db.get table := rows
  have hcount : (advance s as bs o).running.countP (Updates table k) = s.running.countP (Updates table k) := by
    rw [countP_advance, countP_running hs, pending]
  unfold slack
  rw [hrows, hcount]

theorem slack_inserted {s : Interleaving.St Db Point Output} (h : Grounded table s) {as bs : List Point} {q : Posted}
    {userId : ℕ} (hs : s.running = as ++ .insert q userId :: bs) (htable : q.comment_table = .known table)
    (hparent : q.parent = 0 ∨ ((s.db.get table).get? q.parent).isSome) {o : Outcome Db Point Output}
    (rows : o.db.get table = (s.db.get table).insert (q.row userId)) (next : o.next = some (.update q)) :
    slack table k (advance s as bs o) = slack table k s := by
  have hrows : (advance s as bs o).db.get table = (s.db.get table).insert (q.row userId) := rows
  have hcount : (advance s as bs o).running.countP (Updates table k) =
      s.running.countP (Updates table k) + if q.parent = k then 1 else 0 := by
    have hp : [Point.insert q userId].countP (Updates table k) = 0 := by simp [Updates]
    have hn : [Point.update q].countP (Updates table k) = if q.parent = k then 1 else 0 := by
      by_cases hk : q.parent = k <;> simp [Updates, htable, hk]
    rw [countP_advance, countP_running hs, next, Option.toList_some, hp, hn]
    omega
  unfold slack
  rw [hrows, hcount, Table.get?_insert, replies_insert]
  by_cases hk : k = (s.db.get table).next
  · -- the new comment has no replies yet
    subst hk
    have hpos := (s.db.get table).next_pos
    have hne : q.parent ≠ (s.db.get table).next := by
      intro he
      rcases hparent with h0 | hsome
      · omega
      · rw [he, Table.get?_next] at hsome
        cases hsome
    simp [Table.get?_next, replies_next h.rows, pending_next h, Posted.row, hne]
  · rw [if_neg hk]
    cases (s.db.get table).get? k with
    | none => rfl
    | some c =>
      have hrow : (q.row userId).parent = q.parent := rfl
      rw [hrow]
      push_cast
      ring

theorem slack_updated {s : Interleaving.St Db Point Output} {as bs : List Point} {q : Posted}
    (hs : s.running = as ++ .update q :: bs) (htable : q.comment_table = .known table) {o : Outcome Db Point Output}
    (rows : o.db.get table = (s.db.get table).update q.parent addReply)
    (next : o.next = none) : slack table k (advance s as bs o) = slack table k s := by
  have hrows : (advance s as bs o).db.get table =
      (s.db.get table).update q.parent addReply := rows
  have hcount : s.running.countP (Updates table k) =
      (advance s as bs o).running.countP (Updates table k) + if q.parent = k then 1 else 0 := by
    have hp : [Point.update q].countP (Updates table k) = if q.parent = k then 1 else 0 := by
      by_cases hk : q.parent = k <;> simp [Updates, htable, hk]
    rw [countP_advance, countP_running hs, next, Option.toList_none, hp, List.countP_nil]
    omega
  unfold slack
  rw [hrows, hcount, Table.get?_update, replies_update _ _ addReply (fun _ => rfl)]
  by_cases hk : k = q.parent
  · subst hk
    cases (s.db.get table).get? q.parent with
    | none => simp
    | some c =>
      simp only [if_true, Option.map_some, addReply]
      push_cast
      ring
  · have hk' : q.parent ≠ k := fun h => hk h.symm
    simp [hk, hk']

theorem slack_lost {s : Interleaving.St Db Point Output} {as bs : List Point} {q : Posted}
    (hs : s.running = as ++ .update q :: bs) (htable : q.comment_table = .known table) {o : Outcome Db Point Output}
    (rows : o.db.get table = s.db.get table) (next : o.next = none) :
    slack table k (advance s as bs o) =
      slack table k s + if q.parent = k ∧ ((s.db.get table).get? k).isSome then 1 else 0 := by
  have hrows : (advance s as bs o).db.get table = s.db.get table := rows
  have hcount : s.running.countP (Updates table k) =
      (advance s as bs o).running.countP (Updates table k) + if q.parent = k then 1 else 0 := by
    have hp : [Point.update q].countP (Updates table k) = if q.parent = k then 1 else 0 := by
      by_cases hk : q.parent = k <;> simp [Updates, htable, hk]
    rw [countP_advance, countP_running hs, next, Option.toList_none, hp, List.countP_nil]
    omega
  unfold slack
  rw [hrows, hcount]
  cases (s.db.get table).get? k with
  | none => simp
  | some c =>
    by_cases hk : q.parent = k
    · simp only [hk, if_true, Option.isSome_some, and_self]
      push_cast
      ring
    · simp [hk]

/-! ## All interleavings -/

theorem updateOf_start (r : Request) {p : Point} (hp : p ∈ (start r).1.toList) : updateOf p = none := by
  unfold start at hp
  split at hp <;> simp at hp
  subst hp
  rfl

theorem grounded_request {s : Interleaving.St Db Point Output} (h : Grounded table s) (r : Request) :
    Grounded table (arrive s (start r)) where
  rows := h.rows
  running := by
    intro p hp e he
    rcases List.mem_append.1 hp with hp | hp
    · exact h.running p hp e he
    · rw [updateOf_start r hp] at he
      cases he

/-- comments stay, so what refers to one still does -/
theorem isSome_exec {db : Db} {p : Point} {ok : Bool} {o : Outcome Db Point Output} (h : Effect table db p ok o) (j : ℕ)
    (hj : ((db.get table).get? j).isSome) : ((o.db.get table).get? j).isSome := by
  cases h with
  | quiet rows => rwa [rows]
  | inserted _ _ _ rows =>
    rw [rows, Table.get?_insert]
    split
    · rfl
    · exact hj
  | updated _ _ _ rows =>
    rw [rows, Table.get?_update]
    split
    · rwa [Option.isSome_map]
    · exact hj
  | lost _ _ _ rows => rwa [rows]

theorem referenced_exec {db : Db} {p : Point} {ok : Bool} {o : Outcome Db Point Output} (h : Effect table db p ok o)
    (href : Referenced (db.get table)) (hparent : ∀ q userId, p = .insert q userId → ok = true →
      q.comment_table = .known table → q.parent = 0 ∨ ((db.get table).get? q.parent).isSome) :
    Referenced (o.db.get table) := by
  have hsome := isSome_exec h
  cases h with
  | quiet rows => rwa [rows]
  | lost _ _ _ rows => rwa [rows]
  | inserted hp hok htable rows =>
    intro k c hc
    rw [rows, Table.get?_insert] at hc
    split at hc
    · cases hc
      exact (hparent _ _ hp hok htable).imp_right (hsome _)
    · exact (href k c hc).imp_right (hsome _)
  | updated _ _ _ rows =>
    intro k c hc
    rw [rows, Table.get?_update] at hc
    split at hc
    · obtain ⟨c₀, hc₀, rfl⟩ := Option.map_eq_some_iff.1 hc
      exact (href k c₀ hc₀).imp_right (hsome _)
    · exact (href k c hc).imp_right (hsome _)

theorem parent_of_exists {s : Interleaving.St Db Point Output} {as bs : List Point} {p : Point} {ok : Bool}
    (hs : s.running = as ++ p :: bs) (hC : ParentExists table s (.statement as.length ok)) :
    ∀ q userId, p = .insert q userId → ok = true → q.comment_table = .known table →
      q.parent = 0 ∨ ((s.db.get table).get? q.parent).isSome := by
  intro q userId hp hok htable
  subst hp hok
  exact hC (.insert q userId) (by simp [hs]) (q.comment_table, q.parent) rfl htable

theorem grounded_statement {s : Interleaving.St Db Point Output} (h : Grounded table s) {as bs : List Point} {p : Point}
    {ok : Bool} (hs : s.running = as ++ p :: bs) (hC : ParentExists table s (.statement as.length ok)) :
    Grounded table (advance s as bs (servlet.exec s.db p ok)) := by
  have heffect := exec_effect table s.db p ok
  have hparent := parent_of_exists hs hC
  refine ⟨referenced_exec heffect h.rows hparent, ?_⟩
  intro p' hp' e he htable
  have hold : ∀ p' ∈ s.running, updateOf p' = some e → e.2 = 0 ∨
      (((servlet.exec s.db p ok).db.get table).get? e.2).isSome := fun p' hp' he =>
    (h.running p' hp' e he htable).imp_right (isSome_exec heffect _)
  simp only [advance, List.mem_append, Option.mem_toList] at hp'
  rcases hp' with (hp' | hp') | hp'
  · exact hold p' (by simp [hs, hp']) he
  · have hsome := isSome_exec heffect
    generalize servlet.exec s.db p ok = o at heffect hp' hold hsome
    have hup : Updates table e.2 p' := by
      rw [updates_iff, ← htable]
      exact he
    cases heffect with
    | quiet rows pending hp =>
      have hpos : 0 < [p].countP (Updates table e.2) := by
        rw [← pending]
        exact List.countP_pos_iff.2 ⟨p', by simpa using hp', hup⟩
      obtain ⟨p₀, hp₀, hup₀⟩ := List.countP_pos_iff.1 hpos
      have he₀ : updateOf p₀ = some e := by
        rw [updates_iff.1 hup₀, ← htable]
      exact hold p₀ (by simpa [hs] using .inr (.inl (List.mem_singleton.1 hp₀))) he₀
    | inserted hp hok htable' rows next =>
      rename_i q userId
      have hq : p' = .update q := by
        rw [next] at hp'
        exact (Option.some.inj hp').symm
      subst hq
      obtain rfl : e = (q.comment_table, q.parent) := (Option.some.inj he).symm
      exact (hparent q userId hp hok htable).imp_right (hsome _)
    | updated hp hok htable' rows next => simp [next] at hp'
    | lost hp hok htable' rows next => simp [next] at hp'
  · exact hold p' (by simp [hs, hp']) he

/-- a statement loses a reply to the comment -/
def LosesReplyTo (table : CommentTable) (k : ℕ) (db : Db) (p : Point) (ok : Bool) : Prop :=
  ok = false ∧ updateOf p = some (.known table, k) ∧ ((db.get table).get? k).isSome

instance (db : Db) (p : Point) (ok : Bool) : Decidable (LosesReplyTo table k db p ok) := inferInstanceAs (Decidable (_ ∧ _))

theorem slack_statement {s : Interleaving.St Db Point Output} (h : Grounded table s) {as bs : List Point} {p : Point}
    {ok : Bool} (hs : s.running = as ++ p :: bs) (hC : ParentExists table s (.statement as.length ok)) (k : ℕ) :
    slack table k (advance s as bs (servlet.exec s.db p ok)) =
      slack table k s + if LosesReplyTo table k s.db p ok then 1 else 0 := by
  have hparent := parent_of_exists hs hC
  cases exec_effect table s.db p ok with
  | quiet rows pending hp =>
    have hnot : ¬ LosesReplyTo table k s.db p ok := by
      intro hlost
      obtain ⟨-, hup, -⟩ := hlost
      cases p with
      | update q => exact hp q rfl (congrArg Prod.fst (Option.some.inj hup))
      | authenticate q => cases hup
      | insert q userId => cases hup
    rw [if_neg hnot, add_zero, slack_quiet hs rows (pending k)]
  | inserted hp hok htable rows next =>
    rename_i q userId
    subst hp
    have hnot : ¬ LosesReplyTo table k s.db (.insert q userId) ok := fun hlost => nomatch hlost.2.1
    rw [if_neg hnot, add_zero, slack_inserted h hs htable (hparent _ _ rfl hok htable) rows next]
  | updated hp hok htable rows next =>
    rename_i q
    subst hp
    have hnot : ¬ LosesReplyTo table k s.db (.update q) ok := fun hlost => by
      rw [hok] at hlost
      cases hlost.1
    rw [if_neg hnot, add_zero, slack_updated hs htable rows next]
  | lost hp hok htable rows next =>
    subst hp
    rw [slack_lost hs htable rows next]
    congr 1
    simp [LosesReplyTo, hok, updateOf, htable]

theorem losesReply_iff {s : Interleaving.St Db Point Output} {as bs : List Point} {p : Point} {ok : Bool}
    (hs : s.running = as ++ p :: bs) :
    LosesReply table s (.statement as.length ok) ↔ ∃ k, LosesReplyTo table k s.db p ok := by
  have hget : s.running[as.length]? = some p := by simp [hs]
  cases ok with
  | true => simp [LosesReply, LosesReplyTo]
  | false =>
    simp only [LosesReply, hget, Option.mem_def, Option.some.injEq, exists_eq_left', LosesReplyTo, true_and]
    constructor
    · rintro ⟨e, he, htable, hsome⟩
      exact ⟨e.2, by rw [he, ← htable], hsome⟩
    · rintro ⟨k, hk, hsome⟩
      exact ⟨_, hk, rfl, hsome⟩

/-- an event keeps the slack of every comment, or adds to that of one if it loses a reply -/
theorem slack_step {s : Interleaving.St Db Point Output} (h : Grounded table s) (e : Interleaving.Event Request)
    (hC : ParentExists table s e) :
    Grounded table (step servlet s e) ∧ (∀ k, slack table k s ≤ slack table k (step servlet s e)) ∧
    (¬ LosesReply table s e → ∀ k, slack table k (step servlet s e) = slack table k s) ∧
    (LosesReply table s e → ∃ k, slack table k s < slack table k (step servlet s e)) := by
  rcases step_cases (P := servlet) s e with ⟨i, rfl, hstep⟩ | ⟨n, ok, rfl, hnone, hstep⟩ | ⟨as, p, bs, ok, hs, rfl, hstep⟩
  · have hslack : ∀ k, slack table k (arrive s (start i)) = slack table k s := by
      intro k
      have hzero : (start i).1.toList.countP (Updates table k) = 0 := by
        rw [List.countP_eq_zero]
        intro p hp hup
        rw [updates_iff, updateOf_start i hp] at hup
        cases hup
      have hcount : (arrive s (start i)).running.countP (Updates table k) = s.running.countP (Updates table k) := by
        rw [countP_arrive, hzero, add_zero]
      unfold slack
      rw [hcount]
      rfl
    rw [hstep]
    exact ⟨grounded_request h i, fun k => (hslack k).ge, fun _ => hslack, fun hlost => hlost.elim⟩
  · rw [hstep]
    refine ⟨h, fun k => le_rfl, fun _ k => rfl, fun hlost => ?_⟩
    cases ok <;> simp [LosesReply, hnone] at hlost
  · rw [hstep, losesReply_iff hs]
    have hslack := slack_statement h hs hC
    refine ⟨grounded_statement h hs hC, fun k => ?_, fun hnot k => ?_, fun ⟨k, hk⟩ => ⟨k, ?_⟩⟩
    · rw [hslack]
      split_ifs <;> omega
    · rw [hslack, if_neg (fun hk => hnot ⟨k, hk⟩), add_zero]
    · rw [hslack, if_pos hk]
      omega

/-- over a run the slack stays at nothing exactly if no reply is lost -/
theorem slack_run {s : Interleaving.St Db Point Output} (h : Grounded table s) (es : List (Interleaving.Event Request))
    (hC : Along (step servlet) (ParentExists table) s es) (hs : ∀ k, 0 ≤ slack table k s) :
    (∀ k, slack table k (after (step servlet) s es) = 0) ↔
      (∀ k, slack table k s = 0) ∧ Along (step servlet) (fun s e => ¬ LosesReply table s e) s es := by
  induction es generalizing s with
  | nil => exact ⟨fun hend => ⟨hend, trivial⟩, fun hstart => hstart.1⟩
  | cons e es ih =>
    obtain ⟨hg, hle, hkeep, hlose⟩ := slack_step h e hC.1
    have hih := ih hg hC.2 (fun k => (hs k).trans (hle k))
    rw [after_cons, hih]
    constructor
    · rintro ⟨hzero, halong⟩
      have hstart : ∀ k, slack table k s = 0 := fun k => le_antisymm ((hle k).trans (hzero k).le) (hs k)
      refine ⟨hstart, fun hlost => ?_, halong⟩
      obtain ⟨k, hk⟩ := hlose hlost
      rw [hzero, hstart] at hk
      exact lt_irrefl _ hk
    · rintro ⟨hstart, hnot, halong⟩
      exact ⟨fun k => (hkeep hnot k).trans (hstart k), halong⟩

theorem counted_iff_slack {s : Interleaving.St Db Point Output} (hidle : s.running = []) :
    Counted (s.db.get table) ↔ ∀ k, slack table k s = 0 := by
  unfold Counted slack
  refine forall_congr' fun k => ?_
  cases (s.db.get table).get? k with
  | none => simp
  | some c =>
    simp only [Option.some.injEq, forall_eq', hidle, List.countP_nil]
    omega

theorem grounded_idle {db : Db} (href : Referenced (db.get table)) :
    Grounded table (idle db : Interleaving.St Db Point Output) := ⟨href, fun _ hp => nomatch hp⟩

theorem slack_idle {db : Db} (hcounted : Counted (db.get table)) :
    ∀ k, slack table k (idle db : Interleaving.St Db Point Output) = 0 := (counted_iff_slack (s := idle db) rfl).1 hcounted

/-- a run that loses no reply keeps the counters right -/
theorem counted_run {db : Db} (hcounted : Counted (db.get table)) (href : Referenced (db.get table))
    {es : List (Interleaving.Event Request)} (hC : Along (step servlet) (ParentExists table) (idle db) es)
    (hidle : (after (step servlet) (idle db) es).running = [])
    (hno : Along (step servlet) (fun s e => ¬ LosesReply table s e) (idle db) es) :
    Counted ((after (step servlet) (idle db) es).db.get table) := by
  have hstart := slack_idle hcounted
  rw [counted_iff_slack hidle]
  exact (slack_run (grounded_idle href) es hC (fun k => (hstart k).ge)).2 ⟨hstart, hno⟩

/-- **The counters are right** once no request runs, in every interleaving of requests whose parents are 0 or comments of the
table, exactly if no UPDATE of the counter of a comment has failed. -/
theorem counters_iff (table : CommentTable) (db : Db) (hcounted : Counted (db.get table)) (href : Referenced (db.get table))
    (es : List (Interleaving.Event Request)) (hC : Along (step servlet) (ParentExists table) (idle db) es)
    (hidle : (after (step servlet) (idle db) es).running = []) :
    Counted ((after (step servlet) (idle db) es).db.get table) ↔
      Along (step servlet) (fun s e => ¬ LosesReply table s e) (idle db) es := by
  constructor
  · intro h
    have hstart := slack_idle hcounted
    rw [counted_iff_slack hidle] at h
    exact ((slack_run (grounded_idle href) es hC (fun k => (hstart k).ge)).1 h).2
  · exact counted_run hcounted href hC hidle

/-- no comments yet, and the anonymous user -/
def noComments : Db where
  users := ⟨[(0, ⟨[], [], 0, 0⟩)], 1, Nat.one_pos, List.nodup_singleton 0, by decide⟩
  comments := .empty
  old_comments := .empty
  stories := .empty
  old_stories := .empty
  submissions := .empty
  moderator_log := .empty

/-- a comment on story 5 -/
def post (parent : ℕ) : Request := ⟨none, none, some 5, some parent, some [], some [], some (.known .comments), []⟩

/-- statements of the first request, all successful -/
def succeeds (n : ℕ) : List (Interleaving.Event Request) := List.replicate n (.statement 0 true)

theorem counted_empty : Counted (Table.empty : Table Tables.Comment) := fun _ _ h => nomatch h

theorem referenced_empty : Referenced (Table.empty : Table Tables.Comment) := fun _ _ h => nomatch h

/-- a comment and a reply to it -/
theorem reply_counted :
    Counted ((after (step servlet) (idle noComments)
        (.request (post 0) :: succeeds 3 ++ .request (post 1) :: succeeds 3)).db.get .comments) ↔
      Along (step servlet) (fun s e => ¬ LosesReply .comments s e) (idle noComments)
        (.request (post 0) :: succeeds 3 ++ .request (post 1) :: succeeds 3) :=
  counters_iff .comments noComments counted_empty referenced_empty _ (by decide) (by decide)

/-- a comment and a reply to it, whose UPDATE fails -/
def lostReply : List (Interleaving.Event Request) :=
  .request (post 0) :: succeeds 3 ++ .request (post 1) :: succeeds 2 ++ [.statement 0 false]

/-- the comment has a reply and a counter of 0 -/
theorem failed_update_loses_reply :
    Along (step servlet) (ParentExists .comments) (idle noComments) lostReply ∧
    (after (step servlet) (idle noComments) lostReply).running = [] ∧
    ¬ Counted ((after (step servlet) (idle noComments) lostReply).db.get .comments) := by
  refine ⟨by decide, by decide, fun h => ?_⟩
  have hone : ((after (step servlet) (idle noComments) lostReply).db.get .comments).get? 1 =
      some ⟨0, 5, 0, 0, 0, [], [], []⟩ := by decide
  exact absurd (h 1 _ hone) (by decide)

end Rubbos.Servlets.StoreComment
