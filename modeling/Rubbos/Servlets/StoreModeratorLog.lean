/-
Moderation of comments (`StoreModeratorLog.java`).

The servlet looks the moderator up, reads the rating of the comment, and unless it is at its limit updates the rating of the
writer and then that of the comment, both relative to what the rows have by then. The two SELECTs that follow are for the
page. The log is written in any case. Every statement is a piece of its own, so the requests interleave between the read and
the update.

- `ratings_stay`: in every interleaving, a comment stays in its range as long as no request reads its rating while the
  updates that others have still to make leave no room for another one.
- `two_moderators_leave_range`: two requests that both read 4 leave a rating of 6.
-/
import Rubbos.Core.Interleaving
import Rubbos.Core.JString
import Rubbos.Servlets.Tables

namespace Rubbos.Servlets.StoreModeratorLog

open Rubbos.Core JString Interleaving Tables

/-! ## Model -/

/-- the parameters of a request; what a statement splices in is a number here -/
structure Request where
  nickname : Option Text
  password : Option Text
  comment_table : Option TableName
  commentId : Option ℕ
  rating : Option Text
deriving DecidableEq

/-- the parameters after the checks -/
structure Moderation where
  nickname : Text
  password : Text
  comment_table : TableName
  commentId : ℕ
  rating : ℤ
deriving DecidableEq

/-- the statements of the servlet, with the variables that are set by then -/
inductive Point where
  /-- `SELECT id,access FROM users WHERE nickname=… AND password=…` -/
  | selectUser (q : Moderation)
  /-- `SELECT writer,rating FROM …` -/
  | selectComment (q : Moderation) (userId : ℕ)
  /-- `UPDATE users SET rating=rating+…` -/
  | updateUser (q : Moderation) (userId writer : ℕ)
  /-- `UPDATE … SET rating=rating+…` -/
  | updateComment (q : Moderation) (userId writer : ℕ)
  /-- `SELECT rating FROM …` -/
  | selectRating (q : Moderation) (userId writer : ℕ)
  /-- `SELECT rating FROM users WHERE id=…` -/
  | selectUserRating (q : Moderation) (userId writer : ℕ) (comment_row_rating : Option ℤ)
  /-- `INSERT INTO moderator_log …` -/
  | insertLog (q : Moderation) (userId : ℕ) (comment_row_rating user_row_rating : Option ℤ)
deriving DecidableEq

/-- the checks of the parameters; `Integer.valueOf(rating)` may throw before anything is printed -/
def start (r : Request) : Option Point × List Output :=
  match r.nickname, r.password, r.comment_table, r.commentId, r.rating with
  | none, _, _, _, _ => (none, [.html "Author, You must provide a nick name!<br>"])
  | _, none, _, _, _ => (none, [.html "Author, You must provide a password!<br>"])
  | _, _, none, _, _ => (none, [.html "Moderating comment, You must provide a comment table!<br>"])
  | _, _, _, none, _ => (none, [.html "Moderating comment, You must provide a comment identifier!<br>"])
  | _, _, _, _, none => (none, [.html "Moderating comment, You must provide a rating!<br>"])
  | some nickname, some password, some comment_table, some commentId, some ratingstring =>
    match parseInt ratingstring with
    | .error _ => (none, [])
    | .ok rating => (some (.selectUser ⟨nickname, password, comment_table, commentId, rating⟩), [])

/-- the rating is at the end of its range that the moderation goes to -/
def AtLimit (rsrating rating : ℤ) : Prop := (rsrating = -1 ∧ rating = -1) ∨ (rsrating = 5 ∧ rating = 1)

instance (a b : ℤ) : Decidable (AtLimit a b) := inferInstanceAs (Decidable (_ ∨ _))

/-- `catch (Exception e3)`, and the end of the page -/
def stmtsFailed (db : Db) (printed : List Output) : Outcome Db Point Output :=
  ⟨db, none, printed ++ [.exception "Exception StoreModeratorLog stmts: " "<br>", .footer]⟩

def noAccess (db : Db) : Outcome Db Point Output :=
  ⟨db, none, [.header "RUBBoS: Moderation",
    .html ("<p><center><h2>Sorry, but this feature is only accessible by users with an author access." ++
      "</h2></center><p>\n"), .footer]⟩

/-- a column of a row that may not be there, as Java prints it -/
def printedRating : Option ℤ → String
  | none => "null"
  | some n => toString n

/-- the rating of the comment was read -/
def ratingRead (db : Db) (q : Moderation) (userId : ℕ) (c : Tables.Comment) : Outcome Db Point Output :=
  if AtLimit c.rating q.rating then
    ⟨db, some (.selectRating q userId c.writer),
      [.html "Comment rating is already to its maximum, updating only user's rating."]⟩
  else if q.rating ≠ 0 then ⟨db, some (.updateUser q userId c.writer), []⟩
  else ⟨db, some (.selectRating q userId c.writer), []⟩

/-- a statement that succeeds -/
def succeed (db : Db) : Point → Outcome Db Point Output
  | .selectUser q =>
    match db.findUser q.nickname q.password with
    | none => noAccess db
    | some (userId, u) =>
      if userId = 0 ∨ u.access = 0 then noAccess db
      else ⟨db, some (.selectComment q userId), [.header "RUBBoS: Comment moderation result",
        .html "<center><h2>Comment moderation result:</h2></center><p>\n"]⟩
  | .selectComment q userId =>
    match q.comment_table with
    | .other _ => stmtsFailed db []
    | .known table =>
      match (db.get table).get? q.commentId with
      -- the servlet goes on to read the row that is not there
      | none => stmtsFailed db [.html "<h3>ERROR: Sorry, but this comment does not exist.</h3><br>\n"]
      | some c => ratingRead db q userId c
  | .updateUser q userId writer =>
    ⟨{ db with users := db.users.update writer fun u => { u with rating := u.rating + q.rating } },
      some (.updateComment q userId writer), []⟩
  | .updateComment q userId writer =>
    match q.comment_table with
    | .other _ => stmtsFailed db []
    | .known table =>
      ⟨db.set table ((db.get table).update q.commentId fun c => { c with rating := c.rating + q.rating }),
        some (.selectRating q userId writer), []⟩
  | .selectRating q userId writer =>
    match q.comment_table with
    | .other _ => stmtsFailed db []
    | .known table =>
      ⟨db, some (.selectUserRating q userId writer (((db.get table).get? q.commentId).map (·.rating))), []⟩
  | .selectUserRating q userId writer comment_row_rating =>
    match db.users.get? writer with
    | none => ⟨db, some (.insertLog q userId comment_row_rating none),
        [.html "<h3>ERROR: Sorry, but this user does not exist.</h3><br>\n"]⟩
    | some u => ⟨db, some (.insertLog q userId comment_row_rating (some u.rating)), []⟩
  | .insertLog q userId comment_row_rating user_row_rating =>
    ⟨{ db with moderator_log := db.moderator_log.insert ⟨userId, q.commentId, q.rating⟩ }, none,
      [.html ("New comment rating is :" ++ printedRating comment_row_rating ++ "<br>\n"),
        .html ("New user rating is :" ++ printedRating user_row_rating ++ "<br>\n"),
        .html "<center><h2>Your moderation has been successfully stored.</h2></center>\n", .footer]⟩

/-- a statement that throws -/
def fail (db : Db) : Point → Outcome Db Point Output
  | .selectUser _ => ⟨db, none, [.exception "Failed to execute Query for BrowseStoriesByCategory: " ""]⟩
  | _ => stmtsFailed db []

def servlet : Program Db Request Point Output where
  start := start
  exec := fun db p ok => if ok then succeed db p else fail db p

/-! ## The updates that are still to be made -/

variable {table : CommentTable} {k : ℕ} {r : ℤ}

/-- the request is going to add r to the rating of the comment -/
def Adds (table : CommentTable) (k : ℕ) (r : ℤ) : Point → Bool
  | .updateUser q _ _ | .updateComment q _ _ => q.comment_table = .known table ∧ q.commentId = k ∧ q.rating = r
  | _ => false

def pending (table : CommentTable) (k : ℕ) (r : ℤ) (running : List Point) : ℕ := running.countP (Adds table k r)

/-- the request is going to read the rating of the comment -/
def Reads (table : CommentTable) (k : ℕ) : Point → Bool
  | .selectComment q _ => q.comment_table = .known table ∧ q.commentId = k
  | _ => false

def Point.moderation : Point → Moderation
  | .selectUser q | .selectComment q _ | .updateUser q _ _ | .updateComment q _ _ | .selectRating q _ _
  | .selectUserRating q _ _ _ | .insertLog q _ _ _ => q

/-- a statement that reads the rating of the comment finds room for the update that it may lead to, after those that others
have still to make -/
def HasRoom (table : CommentTable) (k : ℕ) (s : Interleaving.St Db Point Output) : Interleaving.Event Request → Prop
  | .statement n true => ∀ p ∈ s.running[n]?, Reads table k p = true → ∀ c ∈ (s.db.get table).get? k,
      (p.moderation.rating = 1 → c.rating = 5 ∨ c.rating + pending table k 1 s.running < 5) ∧
      (p.moderation.rating = -1 → c.rating = -1 ∨ -1 < c.rating - pending table k (-1) s.running)
  | _ => True

instance (s : Interleaving.St Db Point Output) : ∀ e, Decidable (HasRoom table k s e)
  | .statement n true => inferInstanceAs (Decidable (∀ p ∈ s.running[n]?, Reads table k p = true →
      ∀ c ∈ (s.db.get table).get? k,
        (p.moderation.rating = 1 → c.rating = 5 ∨ c.rating + pending table k 1 s.running < 5) ∧
        (p.moderation.rating = -1 → c.rating = -1 ∨ -1 < c.rating - pending table k (-1) s.running)))
  | .statement _ false => isTrue trivial
  | .request _ => isTrue trivial

/-! ## One statement -/

/-- the rating of the request is one of -1, 0 and 1 -/
def Rates (i : Request) : Prop :=
  ∀ text n, i.rating = some text → parseInt text = .ok n → n = -1 ∨ n = 0 ∨ n = 1

theorem start_cases (i : Request) :
    (start i).1 = none ∨ ∃ q text, (start i).1 = some (.selectUser q) ∧ i.comment_table = some q.comment_table ∧
      i.rating = some text ∧ parseInt text = .ok q.rating := by
  unfold start
  split
  all_goals try exact .inl rfl
  next htable _ hrating =>
    split
    · exact .inl rfl
    · next n hn => exact .inr ⟨_, _, rfl, htable, hrating, hn⟩

/-- a request keeps its parameters -/
theorem exec_moderation (db : Db) (p : Point) (ok : Bool) (p' : Point) (h : (servlet.exec db p ok).next = some p') :
    p'.moderation = p.moderation := by
  cases ok with
  | false => cases p <;> simp [servlet, fail, stmtsFailed] at h
  | true =>
    simp only [servlet, if_true] at h
    cases p with
    | selectUser q =>
      simp only [succeed, noAccess] at h
      split at h
      · cases h
      · split at h
        · cases h
        · cases h; rfl
    | selectComment q userId =>
      simp only [succeed, stmtsFailed, ratingRead] at h
      split at h
      · cases h
      · split at h
        · cases h
        · split_ifs at h <;> cases h <;> rfl
    | updateUser q userId writer => cases h; rfl
    | updateComment q userId writer =>
      simp only [succeed, stmtsFailed] at h
      split at h <;> cases h
      rfl
    | selectRating q userId writer =>
      simp only [succeed, stmtsFailed] at h
      split at h <;> cases h
      rfl
    | selectUserRating q userId writer a =>
      simp only [succeed] at h
      split at h <;> cases h <;> rfl
    | insertLog q userId a b => cases h

/-- what a statement does to one comment and to the updates that are still to be made of it -/
inductive Effect (table : CommentTable) (k : ℕ) (db : Db) (p : Point) (ok : Bool) : Outcome Db Point Output → Prop
  /-- nothing to the comment, and no update is added -/
  | quiet {o} (row : (o.db.get table).get? k = (db.get table).get? k)
      (no_more : ∀ r, pending table k r o.next.toList ≤ pending table k r [p]) : Effect table k db p ok o
  /-- the rating is read, and an update is to be made -/
  | read {q userId c} (hp : p = .selectComment q userId) (hok : ok = true) (htable : q.comment_table = .known table)
      (hid : q.commentId = k) (row : (db.get table).get? k = some c) (room : ¬ AtLimit c.rating q.rating)
      (printed : List Output) : Effect table k db p ok ⟨db, some (.updateUser q userId c.writer), printed⟩
  /-- the update is made -/
  | added {q userId writer o} (hp : p = .updateComment q userId writer) (htable : q.comment_table = .known table)
      (hid : q.commentId = k)
      (row : (o.db.get table).get? k = ((db.get table).get? k).map fun c => { c with rating := c.rating + q.rating })
      (done : ∀ r, pending table k r o.next.toList = 0) : Effect table k db p ok o

/-- a request that ends -/
theorem Effect.ended {db : Db} {p : Point} {ok : Bool} {printed : List Output} :
    Effect table k db p ok ⟨db, none, printed⟩ := .quiet rfl (fun _ => Nat.zero_le _)

theorem ratingRead_effect (db : Db) (q : Moderation) (userId : ℕ) {c : Tables.Comment} {t : CommentTable}
    (ht : q.comment_table = .known t) (hc : (db.get t).get? q.commentId = some c) :
    Effect table k db (.selectComment q userId) true (ratingRead db q userId c) := by
  unfold ratingRead
  split_ifs with hlimit hne
  · exact .quiet rfl (fun r => by simp [pending, Adds])
  · by_cases hk : t = table ∧ q.commentId = k
    · obtain ⟨rfl, rfl⟩ := hk
      exact .read rfl rfl ht rfl hc hlimit _
    · refine .quiet rfl (fun r => ?_)
      have hnot : ¬ (q.comment_table = .known table ∧ q.commentId = k ∧ q.rating = r) := by
        rintro ⟨h1, h2, -⟩
        rw [ht] at h1
        exact hk ⟨TableName.known.inj h1, h2⟩
      simp [pending, Adds, hnot]
  · exact .quiet rfl (fun r => by simp [pending, Adds])

theorem exec_effect (table : CommentTable) (k : ℕ) (db : Db) (p : Point) (ok : Bool) :
    Effect table k db p ok (servlet.exec db p ok) := by
  cases ok with
  | false => cases p <;> exact .ended
  | true =>
    simp only [servlet, if_true]
    cases p with
    | selectUser q =>
      simp only [succeed]
      split
      · exact .ended
      · split
        · exact .ended
        · exact .quiet rfl (fun r => by simp [pending, Adds])
    | selectComment q userId =>
      simp only [succeed]
      split
      · exact .ended
      · next ht =>
        split
        · exact .ended
        · next hc => exact ratingRead_effect db q userId ht hc
    | updateUser q userId writer => exact .quiet (by simp [succeed]) (fun r => le_of_eq rfl)
    | updateComment q userId writer =>
      simp only [succeed]
      split
      · exact .ended
      · next t ht =>
        by_cases hk : t = table ∧ q.commentId = k
        · obtain ⟨rfl, rfl⟩ := hk
          exact .added rfl ht rfl (by simp) (fun r => by simp [pending, Adds])
        · refine .quiet ?_ (fun r => by simp [pending, Adds])
          by_cases htable : table = t
          · subst htable
            have hne : k ≠ q.commentId := fun h => hk ⟨rfl, h.symm⟩
            simp [hne]
          · simp [htable]
    | selectRating q userId writer =>
      simp only [succeed]
      split
      · exact .ended
      · exact .quiet rfl (fun r => by simp [pending, Adds])
    | selectUserRating q userId writer a =>
      simp only [succeed]
      split
      · exact .quiet rfl (fun r => by simp [pending, Adds])
      · exact .quiet rfl (fun r => by simp [pending, Adds])
    | insertLog q userId a b => exact .quiet (by simp [succeed]) (fun r => by simp [succeed, pending])

/-! ## All interleavings -/

/-- the comment stays in its range, also after the updates that are still to be made of it -/
structure InRange (table : CommentTable) (k : ℕ) (s : Interleaving.St Db Point Output) : Prop where
  rates : ∀ p ∈ s.running, p.moderation.rating = -1 ∨ p.moderation.rating = 0 ∨ p.moderation.rating = 1
  row : ∃ c, (s.db.get table).get? k = some c ∧ -1 ≤ c.rating - pending table k (-1) s.running ∧
    c.rating + pending table k 1 s.running ≤ 5

theorem pending_update (q : Moderation) (userId writer : ℕ) (htable : q.comment_table = .known table)
    (hid : q.commentId = k) : pending table k r [.updateComment q userId writer] = if q.rating = r then 1 else 0 := by
  by_cases hr : q.rating = r <;> simp [pending, Adds, htable, hid, hr]

theorem inRange_request {s : Interleaving.St Db Point Output} (h : InRange table k s) {i : Request} (hi : Rates i) :
    InRange table k (arrive s (start i)) := by
  have hpending : ∀ r, pending table k r (start i).1.toList = 0 := by
    intro r
    rcases start_cases i with hnone | ⟨q, text, hq, -, -, -⟩
    · simp [hnone, pending]
    · simp [hq, pending, Adds]
  refine ⟨?_, ?_⟩
  · intro p hp
    rcases List.mem_append.1 hp with hp | hp
    · exact h.rates p hp
    · rcases start_cases i with hnone | ⟨q, text, hq, -, htext, hn⟩
      · simp [hnone] at hp
      · obtain rfl : p = .selectUser q := by simpa [hq] using hp
        exact hi text _ htext hn
  · obtain ⟨c, hc, hlow, hhigh⟩ := h.row
    have hsame : ∀ r, pending table k r (arrive s (start i)).running = pending table k r s.running := by
      intro r
      calc pending table k r (arrive s (start i)).running
          = pending table k r s.running + pending table k r (start i).1.toList := countP_arrive s _ _
        _ = pending table k r s.running := by rw [hpending, add_zero]
    exact ⟨c, hc, by rwa [hsame], by rwa [hsame]⟩

theorem rates_advance {s : Interleaving.St Db Point Output} (h : InRange table k s) {as bs : List Point} {p : Point}
    {ok : Bool} (hs : s.running = as ++ p :: bs) : ∀ p' ∈ (advance s as bs (servlet.exec s.db p ok)).running,
    p'.moderation.rating = -1 ∨ p'.moderation.rating = 0 ∨ p'.moderation.rating = 1 := by
  intro p' hp'
  simp only [advance, List.mem_append, Option.mem_toList] at hp'
  rcases hp' with (hp' | hp') | hp'
  · exact h.rates p' (by simp [hs, hp'])
  · rw [exec_moderation s.db p ok p' hp']
    exact h.rates p (by simp [hs])
  · exact h.rates p' (by simp [hs, hp'])

/-- a statement that finds room keeps the comment in its range -/
theorem inRange_statement {s : Interleaving.St Db Point Output} (h : InRange table k s) {as bs : List Point} {p : Point}
    {ok : Bool} (hs : s.running = as ++ p :: bs) (hroom : HasRoom table k s (.statement as.length ok)) :
    InRange table k (advance s as bs (servlet.exec s.db p ok)) := by
  refine ⟨rates_advance h hs, ?_⟩
  have hp : p.moderation.rating = -1 ∨ p.moderation.rating = 0 ∨ p.moderation.rating = 1 := h.rates p (by simp [hs])
  obtain ⟨c, hc, hlow, hhigh⟩ := h.row
  have hbefore : ∀ r, pending table k r s.running =
      pending table k r as + pending table k r [p] + pending table k r bs := fun r => countP_running hs _
  have hafter : ∀ (o : Outcome Db Point Output) r, pending table k r (advance s as bs o).running =
      pending table k r as + pending table k r o.next.toList + pending table k r bs := fun o r => countP_advance s as bs o _
  rw [hbefore] at hlow hhigh
  generalize ho : servlet.exec s.db p ok = o
  cases ho ▸ exec_effect table k s.db p ok with
  | quiet row no_more =>
    have hminus := no_more (-1)
    have hplus := no_more 1
    refine ⟨c, by rw [← hc, ← row]; rfl, ?_, ?_⟩
    · rw [hafter]
      omega
    · rw [hafter]
      omega
  | read hp' hok htable hid row room printed =>
    rename_i q userId c'
    subst hp' hok hid
    obtain rfl : c' = c := Option.some.inj (row.symm.trans hc)
    obtain ⟨hplus, hminus⟩ := hroom (.selectComment q userId) (by simp [hs]) (by simp [Reads, htable]) c' hc
    rw [hbefore] at hplus hminus
    have hzero : ∀ r, pending table q.commentId r [.selectComment q userId] = 0 := fun r => by simp [pending, Adds]
    have hone : ∀ r, pending table q.commentId r [.updateUser q userId c'.writer] = if q.rating = r then 1 else 0 :=
      fun r => pending_update q userId c'.writer htable rfl
    simp only [hzero] at hlow hhigh hplus hminus
    refine ⟨c', hc, ?_, ?_⟩
    · rw [hafter, Option.toList_some, hone]
      split_ifs with hr
      · have := (hminus hr).resolve_left fun h' => room (.inl ⟨h', hr⟩)
        push_cast
        omega
      · push_cast
        omega
    · rw [hafter, Option.toList_some, hone]
      split_ifs with hr
      · have := (hplus hr).resolve_left fun h' => room (.inr ⟨h', hr⟩)
        push_cast
        omega
      · push_cast
        omega
  | added hp' htable hid row done =>
    rename_i q userId writer
    subst hp' hid
    simp only [pending_update q userId writer htable rfl] at hlow hhigh
    refine ⟨{ c with rating := c.rating + q.rating }, by rw [hc] at row; exact row, ?_, ?_⟩
    all_goals
      rw [hafter, done]
      rcases hp with hr | hr | hr
      all_goals
        simp only [Point.moderation] at hr
        simp only [hr] at hlow hhigh ⊢
        norm_num at hlow hhigh ⊢
        omega

/-- **Ratings stay in their range.** In every interleaving of requests with ratings -1, 0 and 1, whatever statements fail,
a comment that starts between -1 and 5 stays there, as long as every statement that reads its rating finds room. -/
theorem ratings_stay (table : CommentTable) (k : ℕ) (db : Db) (es : List (Interleaving.Event Request))
    (hrates : ∀ i, .request i ∈ es → Rates i) (hroom : Along (step servlet) (HasRoom table k) (idle db) es)
    {c : Tables.Comment} (hc : (db.get table).get? k = some c) (hrange : -1 ≤ c.rating ∧ c.rating ≤ 5) :
    ∃ c', ((after (step servlet) (idle db) es).db.get table).get? k = some c' ∧ -1 ≤ c'.rating ∧ c'.rating ≤ 5 := by
  have hstart : InRange table k (idle db : Interleaving.St Db Point Output) :=
    ⟨by simp [idle], c, hc, by simpa [idle, pending] using hrange.1, by simpa [idle, pending] using hrange.2⟩
  have hside : Along (step servlet) (fun _ e => ∀ i, e = .request i → Rates i) (idle db) es :=
    Along.of_forall (P := fun e : Interleaving.Event Request => ∀ i, e = .request i → Rates i)
      (fun e he i hi => hrates i (hi ▸ he)) _
  have hend : InRange table k (after (step servlet) (idle db) es) := by
    refine interleaving_invariant (InRange table k) _ ?_ ?_ _ es hstart (hside.and hroom)
    · intro s i h hC
      exact inRange_request h (hC.1 i rfl)
    · intro s as p bs ok h hs hC
      exact inRange_statement h hs hC.2
  obtain ⟨c', hc', hlow, hhigh⟩ := hend.row
  exact ⟨c', hc', by omega, by omega⟩

/-- an author, the writer of a comment, and the comment -/
def oneComment (rating : ℤ) : Db where
  users := (Table.empty.insert ⟨['a'], ['p'], 0, 1⟩).insert ⟨['w'], ['p'], 0, 0⟩
  comments := Table.empty.insert ⟨2, 1, 0, 0, rating, [], [], []⟩
  old_comments := .empty
  stories := .empty
  old_stories := .empty
  submissions := .empty
  moderator_log := .empty

/-- the author moderates the comment -/
def moderate (rating : Text) : Request := ⟨some ['a'], some ['p'], some (.known .comments), some 1, some rating⟩

/-- statements of the n-th request -/
def makes (n count : ℕ) : List (Interleaving.Event Request) := List.replicate count (.statement n true)

theorem rates_moderate_up : Rates (moderate ['1']) := by
  intro text n htext hn
  cases htext
  have : parseInt ['1'] = .ok 1 := by decide
  rw [this] at hn
  cases hn
  exact .inr (.inr rfl)

theorem four_and_one_stays :
    ∃ c', ((after (step servlet) (idle (oneComment 4)) (.request (moderate ['1']) :: makes 0 7)).db.get .comments).get? 1 =
      some c' ∧ -1 ≤ c'.rating ∧ c'.rating ≤ 5 := by
  refine ratings_stay .comments 1 (oneComment 4) _ ?_ (by decide) rfl (by decide)
  intro i hi
  have : i = moderate ['1'] := by simpa [makes] using hi
  rw [this]
  exact rates_moderate_up

/-- two authors read a rating of 4 before either adds 1 to it -/
theorem two_moderators_leave_range :
    Rates (moderate ['1']) ∧
    ((oneComment 4).get .comments).get? 1 = some ⟨2, 1, 0, 0, 4, [], [], []⟩ ∧
    ((after (step servlet) (idle (oneComment 4)) ([.request (moderate ['1']), .request (moderate ['1'])] ++
      makes 0 2 ++ makes 1 2 ++ makes 0 2 ++ makes 1 2)).db.get .comments).get? 1 =
      some ⟨2, 1, 0, 0, 6, [], [], []⟩ := by
  refine ⟨rates_moderate_up, by decide, by decide⟩

end Rubbos.Servlets.StoreModeratorLog
