/-
What moderation does to the ratings of the users (`StoreModeratorLog.java`).

Requests are handled one after the other here, and no statement fails. A moderation of a comment that is not at its limit
adds the same number to the rating of the writer and to the log. At the limit the page says that only the rating of the user
is updated, but no rating is updated at all, and the log is written nevertheless.

- `accounts_iff`: the ratings agree with the log after every request of a history exactly if no request moderates a comment
  beyond its limit.
- `limit_not_credited`: a moderation of a comment at 5.
-/
import Rubbos.Servlets.StoreModeratorLog

namespace Rubbos.Servlets.StoreModeratorLog

open Rubbos.Core Interleaving Tables

/-- the servlet makes at most 7 statements -/
def serve (db : Db) (r : Request) : Db := (alone servlet 7 db r).db

/-! ## One request -/

/-- a moderation that passes the checks: the moderator, and the comment that is moderated -/
structure Accepted where
  q : Moderation
  userId : ℕ
  table : CommentTable
  c : Tables.Comment

/-- the checks of a request, up to the SELECT of the comment -/
def accepted (db : Db) (r : Request) : Option Accepted :=
  match (start r).1 with
  | some (.selectUser q) =>
    match db.findUser q.nickname q.password, q.comment_table with
    | some (userId, u), .known table =>
      if userId = 0 ∨ u.access = 0 then none else ((db.get table).get? q.commentId).map fun c => ⟨q, userId, table, c⟩
    | _, _ => none
  | _ => none

/-- the ratings after an accepted moderation -/
def Accepted.rated (a : Accepted) (db : Db) : Db :=
  if AtLimit a.c.rating a.q.rating ∨ a.q.rating = 0 then db
  else
    { db with users := db.users.update a.c.writer fun u => { u with rating := u.rating + a.q.rating } }.set a.table
      ((db.get a.table).update a.q.commentId fun c => { c with rating := c.rating + a.q.rating })

def Accepted.logged (a : Accepted) (db : Db) : Db :=
  { db with moderator_log := db.moderator_log.insert ⟨a.userId, a.q.commentId, a.q.rating⟩ }

theorem exec_true (db : Db) (p : Point) : servlet.exec db p true = succeed db p := rfl

/-- the statements behind the updates end with a row of the log -/
theorem undisturbed_selectRating (db : Db) (q : Moderation) (userId writer : ℕ) {table : CommentTable}
    (htable : q.comment_table = .known table) (out : List Output) (n : ℕ) :
    (undisturbed servlet (n + 3) ⟨db, [.selectRating q userId writer], out⟩).running = [] ∧
    (undisturbed servlet (n + 3) ⟨db, [.selectRating q userId writer], out⟩).db =
      { db with moderator_log := db.moderator_log.insert ⟨userId, q.commentId, q.rating⟩ } := by
  cases hu : db.users.get? writer with
  | none => simp [undisturbed_succ, undisturbed_ended, exec_true, succeed, htable, hu]
  | some u => simp [undisturbed_succ, undisturbed_ended, exec_true, succeed, htable, hu]

/-- the statements from the SELECT of the comment on -/
theorem undisturbed_selectComment (db : Db) (a : Accepted) (htable : a.q.comment_table = .known a.table)
    (hc : (db.get a.table).get? a.q.commentId = some a.c) (out : List Output) :
    (undisturbed servlet 6 ⟨db, [.selectComment a.q a.userId], out⟩).running = [] ∧
    (undisturbed servlet 6 ⟨db, [.selectComment a.q a.userId], out⟩).db = a.logged (a.rated db) := by
  have hread : succeed db (.selectComment a.q a.userId) = ratingRead db a.q a.userId a.c := by
    simp only [succeed, htable, hc]
  rw [undisturbed_succ, exec_true, hread, ratingRead, Accepted.rated]
  by_cases hlimit : AtLimit a.c.rating a.q.rating
  · rw [if_pos hlimit, if_pos (.inl hlimit)]
    exact undisturbed_selectRating db a.q a.userId a.c.writer htable _ 2
  · by_cases hzero : a.q.rating = 0
    · rw [if_neg hlimit, if_neg (not_not.2 hzero), if_pos (.inr hzero)]
      exact undisturbed_selectRating db a.q a.userId a.c.writer htable _ 2
    · rw [if_neg hlimit, if_pos hzero, if_neg (not_or.2 ⟨hlimit, hzero⟩)]
      rw [Option.toList_some, undisturbed_succ, exec_true, succeed, Option.toList_some, undisturbed_succ, exec_true]
      simp only [succeed, htable, Option.toList_some, Db.get_users]
      exact undisturbed_selectRating _ a.q a.userId a.c.writer htable _ 0

/-- a request that nobody disturbs ends within 7 statements, and changes the tables if its checks pass -/
theorem serve_eq (db : Db) (r : Request) : (alone servlet 7 db r).running = [] ∧
    serve db r = match accepted db r with
      | none => db
      | some a => a.logged (a.rated db) := by
  unfold serve accepted alone
  rcases start_cases r with hnone | ⟨q, text, hq, -, -, -⟩
  · simp [servlet, arrive, idle, hnone, undisturbed_ended]
  · have harrive : arrive (idle db) (servlet.start r) = ⟨db, [.selectUser q], (start r).2⟩ := by
      simp [servlet, arrive, idle, hq]
    rw [harrive, undisturbed_succ, exec_true, succeed, hq]
    cases hu : db.findUser q.nickname q.password with
    | none => simp [hu, noAccess, undisturbed_ended]
    | some e =>
      obtain ⟨userId, u⟩ := e
      by_cases haccess : userId = 0 ∨ u.access = 0
      · cases htable : q.comment_table with
        | other text => simp [hu, htable, haccess, noAccess, undisturbed_ended]
        | known table => simp [hu, htable, haccess, noAccess, undisturbed_ended]
      · cases htable : q.comment_table with
        | other text =>
          simp [hu, haccess, undisturbed_succ, exec_true, succeed, htable, stmtsFailed, undisturbed_ended]
        | known table =>
          cases hc : (db.get table).get? q.commentId with
          | none => simp [hu, haccess, undisturbed_succ, exec_true, succeed, htable, hc, stmtsFailed, undisturbed_ended]
          | some c =>
            have hend := undisturbed_selectComment db ⟨q, userId, table, c⟩ htable hc
            simpa [hu, htable, haccess, hc] using hend _

/-! ## The ratings and the log -/

/-- the user has written the comment that a row of the log names; the log does not say in which table it is, the request
does -/
def Wrote (w : ℕ) (db : Db) (r : Request) (l : ModeratorLog) : Bool :=
  match r.comment_table with
  | some (.known table) => ((db.get table).get? l.comment_id).any (·.writer = w)
  | _ => false

/-- the rows that a request adds to the log -/
def newRows (db : Db) (r : Request) : List ModeratorLog :=
  ((serve db r).moderator_log.rows.filter fun e => db.moderator_log.next ≤ e.1).map Prod.snd

/-- the sum of the ratings that a history of requests records for the comments of a user -/
def recorded (w : ℕ) : Db → List Request → ℤ
  | _, [] => 0
  | db, r :: rs => (((newRows db r).filter (Wrote w db r)).map (·.rating)).sum + recorded w (serve db r) rs

/-- every rating changes by what the log records for the user -/
def Accounts (db : Db) (rs : List Request) : Prop :=
  ∀ w u, db.users.get? w = some u →
    ∃ u', (after serve db rs).users.get? w = some u' ∧ u'.rating = u.rating + recorded w db rs

/-- the request moderates a comment of a user beyond its limit -/
def BeyondLimit (db : Db) (r : Request) : Prop :=
  ∃ a, accepted db r = some a ∧ AtLimit a.c.rating a.q.rating ∧ db.users.get? a.c.writer ≠ none

/-- what an accepted request adds to the rating of a user -/
def Accepted.credit (a : Accepted) (w : ℕ) : ℤ :=
  if a.c.writer = w ∧ ¬ AtLimit a.c.rating a.q.rating then a.q.rating else 0

/-- what an accepted request records for a user -/
def Accepted.record (a : Accepted) (w : ℕ) : ℤ := if a.c.writer = w then a.q.rating else 0

theorem accepted_spec {db : Db} {r : Request} {a : Accepted} (h : accepted db r = some a) :
    r.comment_table = some (.known a.table) ∧ (db.get a.table).get? a.q.commentId = some a.c := by
  unfold accepted at h
  rcases start_cases r with hnone | ⟨q, text, hq, hrtable, -, -⟩
  · rw [hnone] at h
    cases h
  · simp only [hq] at h
    split at h
    · next userId u table hu htable =>
      split at h
      · cases h
      · obtain ⟨c, hc, rfl⟩ := Option.map_eq_some_iff.1 h
        exact ⟨by rw [hrtable, htable], hc⟩
    · cases h

theorem users_rated (a : Accepted) (db : Db) (w : ℕ) :
    (a.rated db).users.get? w = (db.users.get? w).map fun u => { u with rating := u.rating + a.credit w } := by
  unfold Accepted.rated Accepted.credit
  by_cases hlimit : AtLimit a.c.rating a.q.rating
  · simp [hlimit]
  · by_cases hzero : a.q.rating = 0
    · simp [hzero]
    · by_cases hw : w = a.c.writer
      · simp [hlimit, hzero, hw]
      · have hw' : a.c.writer ≠ w := fun h => hw h.symm
        simp [hlimit, hzero, hw, hw']

theorem newRows_eq (db : Db) (r : Request) : newRows db r = match accepted db r with
    | none => []
    | some a => [⟨a.userId, a.q.commentId, a.q.rating⟩] := by
  have hold : db.moderator_log.rows.filter (fun e => db.moderator_log.next ≤ e.1) = [] := by
    rw [List.filter_eq_nil_iff]
    intro e he
    have := db.moderator_log.lt_next e he
    simpa using this
  unfold newRows
  rw [(serve_eq db r).2]
  cases accepted db r with
  | none => simp [hold]
  | some a =>
    have hlog : (a.rated db).moderator_log = db.moderator_log := by
      unfold Accepted.rated
      split_ifs
      · rfl
      · simp
    simp [Accepted.logged, hlog, Table.insert, hold]

theorem recorded_cons (w : ℕ) (db : Db) (r : Request) (rs : List Request) :
    recorded w db (r :: rs) = (match accepted db r with
      | none => 0
      | some a => a.record w) + recorded w (serve db r) rs := by
  rw [recorded, newRows_eq]
  cases ha : accepted db r with
  | none => simp
  | some a =>
    obtain ⟨htable, hc⟩ := accepted_spec ha
    by_cases hw : a.c.writer = w
    · simp [Wrote, htable, hc, Accepted.record, hw]
    · simp [Wrote, htable, hc, Accepted.record, hw]

/-- what a request does to the rating of a user -/
theorem users_serve (db : Db) (r : Request) (w : ℕ) : (serve db r).users.get? w = (db.users.get? w).map fun u =>
    { u with rating := u.rating + match accepted db r with
      | none => 0
      | some a => a.credit w } := by
  rw [(serve_eq db r).2]
  cases accepted db r with
  | none => simp
  | some a => exact users_rated a db w

/-! ## Histories -/

/-- one request keeps the accounts exactly if it stays within the limit -/
theorem accounts_one (db : Db) (r : Request) : Accounts db [r] ↔ ¬ BeyondLimit db r := by
  have hone : ∀ w, recorded w db [r] = match accepted db r with
      | none => 0
      | some a => a.record w := by
    intro w
    rw [recorded_cons, recorded, add_zero]
  constructor
  · intro h hbeyond
    obtain ⟨a, ha, hlimit, huser⟩ := hbeyond
    obtain ⟨u, hu⟩ := Option.ne_none_iff_exists'.1 huser
    obtain ⟨u', hserve, hrating⟩ := h a.c.writer u hu
    rw [after_cons, after_nil, users_serve, hu, ha] at hserve
    rw [hone, ha] at hrating
    have hne : a.q.rating ≠ 0 := by
      rcases hlimit with h | h <;> omega
    simp only [Option.map_some, Accepted.credit, hlimit, not_true_eq_false, and_false, if_false, add_zero,
      Option.some.injEq] at hserve
    simp only [Accepted.record, if_true, ← hserve] at hrating
    omega
  · intro h w u hu
    rw [after_cons, after_nil, users_serve, hu, Option.map_some, hone]
    refine ⟨_, rfl, ?_⟩
    cases ha : accepted db r with
    | none => rfl
    | some a =>
      have hcredit : a.credit w = a.record w := by
        unfold Accepted.credit Accepted.record
        by_cases hw : a.c.writer = w
        · have hlimit : ¬ AtLimit a.c.rating a.q.rating := by
            intro hlimit
            refine h ⟨a, ha, hlimit, ?_⟩
            rw [hw, hu]
            simp
          simp [hw, hlimit]
        · simp [hw]
      simp [hcredit]

/-- the accounts of a history from those of its first request and of the rest -/
theorem accounts_cons (db : Db) (r : Request) (rs : List Request) (h : Accounts db [r]) :
    Accounts db (r :: rs) ↔ Accounts (serve db r) rs := by
  have hsplit : ∀ w, recorded w db (r :: rs) = recorded w db [r] + recorded w (serve db r) rs := by
    intro w
    simp [recorded]
  unfold Accounts at h ⊢
  simp only [after_cons, after_nil, hsplit] at h ⊢
  constructor
  · intro hall w u₁ hu₁
    have hu : ∃ u, db.users.get? w = some u := by
      rw [users_serve] at hu₁
      obtain ⟨u, hu, -⟩ := Option.map_eq_some_iff.1 hu₁
      exact ⟨u, hu⟩
    obtain ⟨u, hu⟩ := hu
    obtain ⟨v, hv, hv1⟩ := h w u hu
    obtain ⟨u', hu', hrating⟩ := hall w u hu
    obtain rfl : v = u₁ := Option.some.inj (hv.symm.trans hu₁)
    refine ⟨u', hu', ?_⟩
    omega
  · intro hrest w u hu
    obtain ⟨v, hv, hv1⟩ := h w u hu
    obtain ⟨u', hu', hrating⟩ := hrest w v hv
    refine ⟨u', hu', ?_⟩
    omega

/-- **The ratings of the users agree with the log** after every request of a history, exactly if no request of it moderates
a comment at -1 by -1 or a comment at 5 by 1. -/
theorem accounts_iff (db : Db) (rs : List Request) :
    (∀ n, Accounts db (rs.take n)) ↔ Along serve (fun db r => ¬ BeyondLimit db r) db rs := by
  induction rs generalizing db with
  | nil =>
    refine ⟨fun _ => trivial, fun _ n w u hu => ⟨u, ?_, ?_⟩⟩
    · simpa [after] using hu
    · simp [recorded]
  | cons r rs ih =>
    constructor
    · intro h
      have hone : Accounts db [r] := h 1
      refine ⟨(accounts_one db r).1 hone, (ih _).1 ?_⟩
      intro n
      exact (accounts_cons db r _ hone).1 (h (n + 1))
    · intro h n
      have hone := (accounts_one db r).2 h.1
      cases n with
      | zero => exact fun w u hu => ⟨u, hu, by simp [recorded]⟩
      | succ n => exact (accounts_cons db r _ hone).2 ((ih _).2 h.2 n)

/-- a moderation by 1 of a comment at 5 is recorded, but its writer gets nothing -/
theorem limit_not_credited :
    ((serve (oneComment 5) (moderate ['1'])).users.get? 2).map (·.rating) = some 0 ∧
    ((oneComment 5).users.get? 2).map (·.rating) = some 0 ∧
    recorded 2 (oneComment 5) [moderate ['1']] = 1 ∧
    .html "Comment rating is already to its maximum, updating only user's rating." ∈
      (alone servlet 7 (oneComment 5) (moderate ['1'])).printed ∧
    ¬ Accounts (oneComment 5) [moderate ['1']] := by
  refine ⟨by decide, by decide, by decide, by decide, ?_⟩
  rw [accounts_one, not_not]
  exact ⟨⟨⟨['a'], ['p'], .known .comments, 1, 1⟩, 1, .comments, ⟨2, 1, 0, 0, 5, [], [], []⟩⟩, rfl, .inr ⟨rfl, rfl⟩, by decide⟩

end Rubbos.Servlets.StoreModeratorLog
