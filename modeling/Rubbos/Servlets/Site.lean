/-
The site: all the servlets that write, over one database.

None of them uses transactions, and any of their statements may fail. What they rely on at a statement is what an earlier
statement has read: the number of the writer, the rights of the moderator, the comment that is moderated, the row of the user who
has just registered. A change to the database is one of those listed in `Change`; none of them takes that away.

Statements are single steps that may fail. The texts of the requests are taken to stand in the SQL as they are meant: a password
with an apostrophe can make an author of the user who registers with it, and what follows is not about such a request.

- `site_consistent`: over every interleaving, writers and moderated comments exist, moderations are by authors, and nicknames are
  unique; users, comments, stories and moderations stay as they were, apart from ratings and counters, and nobody becomes an author.
- `registered_logs_in`: whoever was welcomed by `RegisterUser` is found by the login of every other servlet, ever after.
Witness `first_user_logs_in`: a user who registers, posts a comment and tries to moderate it.
-/
import Rubbos.Core.RelyGuarantee
import Rubbos.Servlets.RegisterUser
import Rubbos.Servlets.StoreComment
import Rubbos.Servlets.StoreModeratorLog
import Rubbos.Servlets.StoryLinks

namespace Rubbos.Servlets.Site

open Rubbos.Core Interleaving Tables

/-! ## The database -/

section

variable (db : Db)

/-- user 0 is the Anonymous Coward -/
def IsWriter (k : ℕ) : Prop := k = 0 ∨ (db.users.get? k).isSome

def IsAuthor (k : ℕ) : Prop := ∃ u, db.users.get? k = some u ∧ u.access ≠ 0

def IsComment (k : ℕ) : Prop := ∃ table, ((db.get table).get? k).isSome

/-- what holds between two statements -/
structure Consistent : Prop where
  nicknames : db.UniqueNicknames
  stories : ∀ k s, db.stories.get? k = some s → IsWriter db s.writer
  old_stories : ∀ k s, db.old_stories.get? k = some s → IsWriter db s.writer
  submissions : ∀ k s, db.submissions.get? k = some s → IsWriter db s.writer
  comments : ∀ table k c, (db.get table).get? k = some c → IsWriter db c.writer
  moderations : ∀ k l, db.moderator_log.get? k = some l → IsAuthor db l.moderator_id ∧ IsComment db l.comment_id

end

/-- a user, apart from the rating -/
def SameAccount (u v : User) : Prop := v = { u with rating := v.rating }

/-- a comment, apart from the rating and the number of replies, which does not sink -/
def SameComment (c d : Tables.Comment) : Prop := d = { c with rating := d.rating, childs := d.childs } ∧ c.childs ≤ d.childs

/-- what statements leave of a database -/
structure Persists (db db' : Db) : Prop where
  users : ∀ k u, db.users.get? k = some u → ∃ v, db'.users.get? k = some v ∧ SameAccount u v
  authors : ∀ k, IsAuthor db' k → IsAuthor db k
  comments : ∀ table k c, (db.get table).get? k = some c → ∃ d, (db'.get table).get? k = some d ∧ SameComment c d
  stories : ∀ k s, db.stories.get? k = some s → db'.stories.get? k = some s
  old_stories : db'.old_stories = db.old_stories
  moderations : ∀ k l, db.moderator_log.get? k = some l → db'.moderator_log.get? k = some l

variable {db db' db'' : Db} {k : ℕ}

theorem SameAccount.refl (u : User) : SameAccount u u := rfl

theorem SameAccount.trans {u v w : User} (h : SameAccount u v) (h' : SameAccount v w) : SameAccount u w := by
  unfold SameAccount at *
  rw [h', h]

theorem SameComment.refl (c : Tables.Comment) : SameComment c c := ⟨rfl, le_refl _⟩

theorem SameComment.trans {c d e : Tables.Comment} (h : SameComment c d) (h' : SameComment d e) : SameComment c e := by
  refine ⟨?_, h.2.trans h'.2⟩
  rw [h'.1, h.1]

theorem Persists.refl (db : Db) : Persists db db where
  users _ u hu := ⟨u, hu, .refl u⟩
  authors _ h := h
  comments _ _ c hc := ⟨c, hc, .refl c⟩
  stories _ _ h := h
  old_stories := rfl
  moderations _ _ h := h

theorem Persists.trans (h : Persists db db') (h' : Persists db' db'') : Persists db db'' where
  users k u hu := by
    obtain ⟨v, hv, huv⟩ := h.users k u hu
    obtain ⟨w, hw, hvw⟩ := h'.users k v hv
    exact ⟨w, hw, huv.trans hvw⟩
  authors k hk := h.authors k (h'.authors k hk)
  comments table k c hc := by
    obtain ⟨d, hd, hcd⟩ := h.comments table k c hc
    obtain ⟨e, he, hde⟩ := h'.comments table k d hd
    exact ⟨e, he, hcd.trans hde⟩
  stories k s hs := h'.stories k s (h.stories k s hs)
  old_stories := h'.old_stories.trans h.old_stories
  moderations k l hl := h'.moderations k l (h.moderations k l hl)

theorem Persists.isWriter (h : Persists db db') (hk : IsWriter db k) : IsWriter db' k := by
  refine hk.imp_right fun hsome => ?_
  obtain ⟨u, hu⟩ := Option.isSome_iff_exists.1 hsome
  obtain ⟨v, hv, -⟩ := h.users k u hu
  rw [hv]
  rfl

theorem Persists.isAuthor (h : Persists db db') (hk : IsAuthor db k) : IsAuthor db' k := by
  obtain ⟨u, hu, haccess⟩ := hk
  obtain ⟨v, hv, huv⟩ := h.users k u hu
  exact ⟨v, hv, by rwa [huv]⟩

theorem Persists.isComment (h : Persists db db') (hk : IsComment db k) : IsComment db' k := by
  obtain ⟨table, hsome⟩ := hk
  obtain ⟨c, hc⟩ := Option.isSome_iff_exists.1 hsome
  obtain ⟨d, hd, -⟩ := h.comments table k c hc
  exact ⟨table, by rw [hd]; rfl⟩

/-! ## Changes -/

/-- what a statement of one of the servlets does to the database -/
inductive Change (db : Db) : Db → Prop
  | nothing : Change db db
  | story (s : Story) (hs : IsWriter db s.writer) : Change db { db with stories := db.stories.insert s }
  | submission (s : Story) (hs : IsWriter db s.writer) : Change db { db with submissions := db.submissions.insert s }
  | removal (k : ℕ) : Change db { db with submissions := db.submissions.delete k }
  | comment (table : CommentTable) (c : Tables.Comment) (hc : IsWriter db c.writer) :
      Change db (db.set table ((db.get table).insert c))
  | counted (table : CommentTable) (k : ℕ) (f : Tables.Comment → Tables.Comment) (hf : ∀ c, SameComment c (f c)) :
      Change db (db.set table ((db.get table).update k f))
  | rated (k : ℕ) (f : User → User) (hf : ∀ u, SameAccount u (f u)) : Change db { db with users := db.users.update k f }
  | moderation (l : ModeratorLog) (hl : IsAuthor db l.moderator_id ∧ IsComment db l.comment_id) :
      Change db { db with moderator_log := db.moderator_log.insert l }
  | account (q : RegisterUser.Registration) (hq : db.findNickname q.nickname = none) :
      Change db { db with users := db.users.insert q.row }

/-- an insert leaves the other rows -/
theorem get?_insert_of_some {ρ : Type} {t : Table ρ} {r s : ρ} (h : t.get? k = some r) : (t.insert s).get? k = some r := by
  have hne : k ≠ t.next := (Table.lt_next_of_get? h).ne
  rw [Table.get?_insert, if_neg hne, h]

/-- a change of neither users nor comments -/
theorem persists_of_same (husers : db'.users = db.users) (hcomments : ∀ table, db'.get table = db.get table)
    (hstories : ∀ k s, db.stories.get? k = some s → db'.stories.get? k = some s) (hold : db'.old_stories = db.old_stories)
    (hlog : ∀ k l, db.moderator_log.get? k = some l → db'.moderator_log.get? k = some l) : Persists db db' where
  users k u hu := ⟨u, by rw [husers, hu], .refl u⟩
  authors k h := by
    obtain ⟨u, hu, haccess⟩ := h
    exact ⟨u, by rw [← husers, hu], haccess⟩
  comments table k c hc := ⟨c, by rw [hcomments, hc], .refl c⟩
  stories := hstories
  old_stories := hold
  moderations := hlog

/-- a change of the comments of a table -/
theorem persists_of_set {table : CommentTable} {t : Table Tables.Comment}
    (h : ∀ k c, (db.get table).get? k = some c → ∃ d, t.get? k = some d ∧ SameComment c d) : Persists db (db.set table t) where
  users k u hu := ⟨u, by rw [Db.users_set, hu], .refl u⟩
  authors k h := by
    obtain ⟨u, hu, haccess⟩ := h
    exact ⟨u, by rw [← Db.users_set db table t, hu], haccess⟩
  comments other k c hc := by
    rw [Db.get_set]
    split_ifs with hother
    · subst hother
      exact h k c hc
    · exact ⟨c, hc, .refl c⟩
  stories k s hs := by cases table <;> exact hs
  old_stories := by cases table <;> rfl
  moderations k l hl := by rwa [Db.moderator_log_set]

theorem Change.persists (h : Change db db') : Persists db db' := by
  cases h with
  | nothing => exact .refl db
  | story s hs => exact persists_of_same rfl (by rintro ⟨⟩ <;> rfl) (fun _ _ => get?_insert_of_some) rfl fun _ _ h => h
  | submission s hs => exact persists_of_same rfl (by rintro ⟨⟩ <;> rfl) (fun _ _ h => h) rfl fun _ _ h => h
  | removal k => exact persists_of_same rfl (by rintro ⟨⟩ <;> rfl) (fun _ _ h => h) rfl fun _ _ h => h
  | comment table c hc => exact persists_of_set fun k d hd => ⟨d, get?_insert_of_some hd, .refl d⟩
  | counted table j f hf =>
    refine persists_of_set fun k c hc => ?_
    by_cases hk : k = j
    · exact ⟨f c, by simp [← hk, hc], hf c⟩
    · exact ⟨c, by simp [hk, hc], .refl c⟩
  | rated j f hf =>
    refine ⟨fun k u hu => ?_, fun k h => ?_, fun table k c hc => ⟨c, by simpa using hc, .refl c⟩, fun _ _ h => h, rfl, fun _ _ h => h⟩
    · by_cases hk : k = j
      · exact ⟨f u, by simp [← hk, hu], hf u⟩
      · exact ⟨u, by simp [hk, hu], .refl u⟩
    · obtain ⟨v, hv, haccess⟩ := h
      simp only [Table.get?_update] at hv
      split_ifs at hv with hk
      · obtain ⟨u, hu, rfl⟩ := Option.map_eq_some_iff.1 hv
        rw [hf u] at haccess
        exact ⟨u, hu, haccess⟩
      · exact ⟨v, hv, haccess⟩
  | moderation l hl => exact persists_of_same rfl (by rintro ⟨⟩ <;> rfl) (fun _ _ h => h) rfl fun _ _ => get?_insert_of_some
  | account q hq =>
    refine ⟨fun k u hu => ⟨u, get?_insert_of_some hu, .refl u⟩, fun k h => ?_, fun table k c hc => ⟨c, by simpa using hc, .refl c⟩,
      fun _ _ h => h, rfl, fun _ _ h => h⟩
    obtain ⟨v, hv, haccess⟩ := h
    simp only [Table.get?_insert] at hv
    split_ifs at hv with hk
    · cases hv
      exact absurd rfl haccess
    · exact ⟨v, hv, haccess⟩

theorem Change.uniqueNicknames (h : Change db db') (hdb : db.UniqueNicknames) : db'.UniqueNicknames := by
  cases h with
  | comment table c hc =>
    unfold Db.UniqueNicknames
    rwa [Db.users_set]
  | counted table j f hf =>
    unfold Db.UniqueNicknames
    rwa [Db.users_set]
  | rated j f hf =>
    have hname : ∀ k v, (db.users.update j f).get? k = some v → ∃ u, db.users.get? k = some u ∧ u.nickname = v.nickname := by
      intro k v hv
      rw [Table.get?_update] at hv
      split_ifs at hv with hk
      · obtain ⟨u, hu, rfl⟩ := Option.map_eq_some_iff.1 hv
        exact ⟨u, hu, by rw [hf u]⟩
      · exact ⟨v, hv, rfl⟩
    intro k l u v hu hv huv
    obtain ⟨u', hu', hu''⟩ := hname k u hu
    obtain ⟨v', hv', hv''⟩ := hname l v hv
    exact hdb k l u' v' hu' hv' (by rw [hu'', hv'', huv])
  | account q hq => exact RegisterUser.unique_insert hdb hq
  | nothing => exact hdb
  | story => exact hdb
  | submission => exact hdb
  | removal => exact hdb
  | moderation => exact hdb

/-- a row of a table behind a change is an old one or one that may be inserted -/
theorem Change.consistent (h : Change db db') (hdb : Consistent db) : Consistent db' := by
  have hp := h.persists
  have hnicknames := h.uniqueNicknames hdb.nicknames
  have hold : ∀ k s, db'.old_stories.get? k = some s → IsWriter db' s.writer := by
    intro k s hs
    rw [hp.old_stories] at hs
    exact hp.isWriter (hdb.old_stories k s hs)
  have hstories : ∀ k s, db.stories.get? k = some s → IsWriter db' s.writer := fun k s hs => hp.isWriter (hdb.stories k s hs)
  have hsubmissions : ∀ k s, db.submissions.get? k = some s → IsWriter db' s.writer :=
    fun k s hs => hp.isWriter (hdb.submissions k s hs)
  have hcomments : ∀ table k c, (db.get table).get? k = some c → IsWriter db' c.writer :=
    fun table k c hc => hp.isWriter (hdb.comments table k c hc)
  have hsame : (∀ table, db'.get table = db.get table) → ∀ table k c, (db'.get table).get? k = some c → IsWriter db' c.writer :=
    fun hsame table k c hc => hcomments table k c (by rwa [hsame] at hc)
  have hlog : ∀ k l, db.moderator_log.get? k = some l → IsAuthor db' l.moderator_id ∧ IsComment db' l.comment_id :=
    fun k l hl => ⟨hp.isAuthor (hdb.moderations k l hl).1, hp.isComment (hdb.moderations k l hl).2⟩
  cases h with
  | nothing => exact hdb
  | story s hs =>
    refine ⟨hnicknames, fun k r hr => ?_, hold, hsubmissions, hsame (by rintro ⟨⟩ <;> rfl), hlog⟩
    simp only [Table.get?_insert] at hr
    split_ifs at hr
    · cases hr
      exact hs
    · exact hstories k r hr
  | submission s hs =>
    refine ⟨hnicknames, hstories, hold, fun k r hr => ?_, hsame (by rintro ⟨⟩ <;> rfl), hlog⟩
    simp only [Table.get?_insert] at hr
    split_ifs at hr
    · cases hr
      exact hs
    · exact hsubmissions k r hr
  | removal j =>
    refine ⟨hnicknames, hstories, hold, fun k r hr => ?_, hsame (by rintro ⟨⟩ <;> rfl), hlog⟩
    simp only [Table.get?_delete] at hr
    split_ifs at hr
    exact hsubmissions k r hr
  | comment table c hc =>
    refine ⟨hnicknames, by cases table <;> exact hstories, hold, by cases table <;> exact hsubmissions, fun other k d hd => ?_,
      by cases table <;> exact hlog⟩
    rw [Db.get_set] at hd
    split_ifs at hd with hother
    · rw [Table.get?_insert] at hd
      split_ifs at hd
      · cases hd
        exact hp.isWriter hc
      · exact hcomments table k d hd
    · exact hcomments other k d hd
  | counted table j f hf =>
    refine ⟨hnicknames, by cases table <;> exact hstories, hold, by cases table <;> exact hsubmissions, fun other k d hd => ?_,
      by cases table <;> exact hlog⟩
    rw [Db.get_set] at hd
    split_ifs at hd with hother
    · rw [Table.get?_update] at hd
      split_ifs at hd
      · obtain ⟨c, hc, rfl⟩ := Option.map_eq_some_iff.1 hd
        rw [(hf c).1]
        exact hcomments table k c hc
      · exact hcomments table k d hd
    · exact hcomments other k d hd
  | rated j f hf => exact ⟨hnicknames, hstories, hold, hsubmissions, hsame (by rintro ⟨⟩ <;> rfl), hlog⟩
  | moderation l hl =>
    refine ⟨hnicknames, hstories, hold, hsubmissions, hsame (by rintro ⟨⟩ <;> rfl), fun k r hr => ?_⟩
    simp only [Table.get?_insert] at hr
    split_ifs at hr
    · cases hr
      exact ⟨hp.isAuthor hl.1, hp.isComment hl.2⟩
    · exact hlog k r hr
  | account q hq => exact ⟨hnicknames, hstories, hold, hsubmissions, hsame (by rintro ⟨⟩ <;> rfl), hlog⟩

/-! ## What the servlets rely on -/

section

variable {π ω : Type}

/-- the contract of a servlet -/
def contract (Relies : Db → π → Prop) (Shows : Db → ω → Prop) : Contract Db π ω := ⟨Consistent, Persists, Relies, Shows⟩

theorem gives_of_change {Relies : Db → π → Prop} {Shows : Db → ω → Prop} {o : Outcome Db π ω} (hdb : Consistent db)
    (h : Change db o.db) (hrelies : ∀ p ∈ o.next, Relies o.db p) (hshows : ∀ x ∈ o.printed, Shows o.db x) :
    (contract Relies Shows).Gives db o := ⟨h.consistent hdb, h.persists, hrelies, hshows⟩

/-- a request that ends, on pages that say nothing of the database -/
theorem gives_ended {Relies : Db → π → Prop} (hdb : Consistent db) {db' : Db} (h : Change db db') (out : List ω) :
    (contract Relies fun _ _ => True).Gives db ⟨db', none, out⟩ := gives_of_change hdb h (by simp) fun _ _ => trivial

end

theorem isWriter_of_findUser {nickname password : Text} {u : User} (h : db.findUser nickname password = some (k, u)) :
    IsWriter db k := by
  obtain ⟨hu, -⟩ := get?_of_findUser h
  exact .inr (by rw [hu]; rfl)

namespace StoreStory

open Rubbos.Servlets.StoreStory

/-- the story has its writer -/
def Relies (db : Db) : Point → Prop
  | .select _ _ _ => True
  | .insert _ story => IsWriter db story.writer

theorem isWriter_destination (nickname password : Text) :
    IsWriter db (destination (db.findUser nickname password)).1 := by
  unfold destination
  split
  · exact .inl rfl
  · rename_i userId u hfind
    split_ifs
    · exact .inl rfl
    · exact isWriter_of_findUser hfind
    · exact isWriter_of_findUser hfind

theorem keeps : Keeps (contract Relies fun _ _ => True) servlet where
  start db i _ := by
    refine ⟨fun p hp => ?_, fun _ _ => trivial⟩
    simp only [servlet, start] at hp
    split at hp
    all_goals try cases hp
    split at hp
    · cases hp
      trivial
    · cases hp
      exact .inl rfl
  exec db p ok hdb hp := by
    cases ok with
    | false => cases p <;> exact gives_ended hdb .nothing _
    | true =>
      cases p with
      | select nickname password story =>
        refine gives_of_change hdb .nothing ?_ fun _ _ => trivial
        rintro p' ⟨⟩
        exact isWriter_destination nickname password
      | insert table story =>
        cases table with
        | submissions => exact gives_ended hdb (.submission story hp) _
        | stories => exact gives_ended hdb (.story story hp) _
  relies_stable {db db' p} h hp := by
    cases p with
    | select => trivial
    | insert => exact h.isWriter hp
  shows_stable _ _ := trivial

end StoreStory

namespace Submissions

open Rubbos.Servlets.Submissions

/-- the row that was read has a writer -/
def Relies (db : Db) : Point → Prop
  | .acceptInsert _ row => IsWriter db row.writer
  | _ => True

theorem keeps : Keeps (contract Relies fun _ _ => True) servlets where
  start db i _ := by
    refine ⟨fun p hp => ?_, fun _ _ => trivial⟩
    cases i with
    | accept storyId =>
      simp only [servlets, start] at hp
      split at hp
      · split at hp <;> cases hp
        trivial
      · cases hp
    | reject storyId =>
      cases storyId <;> cases hp
      trivial
  exec db p ok hdb hp := by
    cases ok with
    | false => cases p <;> exact gives_ended hdb .nothing _
    | true =>
      simp only [servlets, if_true]
      cases p with
      | acceptSelect n =>
        simp only [succeed]
        split
        · exact gives_ended hdb .nothing _
        · rename_i row hrow
          refine gives_of_change hdb .nothing ?_ fun _ _ => trivial
          rintro p' ⟨⟩
          unfold submission at hrow
          split at hrow
          · exact hdb.submissions _ row hrow
          · cases hrow
      | acceptInsert j row =>
        refine gives_of_change hdb (.story row hp) ?_ fun _ _ => trivial
        rintro p' ⟨⟩
        trivial
      | acceptDelete j => exact gives_ended hdb (.removal j) _
      | rejectSelect j =>
        simp only [succeed]
        split
        · exact gives_ended hdb .nothing _
        · refine gives_of_change hdb .nothing ?_ fun _ _ => trivial
          rintro p' ⟨⟩
          trivial
      | rejectDelete j => exact gives_ended hdb (.removal j) _
  relies_stable {db db' p} h hp := by
    cases p with
    | acceptInsert => exact h.isWriter hp
    | _ => trivial
  shows_stable _ _ := trivial

end Submissions

namespace StoreComment

open Rubbos.Servlets.StoreComment

/-- the comment has its writer -/
def Relies (db : Db) : Point → Prop
  | .insert _ userId => IsWriter db userId
  | _ => True

theorem keeps : Keeps (contract Relies fun _ _ => True) servlet where
  start db i _ := by
    refine ⟨fun p hp => ?_, fun _ _ => trivial⟩
    simp only [servlet, start] at hp
    split at hp
    all_goals try cases hp
    trivial
  exec db p ok hdb hp := by
    cases ok with
    | false => cases p <;> exact gives_ended hdb .nothing _
    | true =>
      simp only [servlet, if_true]
      cases p with
      | authenticate q =>
        simp only [succeed]
        split
        · refine gives_of_change hdb .nothing ?_ fun _ _ => trivial
          rintro p' ⟨⟩
          exact .inl rfl
        · rename_i userId u hfind
          refine gives_of_change hdb .nothing ?_ fun _ _ => trivial
          rintro p' ⟨⟩
          exact isWriter_of_findUser hfind
      | insert q userId =>
        simp only [succeed]
        split
        · exact gives_ended hdb .nothing _
        · refine gives_of_change hdb (.comment _ (q.row userId) hp) ?_ fun _ _ => trivial
          rintro p' ⟨⟩
          trivial
      | update q =>
        simp only [succeed]
        split
        · exact gives_ended hdb .nothing _
        · exact gives_ended hdb (.counted _ _ addReply fun c => ⟨rfl, Nat.le_succ _⟩) _
  relies_stable {db db' p} h hp := by
    cases p with
    | insert => exact h.isWriter hp
    | _ => trivial
  shows_stable _ _ := trivial

end StoreComment

namespace StoreModeratorLog

open Rubbos.Servlets.StoreModeratorLog

/-- the moderator is an author, and once the comment was read it is there -/
def Relies (db : Db) : Point → Prop
  | .selectUser _ => True
  | .selectComment _ userId => IsAuthor db userId
  | .updateUser q userId _ | .updateComment q userId _ | .selectRating q userId _ | .selectUserRating q userId _ _
  | .insertLog q userId _ _ => IsAuthor db userId ∧ IsComment db q.commentId

theorem gives_ratingRead (hdb : Consistent db) {q : Moderation} {userId : ℕ} {c : Tables.Comment}
    (h : IsAuthor db userId ∧ IsComment db q.commentId) :
    (contract Relies fun _ _ => True).Gives db (ratingRead db q userId c) := by
  unfold ratingRead
  split_ifs <;>
  · refine gives_of_change hdb .nothing ?_ fun _ _ => trivial
    rintro p' ⟨⟩
    exact h

/-- a change that leaves what the request relies on, and the request goes on -/
theorem gives_next (hdb : Consistent db) (h : Change db db') {p : Point} (hp : Relies db' p) (out : List Output) :
    (contract Relies fun _ _ => True).Gives db ⟨db', some p, out⟩ :=
  gives_of_change hdb h (by rintro p' ⟨⟩; exact hp) fun _ _ => trivial

theorem relies_of_persists (h : Persists db db') {p : Point} (hp : Relies db p) : Relies db' p := by
  cases p with
  | selectUser => trivial
  | selectComment => exact h.isAuthor hp
  | updateUser => exact ⟨h.isAuthor hp.1, h.isComment hp.2⟩
  | updateComment => exact ⟨h.isAuthor hp.1, h.isComment hp.2⟩
  | selectRating => exact ⟨h.isAuthor hp.1, h.isComment hp.2⟩
  | selectUserRating => exact ⟨h.isAuthor hp.1, h.isComment hp.2⟩
  | insertLog => exact ⟨h.isAuthor hp.1, h.isComment hp.2⟩

theorem keeps : Keeps (contract Relies fun _ _ => True) servlet where
  start db i _ := by
    refine ⟨fun p hp => ?_, fun _ _ => trivial⟩
    simp only [servlet] at hp
    obtain hnone | ⟨q, text, hq, -⟩ := start_cases i
    · rw [hnone] at hp
      cases hp
    · rw [hq] at hp
      cases hp
      trivial
  exec db p ok hdb hp := by
    cases ok with
    | false => cases p <;> exact gives_ended hdb .nothing _
    | true =>
      simp only [servlet, if_true]
      cases p with
      | selectUser q =>
        simp only [succeed]
        split
        · exact gives_ended hdb .nothing _
        · rename_i userId u hfind
          split_ifs with haccess
          · exact gives_ended hdb .nothing _
          · rw [not_or] at haccess
            exact gives_next hdb .nothing (p := .selectComment q userId) ⟨u, (get?_of_findUser hfind).1, haccess.2⟩ _
      | selectComment q userId =>
        simp only [succeed]
        split
        · exact gives_ended hdb .nothing _
        · rename_i table _
          split
          · exact gives_ended hdb .nothing _
          · rename_i c hc
            exact gives_ratingRead hdb ⟨hp, table, by rw [hc]; rfl⟩
      | updateUser q userId writer =>
        have hchange : Change db { db with users := db.users.update writer fun u => { u with rating := u.rating + q.rating } } :=
          .rated writer _ fun _ => rfl
        exact gives_next hdb hchange (relies_of_persists (p := .updateComment q userId writer) hchange.persists hp) _
      | updateComment q userId writer =>
        simp only [succeed]
        split
        · exact gives_ended hdb .nothing _
        · rename_i table _
          have hchange : Change db (db.set table ((db.get table).update q.commentId fun c => { c with rating := c.rating + q.rating })) :=
            .counted table q.commentId _ fun _ => ⟨rfl, le_refl _⟩
          exact gives_next hdb hchange (relies_of_persists (p := .selectRating q userId writer) hchange.persists hp) _
      | selectRating q userId writer =>
        simp only [succeed]
        split
        · exact gives_ended hdb .nothing _
        · rename_i table _
          exact gives_next hdb .nothing
            (p := .selectUserRating q userId writer (((db.get table).get? q.commentId).map (·.rating))) hp _
      | selectUserRating q userId writer rating =>
        simp only [succeed]
        split
        · exact gives_next hdb .nothing (p := .insertLog q userId rating none) hp _
        · rename_i u _
          exact gives_next hdb .nothing (p := .insertLog q userId rating (some u.rating)) hp _
      | insertLog q userId a b => exact gives_ended hdb (.moderation ⟨userId, q.commentId, q.rating⟩ hp) _
  relies_stable h hp := relies_of_persists h hp
  shows_stable _ _ := trivial

end StoreModeratorLog

namespace RegisterUser

open Rubbos.Servlets.RegisterUser

/-- the user has an account under a number that is not that of the Anonymous Coward, and no rights -/
def HasAccount (db : Db) (q : Registration) (id : ℕ) : Prop :=
  id ≠ 0 ∧ ∃ u, db.users.get? id = some u ∧ u.nickname = q.nickname ∧ u.password = q.password ∧ u.access = 0

def Relies (db : Db) : Point → Prop
  | .selectUser q => ∃ id, HasAccount db q id
  | _ => True

/-- what the page that welcomes a user says -/
def Shows (db : Db) : Report → Prop
  | .welcome q id _ access => HasAccount db q id ∧ access = 0
  | .page _ => True

theorem hasAccount_of_persists (h : Persists db db') {q : Registration} {id : ℕ} (hq : HasAccount db q id) : HasAccount db' q id := by
  obtain ⟨hid, u, hu, hname, hpassword, haccess⟩ := hq
  obtain ⟨v, hv, huv⟩ := h.users id u hu
  refine ⟨hid, v, hv, ?_⟩
  rw [huv]
  exact ⟨hname, hpassword, haccess⟩

theorem gives_failed (hdb : Consistent db) : (contract Relies Shows).Gives db (failed db) :=
  gives_of_change hdb .nothing (by simp [failed]) (by simp [failed, Shows])

theorem keeps : Keeps (contract Relies Shows) servlet where
  start db i _ := by
    simp only [servlet, start]
    split
    all_goals refine ⟨?_, by simp [Shows, contract]⟩
    all_goals rintro p ⟨⟩
    trivial
  exec db p ok hdb hp := by
    cases ok with
    | false =>
      cases p with
      | selectNickname => exact gives_of_change hdb .nothing (by simp [servlet, fail]) (by simp [servlet, fail, Shows])
      | insertUser => exact gives_failed hdb
      | selectUser => exact gives_failed hdb
    | true =>
      simp only [servlet, if_true]
      cases p with
      | selectNickname q =>
        simp only [succeed]
        split
        · exact gives_of_change hdb .nothing (by simp) (by simp [Shows])
        · exact gives_of_change hdb .nothing (by simp [Relies]) (by simp)
      | insertUser q =>
        simp only [succeed]
        split_ifs with hq
        · refine gives_of_change hdb (.account q hq.2) ?_ (by simp)
          rintro p' ⟨⟩
          exact ⟨db.users.next, db.users.next_pos.ne', q.row, by simp, rfl, rfl, rfl⟩
        · exact gives_failed hdb
      | selectUser q =>
        obtain ⟨id, hid, u, hu, hname, hpassword, haccess⟩ := hp
        have hfind : db.findNickname q.nickname = some (id, u) := by rw [← hname, findNickname_of_unique hdb.nicknames hu]
        simp only [succeed, hfind]
        refine gives_of_change hdb .nothing (by simp) fun x hx => ?_
        simp only [List.mem_cons, List.not_mem_nil, or_false] at hx
        obtain rfl | rfl := hx
        · exact ⟨⟨hid, u, hu, hname, hpassword, haccess⟩, haccess⟩
        · trivial
  relies_stable {db db' p} h hp := by
    cases p with
    | selectUser =>
      obtain ⟨id, hid⟩ := hp
      exact ⟨id, hasAccount_of_persists h hid⟩
    | _ => trivial
  shows_stable {db db' x} h hx := by
    cases x with
    | page => trivial
    | welcome => exact ⟨hasAccount_of_persists h hx.1, hx.2⟩

end RegisterUser

/-! ## All servlets -/

abbrev Request := (((RegisterUser.Request ⊕ StoreStory.Request) ⊕ Submissions.Request) ⊕ StoreComment.Request) ⊕
  StoreModeratorLog.Request

abbrev Point := (((RegisterUser.Point ⊕ StoreStory.Point) ⊕ Submissions.Point) ⊕ StoreComment.Point) ⊕ StoreModeratorLog.Point

abbrev Report := (((RegisterUser.Report ⊕ Output) ⊕ Submissions.Report) ⊕ Output) ⊕ Output

/-- the servlets that write -/
def servlets : Program Db Request Point Report :=
  (((RegisterUser.servlet.sum StoreStory.servlet).sum Submissions.servlets).sum StoreComment.servlet).sum
    StoreModeratorLog.servlet

/-- what all of them rely on and show -/
def siteContract : Contract Db Point Report :=
  ((((contract RegisterUser.Relies RegisterUser.Shows).sum StoreStory.Relies fun _ _ => True).sum Submissions.Relies
    fun _ _ => True).sum StoreComment.Relies fun _ _ => True).sum StoreModeratorLog.Relies fun _ _ => True

theorem keeps_site : Keeps siteContract servlets :=
  (((RegisterUser.keeps.sum StoreStory.keeps).sum Submissions.keeps).sum StoreComment.keeps).sum StoreModeratorLog.keeps

theorem run_site (hdb : Consistent db) (es : List (Interleaving.Event Request)) :
    siteContract.Holds (after (step servlets) (idle db) es) ∧ Persists db (after (step servlets) (idle db) es).db := by
  have hstart : siteContract.Holds (idle db) := ⟨hdb, by simp [idle], by simp [idle]⟩
  exact keeps_site.run .refl .trans hstart es

/-- **The site keeps its data.** Over every interleaving of requests to all servlets that write, with any failures. -/
theorem site_consistent (hdb : Consistent db) (es : List (Interleaving.Event Request)) :
    Consistent (after (step servlets) (idle db) es).db ∧ Persists db (after (step servlets) (idle db) es).db :=
  ⟨(run_site hdb es).1.inv, (run_site hdb es).2⟩

/-- the page that welcomes a user -/
def welcome (q : RegisterUser.Registration) (id : ℕ) (rating access : ℤ) : Report :=
  .inl (.inl (.inl (.inl (.welcome q id rating access))))

/-- **Whoever was welcomed can log in**, under the number that the page has shown and without the rights of an author: what the
user posts is submitted, under this number, and a moderation is refused. -/
theorem registered_logs_in (hdb : Consistent db) (es : List (Interleaving.Event Request)) {q : RegisterUser.Registration} {id : ℕ}
    {rating access : ℤ} (h : welcome q id rating access ∈ (after (step servlets) (idle db) es).printed) :
    ∃ u, (after (step servlets) (idle db) es).db.findUser q.nickname q.password = some (id, u) ∧
      (StoreStory.destination (some (id, u))).1 = id ∧ (StoreStory.destination (some (id, u))).2.1 = .submissions ∧
        ¬ IsAuthor (after (step servlets) (idle db) es).db id := by
  obtain ⟨hholds, -⟩ := run_site hdb es
  obtain ⟨⟨hid, u, hu, hname, hpassword, haccess⟩, -⟩ := hholds.shows _ h
  refine ⟨u, by rw [← hname, ← hpassword, findUser_of_unique hholds.inv.nicknames hu], ?_, ?_, ?_⟩
  · simp [StoreStory.destination, hid, haccess]
  · simp [StoreStory.destination, hid, haccess]
  · rintro ⟨v, hv, hv'⟩
    rw [hu] at hv
    cases hv
    exact hv' haccess

/-- a site without data -/
def emptySite : Db := ⟨.empty, .empty, .empty, .empty, .empty, .empty, .empty⟩

theorem consistent_emptySite : Consistent emptySite where
  nicknames k l u v h := nomatch h
  stories k s h := nomatch h
  old_stories k s h := nomatch h
  submissions k s h := nomatch h
  comments table k c h := by cases table <;> exact nomatch h
  moderations k l h := nomatch h

def somebody : RegisterUser.Registration := ⟨['a'], ['b'], ['n'], ['e'], ['p']⟩

/-- somebody registers, posts a comment, and tries to moderate it -/
def firstUser : List (Interleaving.Event Request) :=
  [.request (.inl (.inl (.inl (.inl ⟨some ['a'], some ['b'], some ['n'], some ['e'], some ['p']⟩)))), .statement 0 true,
    .statement 0 true, .statement 0 true,
    .request (.inl (.inr ⟨some ['n'], some ['p'], some 1, some 0, some ['s'], some ['c'], some (.known .comments), []⟩)),
    .statement 0 true, .statement 0 true, .statement 0 true,
    .request (.inr ⟨some ['n'], some ['p'], some (.known .comments), some 1, some ['1']⟩), .statement 0 true]

theorem site_consistent_first_user : Consistent (after (step servlets) (idle emptySite) firstUser).db ∧
    Persists emptySite (after (step servlets) (idle emptySite) firstUser).db :=
  site_consistent consistent_emptySite firstUser

theorem first_user_logs_in :
    ∃ u, (after (step servlets) (idle emptySite) firstUser).db.findUser ['n'] ['p'] = some (1, u) ∧
      (StoreStory.destination (some (1, u))).1 = 1 ∧ (StoreStory.destination (some (1, u))).2.1 = .submissions ∧
        ¬ IsAuthor (after (step servlets) (idle emptySite) firstUser).db 1 := by
  have hwelcome : (after (step servlets) (idle emptySite) firstUser).printed[0]? = some (welcome somebody 1 0 0) := by decide
  exact registered_logs_in consistent_emptySite firstUser (List.mem_of_getElem? hwelcome)

end Rubbos.Servlets.Site
