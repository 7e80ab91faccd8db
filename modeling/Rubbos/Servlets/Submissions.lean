/-
Accepting and rejecting submissions (`AcceptStory.java`, `RejectStory.java`).

To accept a submission is to SELECT its row, INSERT a copy into the stories and DELETE the row, as three statements with no
transaction around them; to reject it is to SELECT and DELETE. Nobody looks at the number of rows that a DELETE has hit. The
history of a run records what the pages say, and for which submission a story was inserted.

Statements are single steps that may fail, and the texts of a submission are taken to stand in the INSERT as they are meant
(`SqlStatements.statements_lex_iff` says when).

- `submissions_moved_once`: in every interleaving a submission becomes at most one story, is never both rejected and
  published, and is gone once it is published, as long as no request SELECTs a submission while another one is about to
  publish or delete it, and no DELETE behind an INSERT fails.
- `two_authors_publish_twice`: two requests that both SELECT the row.
- `stories_on_record`: the stories that are inserted are those that the history records.
-/
import Rubbos.Core.Interleaving
import Rubbos.Core.JString
import Rubbos.Servlets.Tables

namespace Rubbos.Servlets.Submissions

open Rubbos.Core JString Interleaving Tables

/-! ## Model -/

/-- the requests, with the parameter storyId; `RejectStory` splices it into its statements, where it is a number -/
inductive Request where
  | accept (storyId : Option Text)
  | reject (storyId : Option ℕ)
deriving DecidableEq, Repr

inductive Point where
  /-- `SELECT * FROM submissions WHERE id=…` -/
  | acceptSelect (storyId : ℤ)
  /-- `INSERT INTO stories …`, with the columns of the row that was read -/
  | acceptInsert (storyId : ℕ) (row : Story)
  /-- `DELETE FROM submissions WHERE id=…` -/
  | acceptDelete (storyId : ℕ)
  /-- `SELECT id FROM submissions WHERE id=…` -/
  | rejectSelect (storyId : ℕ)
  /-- `DELETE FROM submissions WHERE id=…` -/
  | rejectDelete (storyId : ℕ)
deriving DecidableEq

/-- the history of a run -/
inductive Report where
  /-- the page of a request for a submission -/
  | page (storyId : Option ℕ) (out : Output)
  /-- a row of the stories was inserted for the submission -/
  | published (storyId story : ℕ)
deriving DecidableEq

def say (storyId : Option ℕ) (outs : List Output) : List Report := outs.map (.page storyId)

/-- the head of both pages -/
def head : List Output :=
  [.header "RUBBoS: Story submission result", .html "<center><h2>Story submission result:</h2></center><p>\n"]

def start : Request → Option Point × List Report
  | .accept storyId =>
    -- `Integer.valueOf(null)` throws as well
    match storyId.map parseInt with
    | some (.ok n) =>
      if n = 0 then (none, say none (head ++ [.html "<h3>You must provide a story identifier !<br></h3>"]))
      else (some (.acceptSelect n), say none head)
    | _ => (none, say none head)
  | .reject none => (none, say none [.html "RejectStory: <h3>You must provide a story identifier !<br></h3>"])
  | .reject (some k) => (some (.rejectSelect k), say (some k) head)

/-- the row under a number -/
def submission (db : Db) (n : ℤ) : Option Story := if 0 ≤ n then db.submissions.get? n.toNat else none

def removed : Output := .html "The story has been successfully removed from the submissions database table<br>\n"

def moved : Output :=
  .html "The story has been successfully moved from the submission to the stories database table<br>\n"

/-- a statement that succeeds -/
def succeed (db : Db) : Point → Outcome Db Point Report
  | .acceptSelect n =>
    match submission db n with
    | none => ⟨db, none, say (some n.toNat) [.html "<h3>ERROR: Sorry, but this story does not exist.</h3><br>"]⟩
    | some row => ⟨db, some (.acceptInsert n.toNat row), []⟩
  | .acceptInsert k row =>
    ⟨{ db with stories := db.stories.insert row }, some (.acceptDelete k), [.published k db.stories.next]⟩
  | .acceptDelete k => ⟨{ db with submissions := db.submissions.delete k }, none, say (some k) [moved, .footer]⟩
  | .rejectSelect k =>
    match db.submissions.get? k with
    | none => ⟨db, none, say (some k) [.html "<h3>ERROR: Sorry, but this story does not exist.</h3><br>\n"]⟩
    | some _ => ⟨db, some (.rejectDelete k), []⟩
  | .rejectDelete k => ⟨{ db with submissions := db.submissions.delete k }, none, say (some k) [removed, .footer]⟩

/-- a statement that throws -/
def fail (db : Db) : Point → Outcome Db Point Report
  | .acceptSelect n => ⟨db, none, say (some n.toNat) [.exception " Failed to execute Query for AcceptStory: " ""]⟩
  | .acceptInsert k _ | .acceptDelete k => ⟨db, none, say (some k) [.exception "Exception accepting stories: " "<br>"]⟩
  | .rejectSelect k => ⟨db, none, say (some k) [.exception "Failed to execute Query for RejectStory: " ""]⟩
  | .rejectDelete k => ⟨db, none, say (some k) [.exception "Exception rejecting story: " "<br>"]⟩

def servlets : Program Db Request Point Report where
  start := start
  exec := fun db p ok => if ok then succeed db p else fail db p

/-! ## One submission -/

variable {k : ℕ}

def Inserts (k : ℕ) : Point → Bool
  | .acceptInsert j _ => j = k
  | _ => false

def Deletes (k : ℕ) : Point → Bool
  | .acceptDelete j => j = k
  | _ => false

def Rejects (k : ℕ) : Point → Bool
  | .rejectDelete j => j = k
  | _ => false

/-- an inserted story is on record -/
def IsPublished (k : ℕ) : Report → Bool
  | .published j _ => j = k
  | _ => false

/-- the page of a request says that the submission was removed -/
def Removed (k : ℕ) (printed : List Report) : Prop := .page (some k) removed ∈ printed

/-- a SELECT that finds the submission is made while no other request is going to publish or delete it, and the DELETE
behind an INSERT does not fail -/
def Exclusive (k : ℕ) (s : Interleaving.St Db Point Report) : Interleaving.Event Request → Prop
  | .statement n ok => ∀ p ∈ s.running[n]?,
      (p = .acceptSelect k → ok = true → (s.db.submissions.get? k).isSome → s.running.countP (Inserts k) = 0 ∧
        s.running.countP (Deletes k) = 0 ∧ s.running.countP (Rejects k) = 0) ∧
      (p = .rejectSelect k → ok = true → (s.db.submissions.get? k).isSome → s.running.countP (Inserts k) = 0 ∧
        s.running.countP (Deletes k) = 0) ∧
      (p = .acceptDelete k → ok = true)
  | .request _ => True

instance (s : Interleaving.St Db Point Report) : ∀ e, Decidable (Exclusive k s e)
  | .statement n ok => inferInstanceAs (Decidable (∀ p ∈ s.running[n]?,
      (p = .acceptSelect k → ok = true → (s.db.submissions.get? k).isSome → s.running.countP (Inserts k) = 0 ∧
        s.running.countP (Deletes k) = 0 ∧ s.running.countP (Rejects k) = 0) ∧
      (p = .rejectSelect k → ok = true → (s.db.submissions.get? k).isSome → s.running.countP (Inserts k) = 0 ∧
        s.running.countP (Deletes k) = 0) ∧
      (p = .acceptDelete k → ok = true)))
  | .request _ => isTrue trivial

/-- what holds of a submission: it becomes at most one story, it is not both rejected and published, and once it is published
and nobody is about to delete it, it is gone -/
structure Settled (k : ℕ) (s : Interleaving.St Db Point Report) : Prop where
  once : s.printed.countP (IsPublished k) ≤ 1
  not_both : ¬ (Removed k s.printed ∧ 0 < s.printed.countP (IsPublished k))
  gone : 0 < s.printed.countP (IsPublished k) → (∀ p ∈ s.running, ¬ Deletes k p) → s.db.submissions.get? k = none

/-! ## One statement -/

/-- what a statement does to one submission -/
inductive Effect (k : ℕ) (db : Db) (p : Point) (ok : Bool) : Outcome Db Point Report → Prop
  | quiet {o} (row : o.db.submissions.get? k = db.submissions.get? k)
      (next : o.next.toList.countP (Inserts k) = 0 ∧ o.next.toList.countP (Deletes k) = 0 ∧
        o.next.toList.countP (Rejects k) = 0)
      (reports : o.printed.countP (IsPublished k) = 0 ∧ ¬ Removed k o.printed) (hp : p = .acceptDelete k → ok = false) :
      Effect k db p ok o
  | acceptSelected (hp : p = .acceptSelect k) (hok : ok = true) (row : (db.submissions.get? k).isSome) (r : Story) :
      Effect k db p ok ⟨db, some (.acceptInsert k r), []⟩
  | inserted {o} {r : Story} (hp : p = .acceptInsert k r) (row : o.db.submissions = db.submissions)
      (next : o.next = some (.acceptDelete k)) (key : ℕ) (reports : o.printed = [.published k key]) : Effect k db p ok o
  | accepted {o} (hp : p = .acceptDelete k) (row : o.db.submissions.get? k = none) (next : o.next = none)
      (reports : o.printed.countP (IsPublished k) = 0 ∧ ¬ Removed k o.printed) : Effect k db p ok o
  | rejectSelected (hp : p = .rejectSelect k) (hok : ok = true) (row : (db.submissions.get? k).isSome) :
      Effect k db p ok ⟨db, some (.rejectDelete k), []⟩
  | rejected {o} (hp : p = .rejectDelete k) (row : o.db.submissions.get? k = none) (next : o.next = none)
      (reports : o.printed.countP (IsPublished k) = 0 ∧ Removed k o.printed) : Effect k db p ok o

/-- pages never record a story -/
theorem countP_say (j : Option ℕ) (outs : List Output) : (say j outs).countP (IsPublished k) = 0 := by
  rw [List.countP_eq_zero]
  intro x hx
  obtain ⟨o, -, rfl⟩ := List.mem_map.1 hx
  simp [IsPublished]

theorem removed_say (j : Option ℕ) (outs : List Output) : Removed k (say j outs) ↔ j = some k ∧ removed ∈ outs := by
  simp [Removed, say, and_comm]

/-- a request that ends and leaves the submissions alone -/
theorem Effect.ended {db : Db} {p : Point} {ok : Bool} {j : Option ℕ} {outs : List Output} (h : removed ∉ outs)
    (hp : p = .acceptDelete k → ok = false) : Effect k db p ok ⟨db, none, say j outs⟩ :=
  .quiet rfl (by simp) ⟨countP_say j outs, fun hr => h ((removed_say j outs).1 hr).2⟩ hp

theorem exec_fail_effect (k : ℕ) (db : Db) (p : Point) : Effect k db p false (fail db p) := by
  cases p <;> exact .ended (by simp [removed]) (fun _ => rfl)

theorem acceptSelect_effect (k : ℕ) (db : Db) (n : ℤ) : Effect k db (.acceptSelect n) true (succeed db (.acceptSelect n)) := by
  simp only [succeed]
  split
  · exact .ended (by simp [removed]) (by simp)
  · next r hr =>
    unfold submission at hr
    split at hr
    · next hn =>
      by_cases hk : n.toNat = k
      · obtain rfl : n = k := by omega
        rw [Int.toNat_natCast] at hr ⊢
        exact .acceptSelected rfl rfl (by rw [hr]; rfl) r
      · exact .quiet rfl (by simp [Inserts, Deletes, Rejects, hk]) (by simp [Removed]) (by simp)
    · cases hr

theorem exec_effect (k : ℕ) (db : Db) (p : Point) (ok : Bool) : Effect k db p ok (servlets.exec db p ok) := by
  cases ok with
  | false => exact exec_fail_effect k db p
  | true =>
    simp only [servlets, if_true]
    cases p with
    | acceptSelect n => exact acceptSelect_effect k db n
    | acceptInsert j row =>
      by_cases hj : j = k
      · subst hj
        exact .inserted rfl rfl rfl db.stories.next rfl
      · exact .quiet rfl (by simp [succeed, Inserts, Deletes, Rejects, hj]) (by simp [succeed, IsPublished, Removed, hj])
          (by simp)
    | acceptDelete j =>
      have hreports : (say (some j) [moved, .footer]).countP (IsPublished k) = 0 ∧
          ¬ Removed k (say (some j) [moved, .footer]) :=
        ⟨countP_say _ _, by simp [removed_say, removed, moved]⟩
      by_cases hj : j = k
      · subst hj
        exact .accepted rfl (by simp [succeed]) rfl hreports
      · have hne : k ≠ j := fun h => hj h.symm
        exact .quiet (by simp [succeed, hne]) (by simp [succeed]) hreports (by simp [hj])
    | rejectSelect j =>
      simp only [succeed]
      split
      · exact .ended (by simp [removed]) (by simp)
      · next r hr =>
        by_cases hj : j = k
        · subst hj
          exact .rejectSelected rfl rfl (by rw [hr]; rfl)
        · exact .quiet rfl (by simp [Inserts, Deletes, Rejects, hj]) (by simp [Removed]) (by simp)
    | rejectDelete j =>
      by_cases hj : j = k
      · subst hj
        refine .rejected rfl (by simp [succeed]) rfl ⟨countP_say _ _, ?_⟩
        simp [succeed, removed_say]
      · have hne : k ≠ j := fun h => hj h.symm
        refine .quiet (by simp [succeed, hne]) (by simp [succeed]) ⟨countP_say _ _, ?_⟩ (by simp)
        simp [succeed, removed_say, hj]

/-! ## The protocol for a submission -/

/-- where a submission stands: i requests are going to publish it, d to delete it because they have published it, r to
delete it because they reject it, and p stories were made of it -/
structure Protocol (i d r p : ℕ) (gone removed : Prop) : Prop where
  one : i + d ≤ 1
  alone : 0 < i + d → r = 0
  once : p ≤ 1
  deleting : 0 < d → p = 1
  published : 0 < p → i = 0 ∧ r = 0 ∧ ¬ removed ∧ (d = 1 ∨ gone)
  rejected : removed → i = 0 ∧ d = 0 ∧ gone

namespace Protocol

variable {i d r p : ℕ} {gone removed : Prop}

theorem initial : Protocol 0 0 0 0 gone False := ⟨by omega, by omega, by omega, by omega, by omega, False.elim⟩

/-- requests give up before they publish or reject -/
theorem give_up (h : Protocol i d r p gone removed) {i' r' : ℕ} (hi : i' ≤ i) (hr : r' ≤ r) :
    Protocol i' d r' p gone removed := by
  obtain ⟨one, alone, once, deleting, published, rejected⟩ := h
  refine ⟨by omega, by omega, once, deleting, ?_, ?_⟩
  · intro hp
    obtain ⟨h1, h2, h3, h4⟩ := published hp
    exact ⟨by omega, by omega, h3, h4⟩
  · intro hrem
    obtain ⟨h1, h2, h3⟩ := rejected hrem
    exact ⟨by omega, h2, h3⟩

theorem not_published (h : Protocol i d r p gone removed) (hd : d = 0) (hgone : ¬ gone) : p = 0 := by
  by_contra hp
  obtain ⟨-, -, -, hone | hg⟩ := h.published (by omega)
  · omega
  · exact hgone hg

/-- an accepting request finds the row -/
theorem select (h : Protocol i d r p gone removed) (hi : i = 0) (hd : d = 0) (hr : r = 0) (hgone : ¬ gone) :
    Protocol (i + 1) d r p gone removed := by
  have hp := h.not_published hd hgone
  refine ⟨by omega, by omega, h.once, by omega, by omega, ?_⟩
  intro hrem
  exact absurd (h.rejected hrem).2.2 hgone

theorem publish (h : Protocol i d r p gone removed) (hi : 0 < i) : Protocol (i - 1) (d + 1) r (p + 1) gone removed := by
  have hone := h.one
  have hr := h.alone (by omega)
  have hp : p = 0 := by
    by_contra hp
    have := (h.published (by omega)).1
    omega
  have hrem : ¬ removed := by
    intro hrem
    have := (h.rejected hrem).1
    omega
  exact ⟨by omega, fun _ => hr, by omega, by omega, fun _ => ⟨by omega, hr, hrem, .inl (by omega)⟩,
    fun hr' => absurd hr' hrem⟩

theorem delete (h : Protocol i d r p gone removed) (hd : 0 < d) : Protocol i (d - 1) r p True removed := by
  have hone := h.one
  have hp := h.deleting hd
  obtain ⟨hi, hr, hrem, -⟩ := h.published (by omega)
  exact ⟨by omega, by omega, h.once, by omega, fun _ => ⟨hi, hr, hrem, .inr trivial⟩, fun hr' => absurd hr' hrem⟩

/-- a rejecting request finds the row -/
theorem reject (h : Protocol i d r p gone removed) (hi : i = 0) (hd : d = 0) (hgone : ¬ gone) :
    Protocol i d (r + 1) p gone removed := by
  have hp := h.not_published hd hgone
  refine ⟨by omega, by omega, h.once, by omega, by omega, h.rejected⟩

theorem remove (h : Protocol i d r p gone removed) (hr : 0 < r) : Protocol i d (r - 1) p True True := by
  have halone := h.alone
  have hp : p = 0 := by
    by_contra hp
    have := (h.published (by omega)).2.1
    omega
  exact ⟨by omega, by omega, by omega, by omega, by omega, fun _ => ⟨by omega, by omega, trivial⟩⟩

end Protocol

/-! ## All interleavings -/

/-- the state of a submission follows the protocol -/
def Follows (k : ℕ) (s : Interleaving.St Db Point Report) : Prop :=
  Protocol (s.running.countP (Inserts k)) (s.running.countP (Deletes k)) (s.running.countP (Rejects k))
    (s.printed.countP (IsPublished k)) (s.db.submissions.get? k = none) (Removed k s.printed)

theorem Follows.settled {s : Interleaving.St Db Point Report} (h : Follows k s) : Settled k s where
  once := h.once
  not_both := fun hboth => (h.published hboth.2).2.2.1 hboth.1
  gone := by
    intro hpub hnone
    have hzero : s.running.countP (Deletes k) = 0 := List.countP_eq_zero.2 hnone
    rcases (h.published hpub).2.2.2 with hone | hrow
    · omega
    · exact hrow

theorem start_quiet (i : Request) : ((start i).1.toList.countP (Inserts k) = 0 ∧ (start i).1.toList.countP (Deletes k) = 0 ∧
    (start i).1.toList.countP (Rejects k) = 0) ∧ (start i).2.countP (IsPublished k) = 0 ∧ ¬ Removed k (start i).2 := by
  have hhead : removed ∉ head := by simp [removed, head]
  cases i with
  | accept storyId =>
    simp only [start]
    split
    · split
      · exact ⟨by simp, countP_say _ _, by simp [removed_say]⟩
      · exact ⟨by simp [Inserts, Deletes, Rejects], countP_say _ _, by simp [removed_say]⟩
    · exact ⟨by simp, countP_say _ _, by simp [removed_say]⟩
  | reject storyId =>
    cases storyId with
    | none => exact ⟨by simp [start], countP_say _ _, by simp [start, removed_say]⟩
    | some j => exact ⟨by simp [start, Inserts, Deletes, Rejects], countP_say _ _, by simp [start, removed_say, hhead]⟩

theorem follows_request {s : Interleaving.St Db Point Report} (h : Follows k s) (i : Request) :
    Follows k (arrive s (start i)) := by
  obtain ⟨⟨hi, hd, hr⟩, hp, hrem⟩ := start_quiet (k := k) i
  have hprinted : (arrive s (start i)).printed.countP (IsPublished k) = s.printed.countP (IsPublished k) := by
    simp [arrive, hp]
  have hremoved : Removed k (arrive s (start i)).printed ↔ Removed k s.printed := by
    simp only [Removed, arrive, List.mem_append] at hrem ⊢
    tauto
  unfold Follows
  rw [countP_arrive, countP_arrive, countP_arrive, hi, hd, hr, hprinted, hremoved]
  exact h

theorem follows_statement {s : Interleaving.St Db Point Report} (h : Follows k s) {as bs : List Point} {p : Point} {ok : Bool}
    (hs : s.running = as ++ p :: bs) (hex : Exclusive k s (.statement as.length ok)) :
    Follows k (advance s as bs (servlets.exec s.db p ok)) := by
  obtain ⟨haccept, hreject, hdelete⟩ := hex p (by simp [hs])
  generalize ho : servlets.exec s.db p ok = o
  have hprinted : (advance s as bs o).printed.countP (IsPublished k) =
      s.printed.countP (IsPublished k) + o.printed.countP (IsPublished k) := List.countP_append
  have hremoved : Removed k (advance s as bs o).printed ↔ Removed k s.printed ∨ Removed k o.printed := List.mem_append
  unfold Follows
  rw [hprinted, hremoved, countP_exchange hs, countP_exchange hs, countP_exchange hs]
  cases ho ▸ exec_effect k s.db p ok with
  | quiet row next reports hp =>
    have hnot : [p].countP (Deletes k) = 0 := by
      cases p with
      | acceptDelete j =>
        have hj : j ≠ k := by
          rintro rfl
          exact absurd (hp rfl) (by simp [hdelete rfl])
        simp [Deletes, hj]
      | _ => simp [Deletes]
    have hrow : ((advance s as bs o).db.submissions.get? k = none) ↔ s.db.submissions.get? k = none := by
      rw [advance, row]
    rw [next.1, next.2.1, next.2.2, reports.1, hnot, hrow, or_iff_left reports.2]
    exact h.give_up (Nat.sub_le _ _) (Nat.sub_le _ _)
  | acceptSelected hp hok row r =>
    subst hp
    obtain ⟨hi, hd, hr⟩ := haccept rfl hok row
    simpa [Inserts, Deletes, Rejects, Removed, advance] using h.select hi hd hr (by simpa [Option.isSome_iff_ne_none] using row)
  | inserted hp row next key reports =>
    subst hp
    have hpos : 0 < s.running.countP (Inserts k) := countP_pos hs (by simp [Inserts])
    simpa [next, reports, row, Inserts, Deletes, Rejects, Removed, IsPublished, advance] using h.publish hpos
  | accepted hp row next reports =>
    subst hp
    have hpos : 0 < s.running.countP (Deletes k) := countP_pos hs (by simp [Deletes])
    simpa [next, reports, row, Inserts, Deletes, Rejects, advance] using h.delete hpos
  | rejectSelected hp hok row =>
    subst hp
    obtain ⟨hi, hd⟩ := hreject rfl hok row
    simpa [Inserts, Deletes, Rejects, Removed, advance] using h.reject hi hd (by simpa [Option.isSome_iff_ne_none] using row)
  | rejected hp row next reports =>
    subst hp
    have hpos : 0 < s.running.countP (Rejects k) := countP_pos hs (by simp [Rejects])
    simpa [next, reports, row, Inserts, Deletes, Rejects, advance] using h.remove hpos

/-- **A submission is moved once.** In every interleaving of requests that accept and reject, with any failures, every
submission becomes at most one story, is never both reported removed and published, and is gone once it is published and
its request has ended, as long as the SELECTs of it are exclusive and no DELETE behind an INSERT fails. -/
theorem submissions_moved_once (k : ℕ) (db : Db) (es : List (Interleaving.Event Request))
    (h : Along (step servlets) (Exclusive k) (idle db) es) : Settled k (after (step servlets) (idle db) es) := by
  have hstart : Follows k (idle db : Interleaving.St Db Point Report) := by
    simpa [Follows, idle, Removed] using Protocol.initial
  have hend : Follows k (after (step servlets) (idle db) es) := by
    refine interleaving_invariant (Follows k) (Exclusive k) ?_ ?_ _ es hstart h
    · intro s i hs _
      exact follows_request hs i
    · intro s as p bs ok hf hs hex
      exact follows_statement hf hs hex
  exact hend.settled

/-- a submission, and an idle database around it -/
def oneSubmission : Db where
  users := .empty
  comments := .empty
  old_comments := .empty
  stories := .empty
  old_stories := .empty
  submissions := Table.empty.insert ⟨['t'], ['b'], [], 1, 1⟩
  moderator_log := .empty

/-- two requests for the submission, one after the other: the second finds nothing -/
theorem second_author_too_late : Settled 1 (after (step servlets) (idle oneSubmission)
    [.request (.accept (some ['1'])), .statement 0 true, .statement 0 true, .statement 0 true, .request (.reject (some 1)),
      .statement 0 true]) :=
  submissions_moved_once 1 oneSubmission _ (by decide)

/-- two authors accept the submission, and both read it before either goes on -/
def bothAccept : List (Interleaving.Event Request) :=
  [.request (.accept (some ['1'])), .request (.accept (some ['1'])), .statement 0 true, .statement 1 true, .statement 0 true,
    .statement 1 true, .statement 0 true, .statement 0 true]

/-- one author accepts the submission and one rejects it -/
def acceptAndReject : List (Interleaving.Event Request) :=
  [.request (.accept (some ['1'])), .request (.reject (some 1)), .statement 0 true, .statement 1 true, .statement 0 true,
    .statement 1 true, .statement 0 true]

/-- the last statement of a request fails -/
def deleteFails : List (Interleaving.Event Request) :=
  [.request (.accept (some ['1'])), .statement 0 true, .statement 0 true, .statement 0 false]

/-- a submission that becomes two stories, one that is published and reported removed, one that is published and stays -/
theorem two_authors_publish_twice :
    ((after (step servlets) (idle oneSubmission) bothAccept).db.stories.rows.length = 2 ∧
      ¬ Settled 1 (after (step servlets) (idle oneSubmission) bothAccept)) ∧
    (.page (some 1) removed ∈ (after (step servlets) (idle oneSubmission) acceptAndReject).printed ∧
      ¬ Settled 1 (after (step servlets) (idle oneSubmission) acceptAndReject)) ∧
    ((after (step servlets) (idle oneSubmission) deleteFails).running = [] ∧
      ¬ Settled 1 (after (step servlets) (idle oneSubmission) deleteFails)) := by
  refine ⟨⟨by decide, ?_⟩, ⟨by decide, ?_⟩, ⟨by decide, ?_⟩⟩
  · intro h
    exact absurd h.once (by decide)
  · intro h
    exact h.not_both ⟨by unfold Removed; decide, by decide⟩
  · intro h
    exact absurd (h.gone (by decide) (by decide)) (by decide)

/-! ## The history is that of the table -/

def storyOf : Report → Option ℕ
  | .published _ story => some story
  | .page _ _ => none

theorem storyOf_say (j : Option ℕ) (outs : List Output) : (say j outs).filterMap storyOf = [] := by
  rw [List.filterMap_eq_nil_iff]
  intro x hx
  obtain ⟨o, -, rfl⟩ := List.mem_map.1 hx
  rfl

theorem exec_stories (db : Db) (p : Point) (ok : Bool) : (servlets.exec db p ok).db.stories.rows.map Prod.fst =
    db.stories.rows.map Prod.fst ++ (servlets.exec db p ok).printed.filterMap storyOf := by
  cases ok with
  | false => cases p <;> simp [servlets, fail, storyOf_say]
  | true =>
    simp only [servlets, if_true]
    cases p with
    | acceptSelect n =>
      simp only [succeed]
      split <;> simp [storyOf_say]
    | acceptInsert k row => simp [succeed, Table.insert, storyOf]
    | acceptDelete k => simp [succeed, storyOf_say]
    | rejectSelect k =>
      simp only [succeed]
      split <;> simp [storyOf_say]
    | rejectDelete k => simp [succeed, storyOf_say]

/-- **The stories that a run adds are those on record**, in order and each once. -/
theorem stories_on_record (db : Db) (es : List (Interleaving.Event Request)) :
    (after (step servlets) (idle db) es).db.stories.rows.map Prod.fst =
      db.stories.rows.map Prod.fst ++ (after (step servlets) (idle db) es).printed.filterMap storyOf := by
  refine interleaving_invariant (P := servlets)
    (fun s => s.db.stories.rows.map Prod.fst = db.stories.rows.map Prod.fst ++ s.printed.filterMap storyOf)
    (fun _ _ => True) ?_ ?_ _ es (by simp [idle]) (.of_forall (fun _ _ => trivial) _)
  · intro s i hs _
    have hstart : (start i).2.filterMap storyOf = [] := by
      cases i with
      | accept storyId =>
        simp only [start]
        split
        · split <;> exact storyOf_say _ _
        · exact storyOf_say _ _
      | reject storyId => cases storyId <;> exact storyOf_say _ _
    rw [arrive, servlets, List.filterMap_append, hstart, List.append_nil]
    exact hs
  · intro s as p bs ok hs _ _
    rw [advance, exec_stories, hs, List.filterMap_append, List.append_assoc]

end Rubbos.Servlets.Submissions
