/-
Rules for the paths of a request.

A property of the paths is a `Discipline`: a condition S before the connection is there, a condition I while it is open,
and the condition F that each end of the request must have. The calls of the driver keep I, and the ends that servlets
share have F. A servlet that leaves only by these ends has F at its end: one lemma for each servlet, whatever the
discipline is.
-/
import Rubbos.Servlets.RequestPaths

namespace Rubbos.Servlets.RequestPaths

open Rubbos.Core Method JString

variable {α β : Type}

/-! ## States -/

def St.acquire (k : Kind) (s : St) : St := { s with conn := true, pool := s.pool ++ [.get k] }

def St.close (k : Kind) (s : St) : St := if s.conn then { s with pool := s.pool ++ [.release k] } else s

def St.log (s : St) : St := { s with records := s.records ++ [s.logMessage] }

def St.prepare (s : St) : St := { s with prepared := s.prepared + 1 }

def St.tick (s : St) : St := { s with ticks := s.ticks + 1 }

def St.readOne (s : St) : St := { s with reads := s.reads + 1 }

/-- a statement between its two readings of the clock -/
def St.complete (stmt : ℕ) (s : St) : St :=
  { s with executed := stmt, reads := 0, ticks := s.ticks + 2, completed := s.completed ++ [s.ticks + 1] }

/-- DBST, DBET and DBRT of a call with so many readings before its end -/
def times (driver : Driver) (t : ℕ) : Times where
  startNano := driver.nanoTime (t - 1)
  endNano := driver.nanoTime t
  responseTime := (driver.nanoTime t - driver.nanoTime (t - 1)).tdiv 1000

/-! ## Exact steps -/

section Steps

variable {s : St} {J : Jump → St → Prop} {c : Prop} [Decidable c] {k : Kind} (driver : Driver)

omit driver in
theorem after_throwIf {Q : Unit → St → Prop} :
    After (throwIf c) s Q J ↔ (c → J .thrown s) ∧ (¬c → Q () s) := after_ite_iff

omit driver in
theorem after_returnIf {Q : Unit → St → Prop} :
    After (returnIf c) s Q J ↔ (c → J .returned s) ∧ (¬c → Q () s) := after_ite_iff

omit driver in
theorem after_skipIf {m : M Unit} {Q : Unit → St → Prop} :
    After (skipIf c m) s Q J ↔ (c → Q () s) ∧ (¬c → After m s Q J) := after_ite_iff

omit driver in
theorem after_finish {Q : α → St → Prop} : After (finish k) s Q J ↔ J .returned (s.close k).log := by
  simp only [finish, closeConnection, log, after_bind_iff, after_modify_iff, after_jump_iff]
  rfl

omit driver in
theorem after_close {Q : α → St → Prop} : After (close k) s Q J ↔ J .returned (s.close k) := by
  simp only [close, closeConnection, after_bind_iff, after_modify_iff, after_jump_iff]
  rfl

omit driver in
theorem after_finishIf {Q : Unit → St → Prop} :
    After (finishIf k c) s Q J ↔ (c → J .returned (s.close k).log) ∧ (¬c → Q () s) := by
  rw [finishIf, after_ite_iff, after_finish, after_pure_iff]

omit driver in
theorem after_closeIf {Q : Unit → St → Prop} :
    After (closeIf k c) s Q J ↔ (c → J .returned (s.close k)) ∧ (¬c → Q () s) := by
  rw [closeIf, after_ite_iff, after_close, after_pure_iff]

theorem after_prepareStatement {Q : ℕ → St → Prop} :
    After (prepareStatement driver) s Q J ↔
      ((driver.statement s.prepared).prepareThrows = true → J .thrown s.prepare) ∧
        (¬(driver.statement s.prepared).prepareThrows = true → Q s.prepared s.prepare) := by
  simp only [prepareStatement, after_bind_iff, after_get_iff, after_modify_iff, after_throwIf, after_pure_iff]
  rfl

theorem after_execute {add : Times → St → St} {stmt : ℕ} {Q : Unit → St → Prop} :
    After (execute driver add stmt) s Q J ↔
      ((driver.statement stmt).executeThrows = true → J .thrown s.tick) ∧
        (¬(driver.statement stmt).executeThrows = true → Q () (add (times driver (s.ticks + 1)) (s.complete stmt))) := by
  simp only [execute, nanoTime, run, after_bind_iff, after_get_iff, after_modify_iff, after_throwIf, after_pure_iff]
  rfl

theorem after_executeQuery {add : Times → St → St} {stmt : ℕ} {Q : List Row → St → Prop} :
    After (executeQuery driver add stmt) s Q J ↔
      ((driver.statement stmt).executeThrows = true → J .thrown s.tick) ∧
        (¬(driver.statement stmt).executeThrows = true →
          Q (driver.statement stmt).rows (add (times driver (s.ticks + 1)) (s.complete stmt))) := by
  simp only [executeQuery, after_bind_iff, after_execute, after_pure_iff]

theorem after_read {Q : Unit → St → Prop} :
    After (read driver) s Q J ↔
      ((driver.statement s.executed).readThrows s.reads = true → J .thrown s) ∧
        (¬(driver.statement s.executed).readThrows s.reads = true → Q () s.readOne) := by
  simp only [read, after_bind_iff, after_get_iff, after_modify_iff, after_throwIf]
  rfl

theorem after_first {rs : List Row} {Q : Bool → St → Prop} :
    After (first driver rs) s Q J ↔
      ((driver.statement s.executed).readThrows s.reads = true → J .thrown s) ∧
        (¬(driver.statement s.executed).readThrows s.reads = true → Q (!rs.isEmpty) s.readOne) := by
  simp only [first, after_bind_iff, after_read, after_pure_iff]

end Steps

/-- a clause of the state that the driver and the ends of a request keep -/
structure Discipline (driver : Driver) (k : Kind) (S I F : St → Prop) : Prop where
  atStart : ∀ s, S s → F s
  atLog : ∀ s, S s → F s.log
  atAcquire : ∀ s, S s → I (s.acquire k)
  atPrepare : ∀ s, I s → I s.prepare
  atRead : ∀ s, I s → I s.readOne
  atTick : ∀ s, I s → I s.tick
  atExecute : ∀ stmt s, I s → I ((s.complete stmt).addMessage (times driver (s.ticks + 1)))
  atFinish : ∀ s, I s → F (s.close k).log

/-- a piece inside a try block -/
abbrev Goes (I F : St → Prop) (m : M α) : Prop := Contract I (fun _ => I) F I m

/-- a piece outside of the try blocks -/
abbrev Handles (I F : St → Prop) (m : M α) : Prop := Contract I (fun _ => I) F (fun _ => False) m

/-- a request from its start -/
abbrev Whole (S F : St → Prop) (m : M α) : Prop := Contract S (fun _ => F) F F m

section Rules

variable {I F X : St → Prop} {R : α → St → Prop} {m : M α}

theorem contract_throwIf {c : Prop} [Decidable c] (h : ∀ s, I s → X s) : Contract I (fun _ => I) F X (throwIf c) :=
  contract_ite (fun _ => contract_throw h) fun _ => contract_pure fun _ hs => hs

theorem goes_throwIf {c : Prop} [Decidable c] : Goes I F (throwIf c) := contract_throwIf fun _ hs => hs

theorem contract_finish {k : Kind} (h : ∀ s, I s → F (s.close k).log) : Contract I R F X (finish k) :=
  (contract_modify (R := fun _ s => F s.log) h).bind fun _ =>
    (contract_modify (R := fun _ => F) fun _ hs => hs).bind fun _ => contract_return fun _ hs => hs

theorem contract_close {k : Kind} (h : ∀ s, I s → F (s.close k)) : Contract I R F X (close k) :=
  (contract_modify (R := fun _ => F) h).bind fun _ => contract_return fun _ hs => hs

theorem contract_finishIf {k : Kind} {c : Prop} [Decidable c] (h : ∀ s, I s → F (s.close k).log) :
    Contract I (fun _ => I) F X (finishIf k c) :=
  contract_ite (fun _ => contract_finish h) fun _ => contract_pure fun _ hs => hs

theorem contract_closeIf {k : Kind} {c : Prop} [Decidable c] (h : ∀ s, I s → F (s.close k)) :
    Contract I (fun _ => I) F X (closeIf k c) :=
  contract_ite (fun _ => contract_close h) fun _ => contract_pure fun _ hs => hs

theorem contract_skipIf {c : Prop} [Decidable c] {m : M Unit} (h : Contract I (fun _ => I) F X m) :
    Contract I (fun _ => I) F X (skipIf c m) := contract_ite (fun _ => contract_pure fun _ hs => hs) fun _ => h

theorem contract_returnIf {c : Prop} [Decidable c] (h : ∀ s, I s → F s) : Contract I (fun _ => I) F X (returnIf c) :=
  contract_ite (fun _ => contract_return h) fun _ => contract_pure fun _ hs => hs

theorem contract_valueOf (text : Option Text) (h : ∀ s, I s → X s) : Contract I (fun _ => I) F X (valueOf text) := by
  unfold valueOf
  split
  · exact contract_throw h
  · split
    · exact contract_throw h
    · exact contract_pure fun _ hs => hs

theorem contract_intParameter (request : Request) (name : Text) (n : ℤ) (h : ∀ s, I s → X s) :
    Contract I (fun _ => I) F X (intParameter request name n) := by
  unfold intParameter
  split
  · exact contract_pure fun _ hs => hs
  · exact contract_valueOf _ h

theorem handles_pure (a : α) : Handles I F (pure a) := contract_pure fun _ hs => hs

theorem goes_pure (a : α) : Goes I F (pure a) := contract_pure fun _ hs => hs

/-- a try block whose handler prints -/
theorem handles_print {m : M Unit} (hm : Goes I F m) : Handles I F (catching m (pure ())) := hm.catching (handles_pure _)

theorem Handles.whole (h : Handles I F m) {f : α → M β} (hf : ∀ a, Whole I F (f a)) : Whole I F (m >>= f) :=
  (h.mono (fun _ hs => hs) (fun _ _ hs => hs) (fun _ hs => hs) fun _ hs => hs.elim).bind hf

end Rules

/-! ## The driver -/

section Driver

variable {driver : Driver} {I F : St → Prop}

theorem goes_prepareStatement (hprepare : ∀ s, I s → I s.prepare) :
    Goes I F (prepareStatement driver) := by
  intro s hs
  rw [after_prepareStatement]
  exact ⟨fun _ => hprepare s hs, fun _ => hprepare s hs⟩

/-- a statement, wherever its times go -/
theorem goes_execute {add : Times → St → St} (htick : ∀ s, I s → I s.tick)
    (hadd : ∀ stmt s, I s → I (add (times driver (s.ticks + 1)) (s.complete stmt))) (stmt : ℕ) :
    Goes I F (execute driver add stmt) := by
  intro s hs
  rw [after_execute]
  exact ⟨fun _ => htick s hs, fun _ => hadd stmt s hs⟩

variable (hread : ∀ s, I s → I s.readOne)

include hread

theorem goes_read : Goes I F (read driver) := by
  intro s hs
  rw [after_read]
  exact ⟨fun _ => hs, fun _ => hread s hs⟩

theorem goes_first (rs : List Row) : Goes I F (first driver rs) := (goes_read hread).bind fun _ => goes_pure _

omit hread in
theorem goes_currentRow (rs : List Row) : Goes I F (currentRow rs) := by
  cases rs with
  | nil => exact contract_throw fun _ hs => hs
  | cons r rs => exact goes_pure r

theorem goes_getInt (rs : List Row) (column : Text) : Goes I F (getInt driver rs column) :=
  (goes_read hread).bind fun _ => (goes_currentRow rs).bind fun _ => goes_pure _

theorem goes_getString (rs : List Row) (column : Text) : Goes I F (getString driver rs column) :=
  (goes_read hread).bind fun _ => (goes_currentRow rs).bind fun _ => goes_pure _

theorem goes_getColumns (rs : List Row) (columns : List Text) : Goes I F (getColumns driver rs columns) := by
  induction columns with
  | nil => exact goes_pure _
  | cons column columns ih => exact (goes_getString hread rs column).bind fun _ => ih

theorem goes_doWhileNext {body : List Row → M Unit} (hbody : ∀ rs, Goes I F (body rs)) (rs : List Row) :
    Goes I F (doWhileNext driver body rs) := by
  induction rs with
  | nil => exact goes_pure _
  | cons r rs ih => exact (hbody _).bind fun _ => (goes_read hread).bind fun _ => ih

theorem goes_whileNext {body : List Row → M Unit} (hbody : ∀ rs, Goes I F (body rs)) (rs : List Row) :
    Goes I F (whileNext driver body rs) := by
  induction rs with
  | nil => exact goes_read hread
  | cons r rs ih => exact (goes_read hread).bind fun _ => (hbody _).bind fun _ => ih

end Driver

/-! ## Servlets that keep a discipline -/

section Servlets

variable {driver : Driver} {k : Kind} {S I F : St → Prop} {m : M α}

section Pieces

variable (d : Discipline driver k S I F)

include d

theorem Discipline.goes_prepare : Goes I F (prepareStatement driver) := goes_prepareStatement d.atPrepare

theorem Discipline.goes_executeUpdate (stmt : ℕ) : Goes I F (executeUpdate driver stmt) :=
  (goes_execute d.atTick d.atExecute stmt).bind fun _ => goes_pure _

theorem Discipline.goes_prepareAndExecute : Goes I F (prepareAndExecute driver) :=
  d.goes_prepare.bind fun stmt => (goes_execute d.atTick d.atExecute stmt).bind fun _ => goes_pure _

theorem Discipline.finish_ends {R : α → St → Prop} {X : St → Prop} : Contract I R F X (finish k) :=
  contract_finish d.atFinish

theorem Discipline.goes_finishIf {c : Prop} [Decidable c] : Goes I F (finishIf k c) := contract_finishIf d.atFinish

theorem Discipline.handles_query : Handles I F (query driver k) := d.goes_prepareAndExecute.catching d.finish_ends

/-- a try block whose handler ends the request -/
theorem Discipline.handles_finish (hm : Goes I F m) : Handles I F (catching m (finish k)) := hm.catching d.finish_ends

theorem Discipline.whole_acquire {f : Unit → M α} (hm : Whole I F (f ())) : Whole S F (getConnection k >>= f) :=
  (contract_modify (R := fun _ => I) d.atAcquire).bind fun _ => hm

theorem Discipline.contract_parameter {request : Request} (name : Text) :
    Contract S (fun _ => S) F F (parameter request name) :=
  contract_returnIf d.atStart

theorem Discipline.contract_intParameter {request : Request} (name : Text) (n : ℤ) :
    Contract S (fun _ => S) F F (intParameter request name n) := RequestPaths.contract_intParameter request name n d.atStart

theorem Discipline.whole_log {R : α → St → Prop} : Contract S R F F (log >>= fun _ => jump .returned) :=
  (contract_modify (R := fun _ => F) d.atLog).bind fun _ => contract_return fun _ hs => hs

theorem Discipline.goes_first (rs : List Row) : Goes I F (first driver rs) := RequestPaths.goes_first d.atRead rs

theorem Discipline.goes_getColumns (rs : List Row) (columns : List Text) : Goes I F (getColumns driver rs columns) :=
  RequestPaths.goes_getColumns d.atRead rs columns

theorem Discipline.goes_close : Goes I F (read driver) := goes_read d.atRead

theorem Discipline.goes_executeOld (rs : List Row) : Goes I F (executeOld driver rs) :=
  (d.goes_first rs).bind fun _ => contract_ite (fun _ => goes_pure _) fun _ =>
    d.goes_close.bind fun _ => d.goes_prepareAndExecute

end Pieces

variable (request : Request)

theorem Discipline.whole_listRows (d : Discipline driver .R S I F) {body : List Row → M Unit}
    (hbody : ∀ rs, Goes I F (body rs)) :
    Whole I F (listRows driver body) := by
  refine d.handles_query.whole fun rs => (handles_print ?_).whole fun _ => d.finish_ends
  exact (d.goes_first rs).bind fun _ => d.goes_finishIf.bind fun _ => goes_doWhileNext d.atRead hbody rs

theorem Discipline.whole_moveStory (d : Discipline driver .RW S I F) : Whole I F (moveStory driver) := by
  refine d.handles_query.whole fun rs => (d.handles_finish ?_).whole fun _ => d.finish_ends
  exact (d.goes_first rs).bind fun _ => d.goes_finishIf.bind fun _ => (d.goes_getColumns rs _).bind fun _ =>
    d.goes_prepare.bind fun stmt => d.goes_prepare.bind fun stmtdel => (d.goes_executeUpdate stmt).bind fun _ =>
      (d.goes_executeUpdate stmtdel).bind fun _ => d.goes_close

theorem Discipline.whole_insertComment (d : Discipline driver .RW S I F) : Whole I F (insertComment driver) := by
  refine (d.handles_finish ?_).whole fun _ => d.finish_ends
  exact d.goes_prepare.bind fun stmt => (d.goes_executeUpdate stmt).bind fun _ => d.goes_close.bind fun _ =>
    d.goes_prepare.bind fun stmt => (d.goes_executeUpdate stmt).bind fun _ => goes_pure _

theorem Discipline.whole_browseStoriesByCategory (d : Discipline driver .R S I F) :
    Whole S F (browseStoriesByCategory request driver) :=
  (d.contract_intParameter _ _).bind fun _ => (d.contract_intParameter _ _).bind fun _ =>
    (d.contract_parameter _).bind fun _ => (d.contract_parameter _).bind fun _ => d.whole_acquire (d.whole_listRows fun rs => d.goes_getColumns rs _)

theorem Discipline.whole_olderStories (d : Discipline driver .R S I F) : Whole S F (olderStories request driver) := by
  refine (d.contract_intParameter _ _).bind fun _ => (d.contract_intParameter _ _).bind fun _ =>
    contract_ite (fun _ => d.whole_log) fun _ => d.whole_acquire ?_
  refine (d.handles_finish ?_).whole fun rs => (handles_print ?_).whole fun _ => d.finish_ends
  · exact d.goes_prepareAndExecute.bind fun rs => (d.goes_executeOld rs).bind fun rs => (d.goes_first rs).bind fun _ =>
      d.goes_finishIf.bind fun _ => goes_pure rs
  · exact goes_whileNext d.atRead (fun rs => d.goes_getColumns rs _) rs.tail

theorem Discipline.whole_postComment (d : Discipline driver k S I F) : Whole S F (postComment request) :=
  ((d.contract_intParameter _ _).bind fun _ => (d.contract_intParameter _ _).bind fun _ => d.contract_parameter _).mono
    (fun _ hs => hs) (fun _ s hs => d.atStart s hs) (fun _ hs => hs) fun _ hs => hs

theorem Discipline.whole_rejectStory (d : Discipline driver .RW S I F) : Whole S F (rejectStory request driver) := by
  refine (d.contract_parameter _).bind fun _ => d.whole_acquire ?_
  refine d.handles_query.whole fun rs => (d.handles_finish ?_).whole fun _ => d.finish_ends
  exact (d.goes_first rs).bind fun _ => d.goes_finishIf.bind fun _ => d.goes_close.bind fun _ =>
    d.goes_prepare.bind fun stmt => (d.goes_executeUpdate stmt).bind fun _ => goes_pure _

theorem Discipline.whole_reviewStories (d : Discipline driver .R S I F) : Whole S F (reviewStories driver) :=
  d.whole_acquire (d.whole_listRows fun rs => d.goes_getColumns rs _)

theorem Discipline.whole_storiesOfTheDay (d : Discipline driver .R S I F) : Whole S F (storiesOfTheDay driver) :=
  d.whole_acquire (d.whole_listRows fun rs => (d.goes_getColumns rs _).bind fun _ =>
    (goes_getString d.atRead rs _).bind fun _ => goes_throwIf)

theorem Discipline.whole_submitStory (d : Discipline driver .R S I F) : Whole S F (submitStory driver) :=
  d.whole_acquire (d.whole_listRows fun rs => d.goes_getColumns rs _)

theorem Discipline.handles_searchRows (d : Discipline driver .R S I F) (type : ℤ) :
    Handles I F (searchRows driver type) := by
  apply contract_ite
  · intro _
    refine d.handles_query.bind fun rs => d.handles_finish ?_
    exact (d.goes_executeOld rs).bind fun rs => (d.goes_first rs).bind fun _ => d.goes_finishIf.bind fun _ => goes_pure rs
  · intro _
    apply d.handles_finish
    exact d.goes_prepareAndExecute.bind fun rs => (d.goes_executeOld rs).bind fun rs => (d.goes_first rs).bind fun _ =>
      d.goes_finishIf.bind fun _ =>
        (contract_skipIf (goes_doWhileNext d.atRead (fun rs => d.goes_getColumns rs _) rs)).bind fun _ => goes_pure rs

theorem Discipline.goes_printStories (d : Discipline driver .R S I F) (type : ℤ) (rs : Option (List Row)) :
    Goes I F (printStories driver type rs) := by
  refine contract_ite (fun _ => goes_pure _) fun _ => ?_
  cases rs with
  | none => exact contract_throw fun _ hs => hs
  | some rs => exact goes_doWhileNext d.atRead (fun rs => d.goes_getColumns rs _) rs

theorem Discipline.whole_search (d : Discipline driver .R S I F) : Whole S F (search request driver) := by
  refine (d.contract_intParameter _ _).bind fun type => (d.contract_intParameter _ _).bind fun _ =>
    contract_ite (fun _ => d.whole_log) fun _ => d.whole_acquire ?_
  have hresult : Handles I F (searchResult driver type) :=
    contract_ite (fun _ => (d.handles_searchRows type).bind fun rs => handles_pure _) fun _ => handles_pure _
  exact hresult.whole fun rs => (handles_print (d.goes_printStories type rs)).whole fun _ => d.finish_ends

theorem Discipline.goes_updateRating (d : Discipline driver k S I F) : Goes I F (updateRating driver) :=
  d.goes_prepare.bind fun stmt => (d.goes_executeUpdate stmt).bind fun _ => d.goes_close

theorem Discipline.goes_selectRating (d : Discipline driver k S I F) : Goes I F (selectRating driver) :=
  d.goes_prepareAndExecute.bind fun rs => (d.goes_first rs).bind fun _ => contract_skipIf (d.goes_getColumns rs _)

theorem Discipline.goes_moderate (d : Discipline driver k S I F) (rating : ℤ) : Goes I F (moderate driver rating) :=
  d.goes_prepareAndExecute.bind fun rs => (d.goes_first rs).bind fun _ => (goes_getInt d.atRead rs _).bind fun _ =>
    (goes_getString d.atRead rs _).bind fun _ => d.goes_close.bind fun _ =>
      (contract_skipIf (d.goes_updateRating.bind fun _ => d.goes_updateRating)).bind fun _ =>
        d.goes_selectRating.bind fun _ => d.goes_close.bind fun _ => d.goes_selectRating.bind fun _ =>
          d.goes_close.bind fun _ => d.goes_close.bind fun _ => d.goes_prepare.bind fun stmt =>
            (d.goes_executeUpdate stmt).bind fun _ => goes_pure _

theorem Discipline.goes_getIds (d : Discipline driver k S I F) (rs : List Row) : Goes I F (getIds driver rs) :=
  (d.goes_first rs).bind fun _ => contract_ite
    (fun _ => (goes_getInt d.atRead rs _).bind fun _ => (goes_getInt d.atRead rs _).bind fun _ => goes_pure _)
    fun _ => goes_pure _

theorem Discipline.whole_storeModeratorLog (d : Discipline driver .RW S I F) :
    Whole S F (storeModeratorLog request driver) := by
  refine (d.contract_parameter _).bind fun _ => (d.contract_parameter _).bind fun _ => (d.contract_parameter _).bind fun _ =>
    (d.contract_parameter _).bind fun _ => (d.contract_parameter _).bind fun _ =>
      (contract_valueOf _ d.atStart).bind fun rating => d.whole_acquire ?_
  refine d.handles_query.whole fun rs => (d.handles_finish ?_).whole fun ids =>
    Handles.whole (contract_skipIf (handles_print (d.goes_moderate rating))) fun _ => d.finish_ends
  exact (d.goes_getIds rs).bind fun _ => d.goes_close.bind fun _ => goes_pure _

end Servlets

/-! ## The answer of authenticate -/

/-- the number that `Integer.valueOf` reads in a text -/
def number (text : Option Text) : Option ℤ := text.bind fun t => (parseInt t).toOption

theorem valueOf_of_number {text : Option Text} {n : ℤ} (h : number text = some n) : valueOf text = pure n := by
  unfold number at h
  cases text with
  | none => cases h
  | some t =>
    rw [Option.bind_some] at h
    unfold valueOf
    cases hn : parseInt t with
    | error e =>
      rw [hn] at h
      cases h
    | ok m =>
      rw [hn] at h
      cases h
      simp only [hn]

theorem valueOf_of_not_number {text : Option Text} (h : number text = none) : valueOf text = jump .thrown := by
  unfold number at h
  cases text with
  | none => rfl
  | some t =>
    rw [Option.bind_some] at h
    unfold valueOf
    cases hn : parseInt t with
    | error e => simp only [hn]
    | ok m =>
      rw [hn] at h
      cases h

/-- the text that stands for an exception is no number -/
theorem number_authenticateError (t : Text) : number (some (t ++ authenticateError)) = none := by
  have hr : 'r' ∈ (t ++ authenticateError).tail := by
    cases t with
    | nil => decide
    | cons c t =>
      rw [List.cons_append, List.tail_cons]
      exact List.mem_append_right t (by decide)
  have hdigits : ∀ ds : Text, 'r' ∈ ds → ds.all isDecimal = false := by
    intro ds hds
    rw [List.all_eq_false]
    exact ⟨'r', hds, by decide⟩
  have hds : (if (t ++ authenticateError).head? = some '-' ∨ (t ++ authenticateError).head? = some '+' then
      (t ++ authenticateError).tail else t ++ authenticateError).all isDecimal = false := by
    apply hdigits
    split_ifs
    · exact hr
    · exact List.mem_of_mem_tail hr
  simp only [number, Option.bind_some, parseInt, hds, Bool.false_eq_true, false_and, and_false, if_false]
  rfl

/-- the statement can be prepared and executed -/
def Statement.Answers (st : Statement) : Prop := st.prepareThrows = false ∧ st.executeThrows = false

/-- the first calls on the result do not throw -/
def Statement.Readable (st : Statement) (n : ℕ) : Prop := ∀ i < n, st.readThrows i = false

/-- the query of `authenticate` answers with no user or with one whose id is a number -/
def Statement.Authenticates (st : Statement) : Prop :=
  st.Answers ∧ st.Readable 2 ∧
    match st.rows with
    | [] => True
    | r :: _ => st.readThrows 2 = false ∧ number (r.getString idColumn) ≠ none

/-- what `authenticate` leaves of the state -/
structure Authenticating (driver : Driver) (s s' : St) : Prop where
  conn : s'.conn = s.conn
  pool : s'.pool = s.pool
  records : s'.records = s.records
  logMessage : s'.logMessage = s.logMessage
  prepared : s'.prepared = s.prepared + 1
  answers : (driver.statement s.prepared).Answers →
    s'.completed = s.completed ++ [s.ticks + 1] ∧ s'.logTmpMessage = s.logTmpMessage ++ [times driver (s.ticks + 1)] ∧
      s'.ticks = s.ticks + 2
  silent : ¬(driver.statement s.prepared).Answers → s'.completed = s.completed ∧ s'.logTmpMessage = s.logTmpMessage

theorem authenticating_silent {driver : Driver} {s s' : St} (h : ¬(driver.statement s.prepared).Answers)
    (hs' : s' = s.prepare ∨ s' = s.prepare.tick) : Authenticating driver s s' := by
  rcases hs' with rfl | rfl
  · exact ⟨rfl, rfl, rfl, rfl, rfl, fun ha => absurd ha h, fun _ => ⟨rfl, rfl⟩⟩
  · exact ⟨rfl, rfl, rfl, rfl, rfl, fun ha => absurd ha h, fun _ => ⟨rfl, rfl⟩⟩

theorem authenticating_answers {driver : Driver} {s s' : St} (h : (driver.statement s.prepared).Answers) {n : ℕ}
    (hs' : s' = St.readOne^[n] ((s.prepare.complete s.prepared).addTmpMessage (times driver (s.ticks + 1)))) :
    Authenticating driver s s' := by
  induction n generalizing s' with
  | zero =>
    subst hs'
    exact ⟨rfl, rfl, rfl, rfl, rfl, fun _ => ⟨rfl, rfl, rfl⟩, fun hn => absurd h hn⟩
  | succ n ih =>
    rw [Function.iterate_succ_apply'] at hs'
    have hn := ih rfl
    subst hs'
    exact ⟨hn.conn, hn.pool, hn.records, hn.logMessage, hn.prepared, hn.answers, hn.silent⟩

theorem after_authenticate (driver : Driver) (s : St) {J : Jump → St → Prop} :
    After (authenticate driver) s
      (fun text s' => (number text ≠ none ↔ (driver.statement s.prepared).Authenticates) ∧ Authenticating driver s s')
      J := by
  have hfail : ¬(driver.statement s.prepared).Authenticates → ∀ {P : Prop}, P →
      (((none : Option ℤ) ≠ none ↔ (driver.statement s.prepared).Authenticates) ∧ P) :=
    fun h _ hP => ⟨iff_of_false (fun hn => hn rfl) h, hP⟩
  simp only [authenticate, getString, after_bind_iff, after_get_iff, after_catching_iff, after_prepareStatement,
    after_executeQuery, after_first, after_ite_iff, after_read, after_pure_iff, if_true, number_authenticateError]
  refine ⟨fun hprepare => ?_, fun hprepare => ⟨fun hexecute => ?_, fun hexecute => ?_⟩⟩
  · have hno : ¬(driver.statement s.prepared).Answers := fun ha => by simp [ha.1] at hprepare
    exact hfail (fun h => hno h.1) (authenticating_silent hno (.inl rfl))
  · have hno : ¬(driver.statement s.prepared).Answers := fun ha => by simp [ha.2] at hexecute
    exact hfail (fun h => hno h.1) (authenticating_silent hno (.inr rfl))
  have hanswers : (driver.statement s.prepared).Answers := ⟨eq_false_of_ne_true hprepare, eq_false_of_ne_true hexecute⟩
  refine ⟨fun h0 => ?_, fun h0 => ⟨fun h1 => ?_, fun h1 => ⟨fun hrows => ⟨fun h2 => ?_, fun h2 => ?_⟩, fun hrows => ?_⟩⟩⟩
  · have h0 : (driver.statement s.prepared).readThrows 0 = true := h0
    exact hfail (fun h => by simp [h.2.1 0 (by decide)] at h0) (authenticating_answers hanswers (n := 0) rfl)
  · have h1 : (driver.statement s.prepared).readThrows 1 = true := h1
    exact hfail (fun h => by simp [h.2.1 1 (by decide)] at h1) (authenticating_answers hanswers (n := 1) rfl)
  · have h2 : (driver.statement s.prepared).readThrows 2 = true := h2
    refine hfail (fun h => ?_) (authenticating_answers hanswers (n := 2) rfl)
    have hrow := h.2.2
    cases hrs : (driver.statement s.prepared).rows with
    | nil => simp [hrs] at hrows
    | cons r rs =>
      rw [hrs] at hrow
      simp [hrow.1] at h2
  all_goals
    have h0 : (driver.statement s.prepared).readThrows 0 = false := eq_false_of_ne_true h0
    have h1 : (driver.statement s.prepared).readThrows 1 = false := eq_false_of_ne_true h1
    have hread : (driver.statement s.prepared).Readable 2 := by
      intro i hi
      interval_cases i
      · exact h0
      · exact h1
  · have h2 : (driver.statement s.prepared).readThrows 2 = false := eq_false_of_ne_true h2
    cases hrs : (driver.statement s.prepared).rows with
    | nil => simp [hrs] at hrows
    | cons r rs =>
      refine ⟨⟨fun hr => ⟨hanswers, hread, ?_⟩, fun h => ?_⟩, authenticating_answers hanswers (n := 3) rfl⟩
      · rw [hrs]
        exact ⟨h2, hr⟩
      · have hrow := h.2.2
        rw [hrs] at hrow
        exact hrow.2
  · have hnil : (driver.statement s.prepared).rows = [] := by simpa using hrows
    refine ⟨iff_of_true (by decide) ⟨hanswers, hread, ?_⟩, authenticating_answers hanswers (n := 2) rfl⟩
    rw [hnil]
    trivial

/-! ## StoreComment -/

/-- `logMessage += logTmpMessage.toString()` -/
def St.addTmp (s : St) : St := { s with logMessage := s.logMessage ++ s.logTmpMessage }

/-- a parameter of a comment is missing -/
def CommentMissing (request : Request) : Prop :=
  ∃ name ∈ [storyIdName, "parent".toList, "subject".toList, bodyColumn, comment_tableName], request.getParameter name = none

theorem after_parameter {request : Request} {name : Text} {s : St} {Q : Unit → St → Prop} {J : Jump → St → Prop} :
    After (parameter request name) s Q J ↔
      (request.getParameter name = none → J .returned s) ∧ (¬request.getParameter name = none → Q () s) := after_returnIf

/-- the three ways through StoreComment -/
theorem after_storeComment {request : Request} {driver : Driver} {P : St → Prop}
    (hmissing : CommentMissing request → P St.init)
    (hthrows : ¬(driver.statement 0).Authenticates →
      ∀ s, Authenticating driver (St.init.acquire .RW) s → ¬CommentMissing request → P s.addTmp)
    (hinsert : (driver.statement 0).Authenticates → ∀ s, Authenticating driver (St.init.acquire .RW) s →
      After (insertComment driver) s.addTmp (fun _ => P) (Left P P)) :
    After (storeComment request driver) St.init (fun _ => P) (Left P P) := by
  simp only [storeComment, getConnection, after_bind_iff, after_parameter, after_modify_iff]
  refine ⟨fun h => hmissing ⟨_, ?_, h⟩, fun h1 => ⟨fun h => hmissing ⟨_, ?_, h⟩, fun h2 => ⟨fun h => hmissing ⟨_, ?_, h⟩,
    fun h3 => ⟨fun h => hmissing ⟨_, ?_, h⟩, fun h4 => ⟨fun h => hmissing ⟨_, ?_, h⟩, fun h5 => ?_⟩⟩⟩⟩⟩
  · simp
  · simp
  · simp
  · simp
  · simp
  have hpresent : ¬CommentMissing request := by
    rintro ⟨name, hname, h⟩
    simp only [List.mem_cons, List.not_mem_nil, or_false] at hname
    rcases hname with rfl | rfl | rfl | rfl | rfl
    · exact h1 h
    · exact h2 h
    · exact h3 h
    · exact h4 h
    · exact h5 h
  refine (after_authenticate driver (St.init.acquire .RW)).mono (fun text s hs => ?_) fun j s hj => hj
  by_cases hnumber : number text = none
  · rw [valueOf_of_not_number hnumber, after_jump_iff]
    exact hthrows (fun ha => hs.1.2 ha hnumber) s hs.2 hpresent
  · obtain ⟨n, hn⟩ := Option.ne_none_iff_exists'.1 hnumber
    rw [valueOf_of_number hn, after_pure_iff]
    exact hinsert (hs.1.1 hnumber) s hs.2

end Rubbos.Servlets.RequestPaths
