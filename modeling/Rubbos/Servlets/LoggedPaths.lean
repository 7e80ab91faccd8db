/-
The rows of the servlets log are the records of the requests.

For a driver of which only executions of statements throw, each servlet does in `RequestPaths` what it does in `Pages`: a
request logs there the calls of its row in `Pages`, or nothing in both, unless it ends in an overflow of the stack. So what is
said of the rows of `Pages` holds of the records, such as which of them fit into the arrays of the parsers.

Premises: the id of a user, read as a text, is the text of its number.

- `follows_doGet`: the servlets.
- `records_eq_loggedCalls`: the records of a request.
- `records_fit_iff`: the records with calls for the arrays.
-/
import Rubbos.Servlets.LoggedCalls
import Rubbos.Servlets.PairedSteps

namespace Rubbos.Servlets.RequestPaths

open Rubbos.Core Method JString
open Rubbos.Parsers.TomcatLogs (DBCall)

variable {α β : Type}

/-! ## Helpers -/

section Helpers

variable {driver : Driver} (hplain : driver.Plain) {call : Times → DBCall} {caught : Bool} {stack : Stack}
  {R : α → β → Prop}

/-- the calls of a helper join those of the servlet -/
theorem follows_withTmp {m : M Unit} {p : Servlets.M Unit} (h : Follows call true true (fun _ _ => True) m p) :
    Follows call true false (fun _ _ => True) (withTmp m) (Servlets.withTmp p) := by
  intro s t hst
  have hstart : Paired call true { s with logTmpMessage := [] } t :=
    ⟨hst.next, hst.ticks, hst.logMessage, hst.logTmpMessage, hst.records⟩
  simp only [withTmp, after_bind_iff, after_modify_iff]
  refine (h _ t hstart).mono ?_ fun j s' hj => hj.bind
  intro _ s' h'
  obtain ⟨_, t', hrun, -, hst'⟩ := h'
  refine ⟨(), _, run_bind_ok hrun, trivial, ⟨hst'.next, hst'.ticks, ?_, rfl, hst'.records⟩⟩
  simp [hst'.logMessage, hst'.logTmpMessage]

theorem isEmpty_map (rs : List Row) : ((!rs.isEmpty) = false) ↔ rs.map Row.getInt = [] := by simp

theorem deeper_map (rs : List Row) : Servlets.deeper (rs.map Row.getInt) = deeper rs := by
  simp [Servlets.deeper, deeper, Function.comp_def]

include hplain

theorem follows_getUserName :
    Follows call true true (fun _ _ => True) (getUserName driver) (Servlets.getUserName (driver.database call)) := by
  refine follows_tmp hplain fun rs => .quiet (quiet_first hplain rs) fun _ _ => ?_
  cases rs with
  | nil =>
    refine fun s t hst => (after_no_row hplain).2 ⟨hst.records, ?_⟩
    rw [if_pos rfl, ← (hst.same (same_readOne (.refl s))).logMessage]
    rfl
  | cons r rs =>
    refine follows_of_quiet (Q := fun _ => True) ?_ fun _ _ => trivial
    exact (quiet_getString hplain r rs _).bind fun _ _ => quiet_pure trivial

theorem follows_displayFilterChooser :
    Follows call true true (fun _ _ => True) (displayFilterChooser driver)
      (Servlets.displayFilterChooser (driver.database call)) := by
  refine follows_tmp hplain fun rs => follows_of_quiet (Q := fun _ => True) ?_ fun _ _ => trivial
  exact (quiet_first hplain rs).bind fun _ _ => (quiet_doWhileNext hplain rs).bind fun _ _ => quiet_read hplain

/-- a level of the comments -/
theorem follows_fetchLevel (columns : List Text) :
    Follows call true true (fun rs rs' => rs' = rs.map Row.getInt) (fetchLevel driver columns)
      (Servlets.executeTmp (driver.database call)) := by
  rw [← bind_pure (Servlets.executeTmp (driver.database call))]
  refine follows_tmp hplain fun rs => follows_of_quiet (Q := fun rs' => rs' = rs) ?_ ?_
  · exact (quiet_whileNext hplain rs).bind fun _ _ => (quiet_read hplain).bind fun _ _ => quiet_pure rfl
  · intro c hc
    subst hc
    rfl

/-- as many levels as the stack holds -/
theorem follows_fetchLowerLevels (display : ℤ) (n : ℕ) :
    Follows call true true (fun _ _ => True) (fetchLowerLevels driver display n)
      (Servlets.fetchLowerLevels (driver.database call) n) := by
  induction n with
  | zero => exact fun _ _ _ => trivial
  | succ n ih =>
    refine (follows_fetchLevel hplain _).bind ?_
    intro rs rs' hrs
    subst hrs
    rw [deeper_map]
    split
    · rw [← bind_pure (Servlets.fetchLowerLevels (driver.database call) n)]
      exact ih.bind fun _ _ _ => follows_pure trivial
    · exact follows_pure trivial

theorem follows_fetchComments (display : ℤ) :
    Follows call true true (fun _ _ => True) (fetchComments driver display stack)
      (Servlets.fetchComments (driver.database call) stack.fetchLowerLevels) := by
  refine (follows_fetchLevel hplain _).bind ?_
  intro rs rs' hrs
  subst hrs
  rw [deeper_map]
  split
  · rw [← bind_pure (Servlets.fetchLowerLevels (driver.database call) stack.fetchLowerLevels)]
    exact (follows_fetchLowerLevels hplain display _).bind fun _ _ _ => follows_pure trivial
  · exact follows_pure trivial

omit hplain

theorem quiet_forEach {body : Row → M Unit} (h : ∀ r, Quiet (fun _ => True) (body r)) (rs : List Row) :
    Quiet (fun _ => True) (forEach body rs) := by
  induction rs with
  | nil => exact quiet_pure trivial
  | cons r rs ih => exact (h r).bind fun _ _ => ih

theorem quiet_displayLowerLevelComments (map : List Row) (n : ℕ) (cid : ℤ) :
    Quiet (fun _ => True) (displayLowerLevelComments map n cid) := by
  induction n generalizing cid with
  | zero => exact fun _ => rfl
  | succ n ih => exact quiet_forEach (fun r => quiet_skipIf fun _ => ih _) _

theorem quiet_displayComments (map : List Row) (cid display : ℤ) :
    Quiet (fun _ => True) (displayComments map cid display stack) :=
  quiet_forEach (fun _ => quiet_skipIf fun _ => quiet_displayLowerLevelComments map _ _) _

include hplain

theorem follows_fetchAndDisplay (display parent : ℤ) :
    Follows call true true (fun _ _ => True) (fetchAndDisplay driver display parent stack)
      (Servlets.fetchComments (driver.database call) stack.fetchLowerLevels) := by
  rw [← bind_pure (Servlets.fetchComments (driver.database call) stack.fetchLowerLevels)]
  exact (follows_fetchComments hplain display).bind fun map _ _ =>
    follows_of_quiet (quiet_displayComments map parent display) fun _ _ => trivial

/-- the two try blocks of a page with comments -/
theorem follows_chooserAndComments (display parent : ℤ) :
    Follows call caught false (fun _ _ => True) (chooserAndComments driver display parent stack)
      (Servlets.displayComments (driver.database call) stack.fetchLowerLevels) :=
  (follows_withTmp (follows_displayFilterChooser hplain)).catching.bind fun _ _ _ =>
    (follows_withTmp (follows_fetchAndDisplay hplain display parent)).catching

/-- the rows of one of the two tables in `Pages`; without rows the servlet ends -/
def logUnlessFound (db : Database) : Servlets.M Unit := do
  let rs ← executeWithOld db
  logIf (rs = [])

/-- without rows the servlet ends -/
theorem follows_nonempty {k : Kind} (rs : List Row) :
    Follows call caught false (fun _ _ => rs ≠ []) (first driver rs >>= fun found => finishIf k (found = false))
      (logIf (rs.map Row.getInt = [])) := by
  refine .quietly (quiet_first hplain rs) fun s t hst => ?_
  refine (follows_finishIf (isEmpty_map rs) s t hst).mono ?_ fun _ _ hj => hj
  intro _ s' h'
  obtain ⟨b, t', hrun, hne, hst'⟩ := h'
  exact ⟨b, t', hrun, fun hnil => hne (by rw [hnil]; rfl), hst'⟩

theorem follows_first {k : Kind} {f : Unit → M α} {g : Unit → Servlets.M β} {rs : List Row}
    (h : rs ≠ [] → Follows call caught false R (f ()) (g ())) :
    Follows call caught false R (first driver rs >>= fun found => finishIf k (found = false) >>= f)
      (logIf (rs.map Row.getInt = []) >>= g) := by
  rw [← bind_assoc]
  exact (follows_nonempty hplain rs).bind fun _ _ hne => h hne

/-- the same query of the old table, and without rows the end -/
theorem follows_found {k : Kind} {f : List Row → M α} {g : Unit → Servlets.M β} (rs : List Row)
    (h : ∀ rs, rs ≠ [] → Follows call true false R (f rs) (g ())) :
    Follows call true false R
      (executeOld driver rs >>= fun rs => first driver rs >>= fun found => finishIf k (found = false) >>= fun _ => f rs)
      ((if rs.map Row.getInt = [] then Servlets.execute (driver.database call) else pure (rs.map Row.getInt)) >>= fun rs =>
        logIf (rs = []) >>= g) := by
  refine Follows.bind (R := fun rs rs' => rs' = rs.map Row.getInt) ?_ ?_
  · refine .quietly (quiet_first hplain rs) ?_
    cases rs with
    | nil => exact .quiet (quiet_read hplain) fun _ _ => follows_prepareAndExecute hplain
    | cons r rs => exact follows_pure rfl
  · intro rs rs' hrs
    subst hrs
    exact follows_first hplain (h rs)

omit hplain in
theorem logUnlessFound_eq (db : Database) :
    logUnlessFound db = Servlets.execute db >>= fun rs => (if rs = [] then Servlets.execute db else pure rs) >>= fun rs =>
      logIf (rs = []) >>= fun _ => pure () := by
  simp [logUnlessFound, executeWithOld]

omit hplain in
theorem executeWithOld_logUnlessFound {db : Database} {g : Unit → Servlets.M β} :
    (executeWithOld db >>= fun rs => logIf (rs = []) >>= g) = logUnlessFound db >>= g := (bind_assoc _ _ _).symm

/-- the rows of one of the two tables, in one try block -/
theorem follows_eitherTable {k : Kind} {f : List Row → M α}
    (h : ∀ rs, rs ≠ [] → Follows call true false (fun _ _ => True) (f rs) (pure ())) :
    Follows call caught false (fun _ _ => True)
      (Method.catching
        (prepareAndExecute driver >>= fun rs => executeOld driver rs >>= fun rs => first driver rs >>= fun found =>
          finishIf k (found = false) >>= fun _ => f rs)
        (finish k))
      (logUnlessFound (driver.database call)) := by
  rw [logUnlessFound_eq]
  exact (follows_rows hplain fun rs => follows_found hplain rs h).catching

omit hplain in
theorem executeWithOld_bind {db : Database} {g : Unit → Servlets.M β} :
    (executeWithOld db >>= fun rs => logIf (rs = []) >>= g) =
      Servlets.execute db >>= fun rs => ((if rs = [] then Servlets.execute db else pure rs) >>= fun rs =>
        logIf (rs = []) >>= fun _ => pure ()) >>= g := by
  simp only [executeWithOld, bind_assoc, pure_bind]

end Helpers

/-! ## The last statements of a servlet -/

section Closing

variable {driver : Driver} (hplain : driver.Plain) {call : Times → DBCall} {k : Kind} {rs : List Row}

theorem closes_finishIf {c : Prop} [Decidable c] : Closes call (finishIf k c) (Servlets.log : Servlets.M β) := by
  unfold finishIf
  split
  · intro s t hst
    refine (follows_finish (R := fun _ _ => False) s t hst).mono ?_ fun _ _ hj => hj
    intro _ s' h'
    obtain ⟨_, _, _, hnever, _⟩ := h'
    exact hnever.elim
  · exact closes_log fun _ => goes_pure _

include hplain

theorem closes_update {f : ℤ → M α} {g : List Servlets.Row → Servlets.M β} (h : ∀ n rs, Closes call (f n) (g rs)) :
    Closes call (prepareStatement driver >>= fun stmt => executeUpdate driver stmt >>= f)
      (Servlets.execute (driver.database call) >>= g) := by
  have hupdate : Closes call ((prepareStatement driver >>= fun stmt => executeUpdate driver stmt >>= pure) >>= f)
      ((Servlets.execute (driver.database call) >>= pure) >>= g) :=
    (follows_update hplain (R := fun _ _ => True) fun _ _ => follows_pure trivial).closes fun n rs _ => h n rs
  simpa only [bind_assoc, pure_bind] using hupdate

/-- both statements are prepared before the first one is executed -/
theorem closes_twoUpdates :
    Closes call
      (do
        let stmt ← prepareStatement driver
        let stmtdel ← prepareStatement driver
        let _ ← executeUpdate driver stmt
        let _ ← executeUpdate driver stmtdel
        read driver)
      (do
        let _ ← Servlets.execute (driver.database call)
        let _ ← Servlets.execute (driver.database call)
        (Servlets.log : Servlets.M β)) := by
  intro s t hst
  simp only [executeUpdate, after_bind_iff, after_prepareStatement, after_execute, after_read, after_pure_iff, hplain.prepares,
    hplain.reads, Bool.false_eq_true, false_imp_iff, not_false_iff, true_imp_iff, true_and]
  unfold Servlets.execute
  refine ⟨fun hthrows => ⟨hst.records, ?_⟩, fun hanswers => ?_⟩
  · rw [if_pos rfl, ended_bind (executeWith_throws (database_throws hst.next hthrows)), hst.logMessage]
    rfl
  have hnext : t.next + 1 = s.prepared + 1 := by rw [hst.next]
  have hticks : s.ticks + 2 = 2 * (s.prepared + 1) := by
    rw [hst.ticks]
    ring
  rw [run_bind_ok (executeWith_rows (database_rows hst.next hst.ticks hanswers))]
  refine ⟨fun hthrows => ⟨hst.records, ?_⟩, fun hanswers => ⟨hst.records, ?_⟩⟩
  · rw [if_pos rfl, ended_bind (executeWith_throws (database_throws hnext hthrows))]
    simp [St.addMessage, Servlets.St.addMessage, St.complete, St.prepare, St.tick, hst.logMessage]
  · rw [run_bind_ok (executeWith_rows (database_rows hnext hticks hanswers)), if_pos rfl]
    have hrow : (t.logMessage ++ [call (times driver (s.ticks + 1))]) ++ [call (times driver (s.ticks + 2 + 1))] =
        ((s.logMessage ++ [times driver (s.ticks + 1)]) ++ [times driver (s.ticks + 2 + 1)]).map call := by
      rw [hst.logMessage, List.map_append, List.map_append]
      rfl
    exact congrArg (fun calls => some (End.row calls)) hrow

theorem closes_first {f : Unit → M α} {g : Unit → Servlets.M β} (h : rs ≠ [] → Closes call (f ()) (g ())) :
    Closes call (first driver rs >>= fun found => finishIf k (found = false) >>= f)
      (logIf (rs.map Row.getInt = []) >>= g) := by
  rw [← bind_assoc]
  exact (follows_nonempty hplain rs).closes fun _ _ hne => h hne

/-- a column of a result without rows -/
theorem closes_getInt_nil {f : ℤ → M α} (column : Text) :
    Closes call (getInt driver [] column >>= f) (Servlets.log : Servlets.M β) := by
  refine fun s t hst => (after_no_row hplain).2 ⟨hst.records, ?_⟩
  rw [if_pos rfl, ← (hst.same (same_readOne (.refl s))).logMessage]
  rfl

theorem follows_selectRating :
    Follows call true false (fun _ _ => True) (selectRating driver) (Servlets.execute (driver.database call)) := by
  rw [← bind_pure (Servlets.execute (driver.database call))]
  exact follows_rows hplain fun rs => follows_of_quiet (quiet_found hplain rs) fun _ _ => trivial

theorem follows_updateRating :
    Follows call true false (fun _ _ => True) (updateRating driver) (Servlets.execute (driver.database call)) := by
  rw [← bind_pure (Servlets.execute (driver.database call))]
  exact follows_update hplain fun _ _ => follows_of_quiet (quiet_read hplain) fun _ _ => trivial

/-- the updates, unless the rating stays -/
theorem follows_updateRatings (rsrating rating : ℤ) :
    Follows call true false (fun _ _ => True)
      (skipIf ((rsrating = -1 ∧ rating = -1) ∨ (rsrating = 5 ∧ rating = 1) ∨ rating = 0) (do
        updateRating driver
        updateRating driver))
      (Servlets.updateRatings (driver.database call) rsrating rating) := by
  unfold skipIf Servlets.updateRatings
  split
  · exact follows_pure trivial
  · exact (follows_updateRating hplain).bind fun _ _ _ => (follows_updateRating hplain).drop

/-- the try block for a moderator with access -/
theorem closes_moderate (rating : ℤ) :
    Closes call (moderate driver rating) (Servlets.moderate (driver.database call) rating) := by
  refine (follows_prepareAndExecute hplain).closes ?_
  intro rs rs' hrs
  subst hrs
  refine .quiet (quiet_first hplain rs) fun _ _ => ?_
  cases rs with
  | nil => exact closes_getInt_nil hplain _
  | cons r rs =>
    refine .quietly (quiet_getInt hplain r rs _) ?_
    refine .quiet (quiet_getString hplain r rs _) fun _ _ => .quiet (quiet_read hplain) fun _ _ => ?_
    refine (follows_updateRatings hplain (r.getInt ratingColumn) rating).closes fun _ _ _ =>
      (follows_selectRating hplain).closes fun _ _ _ => .quiet (quiet_read hplain) fun _ _ =>
        (follows_selectRating hplain).closes fun _ _ _ => .quiet (quiet_read hplain) fun _ _ =>
          .quiet (quiet_read hplain) fun _ _ => closes_update hplain fun _ _ => closes_log fun _ => goes_pure _

omit hplain in
theorem harmless_printStories (type : ℤ) (rs : Option (List Row)) : Harmless (printStories driver type rs) := by
  intro s
  refine contract_ite (fun _ => goes_pure _) fun _ => ?_
  cases rs with
  | none => exact contract_throw fun _ h => h
  | some rs => exact harmless_doWhileNext (fun rs => harmless_getColumns rs _) rs s

end Closing

/-! ## The servlets -/

section Servlets

variable {driver : Driver} (hplain : driver.Plain) {call : Times → DBCall} (request : Request) {stack : Stack}

/-- a servlet logs in both models alike -/
abbrev Alike (call : Times → DBCall) (m : M Unit) (p : Servlets.M Unit) : Prop :=
  Follows call false false (fun _ _ => False) m p

include hplain

theorem alike_acceptStory : Alike call (acceptStory request driver) (Servlets.acceptStory request (driver.database call)) := by
  refine .quiet quiet_getConnection fun _ _ => (follows_number storyIdName).bind ?_
  intro n n' hn
  subst hn
  refine (follows_returnIf Iff.rfl).bind fun _ _ _ => follows_query hplain fun rs => ?_
  refine Closes.follows (closes_first hplain fun hne => ?_) (.inr rfl)
  obtain ⟨r, rs, rfl⟩ := List.exists_cons_of_ne_nil hne
  exact .quiet (quiet_getColumns hplain r rs _) fun _ _ => closes_twoUpdates hplain

theorem alike_author : Alike call (author request driver) (Servlets.author request (driver.database call)) := by
  refine .quiet quiet_getConnection fun _ _ => (follows_closeParameter _).bind fun _ _ _ =>
    (follows_closeParameter _).bind fun _ _ _ => follows_query hplain fun rs => ?_
  exact .quiet (quiet_found hplain rs).catching fun _ _ => follows_finish

theorem alike_browseCategories :
    Alike call (browseCategories driver) (Servlets.browseCategories (driver.database call)) := by
  refine .quiet quiet_getConnection fun _ _ => follows_query hplain fun rs => ?_
  refine Closes.follows (.quietly (quiet_first hplain rs) ?_) (.inl rfl)
  refine Follows.closes (follows_closeIf (isEmpty_map rs)) fun _ _ _ => closes_log (harmless_doWhileNext (fun rs s => ?_) rs)
  exact (goes_getInt (I := Same s) (fun _ => same_readOne) rs _).bind fun _ =>
    (goes_getString (I := Same s) (fun _ => same_readOne) rs _).bind fun _ => goes_throwIf

theorem alike_listRows {body : List Row → M Unit} (hbody : ∀ rs, Harmless (body rs)) :
    Alike call (listRows driver body) (Servlets.listRows (driver.database call)) := by
  refine follows_query hplain fun rs => ?_
  exact Closes.follows (closes_first hplain fun _ => closes_log (harmless_doWhileNext hbody rs)) (.inl rfl)

theorem alike_browseStoriesByCategory :
    Alike call (browseStoriesByCategory request driver) (Servlets.browseStoriesByCategory request (driver.database call)) :=
  (follows_intParameter _ _).bind fun _ _ _ => (follows_intParameter _ _).bind fun _ _ _ =>
    (follows_parameter _).bind fun _ _ _ => (follows_parameter _).bind fun _ _ _ =>
      .quiet quiet_getConnection fun _ _ => alike_listRows hplain fun rs => harmless_getColumns rs _

theorem alike_moderateComment :
    Alike call (moderateComment request driver) (Servlets.moderateComment request (driver.database call)) := by
  refine (follows_parameter _).bind fun _ _ _ => (follows_parameter _).bind fun _ _ _ =>
    .quiet quiet_getConnection fun _ _ => follows_query hplain fun rs => ?_
  refine (follows_nonempty hplain rs).catching.bind fun _ _ hne => ?_
  obtain ⟨r, rs, rfl⟩ := List.exists_cons_of_ne_nil hne
  refine Closes.follows (.quiet (quiet_getColumns hplain r rs _) fun _ _ => ?_) (.inl rfl)
  exact (follows_withTmp (follows_getUserName hplain)).closes fun _ _ _ => closes_log (harmless_getColumns _ _)

theorem alike_olderStories :
    Alike call (olderStories request driver) (Servlets.olderStories request (driver.database call)) := by
  refine (follows_intParameter _ _).bind fun _ _ _ => (follows_intParameter _ _).bind fun _ _ _ => ?_
  by_cases hdate : request.getParameter "day".toList = none ∨ request.getParameter "month".toList = none ∨
      request.getParameter "year".toList = none
  · rw [if_pos hdate, logIf, if_pos hdate]
    exact follows_log
  · rw [if_neg hdate, logIf, if_neg hdate, pure_bind, executeWithOld_logUnlessFound]
    refine .quiet quiet_getConnection fun _ _ => (follows_eitherTable hplain fun rs _ => follows_pure trivial).bind ?_
    exact fun rs _ _ => .quiet (quiet_whileNext hplain _).catching fun _ _ => follows_finish

theorem alike_registerUser :
    Alike call (registerUser request driver) (Servlets.registerUser request (driver.database call)) := by
  refine (follows_parameter _).bind fun _ _ _ => (follows_parameter _).bind fun _ _ _ => (follows_parameter _).bind fun _ _ _ =>
    (follows_parameter _).bind fun _ _ _ => (follows_parameter _).bind fun _ _ _ =>
      .quiet quiet_getConnection fun _ _ => follows_query hplain fun rs => ?_
  refine Closes.follows (.quietly (quiet_first hplain rs) ?_) (.inr rfl)
  have hfound : ((!rs.isEmpty) = true) ↔ rs.map Row.getInt ≠ [] := by simp
  refine Follows.closes (follows_closeIf hfound) fun _ _ _ => closes_update hplain fun _ _ =>
    .quiet (quiet_read hplain) fun _ _ => ?_
  refine (follows_prepareAndExecute hplain).closes fun rs _ _ => closes_log fun s => ?_
  exact (harmless_first rs s).bind fun _ => harmless_getColumns rs _ s

theorem alike_rejectStory :
    Alike call (rejectStory request driver) (Servlets.rejectStory request (driver.database call)) := by
  refine (follows_parameter _).bind fun _ _ _ => .quiet quiet_getConnection fun _ _ => follows_query hplain fun rs => ?_
  refine Closes.follows (closes_first hplain fun _ => ?_) (.inr rfl)
  exact .quiet (quiet_read hplain) fun _ _ => closes_update hplain fun _ _ => closes_log fun _ => goes_pure _

theorem alike_reviewStories : Alike call (reviewStories driver) (Servlets.reviewStories (driver.database call)) :=
  .quiet quiet_getConnection fun _ _ => alike_listRows hplain fun rs => harmless_getColumns rs _

/-- the rows of a search -/
theorem follows_searchResult {type : ℤ} (htype : type = 0 ∨ type = 1 ∨ type = 2) :
    Follows call false false (fun _ _ => True) (searchResult driver type)
      (logUnlessFound (driver.database call)) := by
  have hrows : Follows call false false (fun _ _ => True) (searchRows driver type)
      (logUnlessFound (driver.database call)) := by
    unfold searchRows
    split
    · rw [logUnlessFound_eq]
      refine follows_query hplain fun rs => ?_
      exact (follows_found hplain rs fun _ _ => follows_pure trivial).catching
    · refine follows_eitherTable hplain fun rs _ => follows_of_quiet (Q := fun _ => True) ?_ fun _ _ => trivial
      exact (quiet_skipIf fun _ => quiet_doWhileNext hplain rs).bind fun _ _ => quiet_pure trivial
  rw [searchResult, if_pos htype]
  exact hrows.map some

theorem alike_search : Alike call (search request driver) (Servlets.search request (driver.database call)) := by
  refine (follows_intParameter _ _).bind ?_
  intro type type' htype
  subst htype
  refine (follows_intParameter _ _).bind fun _ _ _ => ?_
  have hprint : ∀ rs, Alike call
      (Method.catching (printStories driver type rs) (pure ()) >>= fun _ => finish .R) (Servlets.log : Servlets.M Unit) :=
    fun rs => Closes.follows (closes_log (harmless_printStories type rs)) (.inl rfl)
  by_cases hsearch : request.getParameter "search".toList = none
  · rw [if_pos hsearch, logIf, if_pos (.inl hsearch)]
    exact follows_log
  rw [if_neg hsearch]
  by_cases htype : type < 0 ∨ 2 < type
  · rw [logIf, if_pos (.inr htype)]
    have hnone : searchResult driver type = pure none := if_neg (by omega)
    rw [hnone, pure_bind]
    exact .quiet quiet_getConnection fun _ _ => hprint none
  · rw [logIf, if_neg fun h => h.elim hsearch htype, pure_bind, executeWithOld_logUnlessFound]
    exact .quiet quiet_getConnection fun _ _ => (follows_searchResult hplain (by omega)).bind fun rs _ _ => hprint rs

omit hplain in
theorem run_authenticate_throws {db : Database} {t : Servlets.St} (h : db t.next = .throws) :
    ended ((Servlets.authenticate db).run t) = some .silent := by
  rw [Servlets.authenticate, run_bind_ok run_nextAnswer, h]
  rfl

omit hplain in
theorem run_authenticate_rows {db : Database} {t : Servlets.St} {c : DBCall} {rs : List Servlets.Row}
    (h : db t.next = .rows c rs) :
    ∃ n, (Servlets.authenticate db).run t = .ok (n, { t.addTmpMessage c with next := t.next + 1 }) := by
  rw [Servlets.authenticate, run_bind_ok run_nextAnswer, h]
  cases rs with
  | nil => exact ⟨0, rfl⟩
  | cons r rs => exact ⟨r idColumn, rfl⟩

/-- the user of a comment -/
theorem follows_authenticate :
    Follows call false false (fun _ _ => True)
      (do
        modify fun s => { s with logTmpMessage := [] }
        let userIdstring ← authenticate driver
        modify fun s => { s with logMessage := s.logMessage ++ s.logTmpMessage }
        valueOf userIdstring)
      (do
        let _ ← Servlets.authenticate (driver.database call)
        addTmp) := by
  intro s t hst
  simp only [after_bind_iff, after_modify_iff]
  refine (after_authenticate driver _).mono ?_ fun _ _ hj => hj
  intro text s' h'
  obtain ⟨hnumber, hs'⟩ := h'
  have hrecords : s'.records = [] := hs'.records.trans hst.records
  by_cases hthrows : (driver.statement s.prepared).executeThrows = true
  · -- the text of the exception is no number
    have hno : number text = none := by
      by_contra hsome
      have hauth := hnumber.1 hsome
      have hanswers : (driver.statement s.prepared).executeThrows = false := hauth.1.2
      rw [hanswers] at hthrows
      cases hthrows
    rw [valueOf_of_not_number hno, after_jump_iff]
    exact ⟨hrecords, ended_bind (run_authenticate_throws (database_throws hst.next hthrows))⟩
  · have hanswers : (driver.statement s.prepared).Answers := ⟨hplain.prepares _, eq_false_of_ne_true hthrows⟩
    have hauth : (driver.statement s.prepared).Authenticates := by
      refine ⟨hanswers, fun i _ => hplain.reads _ i, ?_⟩
      cases hrows : (driver.statement s.prepared).rows with
      | nil => trivial
      | cons r rs =>
        refine ⟨hplain.reads _ 2, ?_⟩
        rw [hplain.ids s.prepared r (by rw [hrows]; exact List.mem_cons_self)]
        exact Option.some_ne_none _
    obtain ⟨n, hn⟩ := Option.ne_none_iff_exists'.1 (hnumber.2 hauth)
    obtain ⟨-, htmp, hticks⟩ := hs'.answers hanswers
    have hdatabase : driver.database call t.next = .rows _ _ := database_rows hst.next hst.ticks hthrows
    obtain ⟨m, hrun⟩ := run_authenticate_rows hdatabase
    rw [valueOf_of_number hn, after_pure_iff]
    refine ⟨(), _, run_bind_ok hrun, trivial, ⟨?_, ?_, ?_, rfl, hrecords⟩⟩
    · show t.next + 1 = s'.prepared
      rw [hs'.prepared, hst.next]
    · show s'.ticks = 2 * s'.prepared
      rw [hticks, hs'.prepared, Nat.mul_add, ← hst.ticks]
    · have hcalls : s'.logMessage ++ s'.logTmpMessage = s.logMessage ++ [times driver (s.ticks + 1)] := by
        rw [hs'.logMessage, htmp]
        rfl
      show t.logMessage ++ (t.logTmpMessage ++ [_]) = (s'.logMessage ++ s'.logTmpMessage).map call
      rw [hcalls, hst.logMessage, hst.logTmpMessage, List.map_append]
      rfl

theorem alike_storeComment :
    Alike call (storeComment request driver) (Servlets.storeComment request (driver.database call)) := by
  refine (follows_parameter _).bind fun _ _ _ => (follows_parameter _).bind fun _ _ _ => (follows_parameter _).bind fun _ _ _ =>
    (follows_parameter _).bind fun _ _ _ => (follows_parameter _).bind fun _ _ _ =>
      .quiet quiet_getConnection fun _ _ => ?_
  have hinsert : Alike call (insertComment driver) (do
      let _ ← Servlets.execute (driver.database call)
      let _ ← Servlets.execute (driver.database call)
      Servlets.log) :=
    Closes.follows (closes_update hplain fun _ _ => .quiet (quiet_read hplain) fun _ _ =>
      closes_update hplain fun _ _ => closes_log fun _ => goes_pure _) (.inr rfl)
  simpa only [bind_assoc] using (follows_authenticate hplain).bind fun _ _ _ => hinsert

theorem alike_storeModeratorLog :
    Alike call (storeModeratorLog request driver) (Servlets.storeModeratorLog request (driver.database call)) := by
  refine (follows_parameter _).bind fun _ _ _ => (follows_parameter _).bind fun _ _ _ => (follows_parameter _).bind fun _ _ _ =>
    (follows_parameter _).bind fun _ _ _ => follows_required _ fun rating =>
      .quiet quiet_getConnection fun _ _ => follows_query hplain fun rs => ?_
  refine .quietly ((quiet_getIds hplain rs).bind fun ids hids => (quiet_read hplain).bind fun _ _ =>
    quiet_pure hids).catching ?_
  cases rs with
  | nil =>
    rw [skipIf, if_pos (.inl rfl)]
    exact follows_finish
  | cons r rs =>
    simp only [List.map_cons]
    by_cases hids : (idsOf (r :: rs)).1 = 0 ∨ (idsOf (r :: rs)).2 = 0
    · rw [skipIf, if_pos hids, logIf, if_pos (show r.getInt idColumn = 0 ∨ r.getInt accessColumn = 0 from hids)]
      exact follows_finish
    · rw [skipIf, if_neg hids, logIf, if_neg (show ¬(r.getInt idColumn = 0 ∨ r.getInt accessColumn = 0) from hids)]
      exact Closes.follows (closes_moderate hplain rating) (.inl rfl)

theorem alike_storeStory : Alike call (storeStory request driver) (Servlets.storeStory request (driver.database call)) := by
  refine (follows_parameter _).bind fun _ _ _ => (follows_parameter _).bind fun _ _ _ => (follows_parameter _).bind fun _ _ _ =>
    .quiet quiet_getConnection fun _ _ => (Follows.bind (R := fun _ _ => True) ?_ fun _ _ _ => ?_)
  · unfold skipIf Servlets.selectUser
    split
    · exact follows_pure trivial
    · rw [← bind_pure (Servlets.execute (driver.database call))]
      refine follows_query hplain fun rs => follows_of_quiet (Q := fun _ => True) ?_ fun _ _ => trivial
      exact ((quiet_getIds hplain rs).bind fun _ _ => quiet_read hplain).catching
  · exact Closes.follows (closes_update hplain fun _ _ => closes_finishIf) (.inr rfl)

theorem alike_storiesOfTheDay :
    Alike call (storiesOfTheDay driver) (Servlets.storiesOfTheDay (driver.database call)) :=
  .quiet quiet_getConnection fun _ _ => alike_listRows hplain fun rs s => (harmless_getColumns rs _ s).bind fun _ =>
    (goes_getString (I := Same s) (fun _ => same_readOne) rs _).bind fun _ => goes_throwIf

theorem alike_submitStory : Alike call (submitStory driver) (Servlets.submitStory (driver.database call)) :=
  .quiet quiet_getConnection fun _ _ => alike_listRows hplain fun rs => harmless_getColumns rs _

theorem alike_viewComment :
    Alike call (viewComment request driver stack)
      (Servlets.viewComment request (driver.database call) stack.fetchLowerLevels) := by
  refine (follows_intParameter _ _).bind fun _ _ _ => (follows_intParameter _ _).bind fun display _ _ =>
    (follows_parameter _).bind fun _ _ _ => follows_required _ fun commentId => (follows_parameter _).bind fun _ _ _ =>
      .quiet quiet_getConnection fun _ _ => ?_
  have hrest : ∀ parent, Alike call (chooserAndComments driver display parent stack >>= fun _ => finish .R)
      (Servlets.displayComments (driver.database call) stack.fetchLowerLevels >>= fun _ => Servlets.log) :=
    fun parent => (follows_chooserAndComments hplain display parent).bind fun _ _ _ => follows_finish
  by_cases h : commentId = 0
  · simp only [Servlets.selectParent, if_pos h, pure_bind]
    exact hrest 0
  · simp only [Servlets.selectParent, if_neg h]
    refine Follows.bind (R := fun _ _ => True) ?_ fun parent _ _ => hrest parent
    refine Follows.catching (follows_rows hplain fun rs => ?_)
    rw [← bind_pure (logIf _)]
    refine follows_first hplain fun hne => ?_
    obtain ⟨r, rs, rfl⟩ := List.exists_cons_of_ne_nil hne
    refine follows_of_quiet (Q := fun _ => True) ?_ fun _ _ => trivial
    exact (quiet_getInt hplain r rs _).bind fun _ _ => (quiet_read hplain).bind fun _ _ => quiet_pure trivial

theorem alike_viewStory :
    Alike call (viewStory request driver stack)
      (Servlets.viewStory request (driver.database call) stack.fetchLowerLevels) := by
  refine follows_required _ fun _ => (follows_intParameter _ _).bind fun _ _ _ => ?_
  rw [executeWithOld_bind]
  refine .quiet quiet_getConnection fun _ _ => follows_query hplain fun rs => ?_
  refine (Follows.catching (R := fun _ _ => True) (follows_found hplain rs fun rs hne => ?_)).bind fun _ _ _ =>
    (follows_chooserAndComments hplain 1 0).bind fun _ _ _ => follows_finish
  obtain ⟨r, rs, rfl⟩ := List.exists_cons_of_ne_nil hne
  exact follows_of_quiet (quiet_getColumns hplain r rs _) fun _ _ => trivial

/-- **The servlets** log in both models alike. -/
theorem follows_doGet {servlet : Servlet} (hservlet : servlet ≠ .PostComment) :
    Alike call (doGet request driver stack servlet)
      (Servlets.doGet request (driver.database call) stack.fetchLowerLevels servlet) := by
  cases servlet with
  | AcceptStory => exact alike_acceptStory hplain request
  | Author => exact alike_author hplain request
  | BrowseCategories => exact alike_browseCategories hplain
  | BrowseStoriesByCategory => exact alike_browseStoriesByCategory hplain request
  | ModerateComment => exact alike_moderateComment hplain request
  | OlderStories => exact alike_olderStories hplain request
  | PostComment => exact absurd rfl hservlet
  | RegisterUser => exact alike_registerUser hplain request
  | RejectStory => exact alike_rejectStory hplain request
  | ReviewStories => exact alike_reviewStories hplain
  | Search => exact alike_search hplain request
  | StoreComment => exact alike_storeComment hplain request
  | StoreModeratorLog => exact alike_storeModeratorLog hplain request
  | StoreStory => exact alike_storeStory hplain request
  | StoriesOfTheDay => exact alike_storiesOfTheDay hplain
  | SubmitStory => exact alike_submitStory hplain
  | ViewComment => exact alike_viewComment hplain request
  | ViewStory => exact alike_viewStory hplain request

omit hplain in
/-- the form for a comment has no logger -/
theorem records_postComment : ((postComment request).runFrom St.init).2.records = [] := by
  have hform : Contract (fun s : St => s.records = []) (fun _ s => s.records = []) (fun s => s.records = [])
      (fun s => s.records = []) (postComment request) :=
    (contract_intParameter request _ _ fun _ h => h).bind fun _ =>
      (contract_intParameter request _ _ fun _ h => h).bind fun _ => contract_returnIf fun _ h => h
  exact hform.ends rfl

omit hplain in
theorem loggedCalls_of_ended {servlet : Servlet} {db : Database} {fuel : ℕ} {e : End}
    (h : ended ((Servlets.doGet request db fuel servlet).run ⟨0, [], []⟩) = some e) :
    (loggedCalls servlet request db fuel).toList = rowsOf e := by
  unfold loggedCalls
  cases hrun : (Servlets.doGet request db fuel servlet).run ⟨0, [], []⟩ with
  | ok r =>
    rw [hrun] at h
    cases h
  | error e' =>
    rw [hrun] at h
    cases h
    cases e with
    | row calls => rfl
    | silent => rfl

/-- **The records of a request** are the row that it logs, call for call, if the stack does not overflow. -/
theorem records_eq_loggedCalls (servlet : Servlet) (h : (serve servlet request driver stack).1 ≠ .error .fatal) :
    (serve servlet request driver stack).2.records.map (List.map call) =
      (loggedCalls servlet request (driver.database call) stack.fetchLowerLevels).toList := by
  by_cases hservlet : servlet = .PostComment
  · subst hservlet
    exact congrArg (List.map (List.map call)) (records_postComment request)
  have hdoGet : Alike call (doGet request driver stack servlet) _ := follows_doGet hplain request hservlet
  have hfollows := hdoGet St.init ⟨0, [], []⟩ ⟨rfl, rfl, rfl, rfl, rfl⟩
  unfold serve at h ⊢
  unfold After at hfollows
  rcases hrun : (doGet request driver stack servlet).runFrom St.init with ⟨j | _, s⟩
  · rw [hrun] at h hfollows
    cases j with
    | returned =>
      obtain ⟨e, hended, hrecords⟩ := hfollows
      rw [loggedCalls_of_ended request hended]
      exact hrecords
    | thrown =>
      obtain ⟨hrecords, hended⟩ := hfollows
      rw [loggedCalls_of_ended request hended]
      exact congrArg (List.map (List.map call)) hrecords
    | fatal => exact absurd rfl h
  · rw [hrun] at hfollows
    obtain ⟨_, _, _, hnever, _⟩ := hfollows
    exact hnever.elim

/-- **The records that fit.** The arrays of a parser hold the calls of a record exactly when the comments that it is about are
shallow. -/
theorem records_fit_iff (servlet : Servlet) (h : (serve servlet request driver stack).1 ≠ .error .fatal) {record : List Times}
    (hrecord : record ∈ (serve servlet request driver stack).2.records) :
    record.length ≤ Parsers.Tomcatparser.max_db ↔ Shallow servlet request (driver.database call) := by
  have hcalls : record.map call ∈ (loggedCalls servlet request (driver.database call) stack.fetchLowerLevels).toList := by
    rw [← records_eq_loggedCalls hplain request servlet h]
    exact List.mem_map_of_mem hrecord
  rw [← length_calls_iff (Option.mem_toList.1 hcalls), List.length_map]

end Servlets

end Rubbos.Servlets.RequestPaths
