/-
Whether the times of all database calls of a request are logged.

A servlet collects the times of its statements in `logMessage`, and hands it to the logger by hand at each of its ends.
`Recorded` is what that is for: a request in which a statement has completed logs one record, with DBST, DBET and DBRT of
each statement that has completed, in order. Most servlets keep to it, as an instance of the rules for paths. Seven do not:
- BrowseCategories and RegisterUser return without the logger when the table is empty or the nickname is taken, StoreStory
  when the user cannot be read;
- StoreComment does not catch what it makes of an exception of `authenticate`;
- ModerateComment, ViewComment and ViewStory drop the times that a helper has collected before it throws, and the latter two
  end with an error, and without the logger, when the recursion over the comments overflows the stack.
`Slips` says of the parameters, the driver and the stack when that happens.

Premise: the clock does not go back.

- `instrumented_iff`: a request is recorded exactly when it does not slip.
- `browseCategories_unlogged`: an empty table of categories is read and not logged.
-/
import Rubbos.Servlets.CommentPaths

namespace Rubbos.Servlets.RequestPaths

open Rubbos.Core Method JString

variable {α : Type}

/-! ## Statement -/

/-- one record, with the times of each completed statement in order, none of which ends before it starts -/
def Recorded (driver : Driver) (s : St) : Prop :=
  s.completed ≠ [] → s.records = [s.completed.map (times driver)] ∧
    ∀ t ∈ s.completed, (times driver t).startNano ≤ (times driver t).endNano

/-- the calls of StoreStory on the user -/
def userReads (rs : List Row) : ℕ := if rs = [] then 2 else 4

/-- times that a servlet has measured are not logged -/
def Slips (request : Request) (driver : Driver) (stack : Stack) : Servlet → Prop
  | .BrowseCategories => (driver.statement 0).Complete 1 ∧ (driver.statement 0).rows = []
  | .RegisterUser =>
    Present request ["firstname".toList, "lastname".toList, nicknameName, "email".toList, passwordName] ∧
      (driver.statement 0).Complete 1 ∧ (driver.statement 0).rows ≠ []
  | .StoreStory =>
    Present request [titleColumn, bodyColumn, "category".toList, nicknameName, passwordName] ∧
      (driver.statement 0).Answers ∧ ¬(driver.statement 0).Readable (userReads (driver.statement 0).rows)
  | .StoreComment =>
    ¬CommentMissing request ∧ (driver.statement 0).Answers ∧ ¬(driver.statement 0).Authenticates
  | .ModerateComment =>
    Present request [comment_tableName, commentIdName] ∧ (driver.statement 0).Complete 3 ∧
      (driver.statement 0).rows ≠ [] ∧ (driver.statement 1).Answers ∧
        ¬((driver.statement 1).Readable 2 ∧ (driver.statement 1).rows ≠ [])
  | .ViewComment => CommentPage request driver fun display parent p =>
      CommentsSlip driver stack display p ∨ CommentsOverflow driver stack display parent p
  | .ViewStory => StoryPage request driver fun p =>
      CommentsSlip driver stack 1 p ∨ CommentsOverflow driver stack 1 0 p
  | _ => False

/-! ## Servlets that record -/

/-- nothing has been done yet -/
def Fresh (s : St) : Prop := s.completed = [] ∧ s.records = [] ∧ s.logMessage = []

/-- the message has the times of what has completed -/
def Synced (driver : Driver) (s : St) : Prop := s.records = [] ∧ s.logMessage = s.completed.map (times driver)

section Close

variable (k : Kind) (s : St)

theorem close_completed : (s.close k).completed = s.completed := by
  unfold St.close
  split_ifs <;> rfl

theorem close_records : (s.close k).records = s.records := by
  unfold St.close
  split_ifs <;> rfl

theorem close_logMessage : (s.close k).logMessage = s.logMessage := by
  unfold St.close
  split_ifs <;> rfl

end Close

theorem synced_close {driver : Driver} (k : Kind) {s : St} (h : Synced driver s) : Synced driver (s.close k) :=
  ⟨(close_records k s).trans h.1, by rw [close_logMessage, close_completed, h.2]⟩

theorem recorded_of_nil {driver : Driver} {s : St} (h : s.completed = []) : Recorded driver s := fun hne => absurd h hne

theorem recorded_finish {driver : Driver} (hclock : Monotone driver.nanoTime) {k : Kind} {s : St} (h : Synced driver s) :
    Recorded driver (s.close k).log := by
  intro _
  have hcompleted : (s.close k).log.completed = s.completed := close_completed k s
  refine ⟨?_, fun t _ => hclock (Nat.sub_le t 1)⟩
  rw [hcompleted, ← h.2]
  show (s.close k).records ++ [(s.close k).logMessage] = [s.logMessage]
  rw [close_records, close_logMessage, h.1, List.nil_append]

/-- an end without the logger, after a statement has completed -/
theorem not_recorded {driver : Driver} {s : St} (hrecords : s.records = []) (hne : s.completed ≠ []) :
    ¬Recorded driver s := by
  intro h
  have hrec := (h hne).1
  rw [hrecords] at hrec
  cases hrec

theorem not_recorded_close {driver : Driver} {k : Kind} {s : St} (hrecords : s.records = []) (hne : s.completed ≠ []) :
    ¬Recorded driver (s.close k) :=
  not_recorded (by rw [close_records, hrecords]) (by rwa [close_completed])

theorem synced_queried {driver : Driver} {s : St} (h : Synced driver s) (stmt : ℕ) :
    Synced driver ((s.complete stmt).addMessage (times driver (s.ticks + 1))) := by
  refine ⟨h.1, ?_⟩
  show s.logMessage ++ [times driver (s.ticks + 1)] = (s.completed ++ [s.ticks + 1]).map (times driver)
  rw [List.map_append, h.2]
  rfl

theorem recorded_discipline {driver : Driver} (hclock : Monotone driver.nanoTime) (k : Kind) :
    Discipline driver k Fresh (Synced driver) (Recorded driver) where
  atStart _ hs := recorded_of_nil hs.1
  atLog _ hs := recorded_of_nil hs.1
  atAcquire s hs := ⟨hs.2.1, by show s.logMessage = s.completed.map _; rw [hs.1, hs.2.2]; rfl⟩
  atPrepare _ hs := hs
  atRead _ hs := hs
  atTick _ hs := hs
  atExecute stmt _ hs := synced_queried hs stmt
  atFinish _ hs := recorded_finish hclock hs

/-! ## Servlets that may slip -/

section Slips

variable {driver : Driver} (hclock : Monotone driver.nanoTime) {slip : Prop} {k : Kind} {s : St} {F X : St → Prop}
  {stack : Stack} {request : Request}

include hclock

theorem exact_discipline (slip : Prop) (k : Kind) :
    Discipline driver k (fun s => Fresh s ∧ ¬slip) (Going (Synced driver) slip) (Exact (Recorded driver) slip) :=
  (recorded_discipline hclock k).exact slip

omit hclock in
theorem recorded_init : Recorded driver St.init := recorded_of_nil rfl

omit hclock in
theorem exact_fresh (h : ¬slip) (hs : s.completed = []) : Exact (Recorded driver) slip s :=
  iff_of_true (recorded_of_nil hs) h

omit hclock in
theorem synced_acquire (k : Kind) : Synced driver (St.init.acquire k) := ⟨rfl, rfl⟩

omit hclock in
theorem synced_query (hs : Synced driver s) : Synced driver (s.queried driver) := synced_queried hs s.prepared

omit hclock in
theorem completed_queried (driver : Driver) (s : St) : (s.queried driver).completed ≠ [] := by
  simp [St.queried, St.prepare, St.complete, St.addMessage]

/-- an empty table is not logged -/
theorem browseCategories_exact (hslip : slip ↔ Slips request driver stack .BrowseCategories) :
    After (browseCategories driver) St.init (fun _ => Exact (Recorded driver) slip)
      (Left (Exact (Recorded driver) slip) (Exact (Recorded driver) slip)) := by
  have hd := exact_discipline hclock slip .R
  rw [browseCategories, after_bind_iff]
  refine (recorded_discipline hclock .R).after_query (s := St.init.acquire .R) (synced_acquire .R) (fun hno h => hno (hslip.1 h).1.1)
    fun hanswers => ?_
  have hsynced : Synced driver ((St.init.acquire .R).queried driver) := synced_query (synced_acquire .R)
  refine after_try ?_ (handles_pure ()) fun _ => hd.finish_ends
  rw [after_bind_iff]
  refine after_firstRow (fun hno => ⟨hsynced, fun h => hno (hslip.1 h).1.2⟩) rfl fun hread => ?_
  rw [after_bind_iff, after_closeIf]
  refine ⟨fun hempty => ?_, fun hfound => ?_⟩
  · refine iff_of_false (not_recorded_close rfl (completed_queried driver (St.init.acquire .R))) ?_
    exact not_not.2 (hslip.2 ⟨⟨hanswers, hread⟩, eq_nil_of_first hempty⟩)
  · refine goes_doWhileNext hd.atRead (fun rs => ?_) _ _ ⟨hsynced, fun h => ne_nil_of_first hfound (hslip.1 h).2⟩
    exact (goes_getInt hd.atRead rs _).bind fun _ => (goes_getString hd.atRead rs _).bind fun _ => goes_throwIf

/-- a nickname that is taken is not logged -/
theorem registerUser_exact (hslip : slip ↔ Slips request driver stack .RegisterUser) :
    After (registerUser request driver) St.init (fun _ => Exact (Recorded driver) slip)
      (Left (Exact (Recorded driver) slip) (Exact (Recorded driver) slip)) := by
  have hd := exact_discipline hclock slip .RW
  have hmissing : ∀ name ∈ ["firstname".toList, "lastname".toList, nicknameName, "email".toList, passwordName],
      request.getParameter name = none → ¬slip := fun name hname h hs => (hslip.1 hs).1 name hname h
  refine parameter_step recorded_init (hmissing _ (by simp)) fun h1 => parameter_step recorded_init (hmissing _ (by simp)) fun h2 =>
    parameter_step recorded_init (hmissing _ (by simp)) fun h3 => parameter_step recorded_init (hmissing _ (by simp)) fun h4 =>
      parameter_step recorded_init (hmissing _ (by simp)) fun h5 => acquire_step ?_
  have hsynced : Synced driver ((St.init.acquire .RW).queried driver) := synced_query (synced_acquire .RW)
  refine (recorded_discipline hclock .RW).after_query (synced_acquire .RW) (fun hno h => hno (hslip.1 h).2.1.1) fun hanswers => ?_
  refine after_try ?_ hd.finish_ends fun _ => hd.finish_ends
  rw [after_bind_iff]
  refine after_firstRow (fun hno => ⟨hsynced, fun h => hno (hslip.1 h).2.1.2⟩) rfl fun hread => ?_
  rw [after_bind_iff, after_closeIf]
  refine ⟨fun hfound => ?_, fun hempty => ?_⟩
  · refine iff_of_false (not_recorded_close rfl (completed_queried driver _)) ?_
    refine not_not.2 (hslip.2 ⟨?_, ⟨hanswers, hread⟩, ?_⟩)
    · exact present_cons h1 (present_cons h2 (present_cons h3 (present_cons h4 (present_cons h5 (present_nil _)))))
    · exact ne_nil_of_first (Bool.not_eq_false _ ▸ hfound)
  · have hgoing : Going (Synced driver) slip ((St.init.acquire .RW).queried driver).readOne :=
      ⟨hsynced, fun h => hempty (first_of_ne_nil (hslip.1 h).2.2)⟩
    have hrest : Goes (Going (Synced driver) slip) (Exact (Recorded driver) slip) (do
        let stmt ← prepareStatement driver
        let _ ← executeUpdate driver stmt
        read driver
        let rs ← prepareAndExecute driver
        let _ ← first driver rs
        getColumns driver rs [idColumn, "creation_date".toList, ratingColumn, accessColumn]) :=
      hd.goes_prepare.bind fun stmt => (hd.goes_executeUpdate stmt).bind fun _ => hd.goes_close.bind fun _ =>
        hd.goes_prepareAndExecute.bind fun rs => (hd.goes_first rs).bind fun _ => hd.goes_getColumns rs _
    exact hrest _ hgoing

omit hclock in
theorem reads_getIds (driver : Driver) (rs : List Row) : Reads driver (if rs = [] then 1 else 3) (getIds driver rs) := by
  have hfirst : getIds driver rs = read driver >>= fun _ => if (!rs.isEmpty) = true then (do
      let userId ← getInt driver rs idColumn
      let access ← getInt driver rs accessColumn
      return (userId, access)) else return (0, 0) := by
    simp only [getIds, first, bind_assoc, pure_bind]
  rw [hfirst]
  cases rs with
  | nil => exact reads_read.bind fun _ => reads_pure _
  | cons r rs =>
    exact reads_read.bind fun _ => (reads_getInt r rs _).bind fun _ => (reads_getInt r rs _).bind fun _ => reads_pure _

/-- a user that cannot be read is not logged -/
theorem storeStory_exact (hslip : slip ↔ Slips request driver stack .StoreStory) :
    After (storeStory request driver) St.init (fun _ => Exact (Recorded driver) slip)
      (Left (Exact (Recorded driver) slip) (Exact (Recorded driver) slip)) := by
  have hd := exact_discipline hclock slip .RW
  have hmissing : ∀ name ∈ [titleColumn, bodyColumn, "category".toList, nicknameName, passwordName],
      request.getParameter name = none → ¬slip := fun name hname h hs => (hslip.1 hs).1 name hname h
  refine parameter_step recorded_init (hmissing _ (by simp)) fun h1 => parameter_step recorded_init (hmissing _ (by simp)) fun h2 =>
    parameter_step recorded_init (hmissing _ (by simp)) fun h3 => acquire_step ?_
  have hrest : ∀ s', Going (Synced driver) slip s' → After (do
      catching
        (do
          let stmt ← prepareStatement driver
          let updateResult ← executeUpdate driver stmt
          finishIf .RW (updateResult ≠ 1))
        (finish .RW)
      finish .RW : M Unit) s' (fun _ => Exact (Recorded driver) slip) (Left (Exact (Recorded driver) slip) (Exact (Recorded driver) slip)) := by
    refine (hd.handles_finish ?_).whole fun _ => hd.finish_ends
    exact hd.goes_prepare.bind fun stmt => (hd.goes_executeUpdate stmt).bind fun _ => hd.goes_finishIf
  rw [after_bind_iff, after_skipIf]
  refine ⟨fun hskip => hrest _ ⟨synced_acquire .RW, ?_⟩, fun huser => ?_⟩
  · exact hskip.elim (hmissing _ (by simp)) (hmissing _ (by simp))
  obtain ⟨h4, h5⟩ := not_or.1 huser
  have hsynced : Synced driver ((St.init.acquire .RW).queried driver) := synced_query (synced_acquire .RW)
  refine (recorded_discipline hclock .RW).after_query (synced_acquire .RW) (fun hno h => hno (hslip.1 h).2.1) fun hanswers => ?_
  have hreads : Reads driver (userReads (driver.statement 0).rows) (do
      let _ ← getIds driver (driver.statement 0).rows
      read driver) := by
    have hids := reads_getIds driver (driver.statement 0).rows
    unfold userReads
    split_ifs at hids ⊢
    · exact hids.bind fun _ => reads_read
    · exact hids.bind fun _ => reads_read
  rw [after_catching_iff]
  refine hreads.fresh rfl (fun hread _ => ?_) (fun hno i => ?_)
  · exact hrest _ ⟨hsynced, fun h => (hslip.1 h).2.2 hread⟩
  · rw [if_pos rfl, after_close]
    refine iff_of_false (not_recorded_close rfl (completed_queried driver _)) (not_not.2 (hslip.2 ⟨?_, hanswers, hno⟩))
    exact present_cons h1 (present_cons h2 (present_cons h3 (present_cons h4 (present_cons h5 (present_nil _)))))

/-- an answer of `authenticate` that is no number is not logged -/
theorem storeComment_exact (hslip : slip ↔ Slips request driver stack .StoreComment) :
    After (storeComment request driver) St.init (fun _ => Exact (Recorded driver) slip)
      (Left (Exact (Recorded driver) slip) (Exact (Recorded driver) slip)) := by
  have hd := exact_discipline hclock slip .RW
  refine after_storeComment (P := Exact (Recorded driver) slip) ?_ ?_ ?_
  · intro hmissing
    exact exact_fresh (fun h => (hslip.1 h).1 hmissing) rfl
  · intro hthrows s hs hpresent
    by_cases hanswers : (driver.statement 0).Answers
    · refine iff_of_false (not_recorded hs.records ?_) (not_not.2 (hslip.2 ⟨hpresent, hanswers, hthrows⟩))
      have hcompleted : s.addTmp.completed = [] ++ [1] := (hs.answers hanswers).1
      simp [hcompleted]
    · exact exact_fresh (fun h => hanswers (hslip.1 h).2.1) (hs.silent hanswers).1
  · intro ha s hs
    obtain ⟨hcompleted, htmp, -⟩ := hs.answers ha.1
    refine hd.whole_insertComment s.addTmp ⟨⟨hs.records, ?_⟩, fun h => (hslip.1 h).2.2 ha⟩
    show s.logMessage ++ s.logTmpMessage = s.completed.map (times driver)
    rw [hs.logMessage, htmp, hcompleted]
    rfl

/-! ## Helpers with a message of their own -/

omit hclock in
/-- the two messages have the times of what has completed -/
def TmpSynced (driver : Driver) (s : St) : Prop :=
  s.records = [] ∧ s.logMessage ++ s.logTmpMessage = s.completed.map (times driver)

omit hclock in
theorem tmpSynced_query {stmt : ℕ} (hs : TmpSynced driver s) :
    TmpSynced driver ((s.complete stmt).addTmpMessage (times driver (s.ticks + 1))) := by
  refine ⟨hs.1, ?_⟩
  show s.logMessage ++ (s.logTmpMessage ++ [times driver (s.ticks + 1)]) =
    (s.completed ++ [s.ticks + 1]).map (times driver)
  rw [List.map_append, ← hs.2, List.append_assoc]
  rfl

omit hclock in
/-- a message that has times of its own leaves the other one short -/
theorem logMessage_lt (hs : TmpSynced driver s) (htmp : s.logTmpMessage ≠ []) :
    s.logMessage.length < s.completed.length := by
  have hlength := congrArg List.length hs.2
  rw [List.length_append, List.length_map] at hlength
  have hpos := List.length_pos_iff.2 htmp
  omega

omit hclock in
/-- when the message of a helper is dropped, its times are not in the record -/
theorem not_recorded_of_lost {k : Kind} (hs : TmpSynced driver s) (htmp : s.logTmpMessage ≠ []) :
    ¬Recorded driver (s.close k).log := by
  have hlength := logMessage_lt hs htmp
  intro hrec
  have hcompleted : (s.close k).log.completed = s.completed := close_completed k s
  have hne : s.completed ≠ [] := List.ne_nil_of_length_pos (by omega)
  have hlog := (hrec (by rwa [hcompleted])).1
  rw [hcompleted] at hlog
  have hrecord : (s.close k).log.records = [s.logMessage] := by
    show (s.close k).records ++ [(s.close k).logMessage] = [s.logMessage]
    rw [close_records, close_logMessage, hs.1, List.nil_append]
  rw [hrecord, List.cons.injEq] at hlog
  have hsame := congrArg List.length hlog.1
  rw [List.length_map] at hsame
  omega

omit hclock in
theorem recorded_helperDiscipline (driver : Driver) :
    HelperDiscipline driver (Synced driver) (TmpSynced driver) (Recorded driver) True where
  start s hs := ⟨hs.1, by rw [List.append_nil]; exact hs.2⟩
  atPrepare _ hs := hs
  atTick _ hs := hs
  atRead _ hs := hs
  atExecute _ _ hs := tmpSynced_query hs
  idle s hs htmp := ⟨hs.1, by rw [← hs.2, htmp, List.append_nil]⟩
  join _ hs := hs
  lost _ hs htmp := iff_of_false (not_recorded_of_lost hs htmp) (not_not.2 trivial)
  fatal s hs htmp := by
    have hlength := logMessage_lt hs htmp
    exact not_recorded hs.1 (List.ne_nil_of_length_pos (by omega))

omit hclock in
/-- the name of a user that is there -/
theorem after_getUserName (hs : TmpSynced driver s) (htmp : s.logTmpMessage = []) {st : Statement}
    (hst : driver.statement s.prepared = st) :
    After (getUserName driver) s (fun _ s' => TmpSynced driver s' ∧ st.Readable 2 ∧ st.rows ≠ [])
      (Left F fun s' => TmpSynced driver s' ∧
        (s'.logTmpMessage ≠ [] ↔ st.Answers ∧ ¬(st.Readable 2 ∧ st.rows ≠ []))) := by
  subst hst
  refine after_tmpQuery (fun hno => ?_) fun hanswers => ?_
  · exact ⟨⟨hs, iff_of_false (not_not.2 htmp) fun h => hno h.1⟩, ⟨hs, iff_of_false (not_not.2 htmp) fun h => hno h.1⟩⟩
  have hsynced : TmpSynced driver (s.tmpQueried driver) := tmpSynced_query hs
  cases hrows : (driver.statement s.prepared).rows with
  | nil =>
    let Queried : St → Prop := fun s' => TmpSynced driver s' ∧ s'.logTmpMessage ≠ []
    have hthrow : Contract Queried (fun _ _ => False) F Queried (getString driver [] nicknameName) :=
      (goes_read fun _ h => h).bind fun _ =>
        (contract_throw (R := fun (_ : Row) (_ : St) => False) fun _ h => h).bind fun _ _ h => h.elim
    have hempty : Contract Queried (fun _ _ => False) F Queried (do
        let _ ← first driver []
        let _ ← getString driver [] nicknameName) :=
      (goes_first (fun _ h => h) []).bind fun _ => hthrow.bind fun _ _ h => h.elim
    exact (hempty _ ⟨hsynced, tmp_query⟩).left (fun _ _ h => h.elim) (fun _ hs' => hs')
      fun _ hs' => ⟨hs'.1, iff_of_true hs'.2 ⟨hanswers, fun h => h.2 rfl⟩⟩
  | cons r rs =>
    have hreads : Reads driver 2 (do
        let _ ← first driver (r :: rs)
        let _ ← getString driver (r :: rs) nicknameName) :=
      (reads_first (r :: rs)).bind fun _ => (reads_getString r rs _).bind fun _ => reads_pure _
    refine hreads.fresh rfl (fun hread _ => ?_) (fun hno i => ?_)
    · exact ⟨hsynced, hread, List.cons_ne_nil r rs⟩
    · exact ⟨hsynced, iff_of_true tmp_query ⟨hanswers, fun h => hno h.1⟩⟩

/-- a user whose name cannot be read takes the time of its query away -/
theorem moderateComment_exact (hslip : slip ↔ Slips request driver stack .ModerateComment) :
    After (moderateComment request driver) St.init (fun _ => Exact (Recorded driver) slip)
      (Left (Exact (Recorded driver) slip) (Exact (Recorded driver) slip)) := by
  have hd := exact_discipline hclock slip .R
  have hhelper := recorded_helperDiscipline driver
  have hmissing : ∀ name ∈ [comment_tableName, commentIdName], request.getParameter name = none → ¬slip :=
    fun name hname h hs => (hslip.1 hs).1 name hname h
  refine parameter_step recorded_init (hmissing _ (by simp)) fun h1 => parameter_step recorded_init (hmissing _ (by simp)) fun h2 => acquire_step ?_
  have hsynced : Synced driver ((St.init.acquire .R).queried driver) := synced_query (synced_acquire .R)
  refine (recorded_discipline hclock .R).after_query (synced_acquire .R) (fun hno h => hno (hslip.1 h).2.1.1) fun hanswers => ?_
  have hlater : slip → (driver.statement 0).Readable 3 := fun h => (hslip.1 h).2.1.2
  -- the comment exists
  rw [after_bind_iff, after_catching_iff, after_bind_iff]
  refine after_firstRow (fun hno => ?_) rfl fun hread => ?_
  · rw [if_pos rfl, after_finish]
    exact hd.atFinish _ ⟨hsynced, fun h => hno fun i hi => hlater h i (by omega)⟩
  rw [after_finishIf]
  refine ⟨fun hempty => ?_, fun hfound => ?_⟩
  · exact hd.atFinish _ ⟨hsynced, fun h => (hslip.1 h).2.2.1 (eq_nil_of_first hempty)⟩
  -- its writer
  refine after_try ?_ (fun s hs => after_pure hs) fun _ => hhelper.settled_finish (recorded_discipline hclock .R)
  obtain ⟨r, rs, hrows⟩ := List.exists_cons_of_ne_nil (ne_nil_of_first hfound)
  have hrows0 : (driver.statement 0).rows = r :: rs := hrows
  rw [hrows, after_bind_iff]
  refine (reads_getColumns r rs _).after hread (fun hread3 _ => ?_) (fun hno i => ?_)
  · have hrest : slip ↔ (driver.statement 1).Answers ∧
        ¬((driver.statement 1).Readable 2 ∧ (driver.statement 1).rows ≠ []) := by
      refine ⟨fun h => (hslip.1 h).2.2.2, fun h => hslip.2 ⟨?_, ⟨hanswers, hread3⟩, ?_, h⟩⟩
      · exact present_cons h1 (present_cons h2 (present_nil _))
      · rw [hrows0]
        exact List.cons_ne_nil r rs
    rw [after_bind_iff]
    refine hhelper.after_withTmp (P := fun _ => (driver.statement 1).Readable 2 ∧ (driver.statement 1).rows ≠ []) hsynced ?_ ?_
    · intro s' hs' htmp hprepared
      refine (after_getUserName (F := fun _ => False) hs' htmp (by rw [hprepared]; rfl)).left (fun _ _ h => h)
        (fun _ h => h.elim) fun s'' hs'' => ⟨hs''.1, fun hnil hslip => ?_, fun hne => ?_⟩
      · exact hs''.2.2 (hrest.1 hslip) hnil
      · exact iff_of_true (hrest.2 (hs''.2.1 hne)) trivial
    · intro s' hs' hread'
      have hgoing : Going (Synced driver) slip s'.addTmp := ⟨hs', fun h => (hrest.1 h).2 hread'⟩
      exact (hd.goes_getColumns (r :: rs) _ s'.addTmp hgoing).left (fun _ _ h => .inl h) (fun _ h => h) fun _ h => .inl h
  · exact .inl ⟨hsynced, fun h => hno (hlater h)⟩

/-- ViewComment loses the times of a helper that throws, and all of them with the stack -/
theorem viewComment_exact (hslip : slip ↔ Slips request driver stack .ViewComment) :
    After (viewComment request driver stack) St.init (fun _ => Exact (Recorded driver) slip)
      (Left (Exact (Recorded driver) slip) (Exact (Recorded driver) slip)) := by
  refine (recorded_helperDiscipline driver).viewComment (recorded_discipline hclock .R) ⟨rfl, rfl, rfl⟩ ?_
  simp only [true_and]
  exact hslip

/-- ViewStory loses the times of a helper that throws, and all of them with the stack -/
theorem viewStory_exact (hslip : slip ↔ Slips request driver stack .ViewStory) :
    After (viewStory request driver stack) St.init (fun _ => Exact (Recorded driver) slip)
      (Left (Exact (Recorded driver) slip) (Exact (Recorded driver) slip)) := by
  refine (recorded_helperDiscipline driver).viewStory (recorded_discipline hclock .R) ⟨rfl, rfl, rfl⟩ ?_
  simp only [true_and]
  exact hslip

/-! ## Servlets that do not slip -/

omit hclock in
/-- a connection is open and no statement has completed -/
def Opened (driver : Driver) (s : St) : Prop := Synced driver s ∧ s.completed = []

omit hclock in
theorem contract_acquire : Contract Fresh (fun _ => Opened driver) F X (getConnection k) :=
  contract_modify fun s hs => ⟨⟨hs.2.1, by show s.logMessage = s.completed.map _; rw [hs.1, hs.2.2]; rfl⟩, hs.1⟩

omit hclock in
theorem recorded_opened (h : Opened driver s) : Recorded driver s := recorded_of_nil h.2

theorem acceptStory_recorded (request : Request) : Whole Fresh (Recorded driver) (acceptStory request driver) := by
  have hd := recorded_discipline hclock .RW
  refine contract_acquire.bind fun _ => (contract_valueOf _ fun _ hs => recorded_opened hs).bind fun storyId =>
    (contract_returnIf fun _ hs => recorded_opened hs).bind fun _ => ?_
  exact hd.whole_moveStory.mono (fun _ hs => hs.1) (fun _ _ hs => hs) (fun _ hs => hs) fun _ hs => hs

theorem author_recorded (request : Request) : Whole Fresh (Recorded driver) (author request driver) := by
  have hd := recorded_discipline hclock .R
  have hclose : ∀ s, Opened driver s → Recorded driver (s.close .R) :=
    fun s hs => recorded_of_nil ((close_completed .R s).trans hs.2)
  refine contract_acquire.bind fun _ => (contract_closeIf hclose).bind fun _ => (contract_closeIf hclose).bind fun _ => ?_
  refine Contract.mono (I := Synced driver) ?_ (fun _ hs => hs.1) (fun _ _ hs => hs) (fun _ hs => hs) fun _ hs => hs
  refine hd.handles_query.whole fun rs => ?_
  have htry : Goes (Synced driver) (Recorded driver) (do
      let found ← first driver rs
      skipIf (found = false) (getColumns driver rs [idColumn, accessColumn])) :=
    (hd.goes_first rs).bind fun _ => contract_skipIf (hd.goes_getColumns rs _)
  refine Handles.whole (htry.catching ?_) fun _ => hd.finish_ends
  exact Contract.bind (R := fun _ => Synced driver) (contract_modify fun s hs => synced_close .R hs)
    fun _ => contract_modify fun _ hs => hs

end Slips

/-! ## All servlets -/

section All

variable {request : Request} {driver : Driver} {stack : Stack} {servlet : Servlet}

theorem recorded_iff_of_whole (hwhole : Whole Fresh (Recorded driver) (doGet request driver stack servlet))
    (h : Slips request driver stack servlet ↔ False) :
    Recorded driver (serve servlet request driver stack).2 ↔ ¬Slips request driver stack servlet :=
  iff_of_true (hwhole.ends ⟨rfl, rfl, rfl⟩) h.1

theorem recorded_iff_of_exact {slip : Prop}
    (hexact : After (doGet request driver stack servlet) St.init (fun _ => Exact (Recorded driver) slip)
      (Left (Exact (Recorded driver) slip) (Exact (Recorded driver) slip))) :
    Recorded driver (serve servlet request driver stack).2 ↔ ¬slip := by
  have hwhole : Contract (fun s => s = St.init) (fun _ => Exact (Recorded driver) slip) (Exact (Recorded driver) slip)
      (Exact (Recorded driver) slip) (doGet request driver stack servlet) := fun s hs => hs ▸ hexact
  exact hwhole.ends rfl

end All

/-- **A request logs what it has measured** unless it slips: one record, with the times of every statement that has
completed, in order. -/
theorem instrumented_iff (servlet : Servlet) (request : Request) (driver : Driver) (stack : Stack)
    (hclock : Monotone driver.nanoTime) :
    Recorded driver (serve servlet request driver stack).2 ↔ ¬Slips request driver stack servlet := by
  have hR := recorded_discipline hclock .R
  have hRW := recorded_discipline hclock .RW
  cases servlet with
  | AcceptStory => exact recorded_iff_of_whole (acceptStory_recorded hclock request) Iff.rfl
  | Author => exact recorded_iff_of_whole (author_recorded hclock request) Iff.rfl
  | BrowseCategories => exact recorded_iff_of_exact (browseCategories_exact hclock Iff.rfl)
  | BrowseStoriesByCategory => exact recorded_iff_of_whole (hR.whole_browseStoriesByCategory request) Iff.rfl
  | ModerateComment => exact recorded_iff_of_exact (moderateComment_exact hclock Iff.rfl)
  | OlderStories => exact recorded_iff_of_whole (hR.whole_olderStories request) Iff.rfl
  | PostComment => exact recorded_iff_of_whole (hR.whole_postComment request) Iff.rfl
  | RegisterUser => exact recorded_iff_of_exact (registerUser_exact hclock Iff.rfl)
  | RejectStory => exact recorded_iff_of_whole (hRW.whole_rejectStory request) Iff.rfl
  | ReviewStories => exact recorded_iff_of_whole hR.whole_reviewStories Iff.rfl
  | Search => exact recorded_iff_of_whole (hR.whole_search request) Iff.rfl
  | StoreComment => exact recorded_iff_of_exact (storeComment_exact hclock Iff.rfl)
  | StoreModeratorLog => exact recorded_iff_of_whole (hRW.whole_storeModeratorLog request) Iff.rfl
  | StoreStory => exact recorded_iff_of_exact (storeStory_exact hclock Iff.rfl)
  | StoriesOfTheDay => exact recorded_iff_of_whole hR.whole_storiesOfTheDay Iff.rfl
  | SubmitStory => exact recorded_iff_of_whole hR.whole_submitStory Iff.rfl
  | ViewComment => exact recorded_iff_of_exact (viewComment_exact hclock Iff.rfl)
  | ViewStory => exact recorded_iff_of_exact (viewStory_exact hclock Iff.rfl)

theorem instrumented_reviewStories :
    Recorded emptyTables (serve .ReviewStories noParameters emptyTables ⟨0, 0⟩).2 ↔
      ¬Slips noParameters emptyTables ⟨0, 0⟩ .ReviewStories :=
  instrumented_iff .ReviewStories noParameters emptyTables ⟨0, 0⟩ fun _ _ h => Int.ofNat_le.2 h

/-- BrowseCategories reads an empty table and logs nothing -/
theorem browseCategories_unlogged : ¬Recorded emptyTables (serve .BrowseCategories noParameters emptyTables ⟨0, 0⟩).2 := by
  have hcompleted : (serve .BrowseCategories noParameters emptyTables ⟨0, 0⟩).2.completed = [1] := rfl
  refine not_recorded rfl ?_
  rw [hcompleted]
  exact List.cons_ne_nil 1 []

end Rubbos.Servlets.RequestPaths
