/-
Exact paths: which calls of a request go through, and what its end is like.

`Reads` counts the calls on a result, so that the call that throws can be named. A property of the end of a request that
fails on some paths is `Exact`: it holds exactly when the request is not on one of them. A discipline for the other paths
gives the steps in front of the bad ones, and the rules here lead along a servlet to the place where its path is decided.

A helper collects the times of its statements in a text of its own. What an end of the request makes of a helper that throws
is a `HelperDiscipline`.
-/
import Rubbos.Servlets.PathRules

namespace Rubbos.Servlets.RequestPaths

open Rubbos.Core Method JString

variable {α β : Type}

/-! ## Calls on a result -/

def St.readMany (n : ℕ) (s : St) : St := { s with reads := s.reads + n }

/-- m makes n calls on the result of the last statement, and nothing else; it ends where one of them throws -/
def Reads (driver : Driver) (n : ℕ) (m : M α) : Prop :=
  ∀ s, After m s
    (fun _ s' => s' = s.readMany n ∧ ∀ i < n, (driver.statement s.executed).readThrows (s.reads + i) = false)
    (Left (fun _ => False) fun s' =>
      ∃ i < n, (driver.statement s.executed).readThrows (s.reads + i) = true ∧ s' = s.readMany i)

section Reads

variable {driver : Driver} {n k : ℕ} {m : M α}

theorem readMany_add (s : St) : (s.readMany n).readMany k = s.readMany (n + k) := by
  simp [St.readMany, Nat.add_assoc]

theorem reads_pure (a : α) : Reads driver 0 (pure a) := fun _ => ⟨rfl, fun _ hi => absurd hi (Nat.not_lt_zero _)⟩

theorem reads_read : Reads driver 1 (read driver) := by
  intro s
  rw [after_read]
  refine ⟨fun h => ⟨0, Nat.zero_lt_one, h, rfl⟩, fun h => ⟨rfl, fun i hi => ?_⟩⟩
  obtain rfl : i = 0 := by omega
  exact eq_false_of_ne_true h

theorem Reads.bind {f : α → M β} (hm : Reads driver n m) (hf : ∀ a, Reads driver k (f a)) :
    Reads driver (n + k) (m >>= f) := by
  intro s
  rw [after_bind_iff]
  refine (hm s).left ?_ (fun _ h => h) ?_
  · rintro a s' ⟨rfl, hn⟩
    refine (hf a (s.readMany n)).left ?_ (fun _ h => h) ?_
    · rintro b s' ⟨rfl, hk⟩
      refine ⟨readMany_add s, fun i hi => ?_⟩
      by_cases hin : i < n
      · exact hn i hin
      · have := hk (i - n) (by omega)
        rwa [show (s.readMany n).reads + (i - n) = s.reads + i by simp only [St.readMany]; omega] at this
    · rintro s' ⟨i, hi, hthrows, rfl⟩
      refine ⟨n + i, by omega, ?_, readMany_add s⟩
      rwa [← Nat.add_assoc]
  · rintro s' ⟨i, hi, hthrows, hs'⟩
    exact ⟨i, by omega, hthrows, hs'⟩

theorem reads_first (rs : List Row) : Reads driver 1 (first driver rs) := reads_read.bind fun _ => reads_pure _

theorem reads_getInt (r : Row) (rs : List Row) (column : Text) : Reads driver 1 (getInt driver (r :: rs) column) :=
  reads_read.bind fun _ => (reads_pure r).bind fun _ => reads_pure _

theorem reads_getString (r : Row) (rs : List Row) (column : Text) : Reads driver 1 (getString driver (r :: rs) column) :=
  reads_read.bind fun _ => (reads_pure r).bind fun _ => reads_pure _

theorem reads_getColumns (r : Row) (rs : List Row) (columns : List Text) :
    Reads driver columns.length (getColumns driver (r :: rs) columns) := by
  induction columns with
  | nil => exact reads_pure _
  | cons column columns ih =>
    rw [List.length_cons, Nat.add_comm]
    exact (reads_getString r rs column).bind fun _ => ih

theorem reads_doWhileNext {body : List Row → M Unit} (hbody : ∀ r rs, Reads driver k (body (r :: rs))) (rs : List Row) :
    Reads driver (rs.length * (k + 1)) (doWhileNext driver body rs) := by
  induction rs with
  | nil =>
    rw [List.length_nil, Nat.zero_mul]
    exact reads_pure _
  | cons r rs ih =>
    rw [List.length_cons, Nat.succ_mul, Nat.add_comm, Nat.add_assoc]
    exact (hbody r rs).bind fun _ => reads_read.bind fun _ => ih

theorem reads_whileNext {body : List Row → M Unit} (hbody : ∀ r rs, Reads driver k (body (r :: rs))) (rs : List Row) :
    Reads driver (rs.length * (1 + k) + 1) (whileNext driver body rs) := by
  induction rs with
  | nil =>
    rw [List.length_nil, Nat.zero_mul]
    exact reads_read
  | cons r rs ih =>
    rw [List.length_cons, Nat.succ_mul, show rs.length * (1 + k) + (1 + k) + 1 = 1 + (k + (rs.length * (1 + k) + 1)) by ring]
    exact reads_read.bind fun _ => (hbody r rs).bind fun _ => ih

/-- calls from the execution on: they go through exactly when the result is readable so far -/
theorem Reads.after (hm : Reads driver n m) {s : St} {J : Jump → St → Prop} {Q : α → St → Prop}
    (hread : (driver.statement s.executed).Readable s.reads)
    (hok : (driver.statement s.executed).Readable (s.reads + n) → ∀ a, Q a (s.readMany n))
    (hthrows : ¬(driver.statement s.executed).Readable (s.reads + n) → ∀ i, J .thrown (s.readMany i)) : After m s Q J := by
  refine (hm s).mono ?_ ?_
  · rintro a s' ⟨rfl, hn⟩
    refine hok (fun i hi => ?_) a
    by_cases his : i < s.reads
    · exact hread i his
    · have := hn (i - s.reads) (by omega)
      rwa [show s.reads + (i - s.reads) = i by omega] at this
  · intro j s' hj
    cases j with
    | returned => exact hj.elim
    | thrown =>
      obtain ⟨i, hi, hthrow, rfl⟩ := hj
      refine hthrows (fun h => ?_) i
      have := h (s.reads + i) (by omega)
      rw [this] at hthrow
      cases hthrow
    | fatal => exact hj.elim

/-- the first calls on the result -/
theorem Reads.fresh (hm : Reads driver n m) {s : St} {J : Jump → St → Prop} {Q : α → St → Prop} (h0 : s.reads = 0)
    (hok : (driver.statement s.executed).Readable n → ∀ a, Q a (s.readMany n))
    (hthrows : ¬(driver.statement s.executed).Readable n → ∀ i, J .thrown (s.readMany i)) : After m s Q J := by
  refine hm.after ?_ ?_ ?_
  · rw [h0]
    exact fun _ hi => absurd hi (Nat.not_lt_zero _)
  · rwa [h0, Nat.zero_add]
  · rwa [h0, Nat.zero_add]

end Reads

/-! ## Where a path is decided -/

/-- P holds at the end exactly when the path is not a bad one -/
def Exact (P : St → Prop) (bad : Prop) (s : St) : Prop := P s ↔ ¬bad

/-- the request is on a way that is not bad -/
def Going (I : St → Prop) (bad : Prop) (s : St) : Prop := I s ∧ ¬bad

/-- the state behind a query of `doGet` -/
def St.queried (driver : Driver) (s : St) : St :=
  (s.prepare.complete s.prepared).addMessage (times driver (s.ticks + 1))

section Steps

variable {driver : Driver} {k : Kind} {S I F X : St → Prop} {bad : Prop} {s : St} {request : Request}

theorem Discipline.exact (d : Discipline driver k S I F) (bad : Prop) :
    Discipline driver k (fun s => S s ∧ ¬bad) (Going I bad) (Exact F bad) where
  atStart s hs := iff_of_true (d.atStart s hs.1) hs.2
  atLog s hs := iff_of_true (d.atLog s hs.1) hs.2
  atAcquire s hs := ⟨d.atAcquire s hs.1, hs.2⟩
  atPrepare s hs := ⟨d.atPrepare s hs.1, hs.2⟩
  atRead s hs := ⟨d.atRead s hs.1, hs.2⟩
  atTick s hs := ⟨d.atTick s hs.1, hs.2⟩
  atExecute stmt s hs := ⟨d.atExecute stmt s hs.1, hs.2⟩
  atFinish s hs := iff_of_true (d.atFinish s hs.1) hs.2

theorem Discipline.queried (d : Discipline driver k S I F) (hs : I s) : I (s.queried driver) :=
  d.atExecute s.prepared s.prepare (d.atPrepare s hs)

theorem Discipline.readMany (d : Discipline driver k S I F) (hs : I s) (n : ℕ) : I (s.readMany n) := by
  induction n with
  | zero => exact hs
  | succ n ih => exact d.atRead _ ih

theorem answers_of {st : Statement} (hprepare : ¬st.prepareThrows = true) (hexecute : ¬st.executeThrows = true) :
    st.Answers := ⟨eq_false_of_ne_true hprepare, eq_false_of_ne_true hexecute⟩

/-- a query of `doGet` in a try block -/
theorem Discipline.after_prepareAndExecute (d : Discipline driver k S I F) {Q : List Row → St → Prop}
    {J : Jump → St → Prop} (hs : I s)
    (hno : ¬(driver.statement s.prepared).Answers → ∀ s', I s' → J .thrown s')
    (hok : (driver.statement s.prepared).Answers → Q (driver.statement s.prepared).rows (s.queried driver)) :
    After (prepareAndExecute driver) s Q J := by
  have hprepared := d.atPrepare s hs
  simp only [prepareAndExecute, after_bind_iff, after_prepareStatement, after_executeQuery]
  refine ⟨fun h => hno (fun ha => ?_) s.prepare hprepared,
    fun hprepare => ⟨fun h => hno (fun ha => ?_) s.prepare.tick (d.atTick _ hprepared),
      fun hexecute => hok (answers_of hprepare hexecute)⟩⟩
  · rw [ha.1] at h
    cases h
  · rw [ha.2] at h
    cases h

/-- the first query of a servlet; when it fails itself the request is finished -/
theorem Discipline.after_query (d : Discipline driver k S I F) {f : List Row → M β} {Q : β → St → Prop} (hs : I s)
    (hno : ¬(driver.statement s.prepared).Answers → ¬bad)
    (hok : (driver.statement s.prepared).Answers →
      After (f (driver.statement s.prepared).rows) (s.queried driver) Q (Left (Exact F bad) X)) :
    After (query driver k >>= f) s Q (Left (Exact F bad) X) := by
  rw [after_bind_iff, query, after_catching_iff]
  refine d.after_prepareAndExecute hs (fun h s' hs' => ?_) hok
  rw [if_pos rfl, after_finish]
  exact iff_of_true (d.atFinish s' hs') (hno h)

theorem eq_nil_of_first {rs : List Row} (h : (!rs.isEmpty) = false) : rs = [] := by simpa using h

theorem ne_nil_of_first {rs : List Row} (h : ¬(!rs.isEmpty) = false) : rs ≠ [] := by simpa using h

theorem first_of_ne_nil {rs : List Row} (h : rs ≠ []) : (!rs.isEmpty) = true := by simpa using h

/-- a try block, its handler and what follows, from a state that is known -/
theorem after_try {m handler : M α} {f : α → M β} (hbody : After m s (fun _ => I) (Left F X))
    (hhandler : Contract X (fun _ => I) F (fun _ => False) handler) (hrest : ∀ a, Whole I F (f a)) :
    After (catching m handler >>= f) s (fun _ => F) (Left F F) := by
  rw [after_bind_iff]
  refine After.catching (hbody.left hrest (fun _ hs' => hs') fun _ hs' => hs') fun s' hs' => ?_
  exact (hhandler s' hs').left hrest (fun _ hs'' => hs'') fun _ hs'' => hs''.elim

/-- the test whether there are rows, behind a query; what follows goes on with one more call on the result -/
theorem after_firstRow {rs : List Row} {Q : Bool → St → Prop} {J : Jump → St → Prop}
    (hthrows : ¬(driver.statement s.executed).Readable 1 → J .thrown s) (h0 : s.reads = 0)
    (hok : (driver.statement s.executed).Readable 1 → Q (!rs.isEmpty) s.readOne) :
    After (first driver rs) s Q J := by
  rw [after_first]
  refine ⟨fun h => hthrows fun hr => ?_, fun h => hok fun i hi => ?_⟩
  · rw [h0, hr 0 Nat.zero_lt_one] at h
    cases h
  · obtain rfl : i = 0 := by omega
    rw [h0] at h
    exact eq_false_of_ne_true h

theorem parameter_step {name : Text} {f : Unit → M β} {R : β → St → Prop} (hF : F s)
    (hmissing : request.getParameter name = none → ¬bad)
    (hf : request.getParameter name ≠ none → After (f ()) s R (Left (Exact F bad) X)) :
    After (parameter request name >>= f) s R (Left (Exact F bad) X) := by
  rw [after_bind_iff, after_parameter]
  exact ⟨fun h => iff_of_true hF (hmissing h), hf⟩

theorem valueOf_step {text : Option Text} {f : ℤ → M β} {R : β → St → Prop} (hF : F s) (hno : number text = none → ¬bad)
    (hf : ∀ n, number text = some n → After (f n) s R (Left (Exact F bad) (Exact F bad))) :
    After (valueOf text >>= f) s R (Left (Exact F bad) (Exact F bad)) := by
  cases hnumber : number text with
  | none =>
    rw [valueOf_of_not_number hnumber, after_bind_iff, after_jump_iff]
    exact iff_of_true hF (hno hnumber)
  | some n =>
    rw [valueOf_of_number hnumber, pure_bind]
    exact hf n hnumber

/-- a number with a default -/
def optional (request : Request) (name : Text) (n : ℤ) : Option ℤ :=
  match request.getParameter name with
  | none => some n
  | some text => number (some text)

theorem intParameter_step {name : Text} {n : ℤ} {f : ℤ → M β} {R : β → St → Prop} (hF : F s)
    (hno : optional request name n = none → ¬bad)
    (hf : ∀ m, optional request name n = some m → After (f m) s R (Left (Exact F bad) (Exact F bad))) :
    After (intParameter request name n >>= f) s R (Left (Exact F bad) (Exact F bad)) := by
  unfold optional at hno hf
  unfold intParameter
  cases hname : request.getParameter name with
  | none =>
    simp only [hname] at hf
    rw [pure_bind]
    exact hf n rfl
  | some text =>
    simp only [hname] at hno hf
    exact valueOf_step hF hno hf

theorem acquire_step {f : Unit → M β} {R : β → St → Prop} {J : Jump → St → Prop} (hf : After (f ()) (s.acquire k) R J) :
    After (getConnection k >>= f) s R J := after_bind_iff.2 hf

/-- the test for a row that is there -/
theorem first_found (r : Row) (rs : List Row) (m : M α) :
    (do
      let found ← first driver (r :: rs)
      finishIf k (found = false)
      m) = (do
      read driver
      m) := by
  simp [first, finishIf]

/-- the test for a row that is not there -/
theorem Discipline.after_first_empty (d : Discipline driver k S I F) {m : M α} {R : α → St → Prop} {J : Jump → St → Prop}
    (hs : I s) (hno : ¬bad) (hthrown : J .thrown s) (hreturned : ∀ s', Exact F bad s' → J .returned s') :
    After (do
      let found ← first driver []
      finishIf k (found = false)
      m) s R J := by
  simp only [after_bind_iff, after_first, after_finishIf]
  refine ⟨fun _ => hthrown, fun _ => ⟨fun _ => hreturned _ ?_, fun h => absurd rfl h⟩⟩
  exact iff_of_true (d.atFinish s.readOne (d.atRead s hs)) hno

end Steps

/-! ## Helpers -/

/-- the state behind a query of a helper -/
def St.tmpQueried (driver : Driver) (s : St) : St :=
  (s.prepare.complete s.prepared).addTmpMessage (times driver (s.ticks + 1))

/-- a helper collects its times in a text of its own, from T on, which I joins at its end. When it throws with times in it,
an end F of the request is lost exactly if that is lossy; an error of the machine always loses it. -/
structure HelperDiscipline (driver : Driver) (I T F : St → Prop) (lossy : Prop) : Prop where
  start : ∀ s, I s → T { s with logTmpMessage := [] }
  atPrepare : ∀ s, T s → T s.prepare
  atTick : ∀ s, T s → T s.tick
  atRead : ∀ s, T s → T s.readOne
  atExecute : ∀ stmt s, T s → T ((s.complete stmt).addTmpMessage (times driver (s.ticks + 1)))
  idle : ∀ s, T s → s.logTmpMessage = [] → I s
  join : ∀ s, T s → I s.addTmp
  lost : ∀ s, T s → s.logTmpMessage ≠ [] → (F (s.close .R).log ↔ ¬lossy)
  fatal : ∀ s, T s → s.logTmpMessage ≠ [] → ¬F s

/-- behind a try block around a helper that has thrown -/
def Settled (I T : St → Prop) (lossy bad : Prop) (s : St) : Prop :=
  Going I bad s ∨ T s ∧ s.logTmpMessage ≠ [] ∧ (bad ↔ lossy)

section Helpers

variable {driver : Driver} {S I T F X : St → Prop} {lossy bad : Prop} {s : St}

/-- a query of a helper -/
theorem after_tmpQuery {f : List Row → M β} {Q : β → St → Prop} {J : Jump → St → Prop}
    (hno : ¬(driver.statement s.prepared).Answers → J .thrown s.prepare ∧ J .thrown s.prepare.tick)
    (hok : (driver.statement s.prepared).Answers →
      After (f (driver.statement s.prepared).rows) (s.tmpQueried driver) Q J) :
    After (do
      let stmt ← prepareStatement driver
      let rs ← executeQuery driver St.addTmpMessage stmt
      f rs) s Q J := by
  simp only [after_bind_iff, after_prepareStatement, after_executeQuery]
  refine ⟨fun h => (hno fun ha => ?_).1, fun hprepare => ⟨fun h => (hno fun ha => ?_).2,
    fun hexecute => hok (answers_of hprepare hexecute)⟩⟩
  · rw [ha.1] at h
    cases h
  · rw [ha.2] at h
    cases h

theorem tmp_query : (s.tmpQueried driver).logTmpMessage ≠ [] := by simp [St.tmpQueried, St.addTmpMessage]

section Discipline

variable (h : HelperDiscipline driver I T F lossy)

include h

theorem HelperDiscipline.queried (hs : T s) : T (s.tmpQueried driver) :=
  h.atExecute s.prepared s.prepare (h.atPrepare s hs)

theorem HelperDiscipline.readMany (hs : T s) (n : ℕ) : T (s.readMany n) := by
  induction n with
  | zero => exact hs
  | succ n ih => exact h.atRead _ ih

theorem HelperDiscipline.settled_finish {R : α → St → Prop} (d : Discipline driver .R S I F) :
    Contract (Settled I T lossy bad) R (Exact F bad) X (finish .R) := by
  apply contract_finish
  rintro s (hs | ⟨hs, htmp, hbad⟩)
  · exact (d.exact bad).atFinish s hs
  · exact (h.lost s hs htmp).trans (not_congr hbad).symm

/-- a helper with a message of its own, in a try block -/
theorem HelperDiscipline.after_withTmp {m : M Unit} {P : St → Prop} {Q : Unit → St → Prop} (hs : I s)
    (hm : ∀ s', T s' → s'.logTmpMessage = [] → s'.prepared = s.prepared →
      After m s' (fun _ s'' => T s'' ∧ P s'') (Left (fun s'' => T s'' ∧ s''.logTmpMessage ≠ [] ∧ bad)
        fun s'' => T s'' ∧ (s''.logTmpMessage = [] → ¬bad) ∧ (s''.logTmpMessage ≠ [] → (bad ↔ lossy))))
    (hQ : ∀ s', I s'.addTmp → P s' → Q () s'.addTmp) :
    After (withTmp m) s Q (Left (Exact F bad) (Settled I T lossy bad)) := by
  rw [withTmp, after_bind_iff, after_modify_iff, after_bind_iff]
  refine (hm _ (h.start s hs) rfl rfl).left (fun _ s' hs' => ?_) (fun s' hs' => ?_) fun s' hs' => ?_
  · rw [after_modify_iff]
    exact hQ s' (h.join s' hs'.1) hs'.2
  · exact iff_of_false (h.fatal s' hs'.1 hs'.2.1) (not_not.2 hs'.2.2)
  · by_cases htmp : s'.logTmpMessage = []
    · exact .inl ⟨h.idle s' hs'.1 htmp, hs'.2.1 htmp⟩
    · exact .inr ⟨hs'.1, htmp, hs'.2.2 htmp⟩

end Discipline

end Helpers

end Rubbos.Servlets.RequestPaths
