/-
Steps of a servlet in both models.

The servlets are modelled twice: `Pages` has the statements of a request and what decides whether it logs them, so that the
rows of the log can be handed to the parsers; `RequestPaths` has every call, the pool and the exceptions of each call. Where
only executions of statements throw, a step of a servlet in `RequestPaths` is a step of it in `Pages`, or one that `Pages`
leaves out and that changes nothing there.

- `Follows`: what a piece of a method does, its counterpart in `Pages` does.
- `Closes`: the last try block of a servlet, behind which both have logged.
- `follows_statement`: a statement.
-/
import Rubbos.Servlets.ExactPaths

namespace Rubbos.Servlets.RequestPaths

open Rubbos.Core Method JString
open Rubbos.Parsers.TomcatLogs (DBCall)

variable {α β γ δ : Type}

/-! ## The database of a driver -/

/-- nothing throws but the execution of a statement -/
structure Driver.Plain (driver : Driver) : Prop where
  prepares : ∀ n, (driver.statement n).prepareThrows = false
  reads : ∀ n i, (driver.statement n).readThrows i = false
  ids : ∀ n, ∀ r ∈ (driver.statement n).rows, number (r.getString idColumn) = some (r.getInt idColumn)

/-- the answers of the driver; `call` is how the times of a call are logged. Before statement n the clock is read twice for each
statement. -/
def Driver.database (driver : Driver) (call : Times → DBCall) : Database := fun n =>
  if (driver.statement n).executeThrows then .throws
  else .rows (call (times driver (2 * n + 1))) ((driver.statement n).rows.map Row.getInt)

/-! ## A step in both models -/

/-- how a run in `Pages` ends the request, if it does -/
def ended : Except End β → Option End
  | .error e => some e
  | .ok _ => none

/-- the rows that the end of a request logs -/
def rowsOf : End → List (List DBCall)
  | .row calls => [calls]
  | .silent => []

section Follows

variable (call : Times → DBCall)

/-- the states of the two models; inside of a helper the calls go to its own text -/
structure Paired (tmp : Bool) (s : St) (t : Servlets.St) : Prop where
  next : t.next = s.prepared
  ticks : s.ticks = 2 * s.prepared
  logMessage : t.logMessage = s.logMessage.map call
  logTmpMessage : t.logTmpMessage = if tmp then s.logTmpMessage.map call else []
  records : s.records = []

/-- a jump, and the end of the request in `Pages`. In a try block an exception is on the way to a catch block that logs,
elsewhere it leaves the servlet. -/
def Jumped (caught : Bool) (e : Option End) : Jump → St → Prop
  | .returned, s => ∃ e', e = some e' ∧ s.records.map (List.map call) = rowsOf e'
  | .thrown, s => s.records = [] ∧ e = some (if caught then .row (s.logMessage.map call) else .silent)
  | .fatal, _ => True

/-- m does what p does in `Pages`; R is about their values -/
def Follows (caught tmp : Bool) (R : α → β → Prop) (m : M α) (p : Servlets.M β) : Prop :=
  ∀ s t, Paired call tmp s t →
    After m s (fun a s' => ∃ b t', p.run t = .ok (b, t') ∧ R a b ∧ Paired call tmp s' t')
      (Jumped call caught (ended (p.run t)))

/-- m ends the last try block of a servlet, by an exception or not, where p has logged its row -/
def Closes (m : M α) (p : Servlets.M β) : Prop :=
  ∀ s t, Paired call false s t →
    After m s (fun _ s' => Jumped call true (ended (p.run t)) .thrown s') (Jumped call true (ended (p.run t)))

end Follows

section Rules

variable {call : Times → DBCall} {caught tmp : Bool} {R : α → β → Prop} {S : γ → δ → Prop} {m : M α}
  {p : Servlets.M β}

theorem run_bind_ok {g : β → Servlets.M δ} {t t' : Servlets.St} {b : β} (h : p.run t = .ok (b, t')) :
    (p >>= g).run t = (g b).run t' := by
  rw [StateT.run_bind, h]
  rfl

theorem ended_bind {g : β → Servlets.M δ} {t : Servlets.St} {e : End} (h : ended (p.run t) = some e) :
    ended ((p >>= g).run t) = some e := by
  rw [StateT.run_bind]
  cases hrun : p.run t with
  | ok r =>
    rw [hrun] at h
    cases h
  | error e' =>
    rw [hrun] at h
    exact h

theorem Jumped.bind {g : β → Servlets.M δ} {t : Servlets.St} {j : Jump} {s : St}
    (h : Jumped call caught (ended (p.run t)) j s) : Jumped call caught (ended ((p >>= g).run t)) j s := by
  cases j with
  | returned =>
    obtain ⟨e, he, hrows⟩ := h
    exact ⟨e, ended_bind he, hrows⟩
  | thrown => exact ⟨h.1, ended_bind h.2⟩
  | fatal => trivial

theorem follows_pure {a : α} {b : β} (h : R a b) : Follows call caught tmp R (pure a) (pure b) :=
  fun _ t hst => after_pure ⟨b, t, rfl, h, hst⟩

theorem Follows.bind {f : α → M γ} {g : β → Servlets.M δ} (h : Follows call caught tmp R m p)
    (hf : ∀ a b, R a b → Follows call caught tmp S (f a) (g b)) : Follows call caught tmp S (m >>= f) (p >>= g) := by
  intro s t hst
  refine after_bind_iff.2 ((h s t hst).mono ?_ fun j s' hj => hj.bind)
  intro a s' h'
  obtain ⟨b, t', hrun, hR, hst'⟩ := h'
  rw [run_bind_ok hrun]
  exact hf a b hR s' t' hst'

theorem Follows.drop {b : δ} (h : Follows call caught tmp R m p) :
    Follows call caught tmp (fun _ _ => True) m (p >>= fun _ => pure b) := by
  rw [← bind_pure m]
  exact h.bind fun _ _ _ => follows_pure trivial

theorem Follows.map (h : Follows call caught tmp R m p) (f : α → γ) :
    Follows call caught tmp (fun _ _ => True) (m >>= fun a => pure (f a)) p := by
  rw [← bind_pure p]
  exact h.bind fun _ _ _ => follows_pure trivial

theorem Follows.closes {f : α → M γ} {g : β → Servlets.M δ} (h : Follows call true false R m p)
    (hf : ∀ a b, R a b → Closes call (f a) (g b)) : Closes call (m >>= f) (p >>= g) := by
  intro s t hst
  refine after_bind_iff.2 ((h s t hst).mono ?_ fun j s' hj => hj.bind)
  intro a s' h'
  obtain ⟨b, t', hrun, hR, hst'⟩ := h'
  rw [run_bind_ok hrun]
  exact hf a b hR s' t' hst'

theorem jumped_finish {k : Kind} {e : Option End} {s : St} (h : Jumped call true e .thrown s) :
    Jumped call caught e .returned (s.close k).log := by
  have hclose : (s.close k).records = s.records ∧ (s.close k).logMessage = s.logMessage := by
    unfold St.close
    split <;> exact ⟨rfl, rfl⟩
  exact ⟨_, h.2, by simp [St.log, hclose.1, hclose.2, h.1, rowsOf]⟩

/-- an exception of the try block is logged by its catch block -/
theorem Follows.catching {k : Kind} (h : Follows call true tmp R m p) :
    Follows call caught tmp R (Method.catching m (finish k)) p := by
  intro s t hst
  refine after_catching_iff.2 ((h s t hst).mono (fun _ _ ha => ha) fun j s' hj => ?_)
  cases j with
  | returned => exact hj
  | fatal => trivial
  | thrown =>
    rw [if_pos rfl, after_finish]
    exact jumped_finish hj

/-- the catch block of the last try block logs, or the servlet does behind it -/
theorem Closes.follows {m handler : M Unit} {k : Kind} (h : Closes call m p)
    (hhandler : handler = pure () ∨ handler = finish k) {R : Unit → β → Prop} :
    Follows call false false R (Method.catching m handler >>= fun _ => finish k) p := by
  intro s t hst
  refine after_bind_iff.2 (after_catching_iff.2 ((h s t hst).mono ?_ fun j s' hj => ?_))
  · intro _ s' hs'
    rw [after_finish]
    exact jumped_finish hs'
  · cases j with
    | returned => exact hj
    | fatal => trivial
    | thrown =>
      rw [if_pos rfl]
      rcases hhandler with rfl | rfl
      · rw [after_pure_iff, after_finish]
        exact jumped_finish hj
      · rw [after_finish]
        exact jumped_finish hj

end Rules

/-! ## Steps that `Pages` leaves out -/

/-- nothing changes that `Pages` has -/
structure Same (s s' : St) : Prop where
  prepared : s'.prepared = s.prepared
  ticks : s'.ticks = s.ticks
  logMessage : s'.logMessage = s.logMessage
  logTmpMessage : s'.logTmpMessage = s.logTmpMessage
  records : s'.records = s.records

theorem Same.refl (s : St) : Same s s := ⟨rfl, rfl, rfl, rfl, rfl⟩

theorem Same.trans {s s' s'' : St} (h : Same s s') (h' : Same s' s'') : Same s s'' :=
  ⟨h'.prepared.trans h.prepared, h'.ticks.trans h.ticks, h'.logMessage.trans h.logMessage,
    h'.logTmpMessage.trans h.logTmpMessage, h'.records.trans h.records⟩

/-- a step that changes nothing in `Pages` and that throws nothing; P is about its value -/
def Quiet (P : α → Prop) (m : M α) : Prop := ∀ s, After m s (fun a s' => P a ∧ Same s s') fun j _ => j = .fatal

/-- a step that changes nothing in `Pages` and that may throw -/
abbrev Harmless (m : M α) : Prop := ∀ s, Goes (Same s) (fun _ => False) m

section Quiet

variable {call : Times → DBCall} {caught tmp : Bool} {R : α → β → Prop} {P : γ → Prop} {Q : α → Prop} {m : M α}
  {p : Servlets.M β} {x : M γ} {s : St}

theorem Paired.same {s' : St} {t : Servlets.St} (h : Paired call tmp s t) (hs : Same s s') : Paired call tmp s' t where
  next := by rw [hs.prepared, h.next]
  ticks := by rw [hs.prepared, hs.ticks, h.ticks]
  logMessage := by rw [hs.logMessage, h.logMessage]
  logTmpMessage := by rw [hs.logTmpMessage, h.logTmpMessage]
  records := by rw [hs.records, h.records]

theorem quiet_pure {a : α} (h : Q a) : Quiet Q (pure a) := fun s => after_pure ⟨h, .refl s⟩

theorem Quiet.bind {f : γ → M α} (hx : Quiet P x) (hf : ∀ c, P c → Quiet Q (f c)) : Quiet Q (x >>= f) := by
  intro s
  refine after_bind_iff.2 ((hx s).mono ?_ fun _ _ hj => hj)
  intro c s' h'
  obtain ⟨hc, hs⟩ := h'
  exact (hf c hc s').mono (fun a s'' ha => ⟨ha.1, hs.trans ha.2⟩) fun _ _ hj => hj

theorem Quiet.catching {handler : M α} (hm : Quiet Q m) : Quiet Q (Method.catching m handler) := by
  intro s
  refine after_catching_iff.2 ((hm s).mono (fun _ _ ha => ha) ?_)
  intro j s' hj
  subst hj
  rfl

theorem quiet_skipIf {c : Prop} [Decidable c] {m : M Unit} (h : ¬c → Quiet (fun _ => True) m) :
    Quiet (fun _ => True) (skipIf c m) := by
  unfold skipIf
  split
  · exact quiet_pure trivial
  · next hc => exact h hc

theorem Follows.quiet {f : γ → M α} (hx : Quiet P x) (h : ∀ c, P c → Follows call caught tmp R (f c) p) :
    Follows call caught tmp R (x >>= f) p := by
  intro s t hst
  refine after_bind_iff.2 ((hx s).mono ?_ ?_)
  · intro c s' h'
    obtain ⟨hc, hs⟩ := h'
    exact h c hc s' t (hst.same hs)
  · intro j s' hj
    subst hj
    trivial

/-- a quiet step with this value -/
theorem Follows.quietly {f : γ → M α} {c : γ} (hx : Quiet (· = c) x) (h : Follows call caught tmp R (f c) p) :
    Follows call caught tmp R (x >>= f) p := by
  refine .quiet hx fun c' hc => ?_
  subst hc
  exact h

/-- a quiet end -/
theorem follows_of_quiet {b : β} (hm : Quiet Q m) (h : ∀ a, Q a → R a b) : Follows call caught tmp R m (pure b) := by
  intro s t hst
  refine (hm s).mono ?_ ?_
  · intro a s' h'
    obtain ⟨ha, hs⟩ := h'
    exact ⟨b, t, rfl, h a ha, hst.same hs⟩
  · intro j s' hj
    subst hj
    trivial

theorem Closes.quiet {f : γ → M α} (hx : Quiet P x) (h : ∀ c, P c → Closes call (f c) p) : Closes call (x >>= f) p := by
  intro s t hst
  refine after_bind_iff.2 ((hx s).mono ?_ ?_)
  · intro c s' h'
    obtain ⟨hc, hs⟩ := h'
    exact h c hc s' t (hst.same hs)
  · intro j s' hj
    subst hj
    trivial

theorem Closes.quietly {f : γ → M α} {c : γ} (hx : Quiet (· = c) x) (h : Closes call (f c) p) :
    Closes call (x >>= f) p := by
  refine .quiet hx fun c' hc => ?_
  subst hc
  exact h

/-- the rest of the last try block, when `Pages` has logged -/
theorem closes_log (hm : Harmless m) : Closes call m (Servlets.log : Servlets.M β) := by
  intro s t hst
  have hrow : ∀ s', Same s s' → Jumped call true (ended ((Servlets.log : Servlets.M β).run t)) .thrown s' := by
    intro s' hs
    refine ⟨by rw [hs.records, hst.records], ?_⟩
    rw [if_pos rfl, hs.logMessage, ← hst.logMessage]
    rfl
  refine (hm s s (.refl s)).mono (fun _ s' hs => hrow s' hs) fun j s' hj => ?_
  cases j with
  | returned => exact hj.elim
  | thrown => exact hrow s' hj
  | fatal => trivial

end Quiet

/-! ## The ends of a servlet and its parameters -/

section Ends

variable {call : Times → DBCall} {caught : Bool} {R : α → β → Prop} {k : Kind} {c c' : Prop} [Decidable c]
  [Decidable c'] {request : Request}

theorem follows_finish : Follows call caught false R (finish k) (Servlets.log : Servlets.M β) := by
  intro s t hst
  rw [after_finish]
  refine jumped_finish ⟨hst.records, ?_⟩
  rw [if_pos rfl, ← hst.logMessage]
  rfl

/-- a return behind the logger -/
theorem follows_log :
    Follows call caught false R (RequestPaths.log >>= fun _ => jump .returned) (Servlets.log : Servlets.M β) := by
  intro s t hst
  refine after_bind_iff.2 (after_modify (after_jump ⟨_, rfl, ?_⟩))
  simp [hst.records, hst.logMessage, rowsOf]

/-- an end without a row -/
theorem silent_leave {s : St} {t : Servlets.St} (h : s.records = []) :
    Jumped call caught (ended ((Servlets.leave : Servlets.M β).run t)) .returned s := ⟨.silent, rfl, by rw [h]; rfl⟩

theorem Paired.records_close {s : St} {t : Servlets.St} {tmp : Bool} (h : Paired call tmp s t) : (s.close k).records = [] := by
  unfold St.close
  split <;> exact h.records

theorem follows_finishIf (h : c ↔ c') : Follows call caught false (fun _ _ => ¬c) (finishIf k c) (logIf c') := by
  unfold finishIf logIf
  by_cases hc : c
  · rw [if_pos hc, if_pos (h.1 hc)]
    exact follows_finish
  · rw [if_neg hc, if_neg fun hc' => hc (h.2 hc')]
    exact follows_pure hc

theorem follows_closeIf (h : c ↔ c') : Follows call caught false (fun _ _ => ¬c) (closeIf k c) (leaveIf c') := by
  unfold closeIf leaveIf
  by_cases hc : c
  · rw [if_pos hc, if_pos (h.1 hc)]
    intro s t hst
    rw [after_close]
    exact silent_leave (hst.records_close)
  · rw [if_neg hc, if_neg fun hc' => hc (h.2 hc')]
    exact follows_pure hc

theorem follows_returnIf (h : c ↔ c') : Follows call caught false (fun _ _ => ¬c) (returnIf c) (leaveIf c') := by
  unfold returnIf leaveIf
  by_cases hc : c
  · rw [if_pos hc, if_pos (h.1 hc)]
    exact fun s t hst => after_jump (silent_leave hst.records)
  · rw [if_neg hc, if_neg fun hc' => hc (h.2 hc')]
    exact follows_pure hc

theorem follows_parameter (name : Text) :
    Follows call caught false (fun _ text => request.getParameter name = some text) (parameter request name)
      (Servlets.parameter request name) := by
  unfold parameter Servlets.parameter returnIf
  cases hname : request.getParameter name with
  | none => exact fun s t hst => after_jump (silent_leave hst.records)
  | some text => exact follows_pure rfl

/-- a parameter that is looked for with the connection in hand -/
theorem follows_closeParameter (name : Text) :
    Follows call caught false (fun _ _ => True) (closeIf k (request.getParameter name = none))
      (Servlets.parameter request name) := by
  unfold Servlets.parameter
  cases hname : request.getParameter name with
  | none =>
    intro s t hst
    rw [closeIf, if_pos rfl, after_close]
    exact silent_leave hst.records_close
  | some text => exact follows_pure trivial

/-- a number outside of the try blocks -/
theorem follows_valueOf (text : Text) :
    Follows call false false Eq (valueOf (some text)) (Servlets.valueOf text) := by
  simp only [valueOf, Servlets.valueOf]
  cases parseInt text with
  | error e => exact fun s t hst => ⟨hst.records, rfl⟩
  | ok n => exact follows_pure rfl

theorem follows_number (name : Text) :
    Follows call false false Eq (valueOf (request.getParameter name)) (Servlets.intParameter request name) := by
  unfold Servlets.intParameter Servlets.parameter
  cases request.getParameter name with
  | none => exact fun s t hst => ⟨hst.records, rfl⟩
  | some text => exact follows_valueOf text

theorem follows_intParameter (name : Text) (n : ℤ) :
    Follows call false false Eq (intParameter request name n) (intParameterD request name n) := by
  unfold intParameter intParameterD
  cases request.getParameter name with
  | none => exact follows_pure rfl
  | some text => exact follows_valueOf text

/-- a number that must be there -/
theorem follows_required {f : ℤ → M α} {g : ℤ → Servlets.M β} (name : Text)
    (h : ∀ n, Follows call false false R (f n) (g n)) :
    Follows call false false R (parameter request name >>= fun _ => valueOf (request.getParameter name) >>= f)
      (Servlets.intParameter request name >>= g) := by
  rw [Servlets.intParameter, bind_assoc]
  refine (follows_parameter name).bind fun _ text htext => ?_
  rw [htext]
  refine (follows_valueOf text).bind ?_
  intro n n' hn
  subst hn
  exact h n

theorem quiet_getConnection : Quiet (fun _ => True) (getConnection k) :=
  fun _ => after_modify ⟨trivial, rfl, rfl, rfl, rfl, rfl⟩

end Ends

/-! ## The driver -/

/-- the id and the access of a user, 0 and 0 without one -/
def idsOf : List Row → ℤ × ℤ
  | [] => (0, 0)
  | r :: _ => (r.getInt idColumn, r.getInt accessColumn)

section Driver

variable {driver : Driver} (hplain : driver.Plain)

include hplain

theorem quiet_read : Quiet (fun _ => True) (read driver) := by
  intro s
  rw [after_read]
  refine ⟨fun h => ?_, fun _ => ⟨trivial, rfl, rfl, rfl, rfl, rfl⟩⟩
  rw [hplain.reads] at h
  cases h

theorem quiet_first (rs : List Row) : Quiet (· = !rs.isEmpty) (first driver rs) :=
  (quiet_read hplain).bind fun _ _ => quiet_pure rfl

theorem quiet_getInt (r : Row) (rs : List Row) (column : Text) :
    Quiet (· = r.getInt column) (getInt driver (r :: rs) column) :=
  (quiet_read hplain).bind fun _ _ => quiet_pure rfl

theorem quiet_getString (r : Row) (rs : List Row) (column : Text) :
    Quiet (· = r.getString column) (getString driver (r :: rs) column) :=
  (quiet_read hplain).bind fun _ _ => quiet_pure rfl

theorem quiet_getColumns (r : Row) (rs : List Row) (columns : List Text) :
    Quiet (fun _ => True) (getColumns driver (r :: rs) columns) := by
  induction columns with
  | nil => exact quiet_pure trivial
  | cons column columns ih => exact (quiet_getString hplain r rs column).bind fun _ _ => ih

/-- a result without rows has no columns -/
theorem after_no_row {s : St} {Q : β → St → Prop} {J : Jump → St → Prop} {f : Row → M α} {g : α → M β} :
    After ((read driver >>= fun _ => currentRow [] >>= f) >>= g) s Q J ↔ J .thrown s.readOne := by
  simp only [after_bind_iff, after_read, hplain.reads, Bool.false_eq_true, false_imp_iff, not_false_iff, true_imp_iff, true_and]
  rfl

/-- the columns of the first row, if there is one -/
theorem quiet_found {columns : List Text} (rs : List Row) :
    Quiet (fun _ => True) (first driver rs >>= fun found => skipIf (found = false) (getColumns driver rs columns)) := by
  refine (quiet_first hplain rs).bind ?_
  intro c hc
  subst hc
  cases rs with
  | nil => exact quiet_skipIf fun h => absurd rfl h
  | cons r rs => exact quiet_skipIf fun _ => quiet_getColumns hplain r rs columns

theorem quiet_doWhileNext {columns : List Text} (rs : List Row) :
    Quiet (fun _ => True) (doWhileNext driver (fun rs => getColumns driver rs columns) rs) := by
  induction rs with
  | nil => exact quiet_pure trivial
  | cons r rs ih => exact (quiet_getColumns hplain r rs columns).bind fun _ _ => (quiet_read hplain).bind fun _ _ => ih

theorem quiet_whileNext {columns : List Text} (rs : List Row) :
    Quiet (fun _ => True) (whileNext driver (fun rs => getColumns driver rs columns) rs) := by
  induction rs with
  | nil => exact quiet_read hplain
  | cons r rs ih => exact (quiet_read hplain).bind fun _ _ => (quiet_getColumns hplain r rs columns).bind fun _ _ => ih

theorem quiet_getIds (rs : List Row) : Quiet (fun ids => ids = idsOf rs) (getIds driver rs) := by
  refine (quiet_first hplain rs).bind ?_
  intro c hc
  subst hc
  cases rs with
  | nil => exact quiet_pure rfl
  | cons r rs =>
    refine (quiet_getInt hplain r rs _).bind ?_
    intro c hc
    subst hc
    refine (quiet_getInt hplain r rs _).bind ?_
    intro c hc
    subst hc
    exact quiet_pure rfl

omit hplain

theorem same_readOne {s s' : St} (h : Same s s') : Same s s'.readOne := h.trans ⟨rfl, rfl, rfl, rfl, rfl⟩

theorem harmless_first (rs : List Row) : Harmless (first driver rs) :=
  fun s => goes_first (I := Same s) (fun _ => same_readOne) rs

theorem harmless_getColumns (rs : List Row) (columns : List Text) : Harmless (getColumns driver rs columns) :=
  fun s => goes_getColumns (I := Same s) (fun _ => same_readOne) rs columns

theorem harmless_doWhileNext {body : List Row → M Unit} (hbody : ∀ rs, Harmless (body rs)) (rs : List Row) :
    Harmless (doWhileNext driver body rs) := fun s =>
  goes_doWhileNext (I := Same s) (fun _ => same_readOne) (fun rs => hbody rs s) rs

/-! ## Statements -/

variable {call : Times → DBCall} {tmp : Bool} {R : α → β → Prop} {t : Servlets.St} {db : Database}
  {add : DBCall → Servlets.St → Servlets.St}

theorem database_throws {m n : ℕ} (hm : m = n) (h : (driver.statement n).executeThrows = true) :
    driver.database call m = .throws := by
  rw [hm]
  exact if_pos h

theorem database_rows {m n k : ℕ} (hm : m = n) (hk : k = 2 * n) (h : ¬(driver.statement n).executeThrows = true) :
    driver.database call m = .rows (call (times driver (k + 1))) ((driver.statement n).rows.map Row.getInt) := by
  rw [hm, hk]
  exact if_neg h

theorem run_nextAnswer : (nextAnswer db).run t = .ok (db t.next, { t with next := t.next + 1 }) := rfl

theorem executeWith_throws (h : db t.next = .throws) : ended ((executeWith add db).run t) = some (.row t.logMessage) := by
  rw [executeWith, run_bind_ok run_nextAnswer, h]
  rfl

theorem executeWith_rows {c : DBCall} {rs : List Servlets.Row} (h : db t.next = .rows c rs) :
    (executeWith add db).run t = .ok (rs, add c { t with next := t.next + 1 }) := by
  rw [executeWith, run_bind_ok run_nextAnswer, h]
  rfl

theorem Paired.addMessage (s : St) (t : Servlets.St) (times : Times) (h : Paired call false s t) :
    Paired call false (s.addMessage times) (t.addMessage (call times)) where
  next := h.next
  ticks := h.ticks
  logMessage := by simp [St.addMessage, Servlets.St.addMessage, h.logMessage]
  logTmpMessage := h.logTmpMessage
  records := h.records

theorem Paired.addTmpMessage (s : St) (t : Servlets.St) (times : Times) (h : Paired call true s t) :
    Paired call true (s.addTmpMessage times) (t.addTmpMessage (call times)) where
  next := h.next
  ticks := h.ticks
  logMessage := h.logMessage
  logTmpMessage := by simp [St.addTmpMessage, Servlets.St.addTmpMessage, h.logTmpMessage]
  records := h.records

include hplain

/-- a statement that is prepared and executed -/
theorem follows_statement {add : Times → St → St} {add' : DBCall → Servlets.St → Servlets.St}
    (hadd : ∀ s t times, Paired call tmp s t → Paired call tmp (add times s) (add' (call times) t)) {f : ℕ → M α}
    {g : List Servlets.Row → Servlets.M β}
    (h : ∀ n, Follows call true tmp R (f n) (g ((driver.statement n).rows.map Row.getInt))) :
    Follows call true tmp R (prepareStatement driver >>= fun stmt => execute driver add stmt >>= fun _ => f stmt)
      (executeWith add' (driver.database call) >>= g) := by
  intro s t hst
  simp only [after_bind_iff, after_prepareStatement, hplain.prepares, Bool.false_eq_true, false_imp_iff, not_false_iff,
    true_imp_iff, true_and, after_execute]
  refine ⟨fun hthrows => ?_, fun hanswers => ?_⟩
  · refine ⟨hst.records, ?_⟩
    rw [if_pos rfl, ended_bind (executeWith_throws (database_throws hst.next hthrows)), hst.logMessage]
    rfl
  · rw [run_bind_ok (executeWith_rows (database_rows hst.next hst.ticks hanswers))]
    refine h s.prepared _ _ (hadd _ _ _ ⟨?_, ?_, hst.logMessage, hst.logTmpMessage, hst.records⟩)
    · show t.next + 1 = s.prepared + 1
      rw [hst.next]
    · show s.ticks + 2 = 2 * (s.prepared + 1)
      rw [hst.ticks]
      ring

/-- a query of a servlet -/
theorem follows_prepareAndExecute :
    Follows call true false (fun rs rs' => rs' = rs.map Row.getInt) (prepareAndExecute driver)
      (Servlets.execute (driver.database call)) := by
  have h : Follows call true false (fun (rs : List Row) rs' => rs' = rs.map Row.getInt) _ _ :=
    follows_statement hplain Paired.addMessage (f := fun n => pure (driver.statement n).rows) (g := pure)
      fun n => follows_pure rfl
  rw [bind_pure] at h
  simpa only [prepareAndExecute, executeQuery, Servlets.execute] using h

/-- an update of a servlet -/
theorem follows_update {f : ℤ → M α} {g : List Servlets.Row → Servlets.M β}
    (h : ∀ n rs, Follows call true false R (f n) (g rs)) :
    Follows call true false R (prepareStatement driver >>= fun stmt => executeUpdate driver stmt >>= f)
      (Servlets.execute (driver.database call) >>= g) := by
  simp only [executeUpdate, bind_assoc, pure_bind]
  exact follows_statement hplain Paired.addMessage fun n => h _ _

/-- a query of a helper -/
theorem follows_tmp {f : List Row → M α} {g : List Servlets.Row → Servlets.M β}
    (h : ∀ rs, Follows call true true R (f rs) (g (rs.map Row.getInt))) :
    Follows call true true R (prepareStatement driver >>= fun stmt => executeQuery driver St.addTmpMessage stmt >>= f)
      (Servlets.executeTmp (driver.database call) >>= g) := by
  simp only [executeQuery, bind_assoc, pure_bind]
  exact follows_statement hplain Paired.addTmpMessage fun n => h _

/-- a try block that begins with a query -/
theorem follows_rows {f : List Row → M α} {g : List Servlets.Row → Servlets.M β}
    (h : ∀ rs, Follows call true false R (f rs) (g (rs.map Row.getInt))) :
    Follows call true false R (prepareAndExecute driver >>= f) (Servlets.execute (driver.database call) >>= g) := by
  refine (follows_prepareAndExecute hplain).bind fun rs rs' hrs => ?_
  subst hrs
  exact h rs

/-- a servlet behind its first query -/
theorem follows_query {k : Kind} {caught : Bool} {f : List Row → M α} {g : List Servlets.Row → Servlets.M β}
    (h : ∀ rs, Follows call caught false R (f rs) (g (rs.map Row.getInt))) :
    Follows call caught false R (query driver k >>= f) (Servlets.execute (driver.database call) >>= g) := by
  refine (follows_prepareAndExecute hplain).catching.bind fun rs rs' hrs => ?_
  subst hrs
  exact h rs

end Driver

end Rubbos.Servlets.RequestPaths
