/-
Which database a connection of the pool belongs to (`RubbosHttpServlet.java`).

`initializeConnections` opens poolSize connections from the properties of each database in turn, but enters all of them in
`connectionLookup` under 0 and pushes all of them on the stack of the first database. With one database nothing is wrong.
With more, the writers get connections of any database, and a reader that draws another database three times sleeps at a
stack that no release ever reaches.

- `routed_iff`: the routing law holds exactly for one database and a pool that is not empty.
- `two_databases_misrouted`: what happens with two databases.
-/
import Rubbos.Servlets.ConnectionPool

namespace Rubbos.Servlets.ConnectionPool

open Rubbos.Core Monitor

/-- the database whose properties a connection was opened from -/
def database (c : Config) (x : Connection) : ℕ := x / c.poolSize

/-- a release of the connection, by one of the two methods, puts it on the stack of the database -/
def Receives {τ : Type} (p : Pool τ) (db : ℕ) (x : Connection) : Prop :=
  (p.connectionLookup.find? fun e => e.1 = x) = some (x, db) ∨ db = readWriteIndex

variable {τ : Type} [DecidableEq τ]

/-- the state after a run -/
def reached (c : Config) (es : List (Monitor.Event τ Point ℕ)) : Monitor.St τ (Pool τ) Point :=
  after (step (servlet c)) (start (initializeConnections c)) es

/-- the run ends while thread t is in a call, or behind it: es₁ came before, and t has not called anything since -/
def CalledAt (c : Config) (t : τ) (es₁ es₂ : List (Monitor.Event τ Point ℕ)) : Prop :=
  (reached c es₁).mode t = .outside ∧ ∀ q, .call t q ∉ es₂

/-- the routing law, over all runs -/
structure Routed (τ : Type) [DecidableEq τ] (c : Config) : Prop where
  /-- what `getRWConnection` returns is of the master database -/
  rw_master : ∀ (t : τ) es₁ es₂ x, CalledAt c t es₁ es₂ → (t, x) ∉ (reached c es₁).obj.held →
    (t, x) ∈ (reached c (es₁ ++ .call t getRWConnection :: es₂)).obj.held → database c x = readWriteIndex
  /-- every stack has the connections of its database at first -/
  own_stack : ∀ db < c.databasePropertiesSize, ((initializeConnections c : Pool τ).databaseConnections db).Perm
    ((created c).filter fun x => database c x = db)
  /-- where `getRConnection` sleeps some connection can be returned to -/
  no_dead_wait : ∀ (t : τ) es₁ es₂ db, CalledAt c t es₁ es₂ →
    (reached c (es₁ ++ .call t getRConnection :: es₂)).mode t = .waiting (.test db) →
    ∃ x ∈ created c, Receives (reached c (es₁ ++ .call t getRConnection :: es₂)).obj db x

variable {c : Config}

theorem database_eq_zero (h1 : c.databasePropertiesSize = 1) {x : Connection} (hx : x ∈ created c) : database c x = 0 := by
  rw [created, h1, one_mul, List.mem_range] at hx
  exact Nat.div_eq_of_lt hx

/-! ## One database -/

/-- a thread that tests a stack tests that of a configured database -/
def Tests (c : Config) (p : Point) : Prop := ∀ db, p = .test db → db < c.databasePropertiesSize

structure Configured (c : Config) (s : Monitor.St τ (Pool τ) Point) : Prop where
  inside : ∀ t p, s.inside = some (t, p) → Tests c p
  modes : ∀ t p, (s.mode t = .entering p ∨ s.mode t = .waiting p ∨ s.mode t = .notified p) → Tests c p

variable {s : Monitor.St τ (Pool τ) Point} {t : τ} {p : Point}

/-- one thread changes its mode, the others stay -/
theorem tests_update (h : ∀ u q, (s.mode u = .entering q ∨ s.mode u = .waiting q ∨ s.mode u = .notified q) → Tests c q)
    {m : Mode Point} (hm : ∀ q, (m = .entering q ∨ m = .waiting q ∨ m = .notified q) → Tests c q) :
    ∀ u q, (Function.update s.mode t m u = .entering q ∨ Function.update s.mode t m u = .waiting q ∨
      Function.update s.mode t m u = .notified q) → Tests c q := by
  intro u q hq
  by_cases hut : u = t
  · subst hut
    rw [Function.update_self] at hq
    exact hm q hq
  · rw [Function.update_of_ne hut] at hq
    exact h u q hq

omit [DecidableEq τ] in
theorem tests_of_callable {o : Pool τ} (h : callable t p o) : Tests c p := by
  rcases h with rfl | rfl | ⟨e, he, rfl, rfl | rfl⟩
  · intro db hdb
    cases hdb
    exact c.pos
  all_goals
    intro db hdb
    cases hdb

/-- the point where a move goes on -/
def nextPoint : Move Point → Option Point
  | .goto q | .wait q | .notifyAll q => some q
  | .leave => none

/-- a piece goes on at the stack of a configured database -/
theorem tests_body (random : ℕ) (o : Pool τ) (h : Tests c p) (q : Point)
    (hq : nextPoint (body c t random p o).2 = some q) : Tests c q := by
  intro db hdb
  subst hdb
  cases p with
  | attempt left =>
    simp only [body] at hq
    split at hq
    · cases hq
    · cases hq
      exact Nat.mod_lt _ c.pos
  | test db' =>
    simp only [body] at hq
    split at hq
    · cases hq
      exact h db rfl
    · cases hq
  | pop db' =>
    simp only [body] at hq
    split at hq
    all_goals cases hq
  | lookup x =>
    simp only [body] at hq
    split at hq
    all_goals cases hq
  | notify mustNotify =>
    cases mustNotify with
    | true => cases hq
    | false => cases hq
  | release x db' => cases hq
  | push x db' mustNotify => cases hq
  | done => cases hq

theorem configured_move (h : Configured c s) {o : Pool τ} {m : Move Point} (hm : ∀ q, nextPoint m = some q → Tests c q) :
    Configured c (move s t o m) := by
  cases m with
  | goto q =>
    refine ⟨?_, h.modes⟩
    intro u r hr
    cases hr
    exact hm q rfl
  | wait q =>
    refine ⟨fun _ _ hr => (by cases hr), tests_update h.modes ?_⟩
    rintro r (hr | hr | hr)
    all_goals cases hr
    exact hm q rfl
  | notifyAll q =>
    refine ⟨?_, ?_⟩
    · intro u r hr
      cases hr
      exact hm q rfl
    · intro u r hr
      apply h.modes u r
      simp only [move, wakeAll] at hr
      cases hu : s.mode u with
      | waiting point =>
        simp only [hu, reduceCtorEq, false_or] at hr
        cases hr
        exact .inr (.inl rfl)
      | entering point => simpa only [hu] using hr
      | notified point => simpa only [hu] using hr
      | outside => simp [hu] at hr
      | inside => simp [hu] at hr
  | leave =>
    refine ⟨fun _ _ hr => (by cases hr), tests_update h.modes ?_⟩
    rintro r (hr | hr | hr)
    all_goals cases hr

theorem configured_after (c : Config) (es : List (Monitor.Event τ Point ℕ)) : Configured c (reached c es) := by
  refine monitor_invariant (C := servlet c) (Configured c) ?_ ?_ ?_ ?_ ?_ es
  · exact ⟨fun _ _ h => (by cases h), fun _ _ h => by rcases h with h | h | h <;> cases h⟩
  · intro s t p h _ hcallable
    refine ⟨h.inside, tests_update h.modes ?_⟩
    rintro q (hq | hq | hq)
    all_goals cases hq
    exact tests_of_callable hcallable
  · intro s t p h _ hmode
    refine ⟨?_, tests_update h.modes ?_⟩
    · intro u q hu
      cases hu
      exact h.modes t p (by tauto)
    · rintro q (hq | hq | hq)
      all_goals cases hq
  · intro s t p x h hin
    exact configured_move h (tests_body x s.obj (h.inside t p hin))
  · intro s t p h hmode
    refine ⟨h.inside, tests_update h.modes ?_⟩
    rintro q (hq | hq | hq)
    all_goals cases hq
    exact h.modes t p (.inr (.inl hmode))

theorem routed_of_one (h1 : c.databasePropertiesSize = 1) (hpos : 0 < c.poolSize) : Routed τ c where
  rw_master := by
    intro t es₁ es₂ x _ _ hx
    exact database_eq_zero h1 (created_of_held (inv_after c _).obj hx)
  own_stack := by
    intro db hdb
    obtain rfl : db = 0 := by omega
    have hall : ∀ x ∈ created c, decide (database c x = 0) = true := by
      intro x hx
      exact decide_eq_true (database_eq_zero h1 hx)
    rw [initializeConnections_eq, List.filter_eq_self.2 hall]
    simp
  no_dead_wait := by
    intro t es₁ es₂ db _ hwait
    have hdb : db < c.databasePropertiesSize := (configured_after c _).modes t _ (.inr (.inl hwait)) db rfl
    have h0 : 0 ∈ created c := by simp [created, h1, hpos]
    exact ⟨0, h0, .inr (by rw [readWriteIndex]; omega)⟩

/-! ## Several databases, or none of the connections -/

omit [DecidableEq τ] in
/-- the stacks of the other databases are empty at first -/
theorem initial_stack {db : ℕ} (hdb : db ≠ 0) : (initializeConnections c : Pool τ).databaseConnections db = [] := by
  rw [initializeConnections_eq]
  simp [hdb]

/-- the first connection that is opened from the properties of a database -/
theorem mem_created {db : ℕ} (hdb : db < c.databasePropertiesSize) (hpos : 0 < c.poolSize) :
    db * c.poolSize ∈ created c ∧ database c (db * c.poolSize) = db := by
  refine ⟨?_, Nat.mul_div_cancel db hpos⟩
  rw [created, List.mem_range]
  exact Nat.mul_lt_mul_of_pos_right hdb hpos

omit [DecidableEq τ] in
theorem one_of_own_stack (hpos : 0 < c.poolSize) (h : ∀ db < c.databasePropertiesSize,
    ((initializeConnections c : Pool τ).databaseConnections db).Perm ((created c).filter fun x => database c x = db)) :
    c.databasePropertiesSize = 1 := by
  by_contra hne
  have h1 : 1 < c.databasePropertiesSize := by
    have := c.pos
    omega
  obtain ⟨hmem, hdb⟩ := mem_created h1 hpos
  have hperm := h 1 h1
  rw [initial_stack one_ne_zero] at hperm
  have hin : 1 * c.poolSize ∈ (created c).filter fun x => database c x = 1 :=
    List.mem_filter.2 ⟨hmem, decide_eq_true hdb⟩
  rw [← hperm.nil_eq] at hin
  cases hin

/-- a reader of a pool without connections goes to sleep: three attempts, then the test -/
def reader (t : τ) : List (Monitor.Event τ Point ℕ) := .call t getRConnection :: [.acquire t, .go 0, .go 0, .go 0, .go 0]

theorem reader_sleeps (hzero : c.poolSize = 0) (t : τ) : (reached c (reader t)).mode t = .waiting (.test 0) := by
  have hempty : (initializeConnections c : Pool τ).databaseConnections 0 = [] := by
    rw [initializeConnections_eq]
    simp [created, hzero]
  have hcall : callable t (.attempt 3) (initializeConnections c) := .inr (.inl rfl)
  simp [reached, reader, after, step, start, servlet, hcall, enter, getRConnection, body, hempty, move]

theorem pool_pos_of_no_dead_wait (t : τ) (h : ∀ (t : τ) es₁ es₂ db, CalledAt c t es₁ es₂ →
    (reached c (es₁ ++ .call t getRConnection :: es₂)).mode t = .waiting (.test db) →
    ∃ x ∈ created c, Receives (reached c (es₁ ++ .call t getRConnection :: es₂)).obj db x) : 0 < c.poolSize := by
  by_contra hzero
  obtain ⟨x, hx, -⟩ := h t [] _ 0 ⟨rfl, by simp⟩ (reader_sleeps (Nat.eq_zero_of_not_pos hzero) t)
  rw [created, Nat.eq_zero_of_not_pos hzero] at hx
  cases hx

/-- **The pool is routed exactly for one database.** Over all runs of all threads, writers get connections of the master,
every stack has its own connections at first and no reader sleeps where nothing can be returned, if and only if there is one
database and its pool is not empty. -/
theorem routed_iff [Inhabited τ] (c : Config) : Routed τ c ↔ c.databasePropertiesSize = 1 ∧ 0 < c.poolSize := by
  constructor
  · intro h
    have hpos := pool_pos_of_no_dead_wait default h.no_dead_wait
    exact ⟨one_of_own_stack hpos h.own_stack, hpos⟩
  · intro h
    exact routed_of_one h.1 h.2

/-- two databases, with one connection each -/
def twoDatabases : Config := ⟨1, 2, Nat.two_pos⟩

/-- with two databases, the first writer gets the connection that was opened from the second, whose stack is empty, and a
reader that draws the second three times sleeps there for good -/
theorem two_databases_misrouted :
    (reached (τ := ℕ) twoDatabases [.call 0 getRWConnection, .acquire 0, .go 0, .go 0]).obj.held = [(0, 1)] ∧
    database twoDatabases 1 = 1 ∧
    (initializeConnections twoDatabases : Pool ℕ).databaseConnections 1 = [] ∧
    (reached (τ := ℕ) twoDatabases [.call 0 getRConnection, .acquire 0, .go 1, .go 1, .go 1, .go 1]).mode 0 =
      .waiting (.test 1) ∧
    ¬ Routed ℕ twoDatabases := by
  refine ⟨by decide, by decide, by decide, by decide, ?_⟩
  intro h
  have hperm := h.own_stack 1 (by decide)
  exact absurd hperm.length_eq (by decide)

end Rubbos.Servlets.ConnectionPool
