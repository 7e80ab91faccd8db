/-
The pool of database connections of a servlet (`RubbosHttpServlet.java`).

The threads that serve requests share the servlet object, so the methods that take a connection out of the pool and put
it back are those of a monitor. There is a stack for each database, but `initializeConnections` pushes every connection on
the first one. A thread that finds its stack empty waits in a loop; a thread that puts a connection on an empty stack
notifies all. A thread puts back each connection that it got once.

- `pool_is_safe`: over all interleavings, the connections are in the pool or held by one thread, no stack is popped empty,
  and no sleeper is forgotten.
-/
import Rubbos.Core.Monitor

namespace Rubbos.Servlets.ConnectionPool

open Rubbos.Core Monitor

/-! ## Model -/

/-- `getPoolSize()` and `Config.DatabasePropertiesSize` -/
structure Config where
  poolSize : ℕ
  databasePropertiesSize : ℕ
  pos : 0 < databasePropertiesSize

/-- connections, numbered as they are created -/
abbrev Connection := ℕ

/-- exceptions that are thrown inside the methods -/
inductive Fault where
  | emptyStack
  | nullPointer
deriving DecidableEq, Repr

structure Pool (τ : Type) where
  /-- a stack for each database, its top first -/
  databaseConnections : ℕ → List Connection
  /-- the database of each connection -/
  connectionLookup : List (Connection × ℕ)
  /-- who holds which connection -/
  held : List (τ × Connection)
  faults : List Fault

/-- the pieces of the methods -/
inductive Point where
  /-- `getRConnection` with so many attempts left to find a stack that is not empty -/
  | attempt (left : ℕ)
  /-- `while (tempStack.isEmpty()) wait()` on the stack of a database -/
  | test (db : ℕ)
  | pop (db : ℕ)
  /-- `releaseRConnection(c)` looks the database up -/
  | lookup (c : Connection)
  /-- `mustNotify = isEmpty()` -/
  | release (c : Connection) (db : ℕ)
  | push (c : Connection) (db : ℕ) (mustNotify : Bool)
  | notify (mustNotify : Bool)
  | done
deriving DecidableEq, Repr

def readWriteIndex : ℕ := 0

def getRWConnection : Point := .test readWriteIndex

/-- `NumAttempts = 3` -/
def getRConnection : Point := .attempt 3

def releaseRConnection (c : Connection) : Point := .lookup c

def releaseRWConnection (c : Connection) : Point := .release c readWriteIndex

/-- one connection is created and pushed -/
def addConnection {τ : Type} (p : Pool τ) (tempConn : Connection) : Pool τ :=
  { p with
    databaseConnections := Function.update p.databaseConnections 0 (tempConn :: p.databaseConnections 0)
    connectionLookup := (tempConn, 0) :: p.connectionLookup }

/-- the connections in the order of their creation -/
def created (c : Config) : List Connection := List.range (c.databasePropertiesSize * c.poolSize)

def initializeConnections {τ : Type} (c : Config) : Pool τ := (created c).foldl addConnection ⟨fun _ => [], [], [], []⟩

variable {τ : Type} [DecidableEq τ]

/-- one piece of a method; random is the number that `generator.nextInt` draws -/
def body (c : Config) (t : τ) (random : ℕ) (point : Point) (p : Pool τ) : Pool τ × Move Point :=
  match point with
  | .attempt left =>
    let db := random % c.databasePropertiesSize
    if (p.databaseConnections db).isEmpty ∧ 1 < left then (p, .goto (.attempt (left - 1))) else (p, .goto (.test db))
  | .test db => if (p.databaseConnections db).isEmpty then (p, .wait (.test db)) else (p, .goto (.pop db))
  | .pop db =>
    match p.databaseConnections db with
    -- `catch (EmptyStackException e)`: null is returned
    | [] => ({ p with faults := .emptyStack :: p.faults }, .leave)
    | x :: rest =>
      ({ p with databaseConnections := Function.update p.databaseConnections db rest, held := (t, x) :: p.held }, .leave)
  | .lookup x =>
    match (p.connectionLookup.find? fun e => e.1 = x) with
    | none => ({ p with faults := .nullPointer :: p.faults }, .leave)
    | some e => (p, .goto (.release x e.2))
  | .release x db => (p, .goto (.push x db (p.databaseConnections db).isEmpty))
  | .push x db mustNotify =>
    ({ p with
      databaseConnections := Function.update p.databaseConnections db (x :: p.databaseConnections db)
      held := p.held.erase (t, x) }, .goto (.notify mustNotify))
  | .notify true => (p, .notifyAll .done)
  | .notify false => (p, .goto .done)
  | .done => (p, .leave)

/-- the calls of the servlets: a thread releases what it holds -/
def callable (t : τ) (point : Point) (p : Pool τ) : Prop :=
  point = getRWConnection ∨ point = getRConnection ∨
    ∃ e ∈ p.held, e.1 = t ∧ (point = releaseRConnection e.2 ∨ point = releaseRWConnection e.2)

def servlet (c : Config) : Class τ (Pool τ) Point ℕ where
  body := body c
  callable := callable
  dec := fun _ _ _ => by unfold callable; infer_instance

/-- the connections in the pool -/
def free (c : Config) (p : Pool τ) : List Connection := (List.range c.databasePropertiesSize).flatMap p.databaseConnections

/-! ## Invariant -/

/-- the connections are in the first stack or held -/
structure PoolOK (c : Config) (p : Pool τ) : Prop where
  all : (p.databaseConnections 0 ++ p.held.map Prod.snd).Perm (created c)
  others : ∀ db, db ≠ 0 → p.databaseConnections db = []
  lookup : ∀ x ∈ created c, (p.connectionLookup.find? fun e => e.1 = x) = some (x, 0)
  faults : p.faults = []

/-- what holds at a piece of a method for the thread inside -/
def At (t : τ) (p : Pool τ) : Point → Prop
  | .pop db => p.databaseConnections db ≠ []
  | .lookup x => (t, x) ∈ p.held
  | .release x db => (t, x) ∈ p.held ∧ db = 0
  | .push x db mustNotify => (t, x) ∈ p.held ∧ db = 0 ∧ mustNotify = (p.databaseConnections db).isEmpty
  | _ => True

/-- the thread inside is about to notify all -/
def Pending (inside : Option (τ × Point)) : Prop := ∃ t, inside = some (t, .notify true)

/-- what holds for a thread that is not inside: it calls a method from its start, and sleeps at an empty stack -/
def ModeOK (p : Pool τ) (inside : Option (τ × Point)) (t : τ) : Mode Point → Prop
  | .entering point => callable t point p
  | .waiting point => ∃ db, point = .test db ∧ (p.databaseConnections db = [] ∨ Pending inside)
  | .notified point => ∃ db, point = .test db
  | _ => True

structure Inv (c : Config) (s : Monitor.St τ (Pool τ) Point) : Prop where
  obj : PoolOK c s.obj
  inside : ∀ t p, s.inside = some (t, p) → At t s.obj p ∧ s.mode t = .inside
  modes : ∀ t, ModeOK s.obj s.inside t (s.mode t)

omit [DecidableEq τ] in
theorem initializeConnections_eq (c : Config) : (initializeConnections c : Pool τ) =
    { databaseConnections := Function.update (fun _ => []) 0 (created c).reverse
      connectionLookup := (created c).reverse.map fun x => (x, 0)
      held := []
      faults := [] } := by
  unfold initializeConnections
  generalize created c = xs
  have h : ∀ p : Pool τ, xs.foldl addConnection p =
      { p with
        databaseConnections := Function.update p.databaseConnections 0 (xs.reverse ++ p.databaseConnections 0)
        connectionLookup := xs.reverse.map (fun x => (x, 0)) ++ p.connectionLookup } := by
    induction xs with
    | nil => intro p; simp
    | cons x xs ih =>
      intro p
      rw [List.foldl_cons, ih]
      simp [addConnection]
  rw [h]
  simp

omit [DecidableEq τ] in
theorem lookup_initial (c : Config) : ∀ x ∈ created c,
    ((initializeConnections c : Pool τ).connectionLookup.find? fun e => e.1 = x) = some (x, 0) := by
  intro x hx
  rw [initializeConnections_eq]
  simp only [List.find?_map]
  cases h : (created c).reverse.find? ((fun e : Connection × ℕ => decide (e.1 = x)) ∘ fun x => (x, 0)) with
  | none =>
    have := List.find?_eq_none.1 h x (List.mem_reverse.2 hx)
    simp at this
  | some y =>
    have hy : y = x := by simpa using List.find?_some h
    rw [hy]
    rfl

omit [DecidableEq τ] in
theorem inv_start (c : Config) : Inv c (start (initializeConnections c) : Monitor.St τ (Pool τ) Point) where
  obj := by
    have hlookup := lookup_initial (τ := τ) c
    simp only [start]
    rw [initializeConnections_eq] at hlookup ⊢
    refine ⟨by simp, ?_, hlookup, rfl⟩
    intro db hdb
    simp [hdb]
  inside := by simp [start]
  modes := fun _ => trivial

/-- one thread changes its mode, the others stay -/
theorem modes_update {p : Pool τ} {inside : Option (τ × Point)} {mode : τ → Mode Point}
    (h : ∀ u, ModeOK p inside u (mode u)) {t : τ} {m : Mode Point} (hm : ModeOK p inside t m) :
    ∀ u, ModeOK p inside u (Function.update mode t m u) := by
  intro u
  by_cases hut : u = t
  · subst hut
    rwa [Function.update_self]
  · rw [Function.update_of_ne hut]
    exact h u

omit [DecidableEq τ] in
/-- who is inside matters only while a notification is pending -/
theorem ModeOK.of_not_pending {p : Pool τ} {inside inside' : Option (τ × Point)} {t : τ} {m : Mode Point}
    (h : ModeOK p inside t m) (hp : ¬ Pending inside) : ModeOK p inside' t m := by
  cases m with
  | waiting point =>
    obtain ⟨db, hdb, hempty⟩ := h
    exact ⟨db, hdb, .inl (hempty.resolve_right hp)⟩
  | _ => exact h

omit [DecidableEq τ] in
theorem not_pending {t : τ} {p : Point} (hp : p ≠ .notify true) : ¬ Pending (some (t, p)) := by
  rintro ⟨u, hu⟩
  simp only [Option.some.injEq, Prod.mk.injEq] at hu
  exact hp hu.2

variable {c : Config} {s : Monitor.St τ (Pool τ) Point} {t : τ} {p : Point}

theorem inv_call (h : Inv c s) (hmode : s.mode t = .outside) (hcallable : callable t p s.obj) :
    Inv c { s with mode := Function.update s.mode t (.entering p) } where
  obj := h.obj
  inside := by
    intro u q hu
    obtain ⟨hat, hin⟩ := h.inside u q hu
    have hut : u ≠ t := by
      rintro rfl
      rw [hmode] at hin
      cases hin
    exact ⟨hat, by simpa [Function.update_of_ne hut] using hin⟩
  modes := modes_update h.modes hcallable

omit [DecidableEq τ] in
theorem at_of_callable {o : Pool τ} (h : callable t p o) : At t o p := by
  rcases h with rfl | rfl | ⟨e, he, rfl, rfl | rfl⟩
  · trivial
  · trivial
  · exact he
  · exact ⟨he, rfl⟩

theorem inv_enter (h : Inv c s) (hfree : s.inside = none) (hmode : s.mode t = .entering p ∨ s.mode t = .notified p) :
    Inv c (enter s t p) where
  obj := h.obj
  inside := by
    intro u q hu
    simp only [enter, Option.some.injEq, Prod.mk.injEq] at hu
    obtain ⟨rfl, rfl⟩ := hu
    refine ⟨?_, Function.update_self ..⟩
    have hok := h.modes t
    rcases hmode with hm | hm
    · rw [hm] at hok
      exact at_of_callable hok
    · rw [hm] at hok
      obtain ⟨db, rfl⟩ := hok
      trivial
  modes := by
    have hp : ¬ Pending s.inside := by
      rintro ⟨u, hu⟩
      rw [hfree] at hu
      cases hu
    exact modes_update (fun u => (h.modes u).of_not_pending hp) trivial

theorem inv_interrupt (h : Inv c s) (hmode : s.mode t = .waiting p) :
    Inv c { s with mode := Function.update s.mode t (.notified p) } where
  obj := h.obj
  inside := by
    intro u q hu
    obtain ⟨hat, hin⟩ := h.inside u q hu
    have hut : u ≠ t := by
      rintro rfl
      rw [hmode] at hin
      cases hin
    exact ⟨hat, by simpa [Function.update_of_ne hut] using hin⟩
  modes := by
    have hok := h.modes t
    rw [hmode] at hok
    obtain ⟨db, hdb, -⟩ := hok
    exact modes_update h.modes ⟨db, hdb⟩

/-! ## The pieces -/

/-- the thread inside goes on without a change of the pool -/
theorem inv_goto (h : Inv c s) (hin : s.inside = some (t, p)) (hp : p ≠ .notify true) {q : Point} (hq : At t s.obj q) :
    Inv c (move s t s.obj (.goto q)) where
  obj := h.obj
  inside := by
    intro u r hu
    simp only [move, Option.some.injEq, Prod.mk.injEq] at hu
    obtain ⟨rfl, rfl⟩ := hu
    exact ⟨hq, (h.inside t p hin).2⟩
  modes := fun u => (h.modes u).of_not_pending (hin ▸ not_pending hp)

/-- the thread inside gives the lock back -/
theorem inv_leave (h : Inv c s) (hin : s.inside = some (t, p)) (hp : p ≠ .notify true) {o : Pool τ} (ho : PoolOK c o)
    (hmodes : ∀ u, u ≠ t → ModeOK s.obj none u (s.mode u) → ModeOK o none u (s.mode u)) {m : Mode Point}
    (hm : ModeOK o none t m) : Inv c ⟨o, none, Function.update s.mode t m⟩ where
  obj := ho
  inside := by
    intro u q hu
    cases hu
  modes := by
    intro u
    by_cases hut : u = t
    · subst hut
      simpa using hm
    · simpa [Function.update_of_ne hut] using hmodes u hut ((h.modes u).of_not_pending (hin ▸ not_pending hp))

omit [DecidableEq τ] in
/-- `pop()` gives the connection at the top of the first stack to the thread -/
theorem poolOK_pop {o : Pool τ} (h : PoolOK c o) {db : ℕ} {x : Connection} {rest : List Connection}
    (hx : o.databaseConnections db = x :: rest) :
    PoolOK c { o with
      databaseConnections := Function.update o.databaseConnections db rest
      held := (t, x) :: o.held } := by
  have hdb : db = 0 := by
    by_contra hne
    rw [h.others db hne] at hx
    cases hx
  subst hdb
  refine ⟨?_, ?_, h.lookup, h.faults⟩
  · have hall := h.all
    rw [hx] at hall
    simpa using List.perm_middle.trans hall
  · intro db hdb
    simpa [Function.update_of_ne hdb] using h.others db hdb

/-- `push(c)` on the first stack takes the connection from the thread -/
theorem poolOK_push {o : Pool τ} (h : PoolOK c o) {x : Connection} (hx : (t, x) ∈ o.held) :
    PoolOK c { o with
      databaseConnections := Function.update o.databaseConnections 0 (x :: o.databaseConnections 0)
      held := o.held.erase (t, x) } := by
  refine ⟨?_, ?_, h.lookup, h.faults⟩
  · have hheld : (o.held.map Prod.snd).Perm (x :: (o.held.erase (t, x)).map Prod.snd) :=
      (List.perm_cons_erase hx).map Prod.snd
    have hmove : (x :: o.databaseConnections 0 ++ (o.held.erase (t, x)).map Prod.snd).Perm
        (o.databaseConnections 0 ++ o.held.map Prod.snd) :=
      List.perm_middle.symm.trans (hheld.symm.append_left _)
    simpa using hmove.trans h.all
  · intro db hdb
    simpa [Function.update_of_ne hdb] using h.others db hdb

omit [DecidableEq τ] in
theorem created_of_held {o : Pool τ} (h : PoolOK c o) {x : Connection} (hx : (t, x) ∈ o.held) : x ∈ created c :=
  h.all.subset (List.mem_append_right _ (List.mem_map_of_mem hx))

omit [DecidableEq τ] in
/-- a call stays possible when another thread gets a connection -/
theorem modeOK_pop {o : Pool τ} {u : τ} {db : ℕ} {x : Connection} {rest : List Connection} {m : Mode Point}
    (hx : o.databaseConnections db = x :: rest) (h : ModeOK o none u m) :
    ModeOK { o with
      databaseConnections := Function.update o.databaseConnections db rest
      held := (t, x) :: o.held } none u m := by
  cases m with
  | entering point =>
    rcases h with h | h | ⟨e, he, hcall⟩
    · exact .inl h
    · exact .inr (.inl h)
    · exact .inr (.inr ⟨e, List.mem_cons_of_mem _ he, hcall⟩)
  | waiting point =>
    obtain ⟨db', rfl, hempty | ⟨v, hv⟩⟩ := h
    · refine ⟨db', rfl, .inl ?_⟩
      have hne : db' ≠ db := by
        rintro rfl
        rw [hx] at hempty
        cases hempty
      simpa [Function.update_of_ne hne] using hempty
    · cases hv
  | notified point => exact h
  | outside => trivial
  | inside => trivial

/-- a thread puts a connection back: the calls of the others stay possible, and either nobody sleeps at that stack or the
thread is about to notify -/
theorem modeOK_push {o : Pool τ} {u : τ} (hut : u ≠ t) {x : Connection} {m : Mode Point} (h : ModeOK o none u m) :
    ModeOK { o with
      databaseConnections := Function.update o.databaseConnections 0 (x :: o.databaseConnections 0)
      held := o.held.erase (t, x) } (some (t, .notify (o.databaseConnections 0).isEmpty)) u m := by
  cases m with
  | entering point =>
    rcases h with h | h | ⟨e, he, hu, hcall⟩
    · exact .inl h
    · exact .inr (.inl h)
    · refine .inr (.inr ⟨e, ?_, hu, hcall⟩)
      have hne : e ≠ (t, x) := by
        rintro rfl
        exact hut hu.symm
      exact (List.mem_erase_of_ne hne).2 he
  | waiting point =>
    obtain ⟨db, rfl, hempty | ⟨v, hv⟩⟩ := h
    · refine ⟨db, rfl, ?_⟩
      by_cases hdb : db = 0
      · subst hdb
        right
        exact ⟨t, by rw [hempty]; rfl⟩
      · left
        simpa [Function.update_of_ne hdb] using hempty
    · cases hv
  | notified point => exact h
  | outside => trivial
  | inside => trivial

theorem inv_push (h : Inv c s) {x : Connection} {mustNotify : Bool} (hin : s.inside = some (t, .push x 0 mustNotify)) :
    Inv c (move s t (body c t 0 (.push x 0 mustNotify) s.obj).1 (.goto (.notify mustNotify))) := by
  obtain ⟨⟨hheld, -, rfl⟩, hmode⟩ := h.inside t _ hin
  refine ⟨poolOK_push h.obj hheld, ?_, ?_⟩
  · intro u q hu
    simp only [move, Option.some.injEq, Prod.mk.injEq] at hu
    obtain ⟨rfl, rfl⟩ := hu
    exact ⟨trivial, hmode⟩
  · intro u
    by_cases hut : u = t
    · subst hut
      simp only [move, hmode, ModeOK]
    · exact modeOK_push hut ((h.modes u).of_not_pending (hin ▸ not_pending (by simp)))

/-- after `notifyAll()` nobody sleeps -/
theorem inv_notifyAll (h : Inv c s) (hin : s.inside = some (t, p)) : Inv c (move s t s.obj (.notifyAll .done)) where
  obj := h.obj
  inside := by
    intro u q hu
    simp only [move, Option.some.injEq, Prod.mk.injEq] at hu
    obtain ⟨rfl, rfl⟩ := hu
    refine ⟨trivial, ?_⟩
    simp only [move, wakeAll, (h.inside t p hin).2]
  modes := by
    intro u
    have hok := h.modes u
    simp only [move, wakeAll]
    cases hm : s.mode u with
    | waiting point =>
      rw [hm] at hok
      obtain ⟨db, hdb, -⟩ := hok
      exact ⟨db, hdb⟩
    | _ =>
      rw [hm] at hok
      exact hok

theorem inv_piece (random : ℕ) (h : Inv c s) (hin : s.inside = some (t, p)) :
    Inv c (move s t (body c t random p s.obj).1 (body c t random p s.obj).2) := by
  obtain ⟨hat, hmode⟩ := h.inside t p hin
  cases p with
  | attempt left =>
    simp only [body]
    split
    · exact inv_goto h hin (by simp) trivial
    · exact inv_goto h hin (by simp) trivial
  | test db =>
    simp only [body]
    split
    · next hempty =>
      exact inv_leave h hin (by simp) h.obj (fun _ _ hu => hu) ⟨db, rfl, .inl (List.isEmpty_iff.1 hempty)⟩
    · next hne => exact inv_goto h hin (by simp) (fun hempty => hne (List.isEmpty_iff.2 hempty))
  | pop db =>
    cases hx : s.obj.databaseConnections db with
    | nil => exact absurd hx hat
    | cons x rest =>
      simp only [body, hx]
      exact inv_leave h hin (by simp) (poolOK_pop h.obj hx) (fun _ _ hu => modeOK_pop hx hu) trivial
  | lookup x =>
    simp only [body, h.obj.lookup x (created_of_held h.obj hat)]
    exact inv_goto h hin (by simp) ⟨hat, rfl⟩
  | release x db => exact inv_goto h hin (by simp) ⟨hat.1, hat.2, rfl⟩
  | push x db mustNotify =>
    obtain rfl : db = 0 := hat.2.1
    exact inv_push h hin
  | notify mustNotify =>
    cases mustNotify with
    | true => exact inv_notifyAll h hin
    | false => exact inv_goto h hin (by simp) trivial
  | done => exact inv_leave h hin (by simp) h.obj (fun _ _ hu => hu) trivial

/-- the invariant holds in every interleaving -/
theorem inv_after (c : Config) (es : List (Event τ Point ℕ)) :
    Inv c (after (step (servlet c)) (start (initializeConnections c)) es) := by
  refine monitor_invariant (Inv c) (inv_start c) ?_ ?_ ?_ ?_ es
  · intro s t p h hmode hcallable
    exact inv_call h hmode hcallable
  · intro s t p h hfree hmode
    exact inv_enter h hfree hmode
  · intro s t p x h hin
    exact inv_piece x h hin
  · intro s t p h hmode
    exact inv_interrupt h hmode

/-! ## The pool is safe -/

omit [DecidableEq τ] in
theorem free_eq {o : Pool τ} (h : PoolOK c o) : free c o = o.databaseConnections 0 := by
  obtain ⟨n, hn⟩ := Nat.exists_eq_succ_of_ne_zero c.pos.ne'
  have hrest : (List.range n).flatMap (fun i => o.databaseConnections (i + 1)) = [] := by
    rw [List.flatMap_eq_nil_iff]
    intro i _
    exact h.others (i + 1) (Nat.succ_ne_zero i)
  simp only [free, hn, List.range_succ_eq_map, List.flatMap_cons, List.flatMap_map, Nat.succ_eq_add_one, hrest,
    List.append_nil]

/-- **The pool is safe.** After any number of calls of any number of threads, in any interleaving, with any answers of the
random generator and any interrupts: the connections in the stacks and those held are together the connections created,
each once; so no connection is held twice or held and free. No stack was popped empty. A thread that sleeps while no
notification is about to be sent sleeps at an empty stack. -/
theorem pool_is_safe (c : Config) (es : List (Event τ Point ℕ)) :
    let s := after (step (servlet c)) (start (initializeConnections c)) es
    (free c s.obj ++ s.obj.held.map Prod.snd).Perm (created c) ∧
    (∀ t u x, (t, x) ∈ s.obj.held → (u, x) ∈ s.obj.held → t = u) ∧
    (∀ t x, (t, x) ∈ s.obj.held → x ∉ free c s.obj) ∧
    (free c s.obj).Nodup ∧
    s.obj.faults = [] ∧
    (∀ t p, s.mode t = .waiting p → ¬ Pending s.inside → ∃ db, p = .test db ∧ s.obj.databaseConnections db = []) := by
  intro s
  have h : Inv c s := inv_after c es
  have hfree := free_eq h.obj
  have hnodup : (s.obj.databaseConnections 0 ++ s.obj.held.map Prod.snd).Nodup :=
    h.obj.all.nodup_iff.2 List.nodup_range
  obtain ⟨hn, hm, hdisjoint⟩ := List.nodup_append'.1 hnodup
  rw [hfree]
  refine ⟨h.obj.all, ?_, ?_, hn, h.obj.faults, ?_⟩
  · intro t u x ht hu
    exact congrArg Prod.fst (List.inj_on_of_nodup_map hm ht hu rfl)
  · intro t x hx hf
    exact hdisjoint hf (List.mem_map_of_mem hx)
  · intro t p hw hp
    have hok := h.modes t
    rw [hw] at hok
    obtain ⟨db, hdb, hempty⟩ := hok
    exact ⟨db, hdb, hempty.resolve_right hp⟩

end Rubbos.Servlets.ConnectionPool
