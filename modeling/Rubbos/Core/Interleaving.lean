/-
Requests that run at once over a shared database, without transactions.

A request is a program whose pieces each make one statement. A statement is atomic: it reads and changes the database, the
code after it prints something, and the request goes on at its next piece or ends. Any number of requests run at once, and
the events say which of them makes its statement next and whether the statement succeeds. An event for a request that does
not run changes nothing.

- `interleaving_invariant`: the rule for invariants over all interleavings, with a side condition on every event.
- `database_invariant`: the same for a property of the database alone.
- `Program.sum`: the requests of two programs over one database.
- `undisturbed_succ`, `undisturbed_ended`: a request that runs alone, one statement after the other.
-/
import Rubbos.Core.Run

namespace Rubbos.Core.Interleaving

/-- what a statement and the code after it do -/
structure Outcome (σ π ω : Type) where
  db : σ
  /-- where the request goes on, if it does -/
  next : Option π
  printed : List ω

/-- the programs of the requests ι over a database σ, with pieces π -/
structure Program (σ ι π ω : Type) where
  /-- the first piece, if a statement is made at all, and what is printed before -/
  start : ι → Option π × List ω
  /-- one piece; ok says whether its statement succeeds -/
  exec : σ → π → (ok : Bool) → Outcome σ π ω

structure St (σ π ω : Type) where
  db : σ
  running : List π
  printed : List ω

inductive Event (ι : Type) where
  | request (i : ι)
  /-- the n-th request that runs makes its statement -/
  | statement (n : ℕ) (ok : Bool)
deriving DecidableEq, Repr

variable {σ ι π ω : Type}

/-- no request runs -/
def idle (db : σ) : St σ π ω := ⟨db, [], []⟩

/-- the request between as and bs has made its statement -/
def advance (s : St σ π ω) (as bs : List π) (o : Outcome σ π ω) : St σ π ω :=
  ⟨o.db, as ++ o.next.toList ++ bs, s.printed ++ o.printed⟩

/-- a request has come in -/
def arrive (s : St σ π ω) (r : Option π × List ω) : St σ π ω :=
  ⟨s.db, s.running ++ r.1.toList, s.printed ++ r.2⟩

def step (P : Program σ ι π ω) (s : St σ π ω) : Event ι → St σ π ω
  | .request i => arrive s (P.start i)
  | .statement n ok =>
    match s.running[n]? with
    | none => s
    | some p => advance s (s.running.take n) (s.running.drop (n + 1)) (P.exec s.db p ok)

variable {P : Program σ ι π ω}

/-! ## How many requests are at a place -/

theorem countP_running {s : St σ π ω} {as bs : List π} {p : π} (h : s.running = as ++ p :: bs) (f : π → Bool) :
    s.running.countP f = as.countP f + [p].countP f + bs.countP f := by
  rw [h, List.append_cons, List.countP_append, List.countP_append]

theorem countP_advance (s : St σ π ω) (as bs : List π) (o : Outcome σ π ω) (f : π → Bool) :
    (advance s as bs o).running.countP f = as.countP f + o.next.toList.countP f + bs.countP f := by
  rw [advance, List.countP_append, List.countP_append]

/-- one request moves from p to its next piece -/
theorem countP_exchange {s : St σ π ω} {as bs : List π} {p : π} (h : s.running = as ++ p :: bs) (o : Outcome σ π ω)
    (f : π → Bool) :
    (advance s as bs o).running.countP f = s.running.countP f - [p].countP f + o.next.toList.countP f := by
  rw [countP_advance, countP_running h]
  omega

theorem countP_pos {s : St σ π ω} {as bs : List π} {p : π} (h : s.running = as ++ p :: bs) {f : π → Bool} (hf : f p) :
    0 < s.running.countP f := by
  rw [List.countP_pos_iff]
  exact ⟨p, by simp [h], hf⟩

theorem countP_arrive (s : St σ π ω) (r : Option π × List ω) (f : π → Bool) :
    (arrive s r).running.countP f = s.running.countP f + r.1.toList.countP f := List.countP_append

/-! ## What an event can do -/

theorem step_cases (s : St σ π ω) (e : Event ι) :
    (∃ i, e = .request i ∧ step P s e = arrive s (P.start i)) ∨
    (∃ n ok, e = .statement n ok ∧ s.running[n]? = none ∧ step P s e = s) ∨
    ∃ as p bs ok, s.running = as ++ p :: bs ∧ e = .statement as.length ok ∧
      step P s e = advance s as bs (P.exec s.db p ok) := by
  cases e with
  | request i => exact .inl ⟨i, rfl, rfl⟩
  | statement n ok =>
    cases hn : s.running[n]? with
    | none => exact .inr (.inl ⟨n, ok, rfl, hn, by simp only [step, hn]⟩)
    | some p =>
      obtain ⟨hlt, hget⟩ := List.getElem?_eq_some_iff.1 hn
      have hsplit : s.running = s.running.take n ++ p :: s.running.drop (n + 1) := by
        rw [← hget, List.getElem_cons_drop, List.take_append_drop]
      have hlen : (s.running.take n).length = n := List.length_take_of_le hlt.le
      exact .inr (.inr ⟨_, p, _, ok, hsplit, by rw [hlen], by simp only [step, hn]⟩)

/-- **Interleaving rule.** An invariant that holds at the start, and that every request and every statement of a request
keeps, holds after every run along which the side condition holds. -/
theorem interleaving_invariant (Inv : St σ π ω → Prop) (C : St σ π ω → Event ι → Prop)
    (hrequest : ∀ s i, Inv s → C s (.request i) → Inv (arrive s (P.start i)))
    (hstatement : ∀ s as p bs ok, Inv s → s.running = as ++ p :: bs → C s (.statement as.length ok) →
      Inv (advance s as bs (P.exec s.db p ok)))
    (s : St σ π ω) (es : List (Event ι)) (hs : Inv s) (hC : Along (step P) C s es) : Inv (after (step P) s es) := by
  refine after_invariant Inv ?_ s es hs hC
  intro s e hs hC
  rcases step_cases s e with ⟨i, rfl, hstep⟩ | ⟨n, ok, rfl, -, hstep⟩ | ⟨as, p, bs, ok, hsplit, rfl, hstep⟩
  · rw [hstep]
    exact hrequest s i hs hC
  · rw [hstep]
    exact hs
  · rw [hstep]
    exact hstatement s as p bs ok hs hsplit hC

/-- a condition on the statements of a run -/
def OnStatement (C : σ → π → Bool → Prop) (s : St σ π ω) : Event ι → Prop
  | .request _ => True
  | .statement n ok => ∀ p ∈ s.running[n]?, C s.db p ok

instance (C : σ → π → Bool → Prop) [∀ db p ok, Decidable (C db p ok)] (s : St σ π ω) :
    ∀ e : Event ι, Decidable (OnStatement C s e)
  | .request _ => isTrue trivial
  | .statement n ok => inferInstanceAs (Decidable (∀ p ∈ s.running[n]?, C s.db p ok))

/-- **Database rule.** What every statement keeps that meets the condition holds of the database after every run. -/
theorem database_invariant (Inv : σ → Prop) (C : σ → π → Bool → Prop)
    (hexec : ∀ db p ok, Inv db → C db p ok → Inv (P.exec db p ok).db) (s : St σ π ω) (es : List (Event ι)) (hs : Inv s.db)
    (hC : Along (step P) (OnStatement C) s es) : Inv (after (step P) s es).db := by
  refine interleaving_invariant (fun s => Inv s.db) (OnStatement C) ?_ ?_ s es hs hC
  · intro s i hs _
    exact hs
  · intro s as p bs ok hs hsplit hC
    exact hexec s.db p ok hs (hC p (by simp [hsplit]))

/-! ## Two programs -/

section

variable {ι' π' ω' : Type}

def Outcome.map (f : π → π') (g : ω → ω') (o : Outcome σ π ω) : Outcome σ π' ω' :=
  ⟨o.db, o.next.map f, o.printed.map g⟩

/-- the requests of both programs -/
def Program.sum (P : Program σ ι π ω) (Q : Program σ ι' π' ω') : Program σ (ι ⊕ ι') (π ⊕ π') (ω ⊕ ω') where
  start
    | .inl i => ((P.start i).1.map .inl, (P.start i).2.map .inl)
    | .inr i => ((Q.start i).1.map .inr, (Q.start i).2.map .inr)
  exec db
    | .inl p, ok => (P.exec db p ok).map .inl .inl
    | .inr p, ok => (Q.exec db p ok).map .inr .inr

end

/-! ## Requests that nobody disturbs -/

/-- n statements of the only request that runs, all successful -/
def undisturbed (P : Program σ ι π ω) (n : ℕ) (s : St σ π ω) : St σ π ω :=
  after (step P) s (List.replicate n (.statement 0 true))

/-- a request from its start, with n statements to make at most -/
def alone (P : Program σ ι π ω) (n : ℕ) (db : σ) (i : ι) : St σ π ω := undisturbed P n (arrive (idle db) (P.start i))

theorem undisturbed_ended (n : ℕ) (db : σ) (out : List ω) : undisturbed P n ⟨db, [], out⟩ = ⟨db, [], out⟩ := by
  unfold undisturbed
  induction n with
  | zero => rfl
  | succ n ih => exact ih

theorem undisturbed_succ (n : ℕ) (db : σ) (p : π) (out : List ω) :
    undisturbed P (n + 1) ⟨db, [p], out⟩ =
      undisturbed P n ⟨(P.exec db p true).db, (P.exec db p true).next.toList, out ++ (P.exec db p true).printed⟩ := by
  simp [undisturbed, List.replicate_succ, after, step, advance]

end Rubbos.Core.Interleaving
