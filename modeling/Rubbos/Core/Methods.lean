/-
Methods with a state, which end by a return or by an exception.

The state outlives an exception: what a try block has done before it throws stays done. `After m s Q J` is about the state
in which m ends from s, behind its last statement (Q) or by a jump (J).

`Contract I R F X m` is the contract of a piece of a method: from a state with I it goes on in one with R, throws in one
with X, or leaves the method for good in one with F, by a return or by an error that no handler takes. The rules follow the
program text, so the contract of a method is put together from those of its statements.
-/
import Mathlib.Tactic

namespace Rubbos.Core

variable {σ α β : Type}

/-- how a method leaves a piece of its body: thrown is an exception, fatal is an error of the machine such as an overflow of
the stack, which is no exception -/
inductive Jump where
  | returned
  | thrown
  | fatal
deriving DecidableEq, Repr

abbrev Method (σ α : Type) := ExceptT Jump (StateM σ) α

namespace Method

def jump (j : Jump) : Method σ α := throw j

/-- `try { m } catch (Exception e) { handler }` -/
def catching (m handler : Method σ α) : Method σ α :=
  tryCatch m fun j =>
    match j with
    | .thrown => handler
    | j => jump j

/-- the end of a method and the state there -/
def runFrom (m : Method σ α) (s : σ) : Except Jump α × σ := (ExceptT.run m).run s

def After (m : Method σ α) (s : σ) (Q : α → σ → Prop) (J : Jump → σ → Prop) : Prop :=
  match m.runFrom s with
  | (.ok a, s') => Q a s'
  | (.error j, s') => J j s'

section Rules

variable {s : σ} {Q Q' : α → σ → Prop} {J J' : Jump → σ → Prop} {m : Method σ α}

theorem after_pure {a : α} (h : Q a s) : After (pure a) s Q J := h

theorem after_pure_iff {a : α} : After (pure a) s Q J ↔ Q a s := Iff.rfl

theorem after_jump {j : Jump} (h : J j s) : After (jump j : Method σ α) s Q J := h

theorem after_jump_iff {j : Jump} : After (jump j : Method σ α) s Q J ↔ J j s := Iff.rfl

theorem after_modify {f : σ → σ} {Q : PUnit → σ → Prop} (h : Q ⟨⟩ (f s)) : After (modify f) s Q J := h

theorem after_modify_iff {f : σ → σ} {Q : PUnit → σ → Prop} : After (modify f) s Q J ↔ Q ⟨⟩ (f s) := Iff.rfl

theorem after_get_iff {Q : σ → σ → Prop} : After get s Q J ↔ Q s s := Iff.rfl

theorem After.mono (h : After m s Q J) (hQ : ∀ a s', Q a s' → Q' a s') (hJ : ∀ j s', J j s' → J' j s') :
    After m s Q' J' := by
  unfold After at h ⊢
  rcases hm : m.runFrom s with ⟨j | a, s'⟩
  · rw [hm] at h
    exact hJ _ _ h
  · rw [hm] at h
    exact hQ _ _ h

theorem runFrom_bind (m : Method σ α) (f : α → Method σ β) (s : σ) :
    (m >>= f).runFrom s = match m.runFrom s with
      | (.ok a, s') => (f a).runFrom s'
      | (.error j, s') => (.error j, s') := by
  unfold runFrom
  rw [ExceptT.run_bind, StateT.run_bind]
  rcases (ExceptT.run m).run s with ⟨_ | _, _⟩ <;> rfl

theorem runFrom_catching (m handler : Method σ α) (s : σ) :
    (catching m handler).runFrom s = match m.runFrom s with
      | (.ok a, s') => (.ok a, s')
      | (.error .thrown, s') => handler.runFrom s'
      | (.error j, s') => (.error j, s') := by
  unfold catching runFrom
  rw [ExceptT.run_tryCatch, StateT.run_bind]
  rcases (ExceptT.run m).run s with ⟨j | _, _⟩
  · cases j <;> rfl
  · rfl

theorem after_bind_iff {f : α → Method σ β} {R : β → σ → Prop} :
    After (m >>= f) s R J ↔ After m s (fun a s' => After (f a) s' R J) J := by
  unfold After
  rw [runFrom_bind]
  rcases m.runFrom s with ⟨_ | _, _⟩ <;> rfl

/-- an exception of a try block goes to its handler, with the state that the block has left -/
theorem after_catching_iff {handler : Method σ α} :
    After (catching m handler) s Q J ↔
      After m s Q fun j s' => if j = .thrown then After handler s' Q J else J j s' := by
  unfold After
  rw [runFrom_catching]
  rcases m.runFrom s with ⟨j | _, _⟩
  · cases j <;> rfl
  · rfl

theorem After.bind {f : α → Method σ β} {R : β → σ → Prop} (h : After m s Q J)
    (hf : ∀ a s', Q a s' → After (f a) s' R J) : After (m >>= f) s R J :=
  after_bind_iff.2 (h.mono hf fun _ _ hj => hj)

theorem after_ite_iff {c : Prop} [Decidable c] {m' : Method σ α} :
    After (if c then m else m') s Q J ↔ (c → After m s Q J) ∧ (¬c → After m' s Q J) := by
  split_ifs with hc
  · exact ⟨fun h => ⟨fun _ => h, fun hn => absurd hc hn⟩, fun h => h.1 hc⟩
  · exact ⟨fun h => ⟨fun h' => absurd h' hc, fun _ => h⟩, fun h => h.2 hc⟩

end Rules

/-! ## Contracts -/

/-- what a contract asks of a jump -/
def Left (F X : σ → Prop) : Jump → σ → Prop
  | .returned | .fatal => F
  | .thrown => X

def Contract (I : σ → Prop) (R : α → σ → Prop) (F X : σ → Prop) (m : Method σ α) : Prop :=
  ∀ s, I s → After m s R (Left F X)

section Contracts

variable {I I' F F' X X' : σ → Prop} {R R' : α → σ → Prop} {S : β → σ → Prop} {m handler : Method σ α}

theorem contract_pure {a : α} (h : ∀ s, I s → R a s) : Contract I R F X (pure a) := fun s hs => after_pure (h s hs)

theorem contract_return (h : ∀ s, I s → F s) : Contract I R F X (jump .returned) := fun s hs => after_jump (h s hs)

theorem contract_throw (h : ∀ s, I s → X s) : Contract I R F X (jump .thrown) := fun s hs => after_jump (h s hs)

theorem contract_modify {f : σ → σ} {R : PUnit → σ → Prop} (h : ∀ s, I s → R ⟨⟩ (f s)) :
    Contract I R F X (modify f) := fun s hs => after_modify (h s hs)

theorem Left.mono {j : Jump} {s : σ} (h : Left F X j s) (hF : ∀ s, F s → F' s) (hX : ∀ s, X s → X' s) : Left F' X' j s := by
  cases j with
  | returned => exact hF s h
  | thrown => exact hX s h
  | fatal => exact hF s h

/-- `After.mono`, jump by jump -/
theorem After.left {Q Q' : α → σ → Prop} {s : σ} (h : After m s Q (Left F X)) (hQ : ∀ a s', Q a s' → Q' a s')
    (hF : ∀ s', F s' → F' s') (hX : ∀ s', X s' → X' s') : After m s Q' (Left F' X') :=
  h.mono hQ fun _ _ hj => hj.mono hF hX

theorem After.catching {Q : α → σ → Prop} {s : σ} (h : After m s Q (Left F X'))
    (hh : ∀ s', X' s' → After handler s' Q (Left F X)) : After (Method.catching m handler) s Q (Left F X) := by
  refine after_catching_iff.2 (h.mono (fun _ _ ha => ha) fun j s' hj => ?_)
  cases j with
  | returned => exact hj
  | thrown => exact hh s' hj
  | fatal => exact hj

theorem Contract.mono (h : Contract I R F X m) (hI : ∀ s, I' s → I s) (hR : ∀ a s, R a s → R' a s)
    (hF : ∀ s, F s → F' s) (hX : ∀ s, X s → X' s) : Contract I' R' F' X' m := fun s hs => (h s (hI s hs)).left hR hF hX

theorem Contract.bind {f : α → Method σ β} (h : Contract I R F X m) (hf : ∀ a, Contract (R a) S F X (f a)) :
    Contract I S F X (m >>= f) := fun s hs => (h s hs).bind fun a s' ha => hf a s' ha

theorem Contract.catching (h : Contract I R F X' m) (hh : Contract X' R F X handler) :
    Contract I R F X (Method.catching m handler) := fun s hs => (h s hs).catching hh

theorem contract_ite {c : Prop} [Decidable c] {m' : Method σ α} (h : c → Contract I R F X m)
    (h' : ¬c → Contract I R F X m') : Contract I R F X (if c then m else m') := by
  split_ifs with hc
  · exact h hc
  · exact h' hc

/-- the contract of a whole method: P holds of the state at its end -/
theorem Contract.ends {P : σ → Prop} (h : Contract I (fun _ => P) P P m) {s : σ} (hs : I s) : P (m.runFrom s).2 := by
  have hafter := h s hs
  unfold After at hafter
  rcases hm : m.runFrom s with ⟨j | a, s'⟩
  · rw [hm] at hafter
    cases j with
    | returned => exact hafter
    | thrown => exact hafter
    | fatal => exact hafter
  · rw [hm] at hafter
    exact hafter

end Contracts
end Method
end Rubbos.Core
