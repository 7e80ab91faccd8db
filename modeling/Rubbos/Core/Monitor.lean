/-
Monitors: objects with synchronized methods, `wait` and `notifyAll`.

A method is a sequence of pieces. A thread that calls one waits for the lock of the object, runs its pieces while it has
the lock, and gives it back when it waits or leaves. `wait` puts a thread to sleep; `notifyAll` wakes every sleeper, and a
thread that is woken has to get the lock again before it goes on. Which thread gets the lock, when a sleeper is interrupted
and what the environment answers is decided by the events, one at a time. An event that cannot happen changes nothing.

The thread inside the monitor is one component of the state, so two threads are never inside at once.

- `monitor_invariant`: the rule for invariants over all interleavings, one premise for each kind of move.
-/
import Rubbos.Core.Run

namespace Rubbos.Core.Monitor

/-- what a piece of a method ends in -/
inductive Move (π : Type) where
  /-- go on at the next piece -/
  | goto (p : π)
  /-- `wait()`, and go on there -/
  | wait (p : π)
  /-- `notifyAll()`, and go on there -/
  | notifyAll (p : π)
  /-- return from the method -/
  | leave
deriving DecidableEq, Repr

/-- where a thread is -/
inductive Mode (π : Type) where
  | outside
  /-- has called a method, has no lock yet -/
  | entering (p : π)
  | inside
  /-- asleep in `wait()` -/
  | waiting (p : π)
  /-- woken, has no lock yet -/
  | notified (p : π)
deriving DecidableEq, Repr

structure St (τ σ π : Type) where
  obj : σ
  /-- the thread that has the lock, and its next piece -/
  inside : Option (τ × π)
  mode : τ → Mode π

inductive Event (τ π ι : Type) where
  | call (t : τ) (p : π)
  /-- the lock goes to a thread -/
  | acquire (t : τ)
  /-- the thread inside goes on; x is what the environment answers -/
  | go (x : ι)
  /-- a sleeper is interrupted -/
  | interrupt (t : τ)

variable {τ σ π ι : Type}

def wakeAll (mode : τ → Mode π) (t : τ) : Mode π :=
  match mode t with
  | .waiting p => .notified p
  | m => m

/-- the methods of a class: what one piece does, and which calls its users make -/
structure Class (τ σ π ι : Type) where
  body : τ → ι → π → σ → σ × Move π
  callable : τ → π → σ → Prop
  dec : ∀ t p o, Decidable (callable t p o)

variable [DecidableEq τ]

/-- the thread t inside, at a piece that turns the object into o, moves on -/
def move (s : St τ σ π) (t : τ) (o : σ) : Move π → St τ σ π
  | .goto p => { s with obj := o, inside := some (t, p) }
  | .wait p => ⟨o, none, Function.update s.mode t (.waiting p)⟩
  | .notifyAll p => ⟨o, some (t, p), wakeAll s.mode⟩
  | .leave => ⟨o, none, Function.update s.mode t .outside⟩

/-- the thread t gets the lock and goes on at p -/
def enter (s : St τ σ π) (t : τ) (p : π) : St τ σ π := ⟨s.obj, some (t, p), Function.update s.mode t .inside⟩

def step (C : Class τ σ π ι) (s : St τ σ π) : Event τ π ι → St τ σ π
  | .call t p =>
    match s.mode t with
    | .outside =>
      have := C.dec t p s.obj
      if C.callable t p s.obj then { s with mode := Function.update s.mode t (.entering p) } else s
    | _ => s
  | .acquire t =>
    match s.inside, s.mode t with
    | none, .entering p => enter s t p
    | none, .notified p => enter s t p
    | _, _ => s
  | .go x =>
    match s.inside with
    | none => s
    | some (t, p) => move s t (C.body t x p s.obj).1 (C.body t x p s.obj).2
  | .interrupt t =>
    match s.mode t with
    | .waiting p => { s with mode := Function.update s.mode t (.notified p) }
    | _ => s

/-- a monitor that no thread has called -/
def start (o : σ) : St τ σ π := ⟨o, none, fun _ => .outside⟩

/-- **Monitor rule.** An invariant that holds at the start and is kept by every call, by getting the lock, by every piece of a
method and by an interrupt holds after every run. -/
theorem monitor_invariant {C : Class τ σ π ι} (Inv : St τ σ π → Prop) {o : σ} (hstart : Inv (start o))
    (hcall : ∀ s t p, Inv s → s.mode t = .outside → C.callable t p s.obj →
      Inv { s with mode := Function.update s.mode t (.entering p) })
    (henter : ∀ s t p, Inv s → s.inside = none → (s.mode t = .entering p ∨ s.mode t = .notified p) → Inv (enter s t p))
    (hpiece : ∀ s t p x, Inv s → s.inside = some (t, p) → Inv (move s t (C.body t x p s.obj).1 (C.body t x p s.obj).2))
    (hinterrupt : ∀ s t p, Inv s → s.mode t = .waiting p →
      Inv { s with mode := Function.update s.mode t (.notified p) })
    (es : List (Event τ π ι)) : Inv (after (step C) (start o) es) := by
  refine after_invariant (P := fun _ _ => True) Inv ?_ _ es hstart (.of_forall (fun _ _ => trivial) _)
  intro s e hs _
  cases e with
  | call t p =>
    simp only [step]
    split
    · next hmode =>
      split
      · next hcallable => exact hcall s t p hs hmode hcallable
      · exact hs
    · exact hs
  | acquire t =>
    simp only [step]
    split
    · next hinside hmode => exact henter s t _ hs hinside (.inl hmode)
    · next hinside hmode => exact henter s t _ hs hinside (.inr hmode)
    · exact hs
  | go x =>
    simp only [step]
    split
    · exact hs
    · next t p hinside => exact hpiece s t p x hs hinside
  | interrupt t =>
    simp only [step]
    split
    · next p hmode => exact hinterrupt s t p hs hmode
    · exact hs

end Rubbos.Core.Monitor
