/-
Runs of a machine that answers one call at a time and may fail.

A machine is a function `step : σ → ι → Except ε (σ × ω)`: in state s the call i either fails (an exception that ends
the run) or leads to a new state and an answer. `run` makes a list of calls one after the other and collects the
answers. A side condition `legal : σ → ι → Prop` on the state before each call is carried along by `LegalRun`.

- `run_invariant`: an invariant under which every legal call succeeds, is kept and answers well gives runs that never
  fail, stay in the invariant and answer well throughout.
- `run_simulates`: a machine whose successful legal calls are accepted, in lockstep, by a partial observer of its
  answers is accepted over whole runs.

A machine that never fails is a function `step : σ → ι → σ` over events, and `after` runs it; `Along` carries a side
condition on the state before each event, and `after_invariant` is its invariant rule.
-/
import Mathlib.Tactic

namespace Rubbos.Core

variable {σ ι ω ε β : Type}

/-- make the calls of the list one after the other, collecting the answers -/
def run (step : σ → ι → Except ε (σ × ω)) : σ → List ι → Except ε (σ × List ω)
  | s, [] => .ok (s, [])
  | s, i :: is =>
    match step s i with
    | .error e => .error e
    | .ok (s', o) =>
      match run step s' is with
      | .error e => .error e
      | .ok (s'', os) => .ok (s'', o :: os)

/-- every call of the run is made in a state in which it is legal -/
def LegalRun (step : σ → ι → Except ε (σ × ω)) (legal : σ → ι → Prop) : σ → List ι → Prop
  | _, [] => True
  | s, i :: is =>
    legal s i ∧
      match step s i with
      | .error _ => True
      | .ok (s', _) => LegalRun step legal s' is

instance LegalRun.decidable (step : σ → ι → Except ε (σ × ω)) (legal : σ → ι → Prop)
    [∀ s i, Decidable (legal s i)] : ∀ s is, Decidable (LegalRun step legal s is)
  | _, [] => isTrue trivial
  | s, i :: is =>
    match h : step s i with
    | .error _ => decidable_of_iff (legal s i) (by simp [LegalRun, h])
    | .ok (s', _) =>
      have := LegalRun.decidable step legal s' is
      decidable_of_iff (legal s i ∧ LegalRun step legal s' is) (by simp [LegalRun, h])

theorem LegalRun.tail {step : σ → ι → Except ε (σ × ω)} {legal : σ → ι → Prop} {s s' : σ} {i : ι} {is : List ι} {o : ω}
    (h : LegalRun step legal s (i :: is)) (hi : step s i = .ok (s', o)) : LegalRun step legal s' is := by
  have := h.2
  simpa only [hi] using this

/-- feed a list of answers to a partial observer -/
def observe (acc : β → ω → Option β) : β → List ω → Option β
  | b, [] => some b
  | b, o :: os => (acc b o).bind fun b' => observe acc b' os

/-- **Invariant rule.** If every legal call from the invariant succeeds, keeps it and answers well, then so does every
legal run. -/
theorem run_invariant {step : σ → ι → Except ε (σ × ω)} {legal : σ → ι → Prop} (Inv : σ → Prop) (Good : ω → Prop)
    (hstep : ∀ s i, Inv s → legal s i → ∃ s' o, step s i = .ok (s', o) ∧ Inv s' ∧ Good o) (s : σ) (is : List ι)
    (hs : Inv s) (hl : LegalRun step legal s is) :
    ∃ s' os, run step s is = .ok (s', os) ∧ Inv s' ∧ ∀ o ∈ os, Good o := by
  induction is generalizing s with
  | nil => exact ⟨s, [], rfl, hs, by simp⟩
  | cons i is ih =>
    obtain ⟨s', o, hi, hs', ho⟩ := hstep s i hs hl.1
    obtain ⟨s'', os, hr, hs'', hos⟩ := ih s' hs' (hl.tail hi)
    refine ⟨s'', o :: os, by simp only [run, hi, hr], hs'', ?_⟩
    intro x hx
    rcases List.mem_cons.1 hx with rfl | hx
    · exact ho
    · exact hos x hx

/-- **Lockstep rule.** `R s b` relates the machine to an observer of its answers. If every successful legal call is
accepted by the observer and keeps `R`, then the answers of every successful legal run are accepted. -/
theorem run_simulates {step : σ → ι → Except ε (σ × ω)} {legal : σ → ι → Prop} {acc : β → ω → Option β}
    (R : σ → β → Prop)
    (hstep : ∀ s b i s' o, R s b → legal s i → step s i = .ok (s', o) → ∃ b', acc b o = some b' ∧ R s' b')
    (s : σ) (b : β) (is : List ι) (s' : σ) (os : List ω) (hR : R s b) (hl : LegalRun step legal s is)
    (hr : run step s is = .ok (s', os)) : ∃ b', observe acc b os = some b' ∧ R s' b' := by
  induction is generalizing s b os with
  | nil =>
    simp only [run, Except.ok.injEq, Prod.mk.injEq] at hr
    obtain ⟨rfl, rfl⟩ := hr
    exact ⟨b, rfl, hR⟩
  | cons i is ih =>
    simp only [run] at hr
    split at hr
    · cases hr
    · rename_i s1 o hi
      split at hr
      · cases hr
      · rename_i s2 os' hos
        simp only [Except.ok.injEq, Prod.mk.injEq] at hr
        obtain ⟨rfl, rfl⟩ := hr
        obtain ⟨b1, hb1, hR1⟩ := hstep s b i s1 o hR hl.1 hi
        obtain ⟨b2, hb2, hR2⟩ := ih s1 b1 os' hR1 (hl.tail hi) hos
        exact ⟨b2, by simp only [observe, hb1, Option.bind_some, hb2], hR2⟩

/-! ## Machines that never fail -/

/-- the state after the events of the list -/
def after (step : σ → ι → σ) (s : σ) (is : List ι) : σ := is.foldl step s

theorem after_nil (step : σ → ι → σ) (s : σ) : after step s [] = s := rfl

theorem after_cons (step : σ → ι → σ) (s : σ) (i : ι) (is : List ι) : after step s (i :: is) = after step (step s i) is := rfl

/-- the condition holds before every event of the run -/
def Along (step : σ → ι → σ) (P : σ → ι → Prop) : σ → List ι → Prop
  | _, [] => True
  | s, i :: is => P s i ∧ Along step P (step s i) is

instance Along.decidable (step : σ → ι → σ) (P : σ → ι → Prop) [∀ s i, Decidable (P s i)] :
    ∀ s is, Decidable (Along step P s is)
  | _, [] => isTrue trivial
  | s, i :: is =>
    have := Along.decidable step P (step s i) is
    inferInstanceAs (Decidable (P s i ∧ Along step P (step s i) is))

theorem Along.and {step : σ → ι → σ} {P Q : σ → ι → Prop} {s : σ} {is : List ι} (hP : Along step P s is)
    (hQ : Along step Q s is) : Along step (fun s i => P s i ∧ Q s i) s is := by
  induction is generalizing s with
  | nil => trivial
  | cons i is ih => exact ⟨⟨hP.1, hQ.1⟩, ih hP.2 hQ.2⟩

theorem Along.mono {step : σ → ι → σ} {P Q : σ → ι → Prop} (h : ∀ s i, P s i → Q s i) {s : σ} {is : List ι}
    (hP : Along step P s is) : Along step Q s is := by
  induction is generalizing s with
  | nil => trivial
  | cons i is ih => exact ⟨h s i hP.1, ih hP.2⟩

theorem Along.of_forall {step : σ → ι → σ} {P : ι → Prop} {is : List ι} (h : ∀ i ∈ is, P i) (s : σ) :
    Along step (fun _ i => P i) s is := by
  induction is generalizing s with
  | nil => trivial
  | cons i is ih => exact ⟨h i List.mem_cons_self, ih (fun j hj => h j (List.mem_cons_of_mem _ hj)) _⟩

/-- **Invariant rule.** What every event keeps under the side condition holds at the end of the run. -/
theorem after_invariant {step : σ → ι → σ} {P : σ → ι → Prop} (Inv : σ → Prop)
    (hstep : ∀ s i, Inv s → P s i → Inv (step s i)) (s : σ) (is : List ι) (hs : Inv s) (h : Along step P s is) :
    Inv (after step s is) := by
  induction is generalizing s with
  | nil => exact hs
  | cons i is ih => exact ih (step s i) (hstep s i hs h.1) h.2

end Rubbos.Core
