/-
Programs that read a log line by line and write records.

A `LineParser` handles one line at a time in a state left by the lines before (its buffers). A line is either reported as
an error or gives a list of records, possibly none. On an error the program leaves its loop (`stop`) or goes on with the
next line. A step may be undefined (`none`).

The state may hold more or less: `refines s s'` says that s' knows at least what s knows, the initial state knows
nothing, and a step that is defined in s is defined in s' with the same outcome. Which lines are errors and which give
no record depends on the line alone.

- `run_refines`: a run that is defined from the initial state gives the same records from every state.
- `run_isolated`: a program that goes on after an error isolates its lines.
- `run_stops`: a program that leaves its loop loses what follows; `run_isolated_iff` says when nothing was to be lost.
-/
import Mathlib.Tactic

namespace Rubbos.Core

/-- what became of a line -/
inductive Outcome (ω : Type) where
  | records (rs : List ω)
  | error
deriving DecidableEq, Repr

/-- what one step does, the other does with at least as much known -/
def Follows {σ ω : Type} (R : σ → σ → Prop) (x x' : Option (σ × Outcome ω)) : Prop :=
  ∀ t o, x = some (t, o) → ∃ t', x' = some (t', o) ∧ R t t'

/-- the step, if it is defined, reports an error or writes nothing exactly as stated -/
def Classified {σ ω : Type} (error silent : Bool) (x : Option (σ × Outcome ω)) : Prop :=
  ∀ t o, x = some (t, o) → (o = .error ↔ error) ∧ (o = .records [] ↔ silent)

structure LineParser (σ ι ω : Type) where
  step : σ → ι → Option (σ × Outcome ω)
  init : σ
  /-- leave the loop on an error -/
  stop : Bool
  /-- the lines reported as errors -/
  isError : ι → Bool
  /-- the lines that give no record and are not reported -/
  isSilent : ι → Bool
  refines : σ → σ → Prop
  init_refines : ∀ s, refines init s
  step_refines : ∀ s s' l, refines s s' → Follows refines (step s l) (step s' l)
  step_classified : ∀ s l, Classified (isError l) (isSilent l) (step s l)

section

variable {σ ω : Type} {R : σ → σ → Prop}

theorem Follows.some {t t' : σ} (h : R t t') (o : Outcome ω) : Follows R (some (t, o)) (some (t', o)) := by
  intro u o' hu
  cases hu
  exact ⟨t', rfl, h⟩

theorem Classified.error (t : σ) : Classified true false (some (t, (.error : Outcome ω))) := by
  intro u o hu
  cases hu
  simp

theorem Classified.records (t : σ) (rs : List ω) : Classified false rs.isEmpty (some (t, .records rs)) := by
  intro u o hu
  cases hu
  simp

end

namespace LineParser

variable {σ ι ω : Type} (P : LineParser σ ι ω)

/-- the records written for the lines, from a state on -/
def run : σ → List ι → Option (List ω)
  | _, [] => some []
  | s, l :: ls =>
    match P.step s l with
    | none => none
    | some (s', .records rs) => (run s' ls).map (rs ++ ·)
    | some (s', .error) => if P.stop then some [] else run s' ls

/-- the records of a log -/
def parse (ls : List ι) : Option (List ω) := P.run P.init ls

/-- the line, read alone, is reported as an error -/
def Reports (bad : ι) : Prop := ∃ s, P.step P.init bad = some (s, .error)

variable {P}

theorem run_refines {s s' : σ} (h : P.refines s s') {ls : List ι} {rs : List ω} (hr : P.run s ls = some rs) :
    P.run s' ls = some rs := by
  induction ls generalizing s s' rs with
  | nil => exact hr
  | cons l ls ih =>
    simp only [run] at hr ⊢
    cases hs : P.step s l with
    | none => simp [hs] at hr
    | some r =>
      obtain ⟨t, o⟩ := r
      obtain ⟨t', ht', href⟩ := P.step_refines s s' l h t o hs
      rw [hs] at hr
      rw [ht']
      cases o with
      | records rs' =>
        simp only [Option.map_eq_some_iff] at hr ⊢
        obtain ⟨rest, hrest, rfl⟩ := hr
        exact ⟨rest, ih href hrest, rfl⟩
      | error =>
        by_cases hstop : P.stop
        · simpa [hstop] using hr
        · simp only [hstop] at hr ⊢
          exact ih href hr

theorem reports_step {bad : ι} (h : P.Reports bad) (s : σ) : ∃ t, P.step s bad = some (t, .error) := by
  obtain ⟨t, ht⟩ := h
  obtain ⟨t', ht', -⟩ := P.step_refines P.init s bad (P.init_refines s) t .error ht
  exact ⟨t', ht'⟩

theorem run_append_continue (hstop : P.stop = false) {xs ys : List ι} {bad : ι} (hbad : P.Reports bad)
    {rx ry : List ω} {s : σ} (hx : P.run s xs = some rx) (hy : P.parse ys = some ry) :
    P.run s (xs ++ bad :: ys) = some (rx ++ ry) := by
  -- induction on the lines before the error: they run as they do alone, and ys then runs from a state that knows more
  induction xs generalizing s rx with
  | nil =>
    simp only [run, Option.some.injEq] at hx
    subst hx
    obtain ⟨t, ht⟩ := reports_step hbad s
    simp only [List.nil_append, run, ht, hstop, Bool.false_eq_true, if_false]
    exact run_refines (P.init_refines t) hy
  | cons l xs ih =>
    simp only [List.cons_append, run] at hx ⊢
    cases hs : P.step s l with
    | none => simp [hs] at hx
    | some r =>
      obtain ⟨t, o⟩ := r
      cases o with
      | records rs =>
        simp only [hs, Option.map_eq_some_iff] at hx ⊢
        obtain ⟨rest, hrest, rfl⟩ := hx
        exact ⟨rest ++ ry, ih hrest, by simp⟩
      | error =>
        simp only [hs, hstop, Bool.false_eq_true, if_false] at hx ⊢
        exact ih hx

/-- **Isolation.** A parser that goes on after an error writes the records of what precedes the line and of what
follows it. -/
theorem run_isolated (hstop : P.stop = false) {xs ys : List ι} {bad : ι} (hbad : P.Reports bad) {rx ry : List ω}
    (hx : P.parse xs = some rx) (hy : P.parse ys = some ry) : P.parse (xs ++ bad :: ys) = some (rx ++ ry) :=
  run_append_continue hstop hbad hx hy

/-- a parser that leaves its loop on an error writes nothing of what follows the line -/
theorem run_stops (hstop : P.stop = true) {xs ys : List ι} {bad : ι} (hbad : P.Reports bad) {rx : List ω} {s : σ}
    (hx : P.run s xs = some rx) : P.run s (xs ++ bad :: ys) = some rx := by
  induction xs generalizing s rx with
  | nil =>
    obtain ⟨t, ht⟩ := reports_step hbad s
    simpa [run, ht, hstop] using hx
  | cons l xs ih =>
    simp only [List.cons_append, run] at hx ⊢
    cases hs : P.step s l with
    | none => simp [hs] at hx
    | some r =>
      obtain ⟨t, o⟩ := r
      cases o with
      | records rs =>
        simp only [hs, Option.map_eq_some_iff] at hx ⊢
        obtain ⟨rest, hrest, rfl⟩ := hx
        exact ⟨rest, ih hrest, rfl⟩
      | error => simpa [hs, hstop] using hx

/-- no line before the first error line gives a record -/
def SilentUpToError (P : LineParser σ ι ω) (ls : List ι) : Prop := ∀ l ∈ ls.takeWhile fun l => !P.isError l, P.isSilent l

theorem run_eq_nil_iff (hstop : P.stop = true) {s : σ} {ls : List ι} {rs : List ω} (h : P.run s ls = some rs) :
    rs = [] ↔ P.SilentUpToError ls := by
  induction ls generalizing s rs with
  | nil =>
    simp only [run, Option.some.injEq] at h
    simp [SilentUpToError, ← h]
  | cons l ls ih =>
    simp only [run] at h
    cases hs : P.step s l with
    | none => simp [hs] at h
    | some r =>
      obtain ⟨t, o⟩ := r
      obtain ⟨herr, hsil⟩ := P.step_classified s l t o hs
      cases o with
      | records rs' =>
        have hno : P.isError l = false := by simpa using herr
        simp only [hs, Option.map_eq_some_iff] at h
        obtain ⟨rest, hrest, rfl⟩ := h
        simp only [Outcome.records.injEq] at hsil
        simp only [List.append_eq_nil_iff, hsil, ih hrest, SilentUpToError, List.takeWhile_cons, hno, Bool.not_false,
          if_true, List.mem_cons, forall_eq_or_imp]
      | error =>
        have hyes : P.isError l = true := by simpa using herr
        simp only [hs, hstop, if_true, Option.some.injEq] at h
        simp [SilentUpToError, hyes, ← h]

/-- **When leaving the loop loses nothing.** A parser that leaves its loop on an error isolates the line exactly when no
line behind it, up to the next error, gives a record. -/
theorem run_isolated_iff (hstop : P.stop = true) {xs ys : List ι} {bad : ι} (hbad : P.Reports bad) {rx ry : List ω}
    (hx : P.parse xs = some rx) (hy : P.parse ys = some ry) :
    P.parse (xs ++ bad :: ys) = some (rx ++ ry) ↔ P.SilentUpToError ys := by
  have hrun : P.parse (xs ++ bad :: ys) = some rx := run_stops hstop hbad hx
  rw [hrun, ← run_eq_nil_iff hstop hy]
  simp

end LineParser

end Rubbos.Core
