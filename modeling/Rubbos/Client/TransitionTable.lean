/-
The transition table of an emulated user (`TransitionTable.java`): the walk over the pages of the site and the history
behind its Back transition.

The matrix is `float transitions[nbColumns][nbRows]`. Column c holds the probabilities of leaving state c; the last
two rows are "Back probability" (nbRows - 2) and "End of Session" (nbRows - 1). `nextState` draws a step in [0, 1), adds
up the column of the current state until the sum exceeds the step, and moves to that row. Entering a state with no
Back probability empties the history, entering any other state pushes the state left. The stack is a list, its top is
the head. An index outside the matrix is an ArrayIndexOutOfBoundsException (`Fault`). The sleeps are left out: they
change no state.

Arithmetic is a parameter F: `Binary32` for the code as it runs, ℚ for statements in exact arithmetic.

Results:
- `nextState_cases`: everything a successful `nextState` can do.
- `walk_never_goes_back_from_nothing`: over all call sequences, a table whose home state has no Back probability stays
  inside the matrix and never reaches the branch that goes back without a previous state.
- `history_of_the_session`: over all runs whose resets find an empty history, going back returns only to pages of the
  session (the observer `Browser`).
Witness `stale_history_after_reset`: a reset leaves the history in place, and the next session goes back into it.
-/
import Rubbos.Core.Run
import Rubbos.Core.Binary32

namespace Rubbos.Client.TransitionTable

open Rubbos.Core

/-! ## Model -/

section Model

variable {F : Type}

/-- the fields of a `TransitionTable` that do not change after it is read -/
structure Table (F : Type) where
  nbColumns : ℕ
  nbRows : ℕ
  transitions : Fin nbColumns → Fin nbRows → F

/-- the fields that change -/
structure St where
  currentState : ℤ
  previousStates : List ℤ
deriving DecidableEq, Repr

inductive Fault where
  | arrayIndexOutOfBounds
deriving DecidableEq, Repr

/-- what a call did to the walk -/
inductive Event where
  /-- moved on; the state left was pushed -/
  | pushed
  /-- moved to a state without Back probability; the history was emptied -/
  | cleared
  /-- went back to a state popped from the history -/
  | wentBack
  /-- reached End of Session -/
  | ended
  /-- "Error detected: Trying to go back but no previous state is available" -/
  | noPreviousState
  /-- `backToPreviousState` found no previous state -/
  | refused
  | reset
deriving DecidableEq, Repr

/-- the value a call returns, and what it did -/
structure Ret where
  value : ℤ
  event : Event
deriving DecidableEq, Repr

inductive Call (F : Type) where
  | nextState (step : F)
  | backToPreviousState
  | resetToInitialState

/-- a fresh object -/
def fresh : St := ⟨0, []⟩

/-- `transitions[c][i]` -/
def Table.entry (t : Table F) (c i : ℤ) : Option F :=
  if h : (0 ≤ c ∧ c < t.nbColumns) ∧ 0 ≤ i ∧ i < t.nbRows then
    some (t.transitions ⟨c.toNat, by omega⟩ ⟨i.toNat, by omega⟩)
  else none

def isEndOfSession (t : Table F) (s : St) : Prop := s.currentState = t.nbRows - 1

instance (t : Table F) (s : St) : Decidable (isEndOfSession t s) := by unfold isEndOfSession; infer_instance

def resetToInitialState (s : St) : St × Ret := (⟨0, s.previousStates⟩, ⟨0, .reset⟩)

def backToPreviousState (s : St) : St × Ret :=
  match s.previousStates with
  | [] => (s, ⟨-1, .refused⟩)
  | p :: ps => (⟨p, ps⟩, ⟨p, .wentBack⟩)

variable [AddZeroClass F] [LT F] [DecidableLT F] [DecidableEq F]

/-- the loop of `nextState` with `left` rows to go, at row i, with the sum so far: the row it breaks at, if any -/
def select (t : Table F) (c : ℤ) (step : F) : (left i : ℕ) → (cumul : F) → Except Fault (Option ℤ)
  | 0, _, _ => .ok none
  | left + 1, i, cumul =>
    match t.entry c i with
    | none => .error .arrayIndexOutOfBounds
    | some p => if step < cumul + p then .ok (some i) else select t c step left (i + 1) (cumul + p)

def nextState (t : Table F) (s : St) (step : F) : Except Fault (St × Ret) :=
  match select t s.currentState step t.nbRows 0 0 with
  | .error e => .error e
  | .ok sel =>
    let cur := sel.getD s.currentState
    -- deal with Back to previous state
    if cur = t.nbRows - 2 then
      match s.previousStates with
      | [] => .ok (⟨cur, []⟩, ⟨cur, .noPreviousState⟩)
      | p :: ps => .ok (⟨p, ps⟩, ⟨p, .wentBack⟩)
    else if cur = t.nbRows - 1 then .ok (⟨cur, s.previousStates⟩, ⟨cur, .ended⟩)
    else
      match t.entry cur (t.nbRows - 2) with
      | none => .error .arrayIndexOutOfBounds
      | some b =>
        if b = 0 then .ok (⟨cur, []⟩, ⟨cur, .cleared⟩)
        else .ok (⟨cur, s.currentState :: s.previousStates⟩, ⟨cur, .pushed⟩)

/-- one call on the object -/
def call (t : Table F) (s : St) : Call F → Except Fault (St × Ret)
  | .nextState step => nextState t s step
  | .backToPreviousState => .ok (backToPreviousState s)
  | .resetToInitialState => .ok (resetToInitialState s)

end Model

/-! ## What the calls do -/

section Steps

variable {F : Type} {t : Table F}

theorem entry_isSome {c i : ℤ} : (∃ p, t.entry c i = some p) ↔ (0 ≤ c ∧ c < t.nbColumns) ∧ 0 ≤ i ∧ i < t.nbRows := by
  unfold Table.entry
  split_ifs with h <;> simp [h]

variable [AddZeroClass F] [LT F] [DecidableLT F]

/-- inside the matrix the loop does not throw; a row it breaks at has an entry other than 0, since adding 0 would have
left the sum at a value the step is not below -/
theorem select_spec {c : ℤ} (hc : 0 ≤ c ∧ c < t.nbColumns) (step : F) (left i : ℕ) (cumul : F)
    (hi : i + left = t.nbRows) (hcum : ¬ step < cumul) :
    ∃ sel, select t c step left i cumul = .ok sel ∧
      ∀ r, sel = some r → (0 ≤ r ∧ r < t.nbRows) ∧ ∃ p, t.entry c r = some p ∧ p ≠ 0 := by
  induction left generalizing i cumul with
  | zero => exact ⟨none, rfl, by simp⟩
  | succ left ih =>
    have hi' : (0 : ℤ) ≤ i ∧ (i : ℤ) < t.nbRows := by omega
    obtain ⟨p, hp⟩ := entry_isSome.2 ⟨hc, hi'⟩
    simp only [select, hp]
    split_ifs with hlt
    · refine ⟨some i, rfl, ?_⟩
      intro r hr
      cases hr
      refine ⟨hi', p, hp, ?_⟩
      rintro rfl
      rw [add_zero] at hlt
      exact hcum hlt
    · exact ih (i + 1) (cumul + p) (by omega) hlt

variable [DecidableEq F]

/-- everything a `nextState` that does not throw can do -/
theorem nextState_cases {s s' : St} {step : F} {r : Ret} (h : nextState t s step = .ok (s', r)) :
    ∃ sel, select t s.currentState step t.nbRows 0 0 = .ok sel ∧
      let cur := sel.getD s.currentState
      (cur = t.nbRows - 2 ∧ s.previousStates = [] ∧ s' = ⟨cur, []⟩ ∧ r = ⟨cur, .noPreviousState⟩) ∨
      (cur = t.nbRows - 2 ∧ ∃ p ps, s.previousStates = p :: ps ∧ s' = ⟨p, ps⟩ ∧ r = ⟨p, .wentBack⟩) ∨
      (cur = t.nbRows - 1 ∧ s' = ⟨cur, s.previousStates⟩ ∧ r = ⟨cur, .ended⟩) ∨
      (cur ≠ t.nbRows - 2 ∧ cur ≠ t.nbRows - 1 ∧ ∃ b, t.entry cur (t.nbRows - 2) = some b ∧
        (b = 0 ∧ s' = ⟨cur, []⟩ ∧ r = ⟨cur, .cleared⟩ ∨
         b ≠ 0 ∧ s' = ⟨cur, s.currentState :: s.previousStates⟩ ∧ r = ⟨cur, .pushed⟩)) := by
  unfold nextState at h
  split at h
  · cases h
  · rename_i sel hsel
    refine ⟨sel, hsel, ?_⟩
    simp only at h ⊢
    split_ifs at h with h2 h1
    · split at h
      · rename_i hp
        cases h
        exact Or.inl ⟨h2, hp, rfl, rfl⟩
      · rename_i p ps hp
        cases h
        exact Or.inr (Or.inl ⟨h2, p, ps, hp, rfl, rfl⟩)
    · cases h
      exact Or.inr (Or.inr (Or.inl ⟨h1, rfl, rfl⟩))
    · refine Or.inr (Or.inr (Or.inr ⟨h2, h1, ?_⟩))
      split at h
      · cases h
      · rename_i b hb
        refine ⟨b, hb, ?_⟩
        split_ifs at h with h0
        · cases h; exact Or.inl ⟨h0, rfl, rfl⟩
        · cases h; exact Or.inr ⟨h0, rfl, rfl⟩

end Steps

/-! ## The walk stays inside the matrix -/

section Safety

variable {F : Type} {t : Table F}

/-- column c exists and, where its Back entry is not 0, there is something to go back to -/
def CanGoBack [Zero F] (t : Table F) (c : ℤ) (below : List ℤ) : Prop :=
  (0 ≤ c ∧ c < t.nbColumns) ∧ ∀ b, t.entry c (t.nbRows - 2) = some b → b ≠ 0 → below ≠ []

/-- every state of the history satisfies `CanGoBack` over what lies below it -/
def StackOk [Zero F] (t : Table F) : List ℤ → Prop
  | [] => True
  | p :: ps => CanGoBack t p ps ∧ StackOk t ps

/-- the invariant of the walk -/
structure Inv [Zero F] (t : Table F) (s : St) : Prop where
  stack : StackOk t s.previousStates
  current : CanGoBack t s.currentState s.previousStates ∨ isEndOfSession t s

theorem backToPreviousState_inv [Zero F] {s : St} (h : Inv t s) : Inv t (backToPreviousState s).1 := by
  unfold backToPreviousState
  split
  · exact h
  · rename_i p ps hp
    have hst := h.stack
    rw [hp] at hst
    exact ⟨hst.2, Or.inl hst.1⟩

theorem backToPreviousState_event (s : St) : (backToPreviousState s).2.event ≠ .noPreviousState := by
  unfold backToPreviousState
  split <;> simp

/-- the home state has nothing to go back for, whatever the history -/
theorem home_canGoBack [Zero F] (hcol : 0 < t.nbColumns) (hhome : t.entry 0 (t.nbRows - 2) = some 0)
    (below : List ℤ) : CanGoBack t 0 below := by
  refine ⟨by omega, ?_⟩
  intro b hb hne
  rw [hhome] at hb
  cases hb
  exact absurd rfl hne

variable [AddZeroClass F] [LT F] [DecidableLT F] [DecidableEq F]

/-- `nextState` from the invariant: it does not throw, keeps the invariant, and does not go back from nothing -/
theorem nextState_inv {s : St} {step : F} (hrows : t.nbRows = t.nbColumns + 2) (hstep : ¬ step < 0) (h : Inv t s)
    (hend : ¬ isEndOfSession t s) :
    ∃ s' r, nextState t s step = .ok (s', r) ∧ Inv t s' ∧ r.event ≠ .noPreviousState := by
  have hcur : CanGoBack t s.currentState s.previousStates := h.current.resolve_right hend
  obtain ⟨sel, hsel, hrow⟩ := select_spec hcur.1 step t.nbRows 0 0 (by omega) hstep
  have hrange : 0 ≤ sel.getD s.currentState ∧ sel.getD s.currentState < t.nbRows := by
    cases hs : sel with
    | none => simp only [Option.getD_none]; have := hcur.1; omega
    | some r => exact (hrow r hs).1
  unfold nextState
  simp only [hsel]
  split_ifs with h2 h1
  · -- the Back row was selected: its entry is not 0, so the history is not empty
    have hne : s.previousStates ≠ [] := by
      cases hs : sel with
      | none => rw [hs] at h2; simp only [Option.getD_none] at h2; have := hcur.1; omega
      | some r =>
        rw [hs, Option.getD_some] at h2
        obtain ⟨-, p, hp, hp0⟩ := hrow r hs
        rw [h2] at hp
        exact hcur.2 p hp hp0
    cases hst : s.previousStates with
    | nil => exact absurd hst hne
    | cons p ps =>
      have hok := h.stack
      rw [hst] at hok
      exact ⟨_, _, rfl, ⟨hok.2, Or.inl hok.1⟩, by simp⟩
  · exact ⟨_, _, rfl, ⟨h.stack, Or.inr h1⟩, by simp⟩
  · have hc : 0 ≤ sel.getD s.currentState ∧ sel.getD s.currentState < t.nbColumns := by omega
    obtain ⟨b, hb⟩ := entry_isSome.2 ⟨hc, (by omega : (0 : ℤ) ≤ t.nbRows - 2 ∧ (t.nbRows : ℤ) - 2 < t.nbRows)⟩
    simp only [hb]
    split_ifs with h0
    · refine ⟨_, _, rfl, ⟨trivial, Or.inl ⟨hc, ?_⟩⟩, by simp⟩
      intro b' hb' hne
      simp only at hb'
      rw [hb] at hb'
      cases hb'
      exact absurd h0 hne
    · exact ⟨_, _, rfl, ⟨⟨hcur, h.stack⟩, Or.inl ⟨hc, fun _ _ _ => List.cons_ne_nil _ _⟩⟩, by simp⟩

end Safety

/-- the step is a draw in [0, 1), and `nextState` is not called in the End of Session state -/
def Legal (t : Table Binary32) (s : St) : Call Binary32 → Prop
  | .nextState step => 0 ≤ step ∧ step < 1 ∧ ¬ isEndOfSession t s
  | _ => True

instance (t : Table Binary32) (s : St) (c : Call Binary32) : Decidable (Legal t s c) := by
  cases c <;> unfold Legal <;> infer_instance

/-- **The walk never goes back from nothing.** For every table of floats with nbRows = nbColumns + 2 and a home state
that cannot go back (whatever the other entries), and every sequence of calls on a fresh object in which the steps lie
in [0, 1) and `nextState` is not called at End of Session: no call throws, the current state is a column or End of
Session, and no call reaches the branch that goes back without a previous state. -/
theorem walk_never_goes_back_from_nothing (t : Table Binary32) (hrows : t.nbRows = t.nbColumns + 2)
    (hhome : t.entry 0 (t.nbRows - 2) = some 0) (calls : List (Call Binary32))
    (hlegal : LegalRun (call t) (Legal t) fresh calls) :
    ∃ s rets, run (call t) fresh calls = .ok (s, rets) ∧
      ((0 ≤ s.currentState ∧ s.currentState < t.nbColumns) ∨ s.currentState = t.nbRows - 1) ∧
      ∀ r ∈ rets, r.event ≠ .noPreviousState := by
  have hcol : 0 < t.nbColumns := by
    have := (entry_isSome.1 ⟨0, hhome⟩).1; omega
  have hfresh : Inv t fresh := ⟨trivial, Or.inl (home_canGoBack hcol hhome [])⟩
  obtain ⟨s, rets, hrun, hinv, hgood⟩ := run_invariant (Inv t) (fun r => r.event ≠ .noPreviousState)
    (fun s c hs hl => by
      cases c with
      | nextState step => exact nextState_inv hrows (Binary32.not_lt_of_le hl.1) hs hl.2.2
      | backToPreviousState => exact ⟨_, _, rfl, backToPreviousState_inv hs, backToPreviousState_event s⟩
      | resetToInitialState =>
        exact ⟨_, _, rfl, ⟨hs.stack, Or.inl (home_canGoBack hcol hhome _)⟩, by simp⟩)
    fresh calls hfresh hlegal
  refine ⟨s, rets, hrun, ?_, hgood⟩
  rcases hinv.current with h | h
  · exact Or.inl h.1
  · exact Or.inr h

/-- home leads to state 1, state 1 goes back; rows are (0, 1, Back, End of Session) -/
def pingPong : Table Binary32 :=
  ⟨2, 4, fun c i => if c = 0 then (if i = 1 then 1 else 0) else if i = 2 then 1 else 0⟩

theorem walk_never_goes_back_from_nothing_pingPong :
    pingPong.entry 0 2 = some 0 ∧
    ∃ s rets, run (call pingPong) fresh
        [.nextState 0, .nextState 0, .backToPreviousState, .nextState 0, .resetToInitialState] = .ok (s, rets) ∧
      ((0 ≤ s.currentState ∧ s.currentState < 2) ∨ s.currentState = 4 - 1) ∧
      ∀ r ∈ rets, r.event ≠ .noPreviousState :=
  ⟨by decide, walk_never_goes_back_from_nothing pingPong rfl (by decide) _ (by decide)⟩

/-! ## The history of one session -/

/-- the Back button of one session, as its user sees it: the current state, the states that can be gone back to, and
the states the walk has been in since the session began -/
structure Browser where
  current : ℤ
  back : List ℤ
  visited : List ℤ
deriving DecidableEq, Repr

/-- a session begins at the home page -/
def Browser.start : Browser := ⟨0, [], [0]⟩

/-- what a browser allows: a session starts with an empty history, going back leads to the top of the session's own
history, a state visited in the session, and -1 is the answer only when that history is empty -/
def Browser.accept (b : Browser) (r : Ret) : Option Browser :=
  match r.event with
  | .reset => some ⟨r.value, [], [r.value]⟩
  | .pushed => some ⟨r.value, b.current :: b.back, r.value :: b.visited⟩
  | .cleared => some ⟨r.value, [], r.value :: b.visited⟩
  | .wentBack =>
    match b.back with
    | [] => none
    | p :: ps => if p = r.value ∧ r.value ∈ b.visited then some ⟨r.value, ps, b.visited⟩ else none
  | .refused => if b.back = [] ∧ r.value = -1 then some b else none
  | .ended | .noPreviousState => some ⟨r.value, b.back, r.value :: b.visited⟩

/-- the object holds the browser's history, and all of it was visited in the session -/
structure SameHistory (s : St) (b : Browser) : Prop where
  current : b.current = s.currentState
  back : b.back = s.previousStates
  here : b.current ∈ b.visited
  shown : ∀ p ∈ b.back, p ∈ b.visited

/-- `resetToInitialState` is called with nothing in the history -/
def ResetsEmpty {F : Type} (s : St) : Call F → Prop
  | .resetToInitialState => s.previousStates = []
  | _ => True

instance {F : Type} (s : St) (c : Call F) : Decidable (ResetsEmpty s c) := by
  cases c <;> unfold ResetsEmpty <;> infer_instance

theorem accept_wentBack {s : St} {b : Browser} (h : SameHistory s b) {p : ℤ} {ps : List ℤ}
    (hp : s.previousStates = p :: ps) : ∃ b', b.accept ⟨p, .wentBack⟩ = some b' ∧ SameHistory ⟨p, ps⟩ b' := by
  have hb : b.back = p :: ps := h.back.trans hp
  have hv : p ∈ b.visited := h.shown p (by simp [hb])
  refine ⟨⟨p, ps, b.visited⟩, by simp [Browser.accept, hb, hv], rfl, rfl, hv, ?_⟩
  intro q hq
  exact h.shown q (by simp only [hb]; exact List.mem_cons_of_mem p hq)

theorem accept_backToPreviousState {s : St} {b : Browser} (h : SameHistory s b) :
    ∃ b', b.accept (backToPreviousState s).2 = some b' ∧ SameHistory (backToPreviousState s).1 b' := by
  unfold backToPreviousState
  split
  · rename_i hp
    exact ⟨b, by simp [Browser.accept, h.back, hp], h⟩
  · rename_i p ps hp
    exact accept_wentBack h hp

theorem accept_nextState {F : Type} [AddZeroClass F] [LT F] [DecidableLT F] [DecidableEq F] {t : Table F} {s s' : St}
    {b : Browser} {step : F} {r : Ret} (h : SameHistory s b) (hn : nextState t s step = .ok (s', r)) :
    ∃ b', b.accept r = some b' ∧ SameHistory s' b' := by
  obtain ⟨sel, -, hcases⟩ := nextState_cases hn
  rcases hcases with ⟨-, hp, rfl, rfl⟩ | ⟨-, p, ps, hp, rfl, rfl⟩ | ⟨-, rfl, rfl⟩ |
    ⟨-, -, _, -, ⟨-, rfl, rfl⟩ | ⟨-, rfl, rfl⟩⟩
  · exact ⟨_, rfl, rfl, h.back.trans hp, List.mem_cons_self, fun q hq => List.mem_cons_of_mem _ (h.shown q hq)⟩
  · exact accept_wentBack h hp
  · exact ⟨_, rfl, rfl, h.back, List.mem_cons_self, fun q hq => List.mem_cons_of_mem _ (h.shown q hq)⟩
  · exact ⟨_, rfl, rfl, rfl, List.mem_cons_self, by simp⟩
  · refine ⟨_, rfl, rfl, by simp only [h.current, h.back], List.mem_cons_self, ?_⟩
    intro q hq
    rcases List.mem_cons.1 hq with rfl | hq
    · exact List.mem_cons_of_mem _ h.here
    · exact List.mem_cons_of_mem _ (h.shown q hq)

/-- **Going back stays in the session.** In every run, from a fresh object, in which `resetToInitialState` is only ever
called with an empty history, the answers are those of a browser whose history starts empty with each session: every
state gone back to was pushed and visited after the most recent reset, and with nothing visited since then
`backToPreviousState` returns -1. -/
theorem history_of_the_session (t : Table Binary32) (calls : List (Call Binary32)) (s : St) (rets : List Ret)
    (hrun : run (call t) fresh calls = .ok (s, rets)) (hreset : LegalRun (call t) ResetsEmpty fresh calls) :
    ∃ b, observe Browser.accept .start rets = some b ∧ SameHistory s b := by
  refine run_simulates SameHistory ?_ fresh .start calls s rets ⟨rfl, rfl, by simp [Browser.start], by simp [Browser.start]⟩
    hreset hrun
  intro s b c s' r h hl hc
  cases c with
  | nextState step => exact accept_nextState h hc
  | backToPreviousState =>
    simp only [call, Except.ok.injEq] at hc
    obtain ⟨h1, h2⟩ := Prod.ext_iff.1 hc
    simp only at h1 h2
    rw [← h1, ← h2]
    exact accept_backToPreviousState h
  | resetToInitialState =>
    simp only [call, Except.ok.injEq, resetToInitialState, Prod.mk.injEq] at hc
    obtain ⟨rfl, rfl⟩ := hc
    exact ⟨_, rfl, rfl, hl.symm, List.mem_cons_self, by simp⟩

/-- 1/2 -/
def half : Binary32 := .fin (2 ^ 148) (by decide)

/-- 0 leads to 1, 1 to 2 or back, 2 back or to the end; rows are (0, 1, 2, Back, End of Session) -/
def chain : Table Binary32 :=
  ⟨3, 5, fun c i =>
    if c = 0 then (if i = 1 then 1 else 0)
    else if c = 1 then (if i = 2 ∨ i = 3 then half else 0)
    else if i = 3 ∨ i = 4 then half else 0⟩

theorem history_of_the_session_chain :
    ∃ b, observe Browser.accept .start
        [⟨0, .reset⟩, ⟨1, .pushed⟩, ⟨2, .pushed⟩, ⟨1, .wentBack⟩, ⟨0, .wentBack⟩, ⟨0, .reset⟩, ⟨-1, .refused⟩] = some b ∧
      SameHistory fresh b :=
  history_of_the_session chain
    [.resetToInitialState, .nextState 0, .nextState 0, .backToPreviousState, .backToPreviousState, .resetToInitialState,
      .backToPreviousState] fresh _ (by decide) (by decide)

/-- **A reset keeps the history.** The session 0, 1, 2 leaves 1 and 0 in the history; the next session begins with a
reset and, with nothing visited since, goes back to state 1 of the old session. A browser refuses that answer. -/
theorem stale_history_after_reset :
    run (call chain) fresh
        [.resetToInitialState, .nextState 0, .nextState 0, .resetToInitialState, .backToPreviousState] =
      .ok (⟨1, [0]⟩, [⟨0, .reset⟩, ⟨1, .pushed⟩, ⟨2, .pushed⟩, ⟨0, .reset⟩, ⟨1, .wentBack⟩]) ∧
    observe Browser.accept .start
      [⟨0, .reset⟩, ⟨1, .pushed⟩, ⟨2, .pushed⟩, ⟨0, .reset⟩, ⟨1, .wentBack⟩] = none := by
  decide

end Rubbos.Client.TransitionTable
