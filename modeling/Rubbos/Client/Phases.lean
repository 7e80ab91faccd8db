/-
The phases of an experiment (`ClientEmulator.java`): up ramp, runtime session and down ramp.

The user sessions record into one object, `stats`. The main thread sleeps through a phase, merges `stats` into the object
of the phase and resets it. Every method of a `Stats` object is atomic, and so is every getter that `merge` calls on its
argument, but the merge is not: sessions may record between two getters and between the merge and the reset. `Instr` is one
such atomic piece of the main thread.

A session makes two calls for each request: `incrementCount`, and then `incrementError` or `updateTime`. The requests
between their two calls are in flight.

- `finishAll_mergeInstrs`: a merge that nobody interferes with is `Stats.merge`.
- `phases_partition_samples`: what holds of the three objects and of `allStats` when the sessions pause while the main
  thread changes the phase.
Witness `phases_lose_samples`: runs without these pauses.
-/
import Rubbos.Core.Run
import Rubbos.Client.Stats

namespace Rubbos.Client.Phases

open Rubbos.Core

/-! ## Model -/

/-- the objects of the main thread -/
inductive Obj where
  | stats
  | upRampStats
  | runSessionStats
  | downRampStats
  | allStats
deriving DecidableEq, Repr

abbrev Objs (n : ℕ) := Obj → Stats n

/-- one entry of an object is changed -/
def Objs.modify {n : ℕ} (o : Objs n) (d : Obj) (i : Fin n) (f : Entry → Entry) : Objs n :=
  Function.update o d ((o d).modifyEntry i f)

/-- what the main thread does without interruption; d is the object merged into, s the argument -/
inductive Instr (n : ℕ) where
  | addCount (d s : Obj) (i : Fin n)
  | addError (d s : Obj) (i : Fin n)
  /-- `if (minTime[i] > anotherStat.getMinTime(i))` -/
  | testMin (d s : Obj) (i : Fin n)
  /-- `minTime[i] = anotherStat.getMinTime(i)` -/
  | setMin (d s : Obj) (i : Fin n)
  | testMax (d s : Obj) (i : Fin n)
  | setMax (d s : Obj) (i : Fin n)
  | addTotal (d s : Obj) (i : Fin n)
  /-- the test of the loop over the transactions, and its round j -/
  | copy (d s : Obj) (i : Fin n) (j : ℕ)
  | addSessions (d s : Obj)
  | addSessionsTime (d s : Obj)
  | reset (d : Obj)

section Instr

variable {n : ℕ}

/-- one piece: the objects behind it, and what it makes the main thread do next -/
def exec (o : Objs n) : Instr n → Objs n × List (Instr n)
  | .addCount d s i => (o.modify d i fun e => { e with count := e.count + ((o s).entries i).count }, [])
  | .addError d s i => (o.modify d i fun e => { e with error := e.error + ((o s).entries i).error }, [])
  | .testMin d s i => (o, if ((o s).entries i).minTime < ((o d).entries i).minTime then [.setMin d s i] else [])
  | .setMin d s i => (o.modify d i fun e => { e with minTime := ((o s).entries i).minTime }, [])
  | .testMax d s i => (o, if ((o d).entries i).maxTime < ((o s).entries i).maxTime then [.setMax d s i] else [])
  | .setMax d s i =>
    (o.modify d i fun e =>
      { e with maxTime := ((o s).entries i).maxTime, max_nonneg := ((o s).entries i).max_nonneg }, [])
  | .addTotal d s i => (o.modify d i fun e => { e with totalTime := e.totalTime + ((o s).entries i).totalTime }, [])
  | .copy d s i j =>
    if j < ((o s).entries i).allTransactions.length then
      (o.modify d i fun e => Entry.copyTransaction ((o s).entries i) e j, [.copy d s i (j + 1)])
    else (o, [])
  | .addSessions d s => (Function.update o d { o d with nbSessions := (o d).nbSessions + (o s).nbSessions }, [])
  | .addSessionsTime d s =>
    (Function.update o d { o d with sessionsTime := (o d).sessionsTime + (o s).sessionsTime }, [])
  | .reset d => (Function.update o d (o d).reset, [])

/-- the round of the loop of `merge` for an entry -/
def entryInstrs (d s : Obj) (i : Fin n) : List (Instr n) :=
  [.addCount d s i, .addError d s i, .testMin d s i, .testMax d s i, .addTotal d s i, .copy d s i 0]

/-- `d.merge(s)`; an object is not merged with itself -/
def mergeInstrs (n : ℕ) (d s : Obj) : List (Instr n) :=
  if d = s then [] else (List.finRange n).flatMap (entryInstrs d s) ++ [.addSessions d s, .addSessionsTime d s]

end Instr

/-- the phases, with what is still to come when the main thread sleeps through them -/
inductive Phase where
  | upRamp
  | runSession
  | downRamp
  | done
deriving DecidableEq, Repr

/-- the change at the end of a phase -/
def Phase.change (n : ℕ) : Phase → List (Instr n)
  | .upRamp => mergeInstrs n .upRampStats .stats ++ [.reset .stats]
  | .runSession => mergeInstrs n .runSessionStats .stats ++ [.reset .stats]
  | .downRamp =>
    mergeInstrs n .downRampStats .stats ++ mergeInstrs n .allStats .stats ++
      mergeInstrs n .allStats .runSessionStats ++ mergeInstrs n .allStats .upRampStats
  | .done => []

def Phase.next : Phase → Phase
  | .upRamp => .runSession
  | .runSession => .downRamp
  | .downRamp => .done
  | .done => .done

variable {n : ℕ} {τ : Type} [DecidableEq τ]

structure St (n : ℕ) (τ : Type) where
  objs : Objs n
  /-- the phase that begins when the change that is under way is done -/
  phase : Phase
  /-- what is left of the change; empty while the main thread sleeps -/
  todo : List (Instr n)
  /-- the threads between the two calls for a request, and the state of the request -/
  inFlight : List (τ × Fin n)
  /-- the calls of the sessions so far -/
  recorded : List (Stats.Call n)

def init : St n τ := ⟨fun _ => Stats.fresh, .upRamp, [], [], []⟩

inductive Event (n : ℕ) (τ : Type) where
  /-- the main thread wakes up -/
  | wake
  /-- the main thread goes on with the change -/
  | main
  /-- a session calls a method of `stats` -/
  | call (t : τ) (c : Stats.Call n)

/-- the call is the next one of the thread -/
def Allowed (s : St n τ) (t : τ) : Stats.Call n → Prop
  | .incrementCount _ => ∀ p ∈ s.inFlight, p.1 ≠ t
  | .incrementError i => (t, i) ∈ s.inFlight
  | .updateTime i _ _ => (t, i) ∈ s.inFlight
  | .addSessionTime _ => ∀ p ∈ s.inFlight, p.1 ≠ t
  | .addSession => False

instance (s : St n τ) (t : τ) (c : Stats.Call n) : Decidable (Allowed s t c) := by
  cases c <;> unfold Allowed <;> infer_instance

/-- the requests in flight behind a call -/
def inFlightAfter (flight : List (τ × Fin n)) (t : τ) : Stats.Call n → List (τ × Fin n)
  | .incrementCount i => (t, i) :: flight
  | .incrementError i => flight.erase (t, i)
  | .updateTime i _ _ => flight.erase (t, i)
  | .addSessionTime _ => flight
  | .addSession => flight

/-- an event that cannot happen changes nothing -/
def step (s : St n τ) : Event n τ → St n τ
  | .wake => if s.todo = [] then { s with todo := s.phase.change n, phase := s.phase.next } else s
  | .main =>
    match s.todo with
    | [] => s
    | instr :: rest => { s with objs := (exec s.objs instr).1, todo := (exec s.objs instr).2 ++ rest }
  | .call t c =>
    if Allowed s t c then
      { s with
        objs := Function.update s.objs .stats ((s.objs .stats).record c)
        inFlight := inFlightAfter s.inFlight t c
        recorded := s.recorded ++ [c] }
    else s

/-! ## A change without interference -/

section Finish

/-- the piece and all that it makes the main thread do, in one go -/
def finish (o : Objs n) : Instr n → Objs n
  | .testMin d s i => o.modify d i fun e => e.lowerMin ((o s).entries i).minTime
  | .testMax d s i => o.modify d i fun e => e.raiseMax ((o s).entries i).maxTime
  | .copy d s i j =>
    let a := (o s).entries i
    o.modify d i fun e => (List.range' j (a.allTransactions.length - j)).foldl a.copyTransaction e
  | instr => (exec o instr).1

def finishAll (o : Objs n) (is : List (Instr n)) : Objs n := is.foldl finish o

theorem finishAll_append (o : Objs n) (is js : List (Instr n)) : finishAll o (is ++ js) = finishAll (finishAll o is) js :=
  List.foldl_append

/-- the piece reads another object than it changes -/
def Instr.Distinct : Instr n → Prop
  | .copy d s _ _ => d ≠ s
  | _ => True

variable {o : Objs n} {d s : Obj} {i : Fin n} {f g : Entry → Entry}

theorem modify_eq_self (h : f ((o d).entries i) = (o d).entries i) : o.modify d i f = o := by
  simp [Objs.modify, Stats.modifyEntry, h]

theorem modify_congr (h : f ((o d).entries i) = g ((o d).entries i)) : o.modify d i f = o.modify d i g := by
  simp [Objs.modify, Stats.modifyEntry, h]

theorem modify_apply_ne (h : d ≠ s) : o.modify d i f s = o s := Function.update_of_ne h.symm _ _

theorem modify_modify : (o.modify d i f).modify d i g = o.modify d i fun e => g (f e) := by
  simp [Objs.modify, Stats.modifyEntry]

/-- a piece, and what it makes the main thread do next, come to the same as doing it in one go -/
theorem finishAll_exec {instr : Instr n} (h : instr.Distinct) : finishAll (exec o instr).1 (exec o instr).2 = finish o instr := by
  cases instr with
  | testMin d s i =>
    simp only [exec, finish]
    split
    · next hlt => exact modify_congr (by simp [Entry.lowerMin, hlt])
    · next hlt =>
      symm
      exact modify_eq_self (o := o) (by simp [Entry.lowerMin, hlt])
  | testMax d s i =>
    simp only [exec, finish]
    split
    · next hlt => exact modify_congr (by simp [Entry.raiseMax, hlt])
    · next hlt =>
      symm
      exact modify_eq_self (o := o) (by simp [Entry.raiseMax, hlt])
  | copy d s i j =>
    simp only [exec, finish]
    split
    · next hlt =>
      obtain ⟨k, hk⟩ : ∃ k, ((o s).entries i).allTransactions.length - j = k + 1 :=
        Nat.exists_eq_succ_of_ne_zero (by omega)
      have hk' : ((o s).entries i).allTransactions.length - (j + 1) = k := by omega
      simp only [finishAll, List.foldl_cons, List.foldl_nil, finish, modify_modify]
      rw [modify_apply_ne h, hk, hk', List.range'_succ]
      rfl
    · next hlt =>
      have hk : ((o s).entries i).allTransactions.length - j = 0 := by omega
      symm
      exact modify_eq_self (o := o) (by simp [hk])
  | _ => rfl

theorem finishAll_cons_exec {instr : Instr n} (h : instr.Distinct) (rest : List (Instr n)) :
    finishAll (exec o instr).1 ((exec o instr).2 ++ rest) = finishAll o (instr :: rest) := by
  rw [finishAll_append, finishAll_exec h]
  rfl

theorem finishAll_entryInstrs (hds : d ≠ s) :
    finishAll o (entryInstrs d s i) = o.modify d i fun e => e.merge ((o s).entries i) := by
  simp only [finishAll, entryInstrs, List.foldl_cons, List.foldl_nil, finish, exec, modify_apply_ne hds, modify_modify]
  simp only [Entry.merge, Nat.sub_zero, List.range_eq_range']

/-- the loop over some of the entries -/
theorem finishAll_entries (hds : d ≠ s) {l : List (Fin n)} (hl : l.Nodup) :
    finishAll o (l.flatMap (entryInstrs d s)) = Function.update o d
      { o d with entries := fun i => if i ∈ l then ((o d).entries i).merge ((o s).entries i) else (o d).entries i } := by
  induction l generalizing o with
  | nil => simp [finishAll]
  | cons i l ih =>
    rw [List.flatMap_cons, finishAll_append, finishAll_entryInstrs hds, ih (List.nodup_cons.1 hl).2, modify_apply_ne hds]
    have hi : i ∉ l := (List.nodup_cons.1 hl).1
    rw [Objs.modify, Function.update_idem, Function.update_self]
    congr 1
    ext1
    · funext k
      by_cases hk : k = i
      · subst hk
        simp [Stats.modifyEntry, hi]
      · simp [Stats.modifyEntry, hk]
    · rfl
    · rfl

/-- a merge that nobody interferes with -/
theorem finishAll_mergeInstrs (hds : d ≠ s) :
    finishAll o (mergeInstrs n d s) = Function.update o d ((o d).merge (o s)) := by
  rw [mergeInstrs, if_neg hds, finishAll_append, finishAll_entries hds (List.nodup_finRange n)]
  simp only [finishAll, List.mem_finRange, if_true, List.foldl_cons, List.foldl_nil, finish, exec, Function.update_self,
    Function.update_of_ne hds.symm, Function.update_idem, Stats.merge_eq]

theorem distinct_mergeInstrs (d s : Obj) : ∀ instr ∈ mergeInstrs n d s, instr.Distinct := by
  intro instr h
  unfold mergeInstrs at h
  split at h
  · cases h
  · next hds =>
    rcases List.mem_append.1 h with h | h
    · obtain ⟨i, -, hi⟩ := List.mem_flatMap.1 h
      simp only [entryInstrs, List.mem_cons, List.not_mem_nil, or_false] at hi
      rcases hi with rfl | rfl | rfl | rfl | rfl | rfl
      case inr.inr.inr.inr.inr => exact hds
      all_goals exact trivial
    · simp only [List.mem_cons, List.not_mem_nil, or_false] at h
      rcases h with rfl | rfl
      all_goals exact trivial

theorem distinct_change (p : Phase) : ∀ instr ∈ p.change n, instr.Distinct := by
  intro instr h
  cases p with
  | done => cases h
  | upRamp | runSession =>
    simp only [Phase.change, List.mem_append, List.mem_singleton] at h
    rcases h with h | rfl
    · exact distinct_mergeInstrs _ _ instr h
    · exact trivial
  | downRamp =>
    simp only [Phase.change, List.mem_append] at h
    rcases h with ((h | h) | h) | h
    all_goals exact distinct_mergeInstrs _ _ instr h

theorem distinct_exec {instr : Instr n} (h : instr.Distinct) : ∀ j ∈ (exec o instr).2, j.Distinct := by
  intro j hj
  cases instr with
  | copy d s i k =>
    simp only [exec] at hj
    split at hj
    · rw [List.mem_singleton.1 hj]
      exact h
    · cases hj
  | testMin d s i | testMax d s i =>
    simp only [exec] at hj
    split at hj
    · rw [List.mem_singleton.1 hj]
      exact trivial
    · cases hj
  | _ => cases hj

end Finish

/-! ## Runs with pauses -/

/-- the sessions call while the main thread sleeps only -/
def Paused (s : St n τ) : Event n τ → Prop
  | .call _ _ => s.todo = [] ∧ s.phase ≠ .done
  | _ => True

/-- the main thread wakes up between the requests -/
def Drained (s : St n τ) : Event n τ → Prop
  | .wake => s.todo = [] → s.inFlight = []
  | _ => True

/-- the clock is not set back during a request -/
def Forward : Event n τ → Prop
  | .call _ (.updateTime _ time _) => ¬ time < 0
  | _ => True

instance (s : St n τ) (e : Event n τ) : Decidable (Paused s e) := by cases e <;> unfold Paused <;> infer_instance

instance (s : St n τ) (e : Event n τ) : Decidable (Drained s e) := by cases e <;> unfold Drained <;> infer_instance

instance (e : Event n τ) : Decidable (Forward e) := by
  cases e with
  | call t c => cases c <;> unfold Forward <;> infer_instance
  | _ => exact isTrue trivial

/-- the objects when the main thread sleeps through a phase, for the calls of the three phases -/
def Split : Phase → Objs n → (xs ys zs : List (Stats.Call n)) → Prop
  | .upRamp, o, xs, ys, zs =>
    ys = [] ∧ zs = [] ∧ o .stats = Stats.fresh.recordAll xs ∧ o .upRampStats = Stats.fresh ∧
      o .runSessionStats = Stats.fresh ∧ o .downRampStats = Stats.fresh ∧ o .allStats = Stats.fresh
  | .runSession, o, xs, ys, zs =>
    zs = [] ∧ o .stats = Stats.fresh.recordAll ys ∧ o .upRampStats = Stats.fresh.recordAll xs ∧
      o .runSessionStats = Stats.fresh ∧ o .downRampStats = Stats.fresh ∧ o .allStats = Stats.fresh
  | .downRamp, o, xs, ys, zs =>
    o .stats = Stats.fresh.recordAll zs ∧ o .upRampStats = Stats.fresh.recordAll xs ∧
      o .runSessionStats = Stats.fresh.recordAll ys ∧ o .downRampStats = Stats.fresh ∧ o .allStats = Stats.fresh
  | .done, o, xs, ys, zs =>
    o .upRampStats = Stats.fresh.recordAll xs ∧ o .runSessionStats = Stats.fresh.recordAll ys ∧
      o .downRampStats = Stats.fresh.recordAll zs ∧ o .allStats = Stats.fresh.recordAll (zs ++ ys ++ xs)

theorem split_change {p : Phase} {o : Objs n} {xs ys zs : List (Stats.Call n)} (h : Split p o xs ys zs) :
    Split p.next (finishAll o (p.change n)) xs ys zs := by
  have hfresh (cs : List (Stats.Call n)) : (Stats.fresh : Stats n).merge (Stats.fresh.recordAll cs) =
      Stats.fresh.recordAll cs := (Stats.recordAll_eq_merge _ _).symm
  cases p with
  | upRamp =>
    obtain ⟨rfl, rfl, hs, hu, hr, hd, ha⟩ := h
    simp only [Phase.change, Phase.next, Split, finishAll_append, finishAll_mergeInstrs (by decide : Obj.upRampStats ≠ .stats)]
    simp [finishAll, finish, exec, Stats.reset, hs, hu, hr, hd, ha, hfresh, Stats.recordAll_nil]
  | runSession =>
    obtain ⟨rfl, hs, hu, hr, hd, ha⟩ := h
    simp only [Phase.change, Phase.next, Split, finishAll_append, finishAll_mergeInstrs (by decide : Obj.runSessionStats ≠ .stats)]
    simp [finishAll, finish, exec, Stats.reset, hs, hu, hr, hd, ha, hfresh, Stats.recordAll_nil]
  | downRamp =>
    obtain ⟨hs, hu, hr, hd, ha⟩ := h
    simp only [Phase.change, Phase.next, Split, finishAll_append, finishAll_mergeInstrs (by decide : Obj.downRampStats ≠ .stats),
      finishAll_mergeInstrs (by decide : Obj.allStats ≠ .stats), finishAll_mergeInstrs (by decide : Obj.allStats ≠ .runSessionStats),
      finishAll_mergeInstrs (by decide : Obj.allStats ≠ .upRampStats)]
    simp [hs, hu, hr, hd, ha, hfresh, Stats.merge_of_recorded]
  | done => exact h

/-- a call goes to the phase that the main thread sleeps through -/
theorem split_call {p : Phase} (hp : p ≠ .done) {o : Objs n} {xs ys zs : List (Stats.Call n)} (h : Split p o xs ys zs)
    (c : Stats.Call n) : ∃ xs' ys' zs', xs' ++ ys' ++ zs' = xs ++ ys ++ zs ++ [c] ∧
      Split p (Function.update o .stats ((o .stats).record c)) xs' ys' zs' := by
  have hrec (cs : List (Stats.Call n)) : (Stats.fresh.recordAll cs).record c = Stats.fresh.recordAll (cs ++ [c]) :=
    (Stats.recordAll_append Stats.fresh cs [c]).symm
  cases p with
  | upRamp =>
    obtain ⟨rfl, rfl, hs, hrest⟩ := h
    exact ⟨xs ++ [c], [], [], by simp, rfl, rfl, by simp [hs, hrec], by simpa using hrest⟩
  | runSession =>
    obtain ⟨rfl, hs, hrest⟩ := h
    exact ⟨xs, ys ++ [c], [], by simp, rfl, by simp [hs, hrec], by simpa using hrest⟩
  | downRamp =>
    obtain ⟨hs, hrest⟩ := h
    exact ⟨xs, ys, zs ++ [c], by simp, by simp [hs, hrec], by simpa using hrest⟩
  | done => exact absurd rfl hp

/-- the calls are split among the phases, as soon as the change under way is done -/
structure Inv (s : St n τ) : Prop where
  distinct : ∀ instr ∈ s.todo, instr.Distinct
  split : ∃ xs ys zs, xs ++ ys ++ zs = s.recorded ∧ Split s.phase (finishAll s.objs s.todo) xs ys zs

omit [DecidableEq τ] in
theorem inv_init : Inv (init : St n τ) :=
  ⟨fun _ h => (List.not_mem_nil h).elim, [], [], [], rfl, rfl, rfl, rfl, rfl, rfl, rfl, rfl⟩

/-- the main thread goes on with a change: nothing is different at its end -/
theorem finishAll_main {s : St n τ} (h : ∀ instr ∈ s.todo, instr.Distinct) :
    finishAll (step s .main).objs (step s .main).todo = finishAll s.objs s.todo ∧
      ∀ instr ∈ (step s .main).todo, instr.Distinct := by
  cases htodo : s.todo with
  | nil =>
    rw [htodo] at h
    have hstep : step s .main = s := by simp [step, htodo]
    rw [hstep, htodo]
    exact ⟨rfl, h⟩
  | cons instr rest =>
    rw [htodo] at h
    have hinstr := h instr List.mem_cons_self
    simp only [step, htodo]
    refine ⟨finishAll_cons_exec hinstr rest, ?_⟩
    intro j hj
    rcases List.mem_append.1 hj with hj | hj
    · exact distinct_exec hinstr j hj
    · exact h j (List.mem_cons_of_mem _ hj)

theorem step_inv {s : St n τ} {e : Event n τ} (h : Inv s) (hp : Paused s e) : Inv (step s e) := by
  cases e with
  | wake =>
    simp only [step]
    split
    · next htodo =>
      obtain ⟨xs, ys, zs, hrec, hsplit⟩ := h.split
      rw [htodo] at hsplit
      exact ⟨distinct_change s.phase, xs, ys, zs, hrec, split_change hsplit⟩
    · exact h
  | main =>
    obtain ⟨hfinish, hdistinct⟩ := finishAll_main h.distinct
    obtain ⟨xs, ys, zs, hrec, hsplit⟩ := h.split
    have hphase : (step s .main).phase = s.phase ∧ (step s .main).recorded = s.recorded := by
      simp only [step]
      split <;> exact ⟨rfl, rfl⟩
    refine ⟨hdistinct, xs, ys, zs, hrec.trans hphase.2.symm, ?_⟩
    rw [hfinish, hphase.1]
    exact hsplit
  | call t c =>
    simp only [step]
    split
    · obtain ⟨htodo, hphase⟩ := hp
      obtain ⟨xs, ys, zs, hrec, hsplit⟩ := h.split
      rw [htodo] at hsplit
      obtain ⟨xs', ys', zs', hrec', hsplit'⟩ := split_call hphase hsplit c
      refine ⟨h.distinct, xs', ys', zs', by rw [hrec', hrec], ?_⟩
      rw [htodo]
      exact hsplit'
    · exact h

/-! ## Counts and times -/

/-- the requests that were counted are the errors, the times and those in flight -/
def Balanced (s : Stats n) (flight : Fin n → ℕ) : Prop :=
  ∀ i, (s.entries i).count - (s.entries i).error = Int32.ofNat ((s.entries i).allTransactions.length + flight i)

/-- the requests in flight, by their state -/
def flying (flight : List (τ × Fin n)) (i : Fin n) : ℕ := flight.countP fun p => p.2 = i

theorem balanced_fresh : Balanced (Stats.fresh : Stats n) 0 := by
  intro i
  exact (by decide : Entry.fresh.count - Entry.fresh.error = Int32.ofNat 0)

theorem balanced_merge {s t : Stats n} (hs : Balanced s 0) (ht : Balanced t 0) : Balanced (s.merge t) 0 := by
  intro i
  have h₁ := hs i
  have h₂ := ht i
  simp only [Pi.zero_apply, Nat.add_zero] at h₁ h₂ ⊢
  simp only [Stats.merge_eq, Entry.merge_eq, List.length_append, Int32.ofNat_add]
  rw [← h₁, ← h₂]
  grind

/-- a call that ends a request takes one request of its state out of flight -/
theorem flying_erase {flight : List (τ × Fin n)} {t : τ} {k : Fin n} (h : (t, k) ∈ flight) (i : Fin n) :
    flying flight i = flying (flight.erase (t, k)) i + if i = k then 1 else 0 := by
  rw [flying, (List.perm_cons_erase h).countP_eq, List.countP_cons]
  simp [flying, eq_comm]

theorem balanced_record {s : St n τ} {t : τ} {c : Stats.Call n} (h : Balanced (s.objs .stats) (flying s.inFlight))
    (ha : Allowed s t c) (hf : Forward (.call t c)) :
    Balanced ((s.objs .stats).record c) (flying (inFlightAfter s.inFlight t c)) := by
  intro i
  have hi := h i
  rw [Stats.entries_record]
  cases c with
  | incrementCount k =>
    simp only [Stats.Call.onEntry, inFlightAfter, flying, List.countP_cons] at hi ⊢
    by_cases hik : i = k
    · subst hik
      simp only [if_true, decide_true, ← Nat.add_assoc, Int32.ofNat_add] at hi ⊢
      grind
    · simp [hik, Ne.symm hik, hi]
  | incrementError k =>
    simp only [Stats.Call.onEntry, inFlightAfter]
    rw [flying_erase ha i] at hi
    by_cases hik : i = k
    · subst hik
      simp only [if_true, ← Nat.add_assoc, Int32.ofNat_add] at hi ⊢
      grind
    · simpa [hik] using hi
  | updateTime k time endTime =>
    simp only [Stats.Call.onEntry, inFlightAfter]
    rw [flying_erase ha i] at hi
    by_cases hik : i = k
    · subst hik
      simp only [if_true, Entry.updateTime_eq _ _ _ hf, List.length_append, List.length_singleton, ← Nat.add_assoc,
        Int32.ofNat_add] at hi ⊢
      grind
    · simpa [hik] using hi
  | addSessionTime time => exact hi
  | addSession => exact hi

/-- the live object and those of the phases are balanced, as soon as the change under way is done -/
structure InvBalanced (s : St n τ) : Prop where
  distinct : ∀ instr ∈ s.todo, instr.Distinct
  live : Balanced (finishAll s.objs s.todo .stats) (flying s.inFlight)
  phases : ∀ d, d ≠ .stats → Balanced (finishAll s.objs s.todo d) 0

theorem balanced_update {o : Objs n} (h : ∀ d, Balanced (o d) 0) {t : Stats n} (ht : Balanced t 0) (d : Obj) :
    ∀ d', Balanced (Function.update o d t d') 0 := by
  intro d'
  by_cases hd : d' = d
  · subst hd
    rwa [Function.update_self]
  · rw [Function.update_of_ne hd]
    exact h d'

theorem balanced_mergeInstrs {o : Objs n} (h : ∀ d, Balanced (o d) 0) (d s : Obj) :
    ∀ d', Balanced (finishAll o (mergeInstrs n d s) d') 0 := by
  by_cases hds : d = s
  · simpa [mergeInstrs, hds, finishAll] using h
  · rw [finishAll_mergeInstrs hds]
    exact balanced_update h (balanced_merge (h d) (h s)) d

theorem balanced_change {o : Objs n} (h : ∀ d, Balanced (o d) 0) (p : Phase) :
    ∀ d, Balanced (finishAll o (p.change n) d) 0 := by
  cases p with
  | upRamp =>
    rw [Phase.change, finishAll_append]
    exact balanced_update (balanced_mergeInstrs h _ _) balanced_fresh .stats
  | runSession =>
    rw [Phase.change, finishAll_append]
    exact balanced_update (balanced_mergeInstrs h _ _) balanced_fresh .stats
  | downRamp =>
    simp only [Phase.change, finishAll_append]
    exact balanced_mergeInstrs (balanced_mergeInstrs (balanced_mergeInstrs (balanced_mergeInstrs h _ _) _ _) _ _) _ _
  | done => exact h

theorem step_invBalanced {s : St n τ} {e : Event n τ} (h : InvBalanced s) (hp : Paused s e) (hd : Drained s e)
    (hf : Forward e) : InvBalanced (step s e) := by
  cases e with
  | wake =>
    simp only [step]
    split
    · next htodo =>
      have hflight : flying s.inFlight = 0 := by
        funext i
        simp [flying, hd htodo]
      have hall : ∀ d, Balanced (s.objs d) 0 := by
        intro d
        by_cases hs : d = .stats
        · have := h.live
          rwa [htodo, hflight, ← hs] at this
        · have := h.phases d hs
          rwa [htodo] at this
      have hchange := balanced_change hall s.phase
      exact ⟨distinct_change s.phase, hflight ▸ hchange .stats, fun d _ => hchange d⟩
    · exact h
  | main =>
    obtain ⟨hfinish, hdistinct⟩ := finishAll_main h.distinct
    have hflight : (step s .main).inFlight = s.inFlight := by
      simp only [step]
      split <;> rfl
    refine ⟨hdistinct, ?_, ?_⟩
    · rw [hfinish, hflight]
      exact h.live
    · rw [hfinish]
      exact h.phases
  | call t c =>
    simp only [step]
    split
    · next hallowed =>
      obtain ⟨htodo, -⟩ := hp
      have hlive := h.live
      have hphases := h.phases
      rw [htodo] at hlive hphases
      refine ⟨h.distinct, ?_, ?_⟩
      · simp only [htodo, finishAll, List.foldl_nil, Function.update_self]
        exact balanced_record hlive hallowed hf
      · intro d hne
        simp only [htodo, finishAll, List.foldl_nil, Function.update_of_ne hne]
        exact hphases d hne
    · exact h

omit [DecidableEq τ] in
theorem invBalanced_init : InvBalanced (init : St n τ) where
  distinct := fun _ h => (List.not_mem_nil h).elim
  live := balanced_fresh
  phases := fun _ _ => balanced_fresh

/-! ## The experiment -/

/-- every call was counted in exactly one of the three objects -/
def Counted (s : St n τ) : Prop :=
  ∃ xs ys zs, s.recorded.Perm (xs ++ ys ++ zs) ∧ (s.objs .upRampStats).Same (Stats.fresh.recordAll xs) ∧
    (s.objs .runSessionStats).Same (Stats.fresh.recordAll ys) ∧ (s.objs .downRampStats).Same (Stats.fresh.recordAll zs)

/-- the overall statistics are the sum of those of the phases -/
def Summed (s : St n τ) : Prop :=
  (s.objs .allStats).Same (((s.objs .upRampStats).merge (s.objs .runSessionStats)).merge (s.objs .downRampStats))

/-- in each object, the requests without an error are those with a time -/
def Timed (s : St n τ) : Prop :=
  ∀ d ∈ [Obj.upRampStats, .runSessionStats, .downRampStats], ∀ i,
    ((s.objs d).entries i).count - ((s.objs d).entries i).error = Int32.ofNat ((s.objs d).entries i).allTransactions.length

/-- the main thread is done with all phases -/
def Finished (s : St n τ) : Prop := s.phase = .done ∧ s.todo = []

instance (s : St n τ) : Decidable (Finished s) := inferInstanceAs (Decidable (s.phase = .done ∧ s.todo = []))

omit [DecidableEq τ] in
theorem counted_of_split {s : St n τ} {xs ys zs : List (Stats.Call n)} (hrec : xs ++ ys ++ zs = s.recorded)
    (h : Split .done s.objs xs ys zs) : Counted s ∧ Summed s := by
  obtain ⟨hup, hrun, hdown, hall⟩ := h
  have hcounted : Counted s := by
    refine ⟨xs, ys, zs, hrec ▸ .refl _, ?_, ?_, ?_⟩
    · exact hup ▸ .refl _
    · exact hrun ▸ .refl _
    · exact hdown ▸ .refl _
  refine ⟨hcounted, ?_⟩
  have hperm : (zs ++ ys ++ xs).Perm (xs ++ ys ++ zs) := by
    rw [List.append_assoc xs]
    exact List.perm_append_comm.trans (List.perm_append_comm.append_left xs)
  rw [Summed, hup, hrun, hdown, hall, Stats.merge_of_recorded, Stats.merge_of_recorded]
  exact Stats.recordAll_perm hperm Stats.fresh

/-- **Phases.** If the sessions pause while the main thread changes the phase, every call is counted in exactly one of the
three objects, and `allStats` is their sum. If moreover the main thread wakes up between the requests and no clock is set
back, each object has as many times as requests without an error. -/
theorem phases_partition_samples (es : List (Event n τ)) (hpaused : Along step Paused init es)
    (hfinished : Finished (after step init es)) :
    (Counted (after step init es) ∧ Summed (after step init es)) ∧
    (Along step Drained init es → (∀ e ∈ es, Forward e) → Timed (after step init es)) := by
  obtain ⟨hphase, htodo⟩ := hfinished
  refine ⟨?_, ?_⟩
  · have hinv := after_invariant Inv (fun _ _ => step_inv) _ es inv_init hpaused
    obtain ⟨xs, ys, zs, hrec, hsplit⟩ := hinv.split
    rw [hphase, htodo] at hsplit
    exact counted_of_split hrec hsplit
  · intro hdrained hforward
    have hconds := hpaused.and (hdrained.and (.of_forall hforward init))
    have hinv := after_invariant InvBalanced (fun _ _ h hc => step_invBalanced h hc.1 hc.2.1 hc.2.2) _ es
      invBalanced_init hconds
    intro d hd i
    have hne : d ≠ .stats := by
      rintro rfl
      exact absurd hd (by decide)
    have hbalanced := hinv.phases d hne i
    rw [htodo] at hbalanced
    exact hbalanced

/-! ## Runs without pauses -/

theorem count_recordAll (s : Stats n) (cs : List (Stats.Call n)) (i : Fin n) :
    ((s.recordAll cs).entries i).count = (s.entries i).count + Int32.ofNat (cs.count (.incrementCount i)) := by
  have hstep (c : Stats.Call n) (e : Entry) :
      (c.onEntry i e).count = e.count + Int32.ofNat (if c == .incrementCount i then 1 else 0) := by
    cases c with
    | incrementCount k =>
      by_cases hik : i = k
      · simp [Stats.Call.onEntry, hik]
      · simp [Stats.Call.onEntry, hik, Ne.symm hik]
    | incrementError k => by_cases hik : i = k <;> simp [Stats.Call.onEntry, hik]
    | updateTime k time endTime =>
      have htime : (e.updateTime time endTime).count = e.count := by
        by_cases h : time < 0
        · simp [Entry.updateTime, h]
        · rw [Entry.updateTime_eq _ _ _ h]
      by_cases hik : i = k <;> simp [Stats.Call.onEntry, hik, htime]
    | addSessionTime time => simp [Stats.Call.onEntry]
    | addSession => simp [Stats.Call.onEntry]
  induction cs generalizing s with
  | nil => simp [Stats.recordAll]
  | cons c cs ih =>
    have hcons : s.recordAll (c :: cs) = (s.record c).recordAll cs := rfl
    rw [hcons, ih, Stats.entries_record, hstep, List.count_cons, Nat.add_comm, Int32.ofNat_add, Int32.add_assoc]

omit [DecidableEq τ] in
/-- all counts of a state are in one of the objects -/
theorem Counted.count {s : St n τ} (h : Counted s) (i : Fin n) :
    ((s.objs .upRampStats).entries i).count + ((s.objs .runSessionStats).entries i).count +
      ((s.objs .downRampStats).entries i).count = Int32.ofNat (s.recorded.count (.incrementCount i)) := by
  obtain ⟨xs, ys, zs, hperm, hup, hrun, hdown⟩ := h
  have hfresh (cs : List (Stats.Call n)) :
      ((Stats.fresh.recordAll cs).entries i).count = Int32.ofNat (cs.count (.incrementCount i)) := by
    rw [count_recordAll]
    exact Int32.zero_add _
  rw [(hup.entries i).count, (hrun.entries i).count, (hdown.entries i).count, hfresh, hfresh, hfresh,
    ← Int32.ofNat_add, ← Int32.ofNat_add, hperm.count_eq, List.count_append, List.count_append]

section Runs

/-- the main thread wakes up and makes so many pieces of the change -/
def change (pieces : ℕ) : List (Event 1 Unit) := .wake :: List.replicate pieces .main

/-- the two calls for a request that fails -/
def failed : List (Event 1 Unit) := [.call () (.incrementCount 0), .call () (.incrementError 0)]

/-- one request in each phase, with pauses -/
def quietRun : List (Event 1 Unit) := failed ++ change 9 ++ failed ++ change 9 ++ failed ++ change 32

theorem phases_partition_samples_quietRun :
    (Counted (after step init quietRun) ∧ Summed (after step init quietRun)) ∧
    (Along step Drained init quietRun → (∀ e ∈ quietRun, Forward e) → Timed (after step init quietRun)) :=
  phases_partition_samples quietRun (by decide +kernel) (by decide +kernel)

/-- a request between the merge of the up ramp and the reset -/
def beforeReset : List (Event 1 Unit) := change 8 ++ failed ++ [.main] ++ change 9 ++ change 32

/-- a request between the merge of the down ramp and that of `allStats` -/
def beforeAllStats : List (Event 1 Unit) := change 9 ++ change 9 ++ change 8 ++ failed ++ List.replicate 24 .main

/-- a request that is counted in the up ramp and fails in the runtime session -/
def acrossPhases : List (Event 1 Unit) :=
  [.call () (.incrementCount 0)] ++ change 9 ++ [.call () (.incrementError 0)] ++ change 9 ++ change 32

/-- a request whose clock is set back -/
def setBack : List (Event 1 Unit) :=
  [.call () (.incrementCount 0), .call () (.updateTime 0 (-1) 0)] ++ change 9 ++ change 9 ++ change 32

theorem phases_lose_samples :
    (¬ ∀ (n : ℕ) (es : List (Event n Unit)), Finished (after step init es) →
      Counted (after step init es) ∧ Summed (after step init es) ∧ Timed (after step init es)) ∧
    (∃ es : List (Event 1 Unit), Finished (after step init es) ∧ Along step Drained init es ∧ (∀ e ∈ es, Forward e) ∧
      ¬ Counted (after step init es)) ∧
    (∃ es : List (Event 1 Unit), Finished (after step init es) ∧ Along step Drained init es ∧ (∀ e ∈ es, Forward e) ∧
      ¬ Summed (after step init es)) ∧
    (∃ es : List (Event 1 Unit), Finished (after step init es) ∧ Along step Paused init es ∧ (∀ e ∈ es, Forward e) ∧
      ¬ Timed (after step init es)) ∧
    ∃ es : List (Event 1 Unit), Finished (after step init es) ∧ Along step Paused init es ∧ Along step Drained init es ∧
      ¬ Timed (after step init es) := by
  have hlost : ¬ Counted (after step init beforeReset) := by
    intro h
    exact absurd (h.count 0) (by decide +kernel)
  have hsum : ¬ Summed (after step init beforeAllStats) := by
    intro h
    exact absurd (h.entries 0).count (by decide +kernel)
  have hacross : ¬ Timed (after step init acrossPhases) := by
    intro h
    exact absurd (h .upRampStats (by decide) 0) (by decide +kernel)
  have hback : ¬ Timed (after step init setBack) := by
    intro h
    exact absurd (h .upRampStats (by decide) 0) (by decide +kernel)
  refine ⟨fun h => hlost (h 1 beforeReset (by decide +kernel)).1, ⟨beforeReset, ?_, ?_, ?_, hlost⟩,
    ⟨beforeAllStats, ?_, ?_, ?_, hsum⟩, ⟨acrossPhases, ?_, ?_, ?_, hacross⟩, ⟨setBack, ?_, ?_, ?_, hback⟩⟩
  all_goals decide +kernel

end Runs

end Rubbos.Client.Phases
