/-
The statistics of a client (`Stats.java`): what the emulated users record, and how two objects are merged.

Each of the n entries has its counters, its extreme times and two vectors, the times and the end times of its
transactions. The counters are Java's `int` and `long` (`Int32`, `Int64`), they wrap around. Two facts are kept in the type
of an entry: the vectors have one length, so that the exception `merge` catches is never thrown, and the maximum is not
negative, since it starts at 0.

- `recordAll_append_merge`: merging what was recorded apart is recording it into one object.
- `merge_comm`, `merge_assoc`: up to the order of the transactions.
-/
import Mathlib.Data.List.Perm.Basic
import Mathlib.Tactic

namespace Rubbos.Client

/-! ## Model -/

/-- one entry -/
@[ext]
structure Entry where
  count : Int32
  error : Int32
  minTime : Int64
  maxTime : Int64
  totalTime : Int64
  allTransactions : List Int64
  allTransactions2 : List Int64
  aligned : allTransactions.length = allTransactions2.length
  max_nonneg : 0 ≤ maxTime

namespace Entry

/-- an entry after `reset` -/
def fresh : Entry := ⟨0, 0, Int64.maxValue, 0, 0, [], [], rfl, by decide⟩

/-- `allTransactions.add(time); allTransactions2.add(endTime)` -/
def addTransaction (e : Entry) (time endTime : Int64) : Entry :=
  { e with
    allTransactions := e.allTransactions ++ [time]
    allTransactions2 := e.allTransactions2 ++ [endTime]
    aligned := by simp [e.aligned] }

/-- `if (time > maxTime) maxTime = time` -/
def raiseMax (e : Entry) (time : Int64) : Entry :=
  if h : e.maxTime < time then { e with maxTime := time, max_nonneg := by have := e.max_nonneg; grind } else e

/-- `if (time < minTime) minTime = time` -/
def lowerMin (e : Entry) (time : Int64) : Entry := if time < e.minTime then { e with minTime := time } else e

/-- `updateTime`: a negative time is reported and left out -/
def updateTime (e : Entry) (time endTime : Int64) : Entry :=
  if time < 0 then e
  else ((({ e with totalTime := e.totalTime + time } : Entry).raiseMax time).lowerMin time).addTransaction time endTime

/-- a round of the loop of `merge` over the transactions -/
def copyTransaction (a : Entry) (e : Entry) (j : ℕ) : Entry :=
  match a.allTransactions[j]?, a.allTransactions2[j]? with
  | some time, some endTime => e.addTransaction time endTime
  | _, _ => e

/-- a round of the loop of `merge` over the entries -/
def merge (e a : Entry) : Entry :=
  let e : Entry := { e with count := e.count + a.count, error := e.error + a.error }
  let e := e.lowerMin a.minTime
  let e := e.raiseMax a.maxTime
  let e : Entry := { e with totalTime := e.totalTime + a.totalTime }
  (List.range a.allTransactions.length).foldl (copyTransaction a) e

/-- the transactions with their end times -/
def transactions (e : Entry) : List (Int64 × Int64) := e.allTransactions.zip e.allTransactions2

end Entry

@[ext]
structure Stats (nbOfStats : ℕ) where
  entries : Fin nbOfStats → Entry
  nbSessions : Int32
  sessionsTime : Int64

/-- what a user session calls -/
inductive Stats.Call (n : ℕ) where
  | incrementCount (index : Fin n)
  | incrementError (index : Fin n)
  | updateTime (index : Fin n) (time endTime : Int64)
  | addSessionTime (time : Int64)
  | addSession
deriving DecidableEq

namespace Stats

variable {m n : ℕ}

/-- a new object, and what `reset` leaves -/
def fresh : Stats n := ⟨fun _ => Entry.fresh, 0, 0⟩

def reset (_ : Stats n) : Stats n := fresh

/-- change one entry -/
def modifyEntry (s : Stats n) (index : Fin n) (f : Entry → Entry) : Stats n :=
  { s with entries := Function.update s.entries index (f (s.entries index)) }

def record (s : Stats n) : Call n → Stats n
  | .incrementCount index => s.modifyEntry index fun e => { e with count := e.count + 1 }
  | .incrementError index => s.modifyEntry index fun e => { e with error := e.error + 1 }
  | .updateTime index time endTime => s.modifyEntry index fun e => e.updateTime time endTime
  | .addSessionTime time =>
    -- a negative duration is reported; the session counts
    if time < 0 then { s with nbSessions := s.nbSessions + 1 }
    else { s with nbSessions := s.nbSessions + 1, sessionsTime := s.sessionsTime + time }
  | .addSession => { s with nbSessions := s.nbSessions + 1 }

def recordAll (s : Stats n) (calls : List (Call n)) : Stats n := calls.foldl record s

/-- `merge(anotherStat)`, for another object: objects of different sizes are not merged -/
def merge (s : Stats m) (anotherStat : Stats n) : Stats m :=
  if h : m = n then
    { entries := fun i => (s.entries i).merge (anotherStat.entries (i.cast h))
      nbSessions := s.nbSessions + anotherStat.nbSessions
      sessionsTime := s.sessionsTime + anotherStat.sessionsTime }
  else s

end Stats

/-! ## Entries -/

namespace Entry

/-- the fields of two entries, the transactions up to their order -/
structure Same (a b : Entry) : Prop where
  count : a.count = b.count
  error : a.error = b.error
  minTime : a.minTime = b.minTime
  maxTime : a.maxTime = b.maxTime
  totalTime : a.totalTime = b.totalTime
  transactions : a.transactions.Perm b.transactions

theorem Same.refl (a : Entry) : Same a a := ⟨rfl, rfl, rfl, rfl, rfl, .refl _⟩

theorem Same.trans {a b c : Entry} (h₁ : Same a b) (h₂ : Same b c) : Same a c :=
  ⟨h₁.count.trans h₂.count, h₁.error.trans h₂.error, h₁.minTime.trans h₂.minTime, h₁.maxTime.trans h₂.maxTime,
    h₁.totalTime.trans h₂.totalTime, h₁.transactions.trans h₂.transactions⟩

theorem copyAll_eq (a e : Entry) (k : ℕ) (hk : k ≤ a.allTransactions.length) :
    (List.range k).foldl (copyTransaction a) e =
      { e with
        allTransactions := e.allTransactions ++ a.allTransactions.take k
        allTransactions2 := e.allTransactions2 ++ a.allTransactions2.take k
        aligned := by simp [e.aligned, a.aligned] } := by
  induction k with
  | zero => ext <;> simp
  | succ k ih =>
    have h₁ : k < a.allTransactions.length := hk
    have h₂ : k < a.allTransactions2.length := a.aligned ▸ h₁
    rw [List.range_succ, List.foldl_append, ih (by omega)]
    simp only [List.foldl_cons, List.foldl_nil, copyTransaction, List.getElem?_eq_getElem h₁,
      List.getElem?_eq_getElem h₂, addTransaction, List.append_assoc]
    ext <;> simp

section Fields

variable (e a : Entry) (t u : Int64)

@[simp] theorem lowerMin_minTime : (e.lowerMin t).minTime = if t < e.minTime then t else e.minTime := by
  unfold lowerMin; split <;> rfl

@[simp] theorem raiseMax_maxTime : (e.raiseMax t).maxTime = if e.maxTime < t then t else e.maxTime := by
  unfold raiseMax; split <;> simp [*]

@[simp] theorem lowerMin_rest : (e.lowerMin t).count = e.count ∧ (e.lowerMin t).error = e.error ∧
    (e.lowerMin t).maxTime = e.maxTime ∧ (e.lowerMin t).totalTime = e.totalTime ∧
    (e.lowerMin t).allTransactions = e.allTransactions ∧ (e.lowerMin t).allTransactions2 = e.allTransactions2 := by
  unfold lowerMin; split <;> simp

@[simp] theorem raiseMax_rest : (e.raiseMax t).count = e.count ∧ (e.raiseMax t).error = e.error ∧
    (e.raiseMax t).minTime = e.minTime ∧ (e.raiseMax t).totalTime = e.totalTime ∧
    (e.raiseMax t).allTransactions = e.allTransactions ∧ (e.raiseMax t).allTransactions2 = e.allTransactions2 := by
  unfold raiseMax; split <;> simp

theorem merge_eq : e.merge a =
    { count := e.count + a.count
      error := e.error + a.error
      minTime := if a.minTime < e.minTime then a.minTime else e.minTime
      maxTime := if e.maxTime < a.maxTime then a.maxTime else e.maxTime
      totalTime := e.totalTime + a.totalTime
      allTransactions := e.allTransactions ++ a.allTransactions
      allTransactions2 := e.allTransactions2 ++ a.allTransactions2
      aligned := by simp [e.aligned, a.aligned]
      max_nonneg := by have := e.max_nonneg; have := a.max_nonneg; grind } := by
  have htake : a.allTransactions2.take a.allTransactions.length = a.allTransactions2 := by simp [a.aligned]
  rw [merge, copyAll_eq a _ _ le_rfl]
  ext <;> simp [htake]

theorem updateTime_eq (h : ¬ t < 0) : e.updateTime t u =
    { count := e.count
      error := e.error
      minTime := if t < e.minTime then t else e.minTime
      maxTime := if e.maxTime < t then t else e.maxTime
      totalTime := e.totalTime + t
      allTransactions := e.allTransactions ++ [t]
      allTransactions2 := e.allTransactions2 ++ [u]
      aligned := by simp [e.aligned]
      max_nonneg := by have := e.max_nonneg; grind } := by
  rw [updateTime, if_neg h]
  ext <;> simp [addTransaction]

end Fields

theorem merge_fresh (e : Entry) : e.merge fresh = e := by
  have hmin := e.minTime.le_maxValue
  have hmax := e.max_nonneg
  rw [merge_eq]
  ext <;> simp [fresh]
  all_goals grind

theorem merge_updateTime (e a : Entry) (t u : Int64) : e.merge (a.updateTime t u) = (e.merge a).updateTime t u := by
  by_cases h : t < 0
  · simp [updateTime, h]
  · rw [updateTime_eq _ _ _ h, updateTime_eq _ _ _ h]
    ext <;> simp [merge_eq] <;> grind

theorem merge_assoc (a b c : Entry) : (a.merge b).merge c = a.merge (b.merge c) := by
  ext <;> simp [merge_eq] <;> grind

theorem transactions_merge (a b : Entry) : (a.merge b).transactions = a.transactions ++ b.transactions := by
  rw [transactions, merge_eq]
  exact List.zip_append a.aligned

theorem merge_comm (a b : Entry) : Same (a.merge b) (b.merge a) where
  count := by simp [merge_eq, Int32.add_comm]
  error := by simp [merge_eq, Int32.add_comm]
  minTime := by simp only [merge_eq]; grind
  maxTime := by simp only [merge_eq]; grind
  totalTime := by simp [merge_eq, Int64.add_comm]
  transactions := by
    rw [transactions_merge, transactions_merge]
    exact List.perm_append_comm

theorem Same.merge {a a' b b' : Entry} (ha : Same a a') (hb : Same b b') : Same (a.merge b) (a'.merge b') where
  count := by simp [merge_eq, ha.count, hb.count]
  error := by simp [merge_eq, ha.error, hb.error]
  minTime := by simp [merge_eq, ha.minTime, hb.minTime]
  maxTime := by simp [merge_eq, ha.maxTime, hb.maxTime]
  totalTime := by simp [merge_eq, ha.totalTime, hb.totalTime]
  transactions := by
    rw [transactions_merge, transactions_merge]
    exact ha.transactions.append hb.transactions

end Entry

/-! ## Objects -/

namespace Stats

variable {n : ℕ}

/-- the same statistics, the transactions of each entry up to their order -/
structure Same (s t : Stats n) : Prop where
  entries : ∀ i, (s.entries i).Same (t.entries i)
  nbSessions : s.nbSessions = t.nbSessions
  sessionsTime : s.sessionsTime = t.sessionsTime

theorem Same.refl (s : Stats n) : Same s s := ⟨fun _ => .refl _, rfl, rfl⟩

theorem Same.trans {s t u : Stats n} (h₁ : Same s t) (h₂ : Same t u) : Same s u :=
  ⟨fun i => (h₁.entries i).trans (h₂.entries i), h₁.nbSessions.trans h₂.nbSessions,
    h₁.sessionsTime.trans h₂.sessionsTime⟩

/-- what a call does to an entry -/
def Call.onEntry (i : Fin n) (e : Entry) : Call n → Entry
  | .incrementCount index => if i = index then { e with count := e.count + 1 } else e
  | .incrementError index => if i = index then { e with error := e.error + 1 } else e
  | .updateTime index time endTime => if i = index then e.updateTime time endTime else e
  | .addSessionTime _ => e
  | .addSession => e

theorem entries_record (s : Stats n) (c : Call n) (i : Fin n) : (s.record c).entries i = c.onEntry i (s.entries i) := by
  cases c with
  | addSessionTime time => simp only [record, Call.onEntry]; split <;> rfl
  | addSession => rfl
  | _ =>
    simp only [record, modifyEntry, Call.onEntry, Function.update_apply]
    split <;> simp [*]

theorem merge_onEntry (e a : Entry) (c : Call n) (i : Fin n) : e.merge (c.onEntry i a) = c.onEntry i (e.merge a) := by
  cases c with
  | incrementCount index =>
    simp only [Call.onEntry]
    split
    · ext <;> simp [Entry.merge_eq, Int32.add_assoc]
    · rfl
  | incrementError index =>
    simp only [Call.onEntry]
    split
    · ext <;> simp [Entry.merge_eq, Int32.add_assoc]
    · rfl
  | updateTime index time endTime =>
    simp only [Call.onEntry]
    split
    · exact Entry.merge_updateTime e a time endTime
    · rfl
  | addSessionTime time => rfl
  | addSession => rfl

theorem merge_eq (s t : Stats n) : s.merge t =
    ⟨fun i => (s.entries i).merge (t.entries i), s.nbSessions + t.nbSessions, s.sessionsTime + t.sessionsTime⟩ := by
  simp [merge]

theorem merge_fresh (s : Stats n) : s.merge (fresh : Stats n) = s := by
  rw [merge_eq]
  ext1
  · exact funext fun i => Entry.merge_fresh _
  · exact Int32.add_zero _
  · exact Int64.add_zero _

/-- recording into the second object is recording into the merged one -/
theorem merge_record (s t : Stats n) (c : Call n) : s.merge (t.record c) = (s.merge t).record c := by
  ext1
  · funext i
    rw [entries_record, merge_eq, merge_eq]
    simp only [entries_record, merge_onEntry]
  · rw [merge_eq, merge_eq]
    cases c with
    | addSessionTime time => simp only [record]; split <;> exact (Int32.add_assoc _ _ _).symm
    | addSession => exact (Int32.add_assoc _ _ _).symm
    | _ => rfl
  · rw [merge_eq, merge_eq]
    cases c with
    | addSessionTime time =>
      simp only [record]
      split
      · rfl
      · exact (Int64.add_assoc _ _ _).symm
    | _ => rfl

theorem merge_recordAll (s t : Stats n) (cs : List (Call n)) : s.merge (t.recordAll cs) = (s.merge t).recordAll cs := by
  induction cs generalizing t with
  | nil => rfl
  | cons c cs ih =>
    have h := ih (t.record c)
    rw [merge_record] at h
    exact h

theorem merge_assoc (s t u : Stats n) : (s.merge t).merge u = s.merge (t.merge u) := by
  rw [merge_eq, merge_eq, merge_eq, merge_eq]
  ext1
  · exact funext fun i => Entry.merge_assoc _ _ _
  · exact Int32.add_assoc _ _ _
  · exact Int64.add_assoc _ _ _

theorem merge_comm (s t : Stats n) : Same (s.merge t) (t.merge s) := by
  rw [merge_eq, merge_eq]
  exact ⟨fun i => Entry.merge_comm _ _, Int32.add_comm _ _, Int64.add_comm _ _⟩

theorem Same.merge {s s' t t' : Stats n} (hs : Same s s') (ht : Same t t') : Same (s.merge t) (s'.merge t') := by
  rw [merge_eq, merge_eq]
  exact ⟨fun i => (hs.entries i).merge (ht.entries i), by simp [hs.nbSessions, ht.nbSessions],
    by simp [hs.sessionsTime, ht.sessionsTime]⟩

theorem recordAll_nil (s : Stats n) : s.recordAll [] = s := rfl

theorem recordAll_append (s : Stats n) (xs ys : List (Call n)) : s.recordAll (xs ++ ys) = (s.recordAll xs).recordAll ys :=
  List.foldl_append

/-- what is recorded into an object is what is recorded into a new one, merged into it -/
theorem recordAll_eq_merge (s : Stats n) (cs : List (Call n)) : s.recordAll cs = s.merge (fresh.recordAll cs) := by
  rw [merge_recordAll, merge_fresh]

/-- the order of the calls changes the order of the transactions only -/
theorem recordAll_perm {xs ys : List (Call n)} (h : xs.Perm ys) (s : Stats n) : Same (s.recordAll xs) (s.recordAll ys) := by
  induction h generalizing s with
  | nil => exact .refl _
  | cons c _ ih => exact ih (s.record c)
  | swap c d cs =>
    -- two calls are two objects merged into s, and these commute
    have hpair (a b : Call n) : (s.record a).record b =
        s.merge ((fresh.recordAll [a]).merge (fresh.recordAll [b])) := by
      rw [← merge_assoc, ← recordAll_eq_merge, ← recordAll_eq_merge]
      rfl
    have hsame : Same ((s.record d).record c) ((s.record c).record d) := by
      rw [hpair, hpair]
      exact Same.merge (.refl s) (merge_comm _ _)
    have htail := hsame.merge (.refl (fresh.recordAll cs))
    rw [← recordAll_eq_merge, ← recordAll_eq_merge] at htail
    exact htail
  | trans _ _ ih₁ ih₂ => exact (ih₁ s).trans (ih₂ s)

/-- merging what was recorded apart is recording it into one object -/
theorem merge_of_recorded (xs ys : List (Call n)) :
    (fresh.recordAll xs).merge (fresh.recordAll ys) = fresh.recordAll (xs ++ ys) := by
  rw [recordAll_append, ← recordAll_eq_merge]

/-- **Merging.** Two sequences recorded apart and merged give the statistics of any order of all calls in one object, and
merging is commutative and associative, up to the order of the transactions. -/
theorem merge_is_recording_both (n : ℕ) :
    (∀ xs ys zs : List (Call n), zs.Perm (xs ++ ys) →
      Same ((fresh.recordAll xs).merge (fresh.recordAll ys)) (fresh.recordAll zs)) ∧
    (∀ s t : Stats n, Same (s.merge t) (t.merge s)) ∧
    ∀ s t u : Stats n, Same ((s.merge t).merge u) (s.merge (t.merge u)) := by
  refine ⟨fun xs ys zs h => ?_, merge_comm, fun s t u => ?_⟩
  · rw [merge_of_recorded]
    exact recordAll_perm h.symm fresh
  · rw [merge_assoc]
    exact .refl _

/-- a session of two requests, one of them refused, and another one with a clock that was set back -/
theorem merge_is_recording_both_sessions :
    Same
      ((recordAll (fresh : Stats 2) [.incrementCount 0, .updateTime 0 5 105, .addSessionTime 7]).merge
        (recordAll (fresh : Stats 2) [.incrementCount 0, .updateTime 0 (-3) 90, .incrementCount 1, .incrementError 1]))
      (recordAll (fresh : Stats 2) [.incrementCount 0, .incrementCount 0, .updateTime 0 (-3) 90, .updateTime 0 5 105,
        .incrementCount 1, .incrementError 1, .addSessionTime 7]) :=
  (merge_is_recording_both 2).1 _ _ _ (by decide)

end Stats

end Rubbos.Client
