/-
Tables of a database with a primary key that the database numbers itself (`AUTO_INCREMENT`).

A table is a list of rows under distinct keys, all below the number that the next row gets, so the key of a row is never
given to another one. Statements name rows by their key: `get?` is the answer of a SELECT, `update` and `delete` change at
most the row of a key, `insert` adds a row under a fresh key. What a statement does to the rows under the other keys is in
the lemmas on `get?`.
-/
import Mathlib.Tactic

namespace Rubbos.Core

structure Table (ρ : Type) where
  rows : List (ℕ × ρ)
  /-- the key of the next row -/
  next : ℕ
  next_pos : 0 < next
  nodup : (rows.map Prod.fst).Nodup
  lt_next : ∀ e ∈ rows, e.1 < next

namespace Table

variable {ρ : Type} (t : Table ρ) (k : ℕ)

/-- `SELECT … WHERE id=k` -/
def get? : Option ρ := t.rows.lookup k

/-- `UPDATE … WHERE id=k` -/
def update (f : ρ → ρ) : Table ρ where
  rows := t.rows.map fun e => if e.1 = k then (e.1, f e.2) else e
  next := t.next
  next_pos := t.next_pos
  nodup := by
    have hkeys : (fun e : ℕ × ρ => (if e.1 = k then (e.1, f e.2) else e).1) = Prod.fst := by
      funext e
      split <;> rfl
    simpa [List.map_map, Function.comp_def, hkeys] using t.nodup
  lt_next := by
    intro e he
    obtain ⟨e', he', rfl⟩ := List.mem_map.1 he
    have := t.lt_next e' he'
    split <;> simpa

/-- `INSERT INTO …` -/
def insert (r : ρ) : Table ρ where
  rows := t.rows ++ [(t.next, r)]
  next := t.next + 1
  next_pos := Nat.succ_pos _
  nodup := by
    rw [List.map_append, List.nodup_append]
    refine ⟨t.nodup, by simp, ?_⟩
    intro a ha b hb
    obtain ⟨e, he, rfl⟩ := List.mem_map.1 ha
    rw [List.map_singleton, List.mem_singleton] at hb
    have := t.lt_next e he
    omega
  lt_next := by
    intro e he
    rcases List.mem_append.1 he with he | he
    · have := t.lt_next e he
      omega
    · rw [List.mem_singleton.1 he]
      exact Nat.lt_succ_self _

/-- `DELETE FROM … WHERE id=k` -/
def delete : Table ρ where
  rows := t.rows.filter fun e => e.1 ≠ k
  next := t.next
  next_pos := t.next_pos
  nodup := t.nodup.sublist (List.filter_sublist.map _)
  lt_next := fun e he => t.lt_next e (List.mem_of_mem_filter he)

/-- the table without rows -/
def empty : Table ρ := ⟨[], 1, Nat.one_pos, List.nodup_nil, fun _ h => nomatch h⟩

variable {t k} {r : ρ}

/-- a list with distinct keys is a map -/
theorem mem_iff_lookup {rows : List (ℕ × ρ)} (hnodup : (rows.map Prod.fst).Nodup) :
    (k, r) ∈ rows ↔ rows.lookup k = some r := by
  induction rows with
  | nil => simp
  | cons e es ih =>
    rw [List.map_cons, List.nodup_cons] at hnodup
    rw [List.mem_cons, List.lookup_cons, ih hnodup.2]
    by_cases hk : k = e.1
    · have hnot : es.lookup k ≠ some r := by
        intro hl
        have hmem := (ih hnodup.2).2 hl
        exact hnodup.1 (List.mem_map.2 ⟨(k, r), hmem, hk⟩)
      subst hk
      simp [hnot, Prod.ext_iff, eq_comm]
    · have hne : (k, r) ≠ e := by
        rintro rfl
        exact hk rfl
      have hb : (k == e.1) = false := beq_false_of_ne hk
      simp [hne, hb]

theorem mem_rows : (k, r) ∈ t.rows ↔ t.get? k = some r := mem_iff_lookup t.nodup

theorem lt_next_of_get? (h : t.get? k = some r) : k < t.next := t.lt_next _ (mem_rows.2 h)

theorem get?_next : t.get? t.next = none := by
  cases h : t.get? t.next with
  | none => rfl
  | some r => exact absurd (lt_next_of_get? h) (lt_irrefl _)

@[simp] theorem next_update {f : ρ → ρ} : (t.update k f).next = t.next := rfl

@[simp] theorem next_insert : (t.insert r).next = t.next + 1 := rfl

@[simp] theorem next_delete : (t.delete k).next = t.next := rfl

@[simp] theorem get?_update {f : ρ → ρ} {j : ℕ} :
    (t.update k f).get? j = if j = k then (t.get? j).map f else t.get? j := by
  ext v
  rw [← mem_rows]
  simp only [update, List.mem_map]
  constructor
  · rintro ⟨⟨i, w⟩, hw, he⟩
    rw [mem_rows] at hw
    by_cases hi : i = k
    · simp only [hi, if_true, Prod.mk.injEq] at he hw
      simp [← he.1, ← he.2, hw]
    · simp only [hi, if_false, Prod.mk.injEq] at he
      simp [← he.1, ← he.2, hw, hi]
  · intro hv
    by_cases hj : j = k
    · rw [if_pos hj, Option.map_eq_some_iff] at hv
      obtain ⟨w, hw, rfl⟩ := hv
      exact ⟨(j, w), mem_rows.2 hw, by simp [hj]⟩
    · rw [if_neg hj] at hv
      exact ⟨(j, v), mem_rows.2 hv, by simp [hj]⟩

@[simp] theorem get?_insert {j : ℕ} : (t.insert r).get? j = if j = t.next then some r else t.get? j := by
  ext v
  rw [← mem_rows]
  simp only [insert, List.mem_append, List.mem_singleton, mem_rows, Prod.mk.injEq]
  by_cases hj : j = t.next
  · subst hj
    simp [get?_next, eq_comm]
  · simp [hj]

@[simp] theorem get?_delete {j : ℕ} : (t.delete k).get? j = if j = k then none else t.get? j := by
  ext v
  rw [← mem_rows]
  simp only [delete, List.mem_filter, mem_rows]
  by_cases hj : j = k
  · simp [hj]
  · simp [hj]

end Table

end Rubbos.Core
