/-
Taking tokens off a list, one after the other, as `java.util.StringTokenizer` does with one delimiter.

`cells d t` are the pieces of t between the delimiters, `tokens d t` those that are not empty. `nextToken` skips the delimiters at
the front and takes the elements up to the next one.

- `nextToken_eq`: a token is the first of those that are left, and leaves the others.
- `take_tokens`: where the first cells are not empty, they are the first tokens.
-/
import Mathlib.Data.List.TakeWhile
import Mathlib.Tactic.Common

namespace Rubbos.Core.Tokenizer

theorem head_of_dropWhile {α : Type} {p : α → Bool} {t r : List α} {a : α} (h : t.dropWhile p = a :: r) : p a = false := by
  have hne : t.dropWhile p ≠ [] := by
    rw [h]
    exact List.cons_ne_nil _ _
  have hhead := List.head_dropWhile_not p hne
  simpa [h] using hhead

variable {α : Type} [DecidableEq α] {d : α} {t st w : List α} {n : ℕ}

def cells (d : α) (t : List α) : List (List α) := t.splitOn d

def tokens (d : α) (t : List α) : List (List α) := (cells d t).filter (· ≠ [])

def nextToken (d : α) (st : List α) : Option (List α × List α) :=
  match st.dropWhile (· = d) with
  | [] => none
  | a :: t => some ((a :: t).takeWhile (· ≠ d), (a :: t).dropWhile (· ≠ d))

/-! ## Cells -/

@[simp] theorem cells_nil : cells d [] = [[]] := List.splitOn_nil d

theorem cells_cons (h : d ∉ w) : cells d (w ++ d :: t) = w :: cells d t := List.splitOn_append_cons_self_of_not_mem h t

theorem cells_single (h : d ∉ w) : cells d w = [w] := List.splitOn_eq_singleton h

@[simp] theorem tokens_nil : tokens d [] = [] := by simp [tokens]

@[simp] theorem tokens_delimiter : tokens d (d :: t) = tokens d t := by
  have h := cells_cons (d := d) (t := t) (w := []) List.not_mem_nil
  rw [List.nil_append] at h
  rw [tokens, h, List.filter_cons_of_neg (by simp)]
  rfl

theorem tokens_cons (h : d ∉ w) (hw : w ≠ []) : tokens d (w ++ d :: t) = w :: tokens d t := by
  rw [tokens, cells_cons h, List.filter_cons_of_pos (by simpa using hw)]
  rfl

theorem tokens_single (h : d ∉ w) (hw : w ≠ []) : tokens d w = [w] := by
  rw [tokens, cells_single h, List.filter_cons_of_pos (by simpa using hw), List.filter_nil]

theorem length_tokens_le : (tokens d t).length ≤ (cells d t).length := List.length_filter_le _ _

/-! ## Tokens -/

theorem tokens_dropWhile (t : List α) : tokens d (t.dropWhile (· = d)) = tokens d t := by
  induction t with
  | nil => rfl
  | cons a t ih =>
    by_cases h : a = d
    · subst h
      rw [List.dropWhile_cons_of_pos (by simp), ih, tokens_delimiter]
    · rw [List.dropWhile_cons_of_neg (by simpa using h)]

/-- a text that does not begin with the delimiter begins with its first token -/
theorem tokens_first {a : α} (ha : a ≠ d) (t : List α) :
    tokens d (a :: t) = (a :: t).takeWhile (· ≠ d) :: tokens d ((a :: t).dropWhile (· ≠ d)) := by
  have hsplit : (a :: t).takeWhile (· ≠ d) ++ (a :: t).dropWhile (· ≠ d) = a :: t := List.takeWhile_append_dropWhile
  have hnot : d ∉ (a :: t).takeWhile (· ≠ d) := fun h => by simpa using List.mem_takeWhile_imp h
  have hne : (a :: t).takeWhile (· ≠ d) ≠ [] := by
    rw [List.takeWhile_cons_of_pos (by simpa using ha)]
    exact List.cons_ne_nil _ _
  cases hrest : (a :: t).dropWhile (· ≠ d) with
  | nil =>
    rw [hrest, List.append_nil] at hsplit
    rw [hsplit] at hnot
    rw [hsplit, tokens_nil, tokens_single hnot (List.cons_ne_nil _ _)]
  | cons b r =>
    have hb : b = d := by simpa using head_of_dropWhile hrest
    subst hb
    rw [hrest] at hsplit
    conv_lhs => rw [← hsplit]
    rw [tokens_cons hnot hne, tokens_delimiter]

/-- a token is the first of those that are left, and leaves the others -/
theorem nextToken_eq (d : α) (st : List α) :
    (nextToken d st = none ∧ tokens d st = []) ∨
      ∃ w st', nextToken d st = some (w, st') ∧ tokens d st = w :: tokens d st' := by
  cases hdrop : st.dropWhile (· = d) with
  | nil =>
    refine .inl ⟨by rw [nextToken, hdrop], ?_⟩
    rw [← tokens_dropWhile, hdrop, tokens_nil]
  | cons a t =>
    have ha : a ≠ d := by simpa using head_of_dropWhile hdrop
    refine .inr ⟨_, _, by rw [nextToken, hdrop], ?_⟩
    rw [← tokens_dropWhile, hdrop, tokens_first ha]

/-- where the first cells are not empty, they are the first tokens -/
theorem take_tokens (hn : n ≤ (cells d t).length) (h : ∀ c ∈ (cells d t).take n, c ≠ []) :
    (tokens d t).take n = (cells d t).take n := by
  have hfirst : ((cells d t).take n).filter (· ≠ []) = (cells d t).take n :=
    List.filter_eq_self.2 fun c hc => by simpa using h c hc
  have hsplit : tokens d t = (cells d t).take n ++ ((cells d t).drop n).filter (· ≠ []) := by
    conv_lhs => rw [tokens, ← List.take_append_drop n (cells d t), List.filter_append, hfirst]
  rw [hsplit, List.take_left' (List.length_take_of_le hn)]

end Rubbos.Core.Tokenizer
