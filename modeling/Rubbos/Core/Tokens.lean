/-
Texts made of tokens with one blank between two of them.

- `strstr_joinSp`: a search for a key without blanks skips the tokens that do not hold it.
- `words_joinSp`: splitting at white space gives the tokens back, less the empty ones.
-/
import Rubbos.Core.Text
import Rubbos.Core.Search

namespace Rubbos.Core

/-- the tokens with a blank between two of them -/
def joinSp : List Text → Text
  | [] => []
  | [w] => w
  | w :: ws => w ++ ' ' :: joinSp ws

/-- the maximal runs of characters that are not white space -/
def words (s : Text) : List Text := (s.splitOnP isSpace).filter (· ≠ [])

/-- nothing in the token separates tokens -/
def IsToken (w : Text) : Prop := ∀ c ∈ w, isSpace c = false

theorem joinSp_cons_cons (w v : Text) (ws : List Text) : joinSp (w :: v :: ws) = w ++ ' ' :: joinSp (v :: ws) := rfl

theorem joinSp_append {xs : List Text} (h : xs ≠ []) (w : Text) (ws : List Text) :
    joinSp (xs ++ w :: ws) = joinSp xs ++ ' ' :: joinSp (w :: ws) := by
  induction xs with
  | nil => exact absurd rfl h
  | cons x xs ih =>
    cases xs with
    | nil => rfl
    | cons y xs => simp only [List.cons_append, joinSp_cons_cons, List.append_assoc] at ih ⊢; rw [ih (by simp)]

theorem head_joinSp {w : Text} (hw : w ≠ []) (ws : List Text) : (joinSp (w :: ws)).head? = w.head? := by
  cases ws with
  | nil => rfl
  | cons v ws => rw [joinSp_cons_cons, List.head?_append_of_ne_nil _ hw]

theorem getLast_joinSp {xs : List Text} (hx : xs ≠ []) {v : Text} (hv : v ≠ []) :
    (joinSp (xs ++ [v])).getLast? = v.getLast? := by
  obtain ⟨c, v, rfl⟩ := List.exists_cons_of_ne_nil hv
  rw [joinSp_append hx, List.getLast?_append_cons]
  rfl

theorem mem_joinSp {ws : List Text} {c : Char} (h : c ∈ joinSp ws) : c = ' ' ∨ ∃ w ∈ ws, c ∈ w := by
  induction ws with
  | nil => simp [joinSp] at h
  | cons w ws ih =>
    cases ws with
    | nil => exact Or.inr ⟨w, by simp, h⟩
    | cons v ws =>
      rw [joinSp_cons_cons, List.mem_append, List.mem_cons] at h
      rcases h with h | h | h
      · exact Or.inr ⟨w, by simp, h⟩
      · exact Or.inl h
      · rcases ih h with h | ⟨u, hu, hc⟩
        · exact Or.inl h
        · exact Or.inr ⟨u, List.mem_cons_of_mem _ hu, hc⟩

/-! ## Searching -/

section

variable {key : Text} (hkey : ' ' ∉ key)

include hkey

/-- tokens without the key are skipped -/
theorem strstr_joinSp {pre post : List Text} {w tail : Text} (hpre : ∀ u ∈ pre, ¬ key <:+: u) :
    strstr key (joinSp (pre ++ w :: post) ++ tail) = strstr key (joinSp (w :: post) ++ tail) := by
  induction pre with
  | nil => rfl
  | cons u pre ih =>
    obtain ⟨v, ws, hv⟩ : ∃ v ws, pre ++ w :: post = v :: ws := by
      cases pre with
      | nil => exact ⟨w, post, rfl⟩
      | cons v pre => exact ⟨v, pre ++ w :: post, rfl⟩
    calc strstr key (joinSp (u :: pre ++ w :: post) ++ tail)
        = strstr key (u ++ ' ' :: (joinSp (pre ++ w :: post) ++ tail)) := by
          rw [List.cons_append, hv, joinSp_cons_cons, ← hv]
          simp
      _ = strstr key (joinSp (pre ++ w :: post) ++ tail) := strstr_skip hkey (hpre u List.mem_cons_self)
      _ = strstr key (joinSp (w :: post) ++ tail) := ih fun v hv => hpre v (List.mem_cons_of_mem _ hv)

/-- a line of tokens without the key -/
theorem strstr_joinSp_eq_none {ws : List Text} (hnl : '\n' ∉ key) (hne : key ≠ []) (hws : ∀ u ∈ ws, ¬ key <:+: u) :
    strstr key (joinSp ws ++ ['\n']) = none := by
  have hlast : ∀ u : Text, ¬ key <:+: u → strstr key (u ++ ['\n']) = none := by
    intro u hu
    rw [strstr_skip hnl hu, strstr_eq_none]
    intro h
    exact hne (List.infix_nil.1 h)
  induction ws with
  | nil =>
    apply hlast
    intro h
    exact hne (List.infix_nil.1 h)
  | cons u ws ih =>
    cases ws with
    | nil => exact hlast u (hws u List.mem_cons_self)
    | cons v ws =>
      have hskip : strstr key (joinSp ([u] ++ v :: ws) ++ ['\n']) = strstr key (joinSp (v :: ws) ++ ['\n']) :=
        strstr_joinSp hkey fun x hx => hws x (by simp_all)
      rw [List.singleton_append] at hskip
      rw [hskip]
      exact ih fun x hx => hws x (List.mem_cons_of_mem _ hx)

end

/-! ## Splitting at white space -/

theorem words_append_cons {c : Char} (hc : isSpace c) (a b : Text) : words (a ++ c :: b) = words a ++ words b := by
  unfold words
  rw [List.splitOnP_append_cons a b hc, List.filter_append]

theorem words_token {w : Text} (hw : IsToken w) : words w = if w = [] then [] else [w] := by
  unfold words
  rw [List.splitOnP_eq_singleton (fun c hc => by simp [hw c hc])]
  by_cases h : w = [] <;> simp [h]

/-- the tokens come back, without the empty ones -/
theorem words_joinSp {ws : List Text} (hws : ∀ w ∈ ws, IsToken w) : words (joinSp ws) = ws.filter (· ≠ []) := by
  induction ws with
  | nil => rfl
  | cons w ws ih =>
    have hw : words w = [w].filter (· ≠ []) := by
      rw [words_token (hws w List.mem_cons_self)]
      by_cases h : w = [] <;> simp [h]
    cases ws with
    | nil => exact hw
    | cons v ws =>
      rw [joinSp_cons_cons, words_append_cons (by decide), hw, ih fun x hx => hws x (List.mem_cons_of_mem _ hx),
        ← List.filter_append]
      rfl

end Rubbos.Core
