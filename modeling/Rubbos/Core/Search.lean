/-
First occurrences of a key in a text, over any alphabet.

`find k s` is the index of the first occurrence of k in s, `strstr k s` the text from that occurrence on (the pointer C's
`strstr` returns). The logs of this repository are words separated by blanks and parameters separated by '&': the rules
here walk over such a text one separator at a time.

- `find_append`: a piece in which no occurrence starts is skipped.
- `find_skip`, `find_cons_skip`: the two ways to skip a piece up to a separator, for a key without the separator and
  for a key that begins with it.
- `infix_append_cons`, `infix_marked`: when a key occurs across a separator.
-/
import Mathlib.Data.List.Infix
import Mathlib.Data.List.TakeWhile
import Mathlib.Tactic

namespace Rubbos.Core

variable {α : Type} {k a b s p v : List α} {c x : α}

/-! ## Keys and separators -/

theorem not_infix_of_mem (hk : x ∈ k) (ha : x ∉ a) : ¬ k <:+: a := by
  intro h
  exact ha (h.subset hk)

/-- a key without the separator does not reach over it -/
theorem prefix_of_prefix_cons (hc : c ∉ k) (h : k <+: a ++ c :: b) : k <+: a := by
  have hac : a ++ [c] <+: a ++ c :: b := ⟨b, by simp⟩
  rcases List.prefix_or_prefix_of_prefix h hac with h | h
  · rcases List.prefix_concat_iff.1 h with rfl | h
    · simp at hc
    · exact h
  · exact absurd (h.subset (by simp)) hc

theorem infix_append_cons (hc : c ∉ k) : k <:+: a ++ c :: b ↔ k <:+: a ∨ k <:+: b := by
  constructor
  · intro h
    rw [List.infix_append_iff] at h
    rcases h with h | h | ⟨k₁, k₂, hk, h₁, h₂⟩
    · exact Or.inl h
    · rcases List.infix_cons_iff.1 h with h | h
      · rcases k with _ | ⟨y, k⟩
        · exact Or.inl (List.nil_infix)
        · rw [List.cons_prefix_cons] at h
          simp [h.1] at hc
      · exact Or.inr h
    · rcases k₂ with _ | ⟨y, k₂⟩
      · rw [List.append_nil] at hk
        rw [hk]
        exact Or.inl h₁.isInfix
      · rw [List.cons_prefix_cons] at h₂
        simp [hk, h₂.1] at hc
  · rintro (h | h)
    · exact h.trans (List.infix_append' [] a (c :: b))
    · exact h.trans ⟨a ++ [c], [], by simp⟩

/-- a key does not reach into a text that does not have its first element -/
theorem infix_of_infix_append (hx : x ∉ a) (h : x :: k <:+: a ++ b) : x :: k <:+: b := by
  rcases List.infix_append_iff.1 h with h | h | ⟨k₁, k₂, hk, h₁, h₂⟩
  · exact absurd (h.subset List.mem_cons_self) hx
  · exact h
  · cases k₁ with
    | nil =>
      rw [List.nil_append] at hk
      rw [hk]
      exact h₂.isInfix
    | cons y k₁ =>
      obtain ⟨rfl, -⟩ := List.cons.inj hk
      exact absurd (h₁.subset List.mem_cons_self) hx

/-- the first separator of a text determines the piece before it -/
theorem append_cons_inj_left {a' b' : List α} (ha : c ∉ a) (ha' : c ∉ a') (h : a ++ c :: b = a' ++ c :: b') :
    a = a' ∧ b = b' := by
  rcases List.append_eq_append_iff.1 h with ⟨t, ht, h⟩ | ⟨t, ht, h⟩ <;> rcases t with _ | ⟨y, t⟩
  · simp_all
  · simp only [List.cons_append, List.cons.injEq] at h
    rw [ht, h.1] at ha'
    simp at ha'
  · simp_all
  · simp only [List.cons_append, List.cons.injEq] at h
    rw [ht, h.1] at ha
    simp at ha

/-- a key that ends in a mark occurs in `p c v` exactly when the rest of it ends p or it occurs in v -/
theorem infix_marked (hk : c ∉ k) (hp : c ∉ p) : k ++ [c] <:+: p ++ c :: v ↔ k <:+ p ∨ k ++ [c] <:+: v := by
  constructor
  · rintro ⟨l, r, h⟩
    by_cases hl : c ∈ l
    · obtain ⟨l₁, l₂, rfl, hl₁⟩ := List.eq_append_cons_of_mem hl
      have h' : l₁ ++ c :: (l₂ ++ k ++ c :: r) = p ++ c :: v := by simpa using h
      obtain ⟨-, rfl⟩ := append_cons_inj_left hl₁ hp h'
      exact Or.inr ⟨l₂, r, by simp⟩
    · have h' : (l ++ k) ++ c :: r = p ++ c :: v := by simpa using h
      obtain ⟨rfl, -⟩ := append_cons_inj_left (by simp [hl, hk]) hp h'
      exact Or.inl (List.suffix_append l k)
  · rintro (⟨l, rfl⟩ | h)
    · exact ⟨l, v, by simp⟩
    · exact h.trans ⟨p ++ [c], [], by simp⟩

/-- no occurrence of a key without the separator starts in the piece before it, if none lies in the piece -/
theorem no_start_of_notMem (hc : c ∉ k) (ha : ¬ k <:+: a) : ∀ t, t ≠ [] → t <:+ a ++ [c] → ¬ k <+: t ++ b := by
  intro t ht hs hk
  rcases List.suffix_concat_iff.1 hs with rfl | ⟨t', rfl, hs'⟩
  · exact ht rfl
  · have hk' : k <+: t' := prefix_of_prefix_cons hc (by simpa using hk)
    exact ha (hk'.isInfix.trans hs'.isInfix)

/-- no occurrence of a key that begins with the separator starts before it -/
theorem no_start_cons (ha : c ∉ a) : ∀ t, t ≠ [] → t <:+ a → ¬ c :: k <+: t ++ b := by
  intro t ht hs hk
  rcases t with _ | ⟨y, t⟩
  · exact ht rfl
  · rw [List.cons_append, List.cons_prefix_cons] at hk
    exact ha (hs.subset (by simp [hk.1]))

/-! ## First occurrences -/

variable [DecidableEq α]

/-- cutting a text with a separator behind it at its own first separator, if it has one -/
theorem append_cons_eq_takeWhile (c : α) (s b : List α) : ∃ r, s ++ c :: b = s.takeWhile (· ≠ c) ++ c :: r := by
  induction s with
  | nil => exact ⟨b, rfl⟩
  | cons y s ih =>
    by_cases hy : y = c
    · exact ⟨s ++ c :: b, by simp [hy]⟩
    · obtain ⟨r, hr⟩ := ih
      exact ⟨r, by simp [hy, hr]⟩

theorem notMem_takeWhile_ne (c : α) (s : List α) : c ∉ s.takeWhile (· ≠ c) := by
  intro h
  have := List.mem_takeWhile_imp h
  simp at this

/-- index of the first occurrence of the key -/
def find (k : List α) : List α → Option ℕ
  | [] => if k <+: [] then some 0 else none
  | c :: s => if k <+: c :: s then some 0 else (find k s).map (· + 1)

/-- the text from the first occurrence of the key on -/
def strstr (k s : List α) : Option (List α) := (find k s).map fun i => s.drop i

theorem find_of_prefix (h : k <+: s) : find k s = some 0 := by
  cases s <;> simp [find, h]

theorem find_eq_none : find k s = none ↔ ¬ k <:+: s := by
  induction s with
  | nil => simp [find]
  | cons y s ih =>
    by_cases h : k <+: y :: s
    · simp [find, h, h.isInfix]
    · simp [find, h, ih, List.infix_cons_iff]

/-- a found key stands at the index, and at no index before it -/
theorem find_eq_some {i : ℕ} (h : find k s = some i) : i ≤ s.length ∧ k <+: s.drop i ∧ ∀ j < i, ¬ k <+: s.drop j := by
  induction s generalizing i with
  | nil =>
    by_cases hk : k <+: [] <;> simp only [find, hk, if_true, if_false, Option.some.injEq, reduceCtorEq] at h
    subst h
    simp [hk]
  | cons y s ih =>
    by_cases hk : k <+: y :: s
    · simp only [find, hk, if_true, Option.some.injEq] at h
      subst h
      simp [hk]
    · simp only [find, hk, if_false, Option.map_eq_some_iff] at h
      obtain ⟨i, hi, rfl⟩ := h
      obtain ⟨hlen, hpre, hmin⟩ := ih hi
      refine ⟨by simpa using hlen, by simpa using hpre, ?_⟩
      intro j hj
      cases j with
      | zero => simpa using hk
      | succ j => simpa using hmin j (by omega)

/-- what follows a text does not change its first occurrence -/
theorem find_append_left {i : ℕ} (h : find k s = some i) : find k (s ++ b) = some i := by
  induction s generalizing i with
  | nil =>
    by_cases hk : k = []
    · subst hk
      simp only [find, List.prefix_rfl, if_true, Option.some.injEq] at h
      subst h
      exact find_of_prefix List.nil_prefix
    · simp [find, hk] at h
  | cons y s ih =>
    by_cases hk : k <+: y :: s
    · have hk' : k <+: y :: s ++ b := hk.trans (List.prefix_append _ _)
      simp only [find, hk, if_true, Option.some.injEq] at h
      subst h
      exact find_of_prefix hk'
    · simp only [find, hk, if_false, Option.map_eq_some_iff] at h
      obtain ⟨i, hi, rfl⟩ := h
      -- an occurrence at the front would lie inside y :: s, since the key fits into s
      have hlen : k.length ≤ (y :: s).length := by
        have := (find_eq_some hi).2.1.length_le
        simp only [List.length_drop, List.length_cons] at this ⊢
        omega
      have hk' : ¬ k <+: y :: (s ++ b) := fun h =>
        hk (List.prefix_of_prefix_length_le h (List.prefix_append (y :: s) b) hlen)
      simp only [List.cons_append, find, hk', if_false, ih hi, Option.map_some]

/-- a piece in which no occurrence starts is skipped -/
theorem find_append (h : ∀ t, t ≠ [] → t <:+ a → ¬ k <+: t ++ b) :
    find k (a ++ b) = (find k b).map (· + a.length) := by
  induction a with
  | nil => simp
  | cons y a ih =>
    have hy : ¬ k <+: y :: (a ++ b) := h (y :: a) (by simp) List.suffix_rfl
    have ha : ∀ t, t ≠ [] → t <:+ a → ¬ k <+: t ++ b := fun t ht hs => h t ht (hs.trans (List.suffix_cons y a))
    simp only [List.cons_append, find, hy, if_false, ih ha, Option.map_map, List.length_cons]
    congr 1

theorem strstr_append (h : ∀ t, t ≠ [] → t <:+ a → ¬ k <+: t ++ b) : strstr k (a ++ b) = strstr k b := by
  simp only [strstr, find_append h, Option.map_map]
  congr 1
  funext i
  simp [Nat.add_comm i, ← List.drop_drop]

theorem find_skip (hc : c ∉ k) (ha : ¬ k <:+: a) :
    find k (a ++ c :: b) = (find k b).map (· + (a.length + 1)) := by
  have := find_append (no_start_of_notMem (b := b) hc ha)
  simpa using this

theorem strstr_skip (hc : c ∉ k) (ha : ¬ k <:+: a) : strstr k (a ++ c :: b) = strstr k b := by
  have := strstr_append (no_start_of_notMem (b := b) hc ha)
  simpa using this

/-- a key that ends with c is not found up to a c, if what is before it does not end with the rest of the key -/
theorem strstr_marked_skip {p v : List α} (hk : c ∉ k) (hp : c ∉ p) (hs : ¬ k <:+ p) :
    strstr (k ++ [c]) (p ++ c :: v) = strstr (k ++ [c]) v := by
  have hskip : strstr (k ++ [c]) ((p ++ [c]) ++ v) = strstr (k ++ [c]) v := by
    refine strstr_append ?_
    intro t ht hsuf ⟨r, hr⟩
    rcases List.suffix_concat_iff.1 hsuf with rfl | ⟨t', rfl, hsuf'⟩
    · exact ht rfl
    · have ht' : c ∉ t' := fun h => hp (hsuf'.subset h)
      have heq : k ++ c :: r = t' ++ c :: v := by simpa using hr
      exact hs ((append_cons_inj_left hk ht' heq).1 ▸ hsuf')
  simpa using hskip

/-- where a key is found, and what begins there -/
theorem find_of_strstr {r : List α} (h : strstr k s = some r) : ∃ i, find k s = some i ∧ s.drop i = r :=
  Option.map_eq_some_iff.1 h

theorem find_cons_here (ha : c ∉ a) (h : k <+: b) : find (c :: k) (a ++ c :: b) = some a.length := by
  rw [find_append (no_start_cons ha), find_of_prefix (by simpa using h)]
  simp

theorem strstr_cons_here (ha : c ∉ a) (h : k <+: b) : strstr (c :: k) (a ++ c :: b) = some (c :: b) := by
  simp [strstr, find_cons_here ha h]

theorem find_cons_skip (ha : c ∉ a) (h : ¬ k <+: b) :
    find (c :: k) (a ++ c :: b) = (find (c :: k) b).map (· + (a.length + 1)) := by
  have h' : ¬ c :: k <+: c :: b := by simpa using h
  rw [find_append (no_start_cons ha), find, if_neg h', Option.map_map]
  congr 1
  funext i
  simp only [Function.comp]
  omega

theorem strstr_cons_skip (ha : c ∉ a) (h : ¬ k <+: b) : strstr (c :: k) (a ++ c :: b) = strstr (c :: k) b := by
  simp only [strstr, find_cons_skip ha h, Option.map_map]
  congr 1
  funext i
  simp only [Function.comp, show i + (a.length + 1) = (a.length + 1) + i by omega, ← List.drop_drop]
  simp

theorem strstr_of_prefix (h : k <+: s) : strstr k s = some s := by
  simp [strstr, find_of_prefix h]

/-- in the first m elements a key is found where it is found in all of them, if it ends there -/
theorem find_take {i m : ℕ} : find k (s.take m) = some i ↔ find k s = some i ∧ i + k.length ≤ m := by
  have hleft : ∀ {i}, find k (s.take m) = some i → find k s = some i ∧ i + k.length ≤ m := by
    intro i h
    obtain ⟨hi, hk, -⟩ := find_eq_some h
    refine ⟨?_, ?_⟩
    · rw [← List.take_append_drop m s]
      exact find_append_left h
    · have hlen := hk.length_le
      rw [List.length_drop, List.length_take] at hlen
      rw [List.length_take] at hi
      omega
  refine ⟨hleft, ?_⟩
  intro ⟨h, hm⟩
  obtain ⟨-, hk, -⟩ := find_eq_some h
  have hin : k <:+: s.take m := by
    have hpre : k <+: (s.take m).drop i := by
      rw [List.drop_take, List.prefix_take_iff]
      exact ⟨hk, by omega⟩
    exact hpre.isInfix.trans (List.drop_suffix i _).isInfix
  cases hf : find k (s.take m) with
  | none => exact absurd hin (find_eq_none.1 hf)
  | some j => rw [← h, (hleft hf).1]

/-- a key of two different elements does not overlap itself -/
theorem strstr_pair {d : α} (hcd : c ≠ d) (ha : ¬ [c, d] <:+: a) :
    strstr [c, d] (a ++ c :: d :: b) = some (c :: d :: b) := by
  rw [strstr_append, strstr_of_prefix (by simp)]
  intro t ht hs hk
  rcases t with _ | ⟨y, _ | ⟨z, t⟩⟩
  · exact ht rfl
  · simp only [List.cons_append, List.nil_append, List.cons_prefix_cons] at hk
    exact hcd hk.2.1.symm
  · simp only [List.cons_append, List.cons_prefix_cons] at hk
    obtain ⟨rfl, rfl, -⟩ := hk
    exact ha (List.IsInfix.trans ⟨[], t, rfl⟩ hs.isInfix)

theorem strstr_eq_none : strstr k s = none ↔ ¬ k <:+: s := by
  simp [strstr, find_eq_none]

end Rubbos.Core
