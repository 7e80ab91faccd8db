/-
Glob patterns: words over any alphabet, described by tokens that stand for one letter or for any word.

`Matches` is what a pattern means. Matchers search a word from left to right and give up early, when no suffix of the word can
match either; what they need for that is in `not_matches_suffix`.

- `matches_star_iff`: a star takes nothing, or a letter and goes on.
- `matches_star_star`: stars in a row are one.
- `matches_prefix_star`: a literal and a star match the words that start with the literal.
-/
import Mathlib.Tactic

namespace Rubbos.Core.Glob

variable {α : Type}

inductive Token (α : Type) where
  /-- one letter of a class -/
  | one (p : α → Bool)
  /-- any word -/
  | star

def Matches : List (Token α) → List α → Prop
  | [], w => w = []
  | .one p :: ts, w => ∃ c v, w = c :: v ∧ p c ∧ Matches ts v
  | .star :: ts, w => ∃ v, v <:+ w ∧ Matches ts v

variable {p : α → Bool} {ts : List (Token α)} {c : α} {v w : List α}

@[simp] theorem matches_nil : Matches [] w ↔ w = [] := Iff.rfl

@[simp] theorem matches_one_cons : Matches (.one p :: ts) (c :: w) ↔ p c ∧ Matches ts w := by
  constructor
  · rintro ⟨d, v, h, hd, hv⟩
    obtain ⟨rfl, rfl⟩ := List.cons.inj h
    exact ⟨hd, hv⟩
  · rintro ⟨hc, hw⟩
    exact ⟨c, w, rfl, hc, hw⟩

@[simp] theorem not_matches_one_nil : ¬ Matches (.one p :: ts) [] := by
  rintro ⟨c, v, h, -⟩
  cases h

theorem matches_star : Matches (.star :: ts) w ↔ ∃ v, v <:+ w ∧ Matches ts v := Iff.rfl

theorem matches_star_iff : Matches (.star :: ts) (c :: w) ↔ Matches ts (c :: w) ∨ Matches (.star :: ts) w := by
  simp only [matches_star, List.suffix_cons_iff]
  constructor
  · rintro ⟨v, rfl | hv, hmatch⟩
    · exact .inl hmatch
    · exact .inr ⟨v, hv, hmatch⟩
  · rintro (hmatch | ⟨v, hv, hmatch⟩)
    · exact ⟨c :: w, .inl rfl, hmatch⟩
    · exact ⟨v, .inr hv, hmatch⟩

theorem matches_star_star : Matches (.star :: .star :: ts) w ↔ Matches (.star :: ts) w := by
  constructor
  · rintro ⟨v, hv, u, hu, hmatch⟩
    exact ⟨u, hu.trans hv, hmatch⟩
  · rintro ⟨v, hv, hmatch⟩
    exact ⟨v, hv, v, List.suffix_refl v, hmatch⟩

/-- a star at the end takes the rest -/
theorem matches_star_end : Matches [Token.star] w := ⟨[], List.nil_suffix, rfl⟩

/-- if nothing behind a letter matches, no suffix of the word does -/
theorem not_matches_suffix (h : ∀ v, v <:+ w → ¬ Matches ts v) (v : List α) (hv : v <:+ c :: w) : ¬ Matches (.one p :: ts) v := by
  rintro ⟨d, u, rfl, -, hu⟩
  refine h u ?_ hu
  obtain heq | hsuffix := List.suffix_cons_iff.1 hv
  · rw [(List.cons.inj heq).2]
  · exact (List.suffix_cons d u).trans hsuffix

/-- the same behind a star -/
theorem not_matches_star_suffix (h : ∀ v, v <:+ w → ¬ Matches ts v) (v : List α) (hv : v <:+ w) : ¬ Matches (.star :: ts) v := by
  rintro ⟨u, hu, hmatch⟩
  exact h u (hu.trans hv) hmatch

/-- a literal prefix and a star -/
theorem matches_prefix_star {q : α → α → Bool} (hq : ∀ a b, q a b = true ↔ b = a) :
    Matches (v.map (fun a => .one (q a)) ++ [.star]) w ↔ v <+: w := by
  induction v generalizing w with
  | nil => simp [matches_star_end]
  | cons a v ih =>
    cases w with
    | nil => simp
    | cons b w =>
      rw [List.map_cons, List.cons_append, matches_one_cons, ih, hq, List.cons_prefix_cons, eq_comm]

end Rubbos.Core.Glob
