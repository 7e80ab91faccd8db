/-
Local times of a clock whose offset from UTC changes.

The offset is a function of the moment. A local time that the clock shows more than once is read as the earlier moment; one that
it skips is read with the offset in force before the skip. That is how a naive datetime with fold = 0 is read.

- `reads_unique`, `exists_reads`: every local time of a clock with a bounded offset is read as one moment.
- `reads_iff_sameReading`: when the local time of a moment, moved, is read as the moment moved.
-/
import Mathlib.Data.Int.LeastGreatest
import Mathlib.Tactic.Common

namespace Rubbos.Core.LocalTime

variable {off : ℤ → ℤ} {l s τ σ u v : ℤ}

/-- the local time at a moment -/
def localtime (off : ℤ → ℤ) (u : ℤ) : ℤ := u + off u

/-- at the moment τ the clock goes over the local time -/
def Skips (off : ℤ → ℤ) (l τ : ℤ) : Prop := localtime off (τ - 1) < l ∧ l < localtime off τ

/-- the clock never shows the local time, and goes over it at the moment τ for the first time -/
def FirstSkip (off : ℤ → ℤ) (l τ : ℤ) : Prop := (∀ v, localtime off v ≠ l) ∧ Skips off l τ ∧ ∀ σ < τ, ¬ Skips off l σ

/-- the moment as which a local time is read -/
def Reads (off : ℤ → ℤ) (l u : ℤ) : Prop :=
  (localtime off u = l ∧ ∀ v < u, localtime off v ≠ l) ∨ ∃ τ, FirstSkip off l τ ∧ u = l - off (τ - 1)

theorem firstSkip_unique (h : FirstSkip off l τ) (h' : FirstSkip off l σ) : τ = σ := by
  rcases Int.lt_trichotomy τ σ with hlt | heq | hgt
  · exact absurd h.2.1 (h'.2.2 τ hlt)
  · exact heq
  · exact absurd h'.2.1 (h.2.2 σ hgt)

theorem reads_unique (h : Reads off l u) (h' : Reads off l v) : u = v := by
  rcases h with ⟨hu, hfirst⟩ | ⟨τ, hτ, rfl⟩ <;> rcases h' with ⟨hv, hfirst'⟩ | ⟨σ, hσ, rfl⟩
  · rcases Int.lt_trichotomy u v with hlt | heq | hgt
    · exact absurd hu (hfirst' u hlt)
    · exact heq
    · exact absurd hv (hfirst v hgt)
  · exact absurd hu (hσ.1 u)
  · exact absurd hv (hτ.1 v)
  · rw [firstSkip_unique hτ hσ]

/-- every local time is read, if the offset is bounded -/
theorem exists_reads {b : ℤ} (hlow : ∀ u, -b ≤ off u) (hhigh : ∀ u, off u ≤ b) (l : ℤ) : ∃ u, Reads off l u := by
  by_cases hshown : ∃ u, localtime off u = l
  · have hbdd : ∀ u, localtime off u = l → l - b ≤ u := by
      intro u hu
      have := hhigh u
      unfold localtime at hu
      omega
    obtain ⟨u, hu, hleast⟩ := Int.exists_least_of_bdd ⟨l - b, hbdd⟩ hshown
    exact ⟨u, .inl ⟨hu, fun v hv hl => absurd (hleast v hl) (by omega)⟩⟩
  · have hnever : ∀ v, localtime off v ≠ l := fun v hv => hshown ⟨v, hv⟩
    -- the first moment at which the clock is past the local time
    have hbdd : ∀ u, l < localtime off u → l - b ≤ u := by
      intro u hu
      have := hhigh u
      unfold localtime at hu
      omega
    have hpast : ∃ u, l < localtime off u := by
      refine ⟨l + b + 1, ?_⟩
      have := hlow (l + b + 1)
      unfold localtime
      omega
    obtain ⟨τ, hτ, hleast⟩ := Int.exists_least_of_bdd ⟨l - b, hbdd⟩ hpast
    have hbefore : localtime off (τ - 1) < l := by
      refine lt_of_le_of_ne (not_lt.1 fun hlt => ?_) (hnever _)
      have := hleast _ hlt
      omega
    exact ⟨_, .inr ⟨τ, ⟨hnever, ⟨hbefore, hτ⟩, fun σ hσ hskip => absurd (hleast σ hskip.2) (by omega)⟩, rfl⟩⟩

/-- the local time of the moment s, moved to u without a change of the offset, still means u: u has the offset of s and is the first
moment to show its local time, or the clock skips that local time, and had the offset of s before -/
def SameReading (off : ℤ → ℤ) (s u : ℤ) : Prop :=
  (off u = off s ∧ ∀ v < u, localtime off v ≠ localtime off u) ∨ ∃ τ, FirstSkip off (u + off s) τ ∧ off (τ - 1) = off s

theorem reads_iff_sameReading : Reads off (u + off s) u ↔ SameReading off s u := by
  unfold Reads SameReading
  refine or_congr ⟨?_, ?_⟩ (exists_congr fun τ => and_congr_right fun _ => ?_)
  · rintro ⟨hu, hfirst⟩
    exact ⟨add_left_cancel hu, hu ▸ hfirst⟩
  · rintro ⟨heq, hfirst⟩
    have hu : localtime off u = u + off s := heq ▸ rfl
    exact ⟨hu, hu ▸ hfirst⟩
  · constructor
    · intro h
      omega
    · intro h
      omega

end Rubbos.Core.LocalTime
