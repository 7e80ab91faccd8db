/-
A key in a text with a value behind it, up to a delimiter.

An occurrence of the key is a tag if it does not stand in the value of a tag before it (`IsTag`, by recursion over the
position). `Values k d t vs` reads the values from left to right: the first occurrence, its value, and then the text from the
delimiter on.

- `values_exist`: there are values, if a delimiter follows every occurrence.
- `Values.tags`: they are those of the tags, in order.
-/
import Rubbos.Core.Search

namespace Rubbos.Core

variable {α : Type} [DecidableEq α] {k a b s t w : List α} {d : α} {vs : List (List α)} {p q : ℕ}

/-- the text behind the key at a position, up to the next delimiter -/
def valueAt (k : List α) (d : α) (t : List α) (p : ℕ) : List α := (t.drop (p + k.length)).takeWhile (· ≠ d)

/-- the position behind that value -/
def valueEnd (k : List α) (d : α) (t : List α) (p : ℕ) : ℕ := p + k.length + (valueAt k d t p).length

/-- the key stands at the position, and no tag before it has not ended yet -/
def IsTag (k : List α) (d : α) (t : List α) (p : ℕ) : Prop :=
  k <+: t.drop p ∧ ∀ q < p, IsTag k d t q → valueEnd k d t q ≤ p

inductive Values (k : List α) (d : α) : List α → List (List α) → Prop
  | none {t : List α} (h : ¬ k <:+: t) : Values k d t []
  | tag {a w b : List α} {vs : List (List α)} (hfind : find k (a ++ (k ++ (w ++ d :: b))) = some a.length) (hw : d ∉ w)
      (h : Values k d (d :: b) vs) : Values k d (a ++ (k ++ (w ++ d :: b))) (w :: vs)

/-! ## Tags -/

theorem isTag_iff : IsTag k d t p ↔ k <+: t.drop p ∧ ∀ q < p, IsTag k d t q → valueEnd k d t q ≤ p := by
  rw [IsTag]

theorem valueAt_append (s t : List α) (p : ℕ) : valueAt k d (s ++ t) (s.length + p) = valueAt k d t p := by
  unfold valueAt
  rw [Nat.add_assoc, List.drop_length_add_append]

theorem valueEnd_append (s t : List α) (p : ℕ) : valueEnd k d (s ++ t) (s.length + p) = s.length + valueEnd k d t p := by
  unfold valueEnd
  rw [valueAt_append]
  omega

/-- behind the ends of the tags before it, a text has the tags that it has alone -/
theorem isTag_append (hended : ∀ q < s.length, IsTag k d (s ++ t) q → valueEnd k d (s ++ t) q ≤ s.length) :
    IsTag k d (s ++ t) (s.length + p) ↔ IsTag k d t p := by
  induction p using Nat.strong_induction_on with
  | _ p ih =>
    rw [isTag_iff, isTag_iff (p := p), List.drop_length_add_append]
    refine and_congr_right fun _ => ⟨fun h q hq htag => ?_, fun h q hq htag => ?_⟩
    · have hle := h (s.length + q) (by omega) ((ih q hq).2 htag)
      rw [valueEnd_append] at hle
      omega
    · rcases Nat.lt_or_ge q s.length with hlt | hge
      · exact (hended q hlt htag).trans (Nat.le_add_right _ _)
      · obtain ⟨q, rfl⟩ : ∃ q', q = s.length + q' := ⟨q - s.length, by omega⟩
        rw [valueEnd_append]
        have hle := h q (by omega) ((ih q (by omega)).1 htag)
        omega

/-! ## The first tag -/

section First

theorem valueAt_first (a : List α) (hw : d ∉ w) : valueAt k d (a ++ (k ++ (w ++ d :: b))) a.length = w := by
  unfold valueAt
  rw [List.drop_length_add_append, List.drop_left]
  have hall : ∀ x ∈ w, decide (x ≠ d) = true := fun x hx => decide_eq_true fun heq => hw (heq ▸ hx)
  rw [List.takeWhile_append_of_pos hall]
  simp

theorem valueEnd_first (a : List α) (hw : d ∉ w) :
    valueEnd k d (a ++ (k ++ (w ++ d :: b))) a.length = (a ++ (k ++ w)).length := by
  unfold valueEnd
  rw [valueAt_first a hw, List.length_append, List.length_append]
  omega

variable (hfind : find k (a ++ (k ++ (w ++ d :: b))) = some a.length) (hw : d ∉ w)
include hfind

theorem not_isTag_before (hp : p < a.length) : ¬ IsTag k d (a ++ (k ++ (w ++ d :: b))) p :=
  fun h => (find_eq_some hfind).2.2 p hp (isTag_iff.1 h).1

theorem isTag_first : IsTag k d (a ++ (k ++ (w ++ d :: b))) a.length :=
  isTag_iff.2 ⟨(find_eq_some hfind).2.1, fun _ hq h => absurd h (not_isTag_before hfind hq)⟩

include hw

/-- the tags are the first one and those behind its value -/
theorem isTag_cons_iff :
    IsTag k d (a ++ (k ++ (w ++ d :: b))) p ↔
      p = a.length ∨ ∃ q, p = (a ++ (k ++ w)).length + q ∧ IsTag k d (d :: b) q := by
  have hsplit : a ++ (k ++ (w ++ d :: b)) = (a ++ (k ++ w)) ++ d :: b := by simp
  have hinside : ∀ q < (a ++ (k ++ w)).length, IsTag k d (a ++ (k ++ (w ++ d :: b))) q → q = a.length := by
    intro q hq htag
    rcases Nat.lt_trichotomy q a.length with hlt | heq | hgt
    · exact absurd htag (not_isTag_before hfind hlt)
    · exact heq
    · have hle := (isTag_iff.1 htag).2 a.length hgt (isTag_first hfind)
      rw [valueEnd_first a hw] at hle
      omega
  have hended : ∀ q < (a ++ (k ++ w)).length, IsTag k d ((a ++ (k ++ w)) ++ d :: b) q →
      valueEnd k d ((a ++ (k ++ w)) ++ d :: b) q ≤ (a ++ (k ++ w)).length := by
    intro q hq htag
    rw [← hsplit] at htag ⊢
    rw [hinside q hq htag, valueEnd_first a hw]
  constructor
  · intro htag
    rcases Nat.lt_or_ge p (a ++ (k ++ w)).length with hlt | hge
    · exact .inl (hinside p hlt htag)
    · obtain ⟨q, rfl⟩ : ∃ q, p = (a ++ (k ++ w)).length + q := ⟨p - (a ++ (k ++ w)).length, by omega⟩
      rw [hsplit] at htag
      exact .inr ⟨q, rfl, (isTag_append hended).1 htag⟩
  · rintro (rfl | ⟨q, rfl, htag⟩)
    · exact isTag_first hfind
    · rw [hsplit]
      exact (isTag_append hended).2 htag

end First

/-! ## Values -/

/-- **The values are those of the tags.** -/
theorem Values.tags (hk : k ≠ []) (h : Values k d t vs) :
    ∃ ps : List ℕ, ps.Pairwise (· < ·) ∧ (∀ p, p ∈ ps ↔ IsTag k d t p) ∧ vs = ps.map (valueAt k d t) := by
  induction h with
  | @none t hnot =>
    refine ⟨[], List.Pairwise.nil, fun p => iff_of_false List.not_mem_nil fun htag => hnot ?_, rfl⟩
    exact (isTag_iff.1 htag).1.isInfix.trans (List.drop_suffix p t).isInfix
  | @tag a w b vs hfind hw _ ih =>
    obtain ⟨ps, hsorted, hmem, rfl⟩ := ih
    have hsplit : a ++ (k ++ (w ++ d :: b)) = (a ++ (k ++ w)) ++ d :: b := by simp
    refine ⟨a.length :: ps.map ((a ++ (k ++ w)).length + ·), ?_, fun p => ?_, ?_⟩
    · refine List.Pairwise.cons (fun p hp => ?_) (hsorted.map _ fun x y hxy => Nat.add_lt_add_left hxy _)
      -- the first tag is not one of those behind its value
      obtain ⟨q, hq, rfl⟩ := List.mem_map.1 hp
      have hpos := List.length_pos_iff.2 hk
      simp only [List.length_append]
      omega
    · rw [isTag_cons_iff hfind hw, List.mem_cons, List.mem_map]
      refine or_congr_right ⟨?_, ?_⟩
      · rintro ⟨q, hq, rfl⟩
        exact ⟨q, rfl, (hmem q).1 hq⟩
      · rintro ⟨q, rfl, hq⟩
        exact ⟨q, (hmem q).2 hq, rfl⟩
    · rw [List.map_cons, valueAt_first a hw, List.map_map]
      congr 1
      refine List.map_congr_left fun q _ => ?_
      rw [Function.comp_apply, hsplit, valueAt_append]

/-- every value that is left open is missing a delimiter; by induction on the length of the text -/
theorem values_exist (hk : k ≠ []) (t : List α) (hclosed : ∀ a b, t = a ++ (k ++ b) → d ∈ b) : ∃ vs, Values k d t vs := by
  induction hn : t.length using Nat.strong_induction_on generalizing t with
  | _ n ih =>
    cases hfind : find k t with
    | none => exact ⟨[], .none (find_eq_none.1 hfind)⟩
    | some i =>
      obtain ⟨hlen, ⟨r, hr⟩, -⟩ := find_eq_some hfind
      have hsplit : t = t.take i ++ (k ++ r) := by rw [hr, List.take_append_drop]
      have hlength : (t.take i).length = i := List.length_take_of_le hlen
      obtain ⟨w, b, hb, hw⟩ := List.eq_append_cons_of_mem (hclosed _ r hsplit)
      subst hb
      have hclosed' : ∀ a c, d :: b = a ++ (k ++ c) → d ∈ c := by
        intro a c hac
        refine hclosed (t.take i ++ (k ++ (w ++ a))) c ?_
        conv_lhs => rw [hsplit, hac]
        simp
      have hshort : (d :: b).length < n := by
        have hpos := List.length_pos_iff.2 hk
        rw [← hn, hsplit]
        simp only [List.length_append]
        omega
      obtain ⟨vs, hvs⟩ := ih _ hshort (d :: b) hclosed' rfl
      refine ⟨w :: vs, ?_⟩
      rw [hsplit]
      exact .tag (by rw [← hsplit, hfind, hlength]) hw hvs

end Rubbos.Core
