/-
The occurrences of a key in a text, one behind the other.

`Occurs k s ts`: a search that goes on behind each occurrence it has found finds k so often in s, and ts are the texts that
follow the occurrences. A separator is an element that the key does not have; the occurrences in a text with a separator
in it are those in front of it and those behind it.

- `Occurs.append`: a text that is cut at a separator.
- `Occurs.enclosed`: a text with a piece in the middle that begins and ends with separators.
- `Occurs.mem_followers`: no occurrence is missed.
- `Occurs.Followed`: what follows every occurrence, put together from the pieces of a text.
- `Print.occurs_render`, `Print.followed_render`: the occurrences in a text that is printed in pieces, each with a mark behind it.
-/
import Rubbos.Core.Search

namespace Rubbos.Core

variable {α : Type} [DecidableEq α] {k a b m s t : List α} {c : α} {as bs ts : List (List α)}

inductive Occurs (k : List α) : List α → List (List α) → Prop
  | none {s : List α} (h : ¬ k <:+: s) : Occurs k s []
  | cons {s t : List α} {ts : List (List α)} (h : find k (s ++ (k ++ t)) = some s.length) (ht : Occurs k t ts) :
      Occurs k (s ++ (k ++ t)) (t :: ts)

namespace Occurs

theorem here (ht : Occurs k t ts) : Occurs k (k ++ t) (t :: ts) := by
  have hfind : find k ([] ++ (k ++ t)) = some ([] : List α).length := find_of_prefix (List.prefix_append k t)
  exact cons hfind ht

theorem append (hc : c ∉ k) (ha : Occurs k a as) (hb : Occurs k b bs) :
    Occurs k (a ++ c :: b) (as.map (· ++ c :: b) ++ bs) := by
  induction ha with
  | @none a h =>
    cases hb with
    | none h' =>
      refine none fun hab => ?_
      rcases (infix_append_cons hc).1 hab with h₁ | h₁
      · exact h h₁
      · exact h' h₁
    | @cons s t ts hfind ht =>
      have hskip : find k ((a ++ c :: s) ++ (k ++ t)) = some (a ++ c :: s).length := by
        rw [List.append_assoc, List.cons_append, find_skip hc h, hfind]
        simp only [Option.map_some, List.length_append, List.length_cons]
        congr 1
        omega
      have heq : a ++ c :: (s ++ (k ++ t)) = (a ++ c :: s) ++ (k ++ t) := by simp
      rw [heq]
      exact cons hskip ht
  | @cons s t ts hfind ht ih =>
    have heq : (s ++ (k ++ t)) ++ c :: b = s ++ (k ++ (t ++ c :: b)) := by simp
    rw [heq]
    refine cons ?_ ih
    rw [← heq]
    exact find_append_left hfind

theorem absent (h : Occurs k s []) : ¬ k <:+: s := by
  cases h with
  | none h => exact h

theorem suffix (h : Occurs k s ts) (ht : t ∈ ts) : t <:+ s := by
  induction h with
  | none h => cases ht
  | @cons s u us hfind hu ih =>
    have hsuffix : u <:+ s ++ (k ++ u) := ⟨s ++ k, List.append_assoc s k u⟩
    rcases List.mem_cons.1 ht with rfl | hmem
    · exact hsuffix
    · exact (ih hmem).trans hsuffix

theorem length_le (hk : k ≠ []) (h : Occurs k s ts) : ts.length ≤ s.length := by
  induction h with
  | none => simp
  | cons _ _ ih =>
    have := List.length_pos_of_ne_nil hk
    simp only [List.length_append, List.length_cons]
    omega

/-- a piece that begins and ends with separators and has no occurrence -/
structure Separates (k m : List α) : Prop where
  first : ∃ c ∉ k, m.head? = some c
  last : ∃ c ∉ k, m.getLast? = some c
  plain : ¬ k <:+: m

theorem enclosed (hm : Separates k m) (ha : Occurs k a as) (hb : Occurs k b bs) :
    Occurs k (a ++ (m ++ b)) (as.map (· ++ (m ++ b)) ++ bs) := by
  obtain ⟨c, hc, hfirst⟩ := hm.first
  obtain ⟨d, hd, hlast⟩ := hm.last
  rcases m with _ | ⟨x, m⟩
  · cases hfirst
  · obtain rfl : x = c := Option.some.inj hfirst
    rcases List.eq_nil_or_concat m with rfl | ⟨m, y, rfl⟩
    · exact append hc ha hb
    · rw [List.concat_eq_append, ← List.cons_append, List.getLast?_concat] at hlast
      obtain rfl : y = d := Option.some.inj hlast
      have hplain : ¬ k <:+: m := fun h => hm.plain (h.trans ⟨[x], [y], by simp⟩)
      have hmid : Occurs k (m ++ y :: b) bs := by simpa using append hd (none hplain) hb
      have heq : (x :: m.concat y) ++ b = x :: (m ++ y :: b) := by simp
      rw [heq]
      exact append hc ha hmid

/-- every text has its occurrences -/
theorem exists_occurs (hk : k ≠ []) (s : List α) : ∃ ts, Occurs k s ts := by
  induction hn : s.length using Nat.strong_induction_on generalizing s with
  | _ n ih =>
    cases hf : find k s with
    | none => exact ⟨[], .none (find_eq_none.1 hf)⟩
    | some i =>
      obtain ⟨hle, ⟨t, ht⟩, -⟩ := find_eq_some hf
      have hsplit : s = s.take i ++ (k ++ t) := by rw [ht, List.take_append_drop]
      have hlen : (s.take i).length = i := List.length_take_of_le hle
      have hlt : t.length < n := by
        have := List.length_pos_of_ne_nil hk
        rw [← hn, hsplit]
        simp only [List.length_append]
        omega
      obtain ⟨ts, hts⟩ := ih t.length hlt t rfl
      refine ⟨t :: ts, ?_⟩
      rw [hsplit]
      refine cons ?_ hts
      rw [← hsplit, hf, hlen]

/-- a key whose first element is not repeated: no occurrence is missed -/
theorem mem_followers {x : α} {k : List α} (hx : x ∉ k) (h : Occurs (x :: k) s ts) (hs : s = a ++ (x :: k ++ b)) : b ∈ ts := by
  induction h generalizing a with
  | @none s hnot => exact absurd ⟨a, b, by rw [hs, List.append_assoc]⟩ hnot
  | @cons s t ts hfind ht ih =>
    rcases List.append_eq_append_iff.1 hs with ⟨u, rfl, hu⟩ | ⟨u, rfl, hu⟩
    · rcases u with _ | ⟨y, u⟩
      · rw [List.append_cancel_left hu]
        exact List.mem_cons_self
      · -- the occurrence is not the first one, and does not begin inside of it
        rw [List.cons_append, List.cons_append, List.cons.injEq] at hu
        rcases List.append_eq_append_iff.1 hu.2 with ⟨v, rfl, hv⟩ | ⟨v, hv, hw⟩
        · exact List.mem_cons_of_mem t (ih hv)
        · rcases v with _ | ⟨z, v⟩
          · exact List.mem_cons_of_mem t (ih (a := []) hw.symm)
          · rw [List.cons_append, List.cons_append, List.cons.injEq] at hw
            exact absurd (by rw [hv, ← hw.1]; simp) hx
    · rcases u with _ | ⟨y, u⟩
      · have hbt : b = t := List.append_cancel_left (hu.trans (List.nil_append _))
        rw [hbt]
        exact List.mem_cons_self
      · have hfirst := (find_eq_some hfind).2.2 a.length (by simp)
        rw [hs, List.drop_left] at hfirst
        exact absurd (List.prefix_append _ _) hfirst

/-- every occurrence is followed by a text with a property -/
def Followed (k : List α) (P : List α → Prop) (s : List α) : Prop := ∃ ts, Occurs k s ts ∧ ∀ t ∈ ts, P t

/-- a property that a text keeps when it goes on -/
def Stable (P : List α → Prop) : Prop := ∀ t u, P t → P (t ++ u)

variable {P : List α → Prop}

theorem Followed.of_absent (h : ¬ k <:+: s) : Followed k P s := ⟨[], .none h, by simp⟩

theorem Followed.here (ht : Followed k P t) (h : P t) : Followed k P (k ++ t) := by
  obtain ⟨ts, hts, hP⟩ := ht
  exact ⟨t :: ts, .here hts, List.forall_mem_cons.2 ⟨h, hP⟩⟩

theorem Followed.enclosed (hP : Stable P) (hm : Separates k m) (ha : Followed k P a) (hb : Followed k P b) :
    Followed k P (a ++ (m ++ b)) := by
  obtain ⟨as, has, hPa⟩ := ha
  obtain ⟨bs, hbs, hPb⟩ := hb
  refine ⟨_, Occurs.enclosed hm has hbs, ?_⟩
  intro t ht
  rcases List.mem_append.1 ht with ht | ht
  · obtain ⟨u, hu, rfl⟩ := List.mem_map.1 ht
    exact hP u _ (hPa u hu)
  · exact hPb t ht

end Occurs

/-! ## Texts in pieces -/

/-- how a piece of a text is printed: something in front, and a mark behind it -/
structure Print (ι α : Type) where
  front : ι → List α
  mark : ι → List α

namespace Print

variable {ι : Type} (print : Print ι α)

def render (ps : List ι) : List α := ps.flatMap fun p => print.front p ++ print.mark p

/-- the texts behind the occurrences of a key, which are in front of the marks -/
def followers (behind : ι → List (List α)) : List ι → List (List α)
  | [] => []
  | p :: ps => (behind p).map (· ++ (print.mark p ++ print.render ps)) ++ followers behind ps

variable {print} {P : List α → Prop} {p : ι} {ps qs : List ι}

omit [DecidableEq α] in
theorem render_append : print.render (ps ++ qs) = print.render ps ++ print.render qs := List.flatMap_append

omit [DecidableEq α] in
theorem render_cons : print.render (p :: ps) = print.front p ++ (print.mark p ++ print.render ps) := by simp [render]

/-- marks that separate: each occurrence is in front of a mark -/
theorem occurs_render {behind : ι → List (List α)} (hk : k ≠ [])
    (h : ∀ p ∈ ps, Occurs k (print.front p) (behind p) ∧ Occurs.Separates k (print.mark p)) :
    Occurs k (print.render ps) (print.followers behind ps) := by
  induction ps with
  | nil => exact .none fun hnil => hk (List.infix_nil.1 hnil)
  | cons p ps ih =>
    obtain ⟨hfront, hmark⟩ := h p List.mem_cons_self
    rw [render_cons]
    exact .enclosed hmark hfront (ih fun q hq => h q (List.mem_cons_of_mem p hq))

theorem followed_render (hP : Occurs.Stable P) (hk : k ≠ [])
    (h : ∀ p ∈ ps, Occurs.Followed k P (print.front p) ∧ Occurs.Separates k (print.mark p)) :
    Occurs.Followed k P (print.render ps) := by
  induction ps with
  | nil => exact .of_absent fun hnil => hk (List.infix_nil.1 hnil)
  | cons p ps ih =>
    obtain ⟨hfront, hmark⟩ := h p List.mem_cons_self
    rw [render_cons]
    exact .enclosed hP hmark hfront (ih fun q hq => h q (List.mem_cons_of_mem p hq))

end Print

end Rubbos.Core
