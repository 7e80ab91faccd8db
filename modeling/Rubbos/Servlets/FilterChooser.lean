/-
The options of the filter that `displayFilterChooser` prints (`Comment.java`).

The loop over the groups counts up to the rating of a group, at most to 6, and prints the ratings it passes without comments.
The loop behind it prints the ratings that are left, and marks none of them. A group below -1 makes the first loop pass all
ratings; one with the rating 6 is printed when the count has reached 6.

- `Prints`: a text that is the options of a list, and `prints_unique`: of one list only.
- `prints_shown`, `prints_left`: the options that the loops print.
- `chooser_iff`: when they are the ratings from -1 to 5 with the counts of their groups, the filter marked.

Counterexample `filter_not_marked`: a filter above all groups.
-/
import Rubbos.Servlets.CommentPages

namespace Rubbos.Servlets.FilterChooser

open Rubbos.Core Html CommentPages

/-! ## Options -/

structure Choice where
  rating : ℤ
  selected : Bool
  count : ℤ
deriving DecidableEq

/-- the text of one option -/
inductive Reads : Choice → Text → Prop
  | counted (selected : Bool) (rating count : ℤ) : Reads ⟨rating, selected, count⟩ (render (commentsOption selected rating count))
  | without (selected : Bool) (rating : ℤ) : Reads ⟨rating, selected, 0⟩ (render (noCommentOption selected rating))

/-- the text of a list of options -/
inductive Prints : List Choice → Text → Prop
  | nil : Prints [] []
  | cons {c : Choice} {cs : List Choice} {t u : Text} (h : Reads c t) (hs : Prints cs u) : Prints (c :: cs) (t ++ u)

/-- how many comments the groups have for a rating -/
def groupCount (groups : List (ℤ × ℤ)) (r : ℤ) : ℤ := (groups.lookup r).getD 0

/-- the option of a rating -/
def choice (filter : ℤ) (groups : List (ℤ × ℤ)) (r : ℤ) : Choice := ⟨r, r = filter, groupCount groups r⟩

/-- the ratings from i on, below j -/
def ratings (i j : ℤ) : List ℤ := (List.range (j - i).toNat).map fun n : ℕ => i + n

/-! ## Reading options back -/

def optionText (selected : Bool) : Text := if selected then "<OPTION selected value=\"".toList else "<OPTION value=\"".toList

theorem render_optionStart (selected : Bool) (i : ℤ) (d : Doc) :
    render (optionStart selected i ++ d) = optionText selected ++ (longText i ++ '"' :: '>' :: render d) := by
  have hquote : ∀ t : Text, (longText i ++ "\">".toList) ++ t = longText i ++ '"' :: '>' :: t := fun t => List.append_assoc _ _ t
  rw [← hquote]
  cases selected <;> rfl

/-- the text of an option with the word behind its count -/
theorem reads_line {c : Choice} {t : Text} (h : Reads c t) :
    ∃ word ∈ ["comment</OPTION>\n\n".toList, "comments</OPTION>\n\n".toList],
      t = optionText c.selected ++ (longText c.rating ++ '"' :: '>' :: (longText c.rating ++ ':' :: ' ' ::
        (longText c.count ++ ' ' :: word))) := by
  cases h with
  | counted selected rating count =>
    refine ⟨_, List.mem_cons_of_mem _ List.mem_cons_self, ?_⟩
    have hrest : render [num rating ": ", num count " comments</OPTION>\n\n"] =
        (longText rating ++ ": ".toList) ++ ((longText count ++ " comments</OPTION>\n\n".toList) ++ []) := rfl
    rw [commentsOption, render_optionStart, hrest, List.append_nil, List.append_assoc]
    rfl
  | without selected rating =>
    refine ⟨_, List.mem_cons_self, ?_⟩
    have hrest : render [num rating ": 0 comment</OPTION>\n\n"] =
        (longText rating ++ ": 0 comment</OPTION>\n\n".toList) ++ [] := rfl
    have hzero : longText 0 = ['0'] := by decide
    rw [noCommentOption, render_optionStart, hrest, List.append_nil, hzero]
    rfl

theorem reads_ne_nil {c : Choice} {t : Text} (h : Reads c t) : t ≠ [] := by
  obtain ⟨word, -, rfl⟩ := reads_line h
  simp

theorem optionText_inj {s s' : Bool} {u u' : Text} (h : optionText s ++ u = optionText s' ++ u') : s = s' ∧ u = u' := by
  cases s <;> cases s'
  · exact ⟨rfl, List.append_cancel_left h⟩
  · simp [optionText] at h
  · simp [optionText] at h
  · exact ⟨rfl, List.append_cancel_left h⟩

theorem word_inj {word word' u u' : Text} (h : word ∈ ["comment</OPTION>\n\n".toList, "comments</OPTION>\n\n".toList])
    (h' : word' ∈ ["comment</OPTION>\n\n".toList, "comments</OPTION>\n\n".toList]) (heq : word ++ u = word' ++ u') : u = u' := by
  simp only [List.mem_cons, List.not_mem_nil, or_false] at h h'
  rcases h with rfl | rfl <;> rcases h' with rfl | rfl
  · exact List.append_cancel_left heq
  · simp at heq
  · simp at heq
  · exact List.append_cancel_left heq

/-- the first option of a text, and what follows it -/
theorem reads_append_inj {c c' : Choice} {t t' u u' : Text} (h : Reads c t) (h' : Reads c' t') (heq : t ++ u = t' ++ u') :
    c = c' ∧ u = u' := by
  obtain ⟨rating, selected, count⟩ := c
  obtain ⟨rating', selected', count'⟩ := c'
  obtain ⟨word, hword, rfl⟩ := reads_line h
  obtain ⟨word', hword', rfl⟩ := reads_line h'
  simp only [List.append_assoc, List.cons_append] at heq
  obtain ⟨hselected, hline⟩ := optionText_inj heq
  obtain ⟨hrating, htail⟩ := append_cons_inj_left (notMem_longText (by decide)) (notMem_longText (by decide)) hline
  obtain rfl := longText_injective hrating
  have hcolon := List.append_cancel_left (List.cons.inj htail).2
  obtain ⟨hcount, hends⟩ := append_cons_inj_left (notMem_longText (by decide)) (notMem_longText (by decide))
    (List.cons.inj (List.cons.inj hcolon).2).2
  obtain rfl := longText_injective hcount
  exact ⟨by rw [show selected = selected' from hselected], word_inj hword hword' hends⟩

/-- a text is the options of one list at most -/
theorem prints_unique {cs cs' : List Choice} {t : Text} (h : Prints cs t) (h' : Prints cs' t) : cs = cs' := by
  induction h generalizing cs' with
  | nil =>
    generalize hnil : ([] : Text) = t at h'
    cases h' with
    | nil => rfl
    | cons hc _ => exact absurd (List.append_eq_nil_iff.1 hnil.symm).1 (reads_ne_nil hc)
  | @cons c cs t u hc _ ih =>
    generalize heq : t ++ u = v at h'
    cases h' with
    | nil => exact absurd (List.append_eq_nil_iff.1 heq).1 (reads_ne_nil hc)
    | cons hc' hs' =>
      obtain ⟨rfl, rfl⟩ := reads_append_inj hc hc' heq
      rw [ih hs']

theorem Prints.append {cs cs' : List Choice} {t t' : Text} (h : Prints cs t) (h' : Prints cs' t') :
    Prints (cs ++ cs') (t ++ t') := by
  induction h with
  | nil => exact h'
  | cons hc _ ih =>
    rw [List.append_assoc]
    exact .cons hc ih

/-! ## Ratings -/

variable {filter i j k r rating count : ℤ} {groups : List (ℤ × ℤ)}

theorem mem_ratings : r ∈ ratings i j ↔ i ≤ r ∧ r < j := by
  simp only [ratings, List.mem_map, List.mem_range]
  constructor
  · rintro ⟨n, hn, rfl⟩
    omega
  · rintro ⟨hi, hj⟩
    exact ⟨(r - i).toNat, by omega, by omega⟩

theorem ratings_self (h : j ≤ i) : ratings i j = [] :=
  List.eq_nil_iff_forall_not_mem.2 fun r hr => by
    have := mem_ratings.1 hr
    omega

theorem ratings_append (hij : i ≤ j) (hjk : j ≤ k) : ratings i j ++ ratings j k = ratings i k := by
  have hlen : (k - i).toNat = (j - i).toNat + (k - j).toNat := by omega
  unfold ratings
  rw [hlen, List.range_add, List.map_append, List.map_map]
  congr 1
  refine List.map_congr_left fun n _ => ?_
  rw [Function.comp_apply]
  push_cast
  omega

theorem ratings_cons (h : i < j) : ratings i j = i :: ratings (i + 1) j := by
  rw [← ratings_append (by omega : i ≤ i + 1) (by omega : i + 1 ≤ j)]
  simp [ratings]

theorem groupCount_eq_zero (h : ∀ g ∈ groups, g.1 ≠ r) : groupCount groups r = 0 := by
  have hnone : groups.lookup r = none := List.lookup_eq_none_iff.2 fun g hg => by
    rw [bne_iff_ne]
    exact (h g hg).symm
  rw [groupCount, hnone]
  rfl

@[simp] theorem groupCount_self : groupCount ((r, count) :: groups) r = count := by
  simp [groupCount]

theorem groupCount_of_ne (h : r ≠ rating) : groupCount ((rating, count) :: groups) r = groupCount groups r := by
  have hbeq : (r == rating) = false := beq_eq_false_iff_ne.2 h
  simp only [groupCount, List.lookup_cons, hbeq]

/-- a rating whose groups all have no comments -/
theorem groupCount_of_forall (h : ∀ g ∈ groups, g.1 = r → g.2 = 0) : groupCount groups r = 0 := by
  induction groups with
  | nil => rfl
  | cons g groups ih =>
    obtain ⟨rating, count⟩ := g
    obtain ⟨hhere, hrest⟩ := List.forall_mem_cons.1 h
    by_cases hr : r = rating
    · subst hr
      rw [groupCount_self]
      exact hhere rfl
    · rw [groupCount_of_ne hr, ih hrest]

/-- the count of a group, where no two have the same rating -/
theorem groupCount_of_mem (hsorted : groups.Pairwise fun g h => g.1 < h.1) {g : ℤ × ℤ} (hg : g ∈ groups) :
    groupCount groups g.1 = g.2 := by
  induction groups with
  | nil => cases hg
  | cons first groups ih =>
    obtain ⟨hlt, hgroups⟩ := List.pairwise_cons.1 hsorted
    rcases List.mem_cons.1 hg with rfl | hg
    · exact groupCount_self
    · rw [groupCount_of_ne (ne_of_gt (hlt g hg)), ih hgroups hg]

/-! ## The loops -/

/-- the option of a rating that is passed -/
def passed (filter r : ℤ) : Choice := ⟨r, r = filter, 0⟩

/-- the option of a rating that is left -/
def left (r : ℤ) : Choice := ⟨r, false, 0⟩

/-- where the inner loop ends -/
def reached (rating i : ℤ) : ℤ := if i ≤ rating ∧ rating < 6 then rating else max i 6

/-- the options that the loop over the groups prints, and the next rating -/
def shown (filter : ℤ) : List (ℤ × ℤ) → (i : ℤ) → List Choice × ℤ
  | [], i => ([], i)
  | (rating, count) :: groups, i =>
    let j := reached rating i
    if rating = j then
      let r := shown filter groups (j + 1)
      ((ratings i j).map (passed filter) ++ ⟨j, j = filter, count⟩ :: r.1, r.2)
    else
      let r := shown filter groups j
      ((ratings i j).map (passed filter) ++ r.1, r.2)

theorem render_append (a b : Doc) : render (a ++ b) = render a ++ render b := Print.render_append

theorem prints_optionsTo (filter rating i : ℤ) :
    (optionsTo filter rating i).2 = reached rating i ∧
      Prints ((ratings i (reached rating i)).map (passed filter)) (render (optionsTo filter rating i).1) := by
  fun_induction optionsTo filter rating i with
  | case1 i h r ih =>
    obtain ⟨hreached, hprints⟩ := ih
    have hnext : reached rating (i + 1) = reached rating i := by
      unfold reached
      split_ifs <;> omega
    have hlt : i < reached rating i := by
      unfold reached
      split_ifs <;> omega
    refine ⟨hreached.trans hnext, ?_⟩
    rw [ratings_cons hlt, List.map_cons, render_append, ← hnext]
    exact .cons (.without _ _) hprints
  | case2 i h =>
    have hend : reached rating i = i := by
      unfold reached
      split_ifs <;> omega
    refine ⟨hend.symm, ?_⟩
    rw [hend, ratings_self le_rfl]
    exact .nil

/-- the options that the loop over the groups prints; by induction on the groups -/
theorem prints_shown (filter : ℤ) (groups : List (ℤ × ℤ)) (i : ℤ) :
    (ratingOptions filter groups i).2 = (shown filter groups i).2 ∧
      Prints (shown filter groups i).1 (render (ratingOptions filter groups i).1) := by
  induction groups generalizing i with
  | nil => exact ⟨rfl, .nil⟩
  | cons g groups ih =>
    obtain ⟨rating, count⟩ := g
    obtain ⟨hreached, hpassed⟩ := prints_optionsTo filter rating i
    simp only [ratingOptions, shown, hreached]
    by_cases h : rating = reached rating i
    · obtain ⟨hnext, hprints⟩ := ih (reached rating i + 1)
      rw [if_pos h, if_pos h]
      refine ⟨hnext, ?_⟩
      rw [render_append, render_append, List.append_assoc]
      exact hpassed.append (.cons (.counted _ _ _) hprints)
    · obtain ⟨hnext, hprints⟩ := ih (reached rating i)
      rw [if_neg h, if_neg h]
      refine ⟨hnext, ?_⟩
      rw [render_append]
      exact hpassed.append hprints

theorem prints_left (i : ℤ) : Prints ((ratings i 6).map left) (render (optionsLeft i)) := by
  fun_induction optionsLeft i with
  | case1 i h ih =>
    rw [ratings_cons h, List.map_cons, render_append]
    exact .cons (.without _ _) ih
  | case2 i h =>
    rw [ratings_self (by omega)]
    exact .nil

/-! ## What the loop over the groups shows -/

/-- the groups come in the order of their ratings -/
abbrev Ascending (groups : List (ℤ × ℤ)) : Prop := groups.Pairwise fun g h => g.1 < h.1

/-- when all ratings have been passed, nothing more is shown -/
theorem shown_six (h : ∀ g ∈ groups, g.1 ≠ 6) : shown filter groups 6 = ([], 6) := by
  induction groups with
  | nil => rfl
  | cons g groups ih =>
    obtain ⟨rating, count⟩ := g
    obtain ⟨hne, hgroups⟩ := List.forall_mem_cons.1 h
    have hreached : reached rating 6 = 6 := by
      unfold reached
      split_ifs <;> omega
    simp only [shown, hreached, if_neg hne, ratings_self le_rfl, ih hgroups]
    rfl

/-- a group with the rating 6 is shown -/
theorem six_shown (filter : ℤ) (hsorted : Ascending groups) (hi : i ≤ 6) (h : ∃ g ∈ groups, g.1 = 6) :
    ∃ c ∈ (shown filter groups i).1, c.rating = 6 := by
  induction groups generalizing i with
  | nil =>
    obtain ⟨g, hg, -⟩ := h
    cases hg
  | cons g groups ih =>
    obtain ⟨rating, count⟩ := g
    obtain ⟨hlt, hgroups⟩ := List.pairwise_cons.1 hsorted
    simp only [shown]
    obtain ⟨g, hg, h6⟩ := h
    rcases List.mem_cons.1 hg with rfl | hg
    · have hreached : reached rating i = 6 := by
        unfold reached
        split_ifs <;> omega
      rw [hreached, if_pos h6]
      exact ⟨_, List.mem_append_right _ List.mem_cons_self, rfl⟩
    · have hrating : rating < 6 := h6 ▸ hlt g hg
      by_cases heq : rating = reached rating i
      · obtain ⟨c, hc, h6'⟩ := ih hgroups (i := reached rating i + 1) (by omega) ⟨g, hg, h6⟩
        rw [if_pos heq]
        exact ⟨c, List.mem_append_right _ (List.mem_cons_of_mem _ hc), h6'⟩
      · have hle : reached rating i ≤ 6 := by
          unfold reached
          split_ifs <;> omega
        obtain ⟨c, hc, h6'⟩ := ih hgroups hle ⟨g, hg, h6⟩
        rw [if_neg heq]
        exact ⟨c, List.mem_append_right _ hc, h6'⟩

/-- in front of the next group, a rating has no comments -/
theorem passed_eq_choice (h : ∀ r, i ≤ r → r < j → ∀ g ∈ groups, g.1 ≠ r) :
    (ratings i j).map (passed filter) = (ratings i j).map (choice filter groups) := by
  refine List.map_congr_left fun r hr => ?_
  obtain ⟨hi, hj⟩ := mem_ratings.1 hr
  rw [passed, choice, groupCount_eq_zero (h r hi hj)]

/-- groups that are not below the next rating: the ratings up to the last group are shown as they are; by induction on the
groups -/
theorem shown_ascending (filter : ℤ) (hsorted : Ascending groups) (hge : ∀ g ∈ groups, i ≤ g.1) (hi : i ≤ 6)
    (hsix : ∀ g ∈ groups, g.1 ≠ 6) :
    ∃ j, i ≤ j ∧ j ≤ 6 ∧ shown filter groups i = ((ratings i j).map (choice filter groups), j) ∧
      ∀ r, i ≤ r → r < 6 → (r < j ↔ ∃ g ∈ groups, r ≤ g.1) := by
  induction groups generalizing i with
  | nil =>
    refine ⟨i, le_rfl, hi, by rw [ratings_self le_rfl]; rfl, fun r hr _ => ?_⟩
    exact iff_of_false (by omega) fun ⟨g, hg, _⟩ => by cases hg
  | cons g groups ih =>
    obtain ⟨rating, count⟩ := g
    obtain ⟨hlt, hgroups⟩ := List.pairwise_cons.1 hsorted
    obtain ⟨hrating, -⟩ := List.forall_mem_cons.1 hge
    obtain ⟨hne, hsix⟩ := List.forall_mem_cons.1 hsix
    simp only at hlt hrating hne
    by_cases h6 : rating < 6
    · have hreached : reached rating i = rating := if_pos ⟨hrating, h6⟩
      obtain ⟨j, hij, hj, hshown, hiff⟩ := ih hgroups (i := rating + 1) (fun g hg => hlt g hg) (by omega) hsix
      refine ⟨j, by omega, hj, ?_, fun r hr hr6 => ?_⟩
      · have hpassed : (ratings i rating).map (passed filter) =
            (ratings i rating).map (choice filter ((rating, count) :: groups)) := by
          refine passed_eq_choice fun r _ hr g hg => ?_
          rcases List.mem_cons.1 hg with rfl | hg
          · exact (ne_of_gt hr)
          · exact (ne_of_gt (hr.trans (hlt g hg)))
        have hrest : (ratings (rating + 1) j).map (choice filter groups) =
            (ratings (rating + 1) j).map (choice filter ((rating, count) :: groups)) := by
          refine List.map_congr_left fun r hr => ?_
          have hlt := (mem_ratings.1 hr).1
          rw [choice, choice, groupCount_of_ne (by omega)]
        have hhere : (⟨rating, rating = filter, count⟩ : Choice) = choice filter ((rating, count) :: groups) rating := by
          rw [choice, groupCount_self]
        simp only [shown, hreached, if_true, hshown]
        rw [hpassed, hrest, hhere, ← List.map_cons, ← ratings_cons (by omega), ← List.map_append,
          ratings_append hrating (by omega)]
      · rcases Int.lt_or_le rating r with hgt | hle
        · rw [hiff r (by omega) hr6]
          constructor
          · rintro ⟨g, hg, hle⟩
            exact ⟨g, List.mem_cons_of_mem _ hg, hle⟩
          · rintro ⟨g, hg, hle⟩
            rcases List.mem_cons.1 hg with rfl | hg
            · exact absurd hle (by omega)
            · exact ⟨g, hg, hle⟩
        · exact iff_of_true (by omega) ⟨_, List.mem_cons_self, hle⟩
    · have hreached : reached rating i = 6 := by
        unfold reached
        split_ifs <;> omega
      refine ⟨6, hi, le_rfl, ?_, fun r _ hr6 => iff_of_true hr6 ⟨_, List.mem_cons_self, by omega⟩⟩
      have hpassed : (ratings i 6).map (passed filter) = (ratings i 6).map (choice filter ((rating, count) :: groups)) := by
        refine passed_eq_choice fun r _ hr g hg => ?_
        rcases List.mem_cons.1 hg with rfl | hg
        · simp only
          omega
        · have := hlt g hg
          omega
      simp only [shown, hreached, if_neg hne, shown_six hsix, List.append_nil, hpassed]

/-- a first group below -1: all ratings are shown without comments -/
theorem shown_below (hbelow : rating < -1) (hsix : ∀ g ∈ groups, g.1 ≠ 6) :
    shown filter ((rating, count) :: groups) (-1) = ((ratings (-1) 6).map (passed filter), 6) := by
  have hreached : reached rating (-1) = 6 := by
    unfold reached
    split_ifs <;> omega
  have hne : rating ≠ 6 := by omega
  simp only [shown, hreached, if_neg hne, shown_six hsix, List.append_nil]

/-! ## The page -/

/-- no group with the rating 6; no group below -1, or only groups without comments from -1 to 5; and a group below -1, or one
that is not below the filter -/
def Chooses (filter : ℤ) (groups : List (ℤ × ℤ)) : Prop :=
  (∀ g ∈ groups, g.1 ≠ 6) ∧ ((∀ g ∈ groups, -1 ≤ g.1) ∨ ∀ g ∈ groups, -1 ≤ g.1 → g.1 < 6 → g.2 = 0) ∧
    ∃ g ∈ groups, g.1 < -1 ∨ filter ≤ g.1

instance (filter : ℤ) (groups : List (ℤ × ℤ)) : Decidable (Chooses filter groups) := by
  unfold Chooses
  infer_instance

/-- all options that the loops print -/
def printed (filter : ℤ) (groups : List (ℤ × ℤ)) : List Choice :=
  (shown filter groups (-1)).1 ++ (ratings (shown filter groups (-1)).2 6).map left

/-- one option for each rating -/
def expected (filter : ℤ) (groups : List (ℤ × ℤ)) : List Choice := (ratings (-1) 6).map (choice filter groups)

theorem map_congr_iff {f g : ℤ → Choice} : (ratings i j).map f = (ratings i j).map g ↔ ∀ r, i ≤ r → r < j → f r = g r := by
  rw [List.map_inj_left]
  exact forall_congr' fun r => by rw [mem_ratings, and_imp]

/-- groups from -1 on: only the mark of the filter can be missing -/
theorem printed_ascending_iff (hsorted : Ascending groups) (hge : ∀ g ∈ groups, -1 ≤ g.1) (hsix : ∀ g ∈ groups, g.1 ≠ 6)
    (hfilter : -1 ≤ filter ∧ filter < 6) : printed filter groups = expected filter groups ↔ ∃ g ∈ groups, filter ≤ g.1 := by
  obtain ⟨j, hij, hj, hshown, hiff⟩ := shown_ascending filter hsorted hge (by omega) hsix
  have hnone : ∀ r, j ≤ r → r < 6 → groupCount groups r = 0 := fun r hr hr6 =>
    groupCount_eq_zero fun g hg heq => absurd ((hiff r (by omega) hr6).2 ⟨g, hg, heq.ge⟩) (by omega)
  rw [printed, expected, hshown, ← ratings_append hij hj, List.map_append, List.append_cancel_left_eq, map_congr_iff,
    ← hiff filter hfilter.1 hfilter.2]
  constructor
  · intro h
    by_contra hle
    have hmark := congrArg Choice.selected (h filter (by omega) hfilter.2)
    simp [left, choice] at hmark
  · intro hlt r hr hr6
    have hne : r ≠ filter := by omega
    simp [left, choice, hne, hnone r hr hr6]

/-- a group below -1: the counts are missing -/
theorem printed_below_iff (hsorted : Ascending ((rating, count) :: groups)) (hbelow : rating < -1)
    (hsix : ∀ g ∈ groups, g.1 ≠ 6) :
    printed filter ((rating, count) :: groups) = expected filter ((rating, count) :: groups) ↔
      ∀ g ∈ groups, -1 ≤ g.1 → g.1 < 6 → g.2 = 0 := by
  obtain ⟨-, hgroups⟩ := List.pairwise_cons.1 hsorted
  rw [printed, expected, shown_below hbelow hsix, ratings_self le_rfl, List.map_nil, List.append_nil, map_congr_iff]
  have hcount : ∀ r, -1 ≤ r → groupCount ((rating, count) :: groups) r = groupCount groups r :=
    fun r hr => groupCount_of_ne (by omega)
  constructor
  · intro h g hg hlow hhigh
    have hzero := congrArg Choice.count (h g.1 hlow hhigh)
    simp only [passed, choice, hcount g.1 hlow, groupCount_of_mem hgroups hg] at hzero
    exact hzero.symm
  · intro h r hlow hhigh
    have hzero : groupCount groups r = 0 := groupCount_of_forall fun g hg heq => h g hg (by omega) (by omega)
    rw [passed, choice, hcount r hlow, hzero]

theorem printed_iff (hsorted : Ascending groups) (hfilter : -1 ≤ filter ∧ filter < 6) :
    printed filter groups = expected filter groups ↔ Chooses filter groups := by
  by_cases hsix : ∃ g ∈ groups, g.1 = 6
  · refine iff_of_false (fun heq => ?_) fun h => ?_
    · obtain ⟨c, hc, h6⟩ := six_shown filter hsorted (by omega : (-1 : ℤ) ≤ 6) hsix
      have hmem : c ∈ expected filter groups := heq ▸ List.mem_append_left _ hc
      obtain ⟨r, hr, rfl⟩ := List.mem_map.1 hmem
      have hlt := (mem_ratings.1 hr).2
      simp only [choice] at h6
      omega
    · obtain ⟨g, hg, h6⟩ := hsix
      exact h.1 g hg h6
  · have hne : ∀ g ∈ groups, g.1 ≠ 6 := fun g hg h6 => hsix ⟨g, hg, h6⟩
    by_cases hlow : ∀ g ∈ groups, -1 ≤ g.1
    · rw [printed_ascending_iff hsorted hlow hne hfilter]
      constructor
      · rintro ⟨g, hg, hle⟩
        exact ⟨hne, .inl hlow, g, hg, .inr hle⟩
      · rintro ⟨-, -, g, hg, hlt | hle⟩
        · exact absurd (hlow g hg) (by omega)
        · exact ⟨g, hg, hle⟩
    · obtain ⟨g, hg, hlt⟩ : ∃ g ∈ groups, g.1 < -1 := by
        by_contra h
        exact hlow fun g hg => by
          by_contra hlt
          exact h ⟨g, hg, by omega⟩
      cases groups with
      | nil => cases hg
      | cons first groups =>
        obtain ⟨rating, count⟩ := first
        have hfirst : rating < -1 := by
          rcases List.mem_cons.1 hg with rfl | hg
          · exact hlt
          · exact ((List.pairwise_cons.1 hsorted).1 g hg).trans hlt
        rw [printed_below_iff hsorted hfirst (List.forall_mem_cons.1 hne).2]
        constructor
        · intro h
          refine ⟨hne, .inr (List.forall_mem_cons.2 ⟨fun h => absurd h (by omega), h⟩), _, List.mem_cons_self, .inl hfirst⟩
        · rintro ⟨-, h | h, -⟩
          · exact absurd (h _ List.mem_cons_self) (by omega)
          · exact (List.forall_mem_cons.1 h).2

/-- the page shows one option for each rating -/
def ShowsRatings (commentId : JInt) (storyId : IntText) (commentTable : TableName) (display filter : JInt)
    (groups : List (ℤ × ℤ)) : Prop :=
  ∃ options, displayFilterChooser commentId storyId commentTable display filter ⟨groups, none⟩ =
      (chooserHead commentId storyId commentTable ++ options ++ chooserTail display, none) ∧
    Prints (expected filter.value groups) (render options)

theorem showsRatings_iff {commentId : JInt} {storyId : IntText} {commentTable : TableName} {display filter : JInt} :
    ShowsRatings commentId storyId commentTable display filter groups ↔
      printed filter.value groups = expected filter.value groups := by
  obtain ⟨hend, hprints⟩ := prints_shown filter.value groups (-1)
  have hall : Prints (printed filter.value groups)
      (render ((ratingOptions filter.value groups (-1)).1 ++ optionsLeft (ratingOptions filter.value groups (-1)).2)) := by
    rw [render_append, hend]
    exact hprints.append (prints_left _)
  constructor
  · rintro ⟨options, hpage, hexpected⟩
    have hdoc := (Prod.mk.inj hpage).1
    rw [List.append_cancel_right_eq, List.append_assoc, List.append_cancel_left_eq] at hdoc
    change (ratingOptions filter.value groups (-1)).1 ++ optionsLeft (ratingOptions filter.value groups (-1)).2 = options at hdoc
    exact prints_unique hall (hdoc ▸ hexpected)
  · intro heq
    refine ⟨_, ?_, heq ▸ hall⟩
    rw [← List.append_assoc]
    rfl

/-- **When the options are right.** For groups in the order of their ratings and a filter from -1 to 5, the page shows each
rating from -1 to 5 once, with the count of its group, and marks the filter, exactly if `Chooses`. -/
theorem chooser_iff (commentId : JInt) (storyId : IntText) (commentTable : TableName) (display filter : JInt)
    (groups : List (ℤ × ℤ)) (hsorted : Ascending groups) (hfilter : -1 ≤ filter.value ∧ filter.value ≤ 5) :
    ShowsRatings commentId storyId commentTable display filter groups ↔ Chooses filter.value groups :=
  showsRatings_iff.trans (printed_iff hsorted ⟨hfilter.1, by omega⟩)

theorem isInt_zero : -2 ^ 31 ≤ (0 : ℤ) ∧ (0 : ℤ) < 2 ^ 31 := by decide

def zero : JInt := ⟨0, isInt_zero⟩

def two : JInt := ⟨2, by decide⟩

/-- comments with the ratings 0 and 3, and the filter between them -/
theorem filter_marked : ShowsRatings two two.printed comments zero two [(0, 4), (3, 2)] :=
  (chooser_iff two two.printed comments zero two [(0, 4), (3, 2)] (by decide) (by decide)).2 (by decide)

/-- comments with the rating 0 only, and the filter above them -/
theorem filter_not_marked :
    Ascending [(0, 4)] ∧ (-1 ≤ two.value ∧ two.value ≤ 5) ∧ ¬ ShowsRatings two two.printed comments zero two [(0, 4)] := by
  refine ⟨by decide, by decide, ?_⟩
  rw [showsRatings_iff]
  decide

end Rubbos.Servlets.FilterChooser
