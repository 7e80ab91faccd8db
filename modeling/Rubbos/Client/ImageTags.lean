/-
The images that `callHTTPServer` takes out of a reply (`UserSession.java`).

The scan looks for the second quote of a tag from the character behind the first one on, so it does not see the quote of an
empty value. Where a later quote is there it takes the text up to that one, quote and all, and goes on behind it.

- `scanImages_values`: the loop, from the position of the index on.
- `ends_images`: the loop ends on every text.
- `images_iff`: for a reply whose tags are all closed, when the images are the values of its tags.

Counterexample `empty_source`: an image without a source takes the text up to the next attribute.
-/
import Rubbos.Client.Replies
import Rubbos.Core.TaggedValues

namespace Rubbos.Client.ImageTags

open Rubbos.Core JString Links
open Replies (imageTag indexOfFrom_absent)

variable {html t w a b : Text} {vs : List Text} {q fuel : ℕ}

/-- the tags of a reply that are not inside the value of an earlier one -/
abbrev IsImage (html : Text) (p : ℕ) : Prop := IsTag imageTag '"' html p

/-- what a tag has between its quotes -/
abbrev source (html : Text) (p : ℕ) : Text := valueAt imageTag '"' html p

/-- every tag has a second quote -/
def QuotesClosed (html : Text) : Prop := ∀ a b, html = a ++ (imageTag ++ b) → '"' ∈ b

/-- the images are the sources of the tags, in order -/
def ImagesAreSources (html : Text) : Prop :=
  ∃ ps : List ℕ, ps.Pairwise (· < ·) ∧ (∀ p, p ∈ ps ↔ IsImage html p) ∧ images html = .ok (ps.map (source html))

theorem imageTag_length : imageTag.length = 10 := by decide

theorem imageTag_ne_nil : imageTag ≠ [] := List.ne_nil_of_length_pos (imageTag_length ▸ by decide)

theorem quotesClosed_iff :
    QuotesClosed html ↔ ∀ p < html.length, imageTag <+: html.drop p → '"' ∈ html.drop (p + imageTag.length) := by
  constructor
  · rintro h p - ⟨b, hb⟩
    rw [← List.drop_drop, ← hb, List.drop_left]
    exact h (html.take p) b (by rw [hb, List.take_append_drop])
  · rintro h a b rfl
    have hlt : a.length < (a ++ (imageTag ++ b)).length := by
      rw [List.length_append, List.length_append, imageTag_length]
      omega
    have hhere : imageTag <+: (a ++ (imageTag ++ b)).drop a.length := by
      rw [List.drop_left]
      exact List.prefix_append imageTag b
    have hmem := h a.length hlt hhere
    rwa [← List.drop_drop, List.drop_left, List.drop_left] at hmem

instance : Decidable (QuotesClosed html) := decidable_of_iff _ quotesClosed_iff.symm

theorem images_eq (html : Text) : images html = scanImages html (html.length + 1) (indexOfFrom html imageTag 0) := by
  rw [images, indexOf_eq_indexOfFrom]
  rfl

/-! ## One tag -/

theorem scanImages_succ (index : ℤ) :
    scanImages html (fuel + 1) index = if index = -1 then .ok [] else (do
      let name ← substring html (index + 10) (indexOfFrom html ['"'] (index + 10 + 1))
      let rest ← scanImages html fuel (indexOfFrom html imageTag (indexOfFrom html ['"'] (index + 10 + 1)))
      return name :: rest) := rfl

theorem ne_nil_of_substring {i j : ℤ} (hij : i < j) (h : substring html i j = .ok w) : w ≠ [] := by
  unfold substring at h
  split_ifs at h with hle
  cases h
  rw [← List.length_pos_iff, List.length_drop, List.length_take]
  omega

/-- one pass through the loop, at a tag that is found -/
theorem scanImages_tag (hat : At html q t) (hfind : find imageTag t = some a.length) :
    scanImages html (fuel + 1) (indexOfFrom html imageTag q) = (do
      let name ← substring html ((q + a.length : ℕ) + 10) (indexOfFrom html ['"'] ((q + a.length : ℕ) + 10 + 1))
      let rest ← scanImages html fuel (indexOfFrom html imageTag (indexOfFrom html ['"'] ((q + a.length : ℕ) + 10 + 1)))
      return name :: rest) := by
  rw [scanImages_succ, hat.indexOfFrom hfind, if_neg (by omega)]

/-- the text that is taken out at a tag is not empty -/
theorem scanImages_cons (hat : At html q t) (hfind : find imageTag t = some a.length)
    (h : scanImages html (fuel + 1) (indexOfFrom html imageTag q) = .ok (w :: vs)) : w ≠ [] := by
  rw [scanImages_tag hat hfind] at h
  obtain ⟨name, hname, h⟩ := bind_eq_ok.1 h
  obtain ⟨rest, -, h⟩ := bind_eq_ok.1 h
  cases h
  have hnot : indexOfFrom html ['"'] ((q + a.length : ℕ) + 10 + 1) ≠ -1 := by
    intro hmissing
    rw [hmissing, substring, if_neg (by omega)] at hname
    cases hname
  have hbounds := indexOfFrom_bounds (List.cons_ne_nil _ _) (by omega) hnot
  exact ne_nil_of_substring (by omega) hname

/-! ## The loop -/

/-- the loop finds the values, if none of them is empty -/
theorem scanImages_values (h : Values imageTag '"' t vs) (hat : At html q t) (hfuel : t.length < fuel) :
    scanImages html fuel (indexOfFrom html imageTag q) = .ok vs ↔ [] ∉ vs := by
  induction h generalizing q fuel with
  | none hnot =>
    obtain ⟨fuel, rfl⟩ : ∃ n, fuel = n + 1 := ⟨fuel - 1, by omega⟩
    rw [indexOfFrom_absent hat hnot]
    exact iff_of_true rfl List.not_mem_nil
  | @tag a w b vs hfind hw _ ih =>
    obtain ⟨fuel, rfl⟩ : ∃ n, fuel = n + 1 := ⟨fuel - 1, by omega⟩
    cases w with
    | nil => exact iff_of_false (fun h => scanImages_cons hat hfind h rfl) fun h => h List.mem_cons_self
    | cons c w =>
      have hstart : At html (q + a.length + 10) ((c :: w) ++ '"' :: b) := imageTag_length ▸ hat.skip.skip
      have hquote : indexOfFrom html ['"'] ((q + a.length : ℕ) + 10 + 1) = (q + a.length + 10 + (c :: w).length : ℕ) := by
        have hindex := indexOfFrom_char hstart.next.drop fun h => hw (List.mem_cons_of_mem c h)
        push_cast [List.length_cons] at hindex ⊢
        rw [hindex]
        ring
      have hname : substring html ((q + a.length : ℕ) + 10) (q + a.length + 10 + (c :: w).length : ℕ) = .ok (c :: w) := by
        have hsub := hstart.substring
        push_cast at hsub ⊢
        exact hsub
      have hshort : ('"' :: b).length < fuel := by
        simp only [List.length_append, List.length_cons] at hfuel ⊢
        omega
      have hrest := ih hstart.skip hshort
      rw [scanImages_tag hat hfind, hquote, hname]
      constructor
      · intro h
        obtain ⟨name, hname, h⟩ := bind_eq_ok.1 h
        obtain ⟨rest, hscan, h⟩ := bind_eq_ok.1 h
        cases h
        simpa using hrest.1 hscan
      · intro h
        exact bind_eq_ok.2 ⟨_, rfl, bind_eq_ok.2 ⟨vs, hrest.2 fun hmem => h (List.mem_cons_of_mem _ hmem), rfl⟩⟩

/-- the loop ends on every text: the index of the next tag is behind the last one -/
theorem ends_scanImages {index : ℤ} (hfuel : 0 < fuel)
    (hindex : index ≠ -1 → 0 ≤ index ∧ index < html.length ∧ (html.length : ℤ) < fuel + index) :
    Ends (scanImages html fuel index) := by
  induction fuel generalizing index with
  | zero => exact absurd hfuel (Nat.lt_irrefl 0)
  | succ fuel ih =>
    intro e h
    rw [scanImages_succ] at h
    by_cases hi : index = -1
    · rw [if_pos hi] at h
      cases h
    · rw [if_neg hi] at h
      obtain ⟨h0, hlt, hroom⟩ := hindex hi
      rcases bind_eq_error.1 h with h | ⟨name, hname, h⟩
      · exact ends_substring _ _ _ e h
      · have hquote : indexOfFrom html ['"'] (index + 10 + 1) ≠ -1 := by
          intro hmissing
          rw [hmissing, substring, if_neg (by omega)] at hname
          cases hname
        obtain ⟨hle, -⟩ := indexOfFrom_bounds (List.cons_ne_nil _ _) (by omega) hquote
        rcases bind_eq_error.1 h with h | ⟨rest, -, h⟩
        · refine ih (by omega) (fun hne => ?_) e h
          obtain ⟨hle', hlt'⟩ := indexOfFrom_bounds imageTag_ne_nil (by omega) hne
          omega
        · cases h

/-! ## The images of a reply -/

theorem ends_images (html : Text) : Ends (images html) := by
  rw [images_eq]
  refine ends_scanImages (Nat.succ_pos _) fun hne => ?_
  obtain ⟨hle, hlt⟩ := indexOfFrom_bounds imageTag_ne_nil le_rfl hne
  omega

/-- **The images are the sources of the tags exactly when no source is empty.** -/
theorem images_iff (html : Text) (hclosed : QuotesClosed html) :
    ImagesAreSources html ↔ ∀ p, IsImage html p → source html p ≠ [] := by
  obtain ⟨vs, hvs⟩ := values_exist imageTag_ne_nil html hclosed
  obtain ⟨ps, hsorted, hmem, rfl⟩ := hvs.tags imageTag_ne_nil
  have hscan : images html = .ok (ps.map (source html)) ↔ [] ∉ ps.map (source html) := by
    rw [images_eq]
    exact scanImages_values hvs ⟨[], rfl, rfl⟩ (Nat.lt_succ_self _)
  have hempty : [] ∉ ps.map (source html) ↔ ∀ p, IsImage html p → source html p ≠ [] := by
    simp only [List.mem_map, not_exists, not_and, hmem]
  rw [← hempty, ← hscan]
  constructor
  · rintro ⟨ps', hsorted', hmem', himages⟩
    have heq : ps' = ps := hsorted'.eq_of_mem_iff hsorted fun p => (hmem' p).trans (hmem p).symm
    exact heq ▸ himages
  · exact fun himages => ⟨ps, hsorted, hmem, himages⟩

/-- a reply with a picture -/
def pictured : Text := "<IMG SRC=\"a\">".toList

theorem pictured_images : ImagesAreSources pictured := by
  refine (images_iff pictured (by decide)).2 fun p hp hempty => ?_
  have hlt : p < pictured.length := by
    by_contra hge
    have hnil := (isTag_iff.1 hp).1
    rw [List.drop_eq_nil_of_le (by omega)] at hnil
    exact absurd hnil (by decide)
  have hall : ∀ p < pictured.length, imageTag <+: pictured.drop p → source pictured p ≠ [] := by decide
  exact hall p hlt (isTag_iff.1 hp).1 hempty

/-- a picture without a source, and a paragraph of a class -/
def unpictured : Text := "<IMG SRC=\"\"><P CLASS=\"x\">".toList

theorem empty_source :
    QuotesClosed unpictured ∧ source unpictured 0 = [] ∧ images unpictured = .ok ["\"><P CLASS=".toList] ∧
      ¬ ImagesAreSources unpictured := by
  have himages : images unpictured = .ok ["\"><P CLASS=".toList] := by decide
  refine ⟨by decide, by decide, himages, ?_⟩
  rintro ⟨ps, -, -, hps⟩
  rw [himages] at hps
  obtain ⟨p, -, hp⟩ := List.mem_map.1 (Except.ok.inj hps ▸ List.mem_singleton_self _)
  exact absurd (hp ▸ (by decide : '"' ∈ "\"><P CLASS=".toList)) (notMem_takeWhile_ne '"' _)

end Rubbos.Client.ImageTags
