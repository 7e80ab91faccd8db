/-
Where the client lets a value end (`UserSession.java`: `isMin`, `computeLastIndex`, `randomComputeLastIndex`,
`extractPageFromHTML`, `extractIntFromHTML`).

A value ends at the first of the delimiters behind the key. The scanners look for each of the four and take the least index with
`isMin`, which skips an index that is -1 in its second argument only. `randomComputeLastIndex` starts from `Integer.MAX_VALUE`,
the other three from the index of the quote: without a quote the end stays -1.

- `IsEnd`: the least index of a delimiter.
- `endOfValue_quote_iff`: starting from the index of the quote is right exactly if there is a quote.
- `ends_iff`: all the scanners, on a reply.

Counterexample: `amp_without_quote`, a value between the key and an '&', in a page that breaks off.
-/
import Rubbos.Client.Replies

namespace Rubbos.Client.EndOfValue

open Rubbos.Core JString Links Replies
open Servlets.Html (delimiters)

/-- the least index of a delimiter from p on -/
def IsEnd (reply : Text) (p : ℕ) (e : ℤ) : Prop :=
  ∃ n : ℕ, e = n ∧ IsLeast {i : ℕ | p ≤ i ∧ ∃ d ∈ delimiters, reply[i]? = some d} n

/-- a delimiter stands somewhere in the text -/
def Delimited (t : Text) : Prop := ∃ d ∈ delimiters, d ∈ t

variable {reply key t : Text} {p : ℕ} {e : ℤ}

theorem restOf_ne_nil (h : Delimited t) : restOf t ≠ [] := by
  obtain ⟨d, hd, hmem⟩ := h
  exact List.ne_nil_of_mem (mem_restOf hd hmem)

/-- the end is behind the value -/
theorem isEnd_iff (hat : At reply p t) (h : Delimited t) : IsEnd reply p e ↔ e = (p + (valueOf t).length : ℕ) := by
  obtain ⟨d, rest, hcons, hd⟩ := restOf_cons (restOf_ne_nil h)
  have hsplit : t = valueOf t ++ d :: rest := by rw [← hcons, valueOf_append_restOf]
  obtain ⟨a, rfl, rfl⟩ := hat
  have hleast : IsLeast {i : ℕ | a.length ≤ i ∧ ∃ d ∈ delimiters, (a ++ t)[i]? = some d} (a.length + (valueOf t).length) := by
    refine ⟨⟨by omega, d, hd, ?_⟩, ?_⟩
    · calc (a ++ t)[a.length + (valueOf t).length]? = t[(valueOf t).length]? := by
            rw [List.getElem?_append_right (by omega), Nat.add_sub_cancel_left]
        _ = (valueOf t ++ d :: rest)[(valueOf t).length]? := by rw [← hsplit]
        _ = some d := by simp
    · rintro i ⟨hi, x, hx, hget⟩
      by_contra hlt
      have hvalue : (valueOf t)[i - a.length]? = some x := by
        calc (valueOf t)[i - a.length]? = (valueOf t ++ d :: rest)[i - a.length]? := by
              rw [List.getElem?_append_left (by omega)]
          _ = t[i - a.length]? := by rw [← hsplit]
          _ = some x := by rw [← hget, List.getElem?_append_right hi]
      exact notMem_valueOf hx (List.mem_of_getElem? hvalue)
  constructor
  · rintro ⟨n, rfl, hn⟩
    rw [hn.unique hleast]
  · rintro rfl
    exact ⟨_, rfl, hleast⟩

/-- the value between has no delimiter, and its bounds are valid -/
theorem substring_of_isEnd (hat : At reply p t) (h : Delimited t) (he : IsEnd reply p e) :
    substring reply p e = .ok (valueOf t) ∧ ∀ d ∈ delimiters, d ∉ valueOf t := by
  rw [(isEnd_iff hat h).1 he]
  have hat' : At reply p (valueOf t ++ restOf t) := by rwa [valueOf_append_restOf]
  refine ⟨?_, fun d hd => notMem_valueOf hd⟩
  push_cast
  exact hat'.substring

theorem endOfValue_no_quote (hat : At reply p t) (h : '"' ∉ t) : endOfValue reply (indexOfFrom reply ['"'] p) p = -1 := by
  have hleft (x : ℤ) (hx : x = -1 ∨ 0 ≤ x) : isMin (-1) x = -1 := by
    unfold isMin
    split_ifs <;> omega
  have hindex (c : Char) : indexOfFrom reply [c] p = -1 ∨ 0 ≤ indexOfFrom reply [c] p := by
    by_cases hne : indexOfFrom reply [c] p = -1
    · exact .inl hne
    · have := (indexOfFrom_bounds (List.cons_ne_nil c []) (by omega) hne).1
      exact .inr (by omega)
  have hquote : indexOfFrom reply ['"'] p = -1 := indexOfFrom_char_none (by rwa [hat.drop])
  unfold endOfValue
  rw [hquote, hleft _ (hindex '?'), hleft _ (hindex '&'), hleft _ (hindex '>')]

/-- **From the index of the quote** the end is found exactly if there is a quote. -/
theorem endOfValue_quote_iff (hat : At reply p t) (h : Delimited t) :
    IsEnd reply p (endOfValue reply (indexOfFrom reply ['"'] p) p) ↔ '"' ∈ t := by
  rw [isEnd_iff hat h]
  constructor
  · intro hend
    by_contra hquote
    rw [endOfValue_no_quote hat hquote] at hend
    omega
  · exact endOfValue_quoted hat

/-- a number cut out up to the end -/
theorem read_iff (hat : At reply p t) (h : Delimited t) :
    (∃ e, IsEnd reply p e ∧ (substring reply p (endOfValue reply (indexOfFrom reply ['"'] p) p) >>= parseInt) =
      (substring reply p e >>= parseInt)) ↔ '"' ∈ t := by
  constructor
  · rintro ⟨e, he, heq⟩
    by_contra hquote
    rw [endOfValue_no_quote hat hquote, (substring_of_isEnd hat h he).1] at heq
    have hthrows : (substring reply p (-1) >>= parseInt) = .error .stringIndexOutOfBounds := by
      have hrange : ¬ ((0 : ℤ) ≤ p ∧ (p : ℤ) ≤ -1 ∧ (-1 : ℤ) ≤ reply.length) := by omega
      rw [substring, if_neg hrange]
      rfl
    have hnumber : parseInt (valueOf t) = .error .stringIndexOutOfBounds := heq.symm.trans hthrows
    unfold parseInt at hnumber
    simp only at hnumber
    split_ifs at hnumber
    all_goals cases hnumber
  · intro hquote
    exact ⟨_, (endOfValue_quote_iff hat h).2 hquote, rfl⟩

/-! ## The scanners -/

/-- behind the occurrences of the key that have a delimiter there is a quote -/
def Quoted (key reply : Text) : Prop := ∀ a t, reply = a ++ (key ++ t) → Delimited t → '"' ∈ t

/-- the page that a draw chooses -/
def chosenPage (reply : Text) (draw : ℕ) : ℤ :=
  let firstPageIndex := indexOf reply "&page=".toList
  let secondPageIndex := indexOfFrom reply "&page=".toList (firstPageIndex + 6)
  if secondPageIndex ≠ -1 ∧ 50000 ≤ draw % 100000 then secondPageIndex else firstPageIndex

/-- every scanner takes the least index of a delimiter behind its key -/
structure Ends (reply key : Text) : Prop where
  computeLastIndex : ∀ (lastIndex : ℤ) (p : ℕ), indexOfFrom reply key lastIndex ≠ -1 →
    indexOfFrom reply key lastIndex + key.length = p → Delimited (reply.drop p) → IsEnd reply p (computeLastIndex reply key lastIndex)
  randomComputeLastIndex : ∀ (skipFirst : Bool) (r r' : ℕ → ℕ) (i j : ℤ),
    (randomComputeLastIndex (some reply) key skipFirst).run r = .ok (some (i, j), r') →
      ∃ p : ℕ, i = p ∧ (Delimited (reply.drop p) → IsEnd reply p j)
  extractPage : ∀ (r : ℕ → ℕ) (p : ℕ), indexOf reply "&page=".toList ≠ -1 → chosenPage reply (r 0) + 6 = p →
    Delimited (reply.drop p) → ∃ e, IsEnd reply p e ∧ ((extractPageFromHTML (some reply)).run r).map Prod.fst =
      (substring reply p e >>= parseInt)
  extractInt : ∀ p : ℕ, indexOf reply key ≠ -1 → indexOf reply key + key.length = p → Delimited (reply.drop p) →
    ∃ e, IsEnd reply p e ∧ extractIntFromHTML (some reply) key = (substring reply p e >>= parseInt)

/-- a position found by a search is the place of the key -/
theorem at_of_indexOfFrom {start : ℤ} (hkey : key ≠ []) (hne : indexOfFrom reply key start ≠ -1) {p : ℕ}
    (hp : indexOfFrom reply key start + key.length = p) :
    At reply p (reply.drop p) ∧ ∃ a, reply = a ++ (key ++ reply.drop p) := by
  unfold indexOfFrom at hne hp
  cases hf : find key (reply.drop start.toNat) with
  | none => simp [hf] at hne
  | some i =>
    simp only [hf] at hp
    obtain ⟨hle, ⟨r, hr⟩, -⟩ := find_eq_some hf
    rw [List.drop_drop] at hr
    have hpos : start.toNat + i + key.length = p := by omega
    have hdrop : reply.drop p = r := by
      rw [← hpos, ← List.drop_drop, ← hr, List.drop_left]
    have hsplit : reply = reply.take (start.toNat + i) ++ (key ++ reply.drop p) := by
      rw [hdrop, hr, List.take_append_drop]
    have hlen : p ≤ reply.length := by
      have hlength := congrArg List.length hr
      have hpos := List.length_pos_of_ne_nil hkey
      rw [List.length_append, List.length_drop] at hlength
      omega
    exact ⟨⟨reply.take p, by simp [hlen], (List.take_append_drop p reply).symm⟩, _, hsplit⟩

theorem computeLastIndex_eq {lastIndex : ℤ} (hne : indexOfFrom reply key lastIndex ≠ -1) {p : ℕ}
    (hp : indexOfFrom reply key lastIndex + key.length = p) :
    computeLastIndex reply key lastIndex = endOfValue reply (indexOfFrom reply ['"'] p) p := by
  simp only [computeLastIndex, if_neg hne, hp]

theorem extractInt_eq (hne : indexOf reply key ≠ -1) {p : ℕ} (hp : indexOf reply key + key.length = p) :
    extractIntFromHTML (some reply) key = (substring reply p (endOfValue reply (indexOfFrom reply ['"'] p) p) >>= parseInt) := by
  simp only [extractIntFromHTML, if_neg hne, hp]

theorem extractPage_eq (hne : indexOf reply "&page=".toList ≠ -1) (r : ℕ → ℕ) {p : ℕ} (hp : chosenPage reply (r 0) + 6 = p) :
    ((extractPageFromHTML (some reply)).run r).map Prod.fst =
      (substring reply p (endOfValue reply (indexOfFrom reply ['"'] p) p) >>= parseInt) := by
  have hfst {x : Except Exc ℤ} {r : ℕ → ℕ} : ((StateT.lift x : Draw ℤ).run r).map Prod.fst = x := by cases x <;> rfl
  unfold chosenPage at hp
  unfold extractPageFromHTML
  simp only [if_neg hne] at hp ⊢
  by_cases hsecond : indexOfFrom reply "&page=".toList (indexOf reply "&page=".toList + 6) = -1
  · rw [if_neg (fun h => h.1 hsecond)] at hp
    rw [if_neg (not_not_intro hsecond), hp]
    exact hfst
  · rw [if_pos hsecond, StateT.run_bind]
    have hdraw : (nextInt 100000).run r = .ok (r 0 % 100000, fun i => r (i + 1)) := nextInt_run (by norm_num) r
    rw [hdraw]
    by_cases hdrawn : 50000 ≤ r 0 % 100000
    · rw [if_pos ⟨hsecond, hdrawn⟩] at hp
      change ((if 50000 ≤ r 0 % 100000 then _ else _ : Draw ℤ).run _).map _ = _
      rw [if_pos hdrawn, hp]
      exact hfst
    · rw [if_neg (fun h => hdrawn h.2)] at hp
      change ((if 50000 ≤ r 0 % 100000 then _ else _ : Draw ℤ).run _).map _ = _
      rw [if_neg hdrawn, hp]
      exact hfst

/-- the pages that the draws choose are the first two -/
theorem mem_take_two_iff {ts : List Text} (h : Occurs "&page=".toList reply ts) (t : Text) :
    t ∈ ts.take 2 ↔ ∃ (draw p : ℕ), indexOf reply "&page=".toList ≠ -1 ∧ chosenPage reply draw + 6 = p ∧ At reply p t := by
  have hkey : "&page=".toList.length = 6 := by decide
  cases h with
  | none hnot =>
    constructor
    · intro hmem
      cases hmem
    · rintro ⟨draw, p, hne, -⟩
      exact absurd (indexOf_eq_neg_one.2 hnot) hne
  | @cons s t₁ ts hfind ht =>
    have hfirst : At (s ++ ("&page=".toList ++ t₁)) (s.length + 6) t₁ := by
      have := at_follower s "&page=".toList t₁
      rwa [hkey] at this
    have hindex : indexOf (s ++ ("&page=".toList ++ t₁)) "&page=".toList = s.length := indexOf_of_find hfind
    have hstart : (s.length : ℤ) + 6 = (s.length + 6 : ℕ) := by push_cast; rfl
    have hunique {p q : ℕ} {u v : Text} (hu : At (s ++ ("&page=".toList ++ t₁)) p u) (hv : At (s ++ ("&page=".toList ++ t₁)) q v)
        (hpq : p = q) : u = v := by rw [← hu.drop, ← hv.drop, hpq]
    unfold chosenPage
    simp only [hindex, hstart]
    cases ht with
    | none hnot =>
      have hsecond := indexOfFrom_absent hfirst hnot
      simp only [hsecond, ne_eq, not_true_eq_false, false_and, if_false, List.take_succ_cons, List.take_nil, List.mem_singleton]
      constructor
      · rintro rfl
        exact ⟨0, s.length + 6, by omega, by omega, hfirst⟩
      · rintro ⟨-, p, -, hp, hat⟩
        exact hunique hat hfirst (by omega)
    | @cons s' t₂ ts hfind' ht' =>
      have hsecond := hfirst.indexOfFrom hfind'
      have hat₂ : At (s ++ ("&page=".toList ++ (s' ++ ("&page=".toList ++ t₂)))) (s.length + 6 + s'.length + 6) t₂ := by
        have := hfirst.skip.skip
        rwa [hkey] at this
      have hne : ((s.length + 6 + s'.length : ℕ) : ℤ) ≠ -1 := by omega
      simp only [hsecond, ne_eq, hne, not_false_eq_true, true_and, List.take_succ_cons, List.take_zero, List.mem_cons,
        List.not_mem_nil, or_false]
      constructor
      · rintro (rfl | rfl)
        · exact ⟨0, s.length + 6, by omega, by simp, hfirst⟩
        · exact ⟨50000, s.length + 6 + s'.length + 6, by omega, by simp, hat₂⟩
      · rintro ⟨draw, p, -, hp, hat⟩
        split_ifs at hp
        · exact .inr (hunique hat hat₂ (by omega))
        · exact .inl (hunique hat hfirst (by omega))

/-- **The scanners take the first delimiter** of a reply exactly if there is a quote behind each occurrence of the key, and of the
first two pages, that has a delimiter behind it. `randomComputeLastIndex` always does. -/
theorem ends_iff (hkey : key ≠ []) (hlen : reply.length ≤ maxInt) :
    Ends reply key ↔ Quoted key reply ∧
      ∀ ts, Occurs "&page=".toList reply ts → ∀ t ∈ ts.take 2, Delimited t → '"' ∈ t := by
  constructor
  · intro h
    refine ⟨fun a t hsplit ht => ?_, fun ts hts t ht hdelimited => ?_⟩
    · have hat : At reply (a.length + key.length) t := by
        rw [hsplit]
        exact at_follower a key t
      have hindex : indexOfFrom reply key a.length = a.length := by
        have hatKey : At reply a.length (key ++ t) := ⟨a, rfl, hsplit⟩
        rw [hatKey.indexOfFrom ( find_of_prefix (List.prefix_append key t)), Nat.add_zero]
      have hp : indexOfFrom reply key a.length + key.length = (a.length + key.length : ℕ) := by rw [hindex]; push_cast; rfl
      have hne : indexOfFrom reply key a.length ≠ -1 := by omega
      have hend := h.computeLastIndex a.length _ hne hp (by rwa [hat.drop])
      rw [computeLastIndex_eq hne hp] at hend
      exact (endOfValue_quote_iff hat ht).1 hend
    · obtain ⟨draw, p, hne, hp, hat⟩ := (mem_take_two_iff hts t).1 ht
      obtain ⟨e, he, heq⟩ := h.extractPage (fun _ => draw) p hne hp (by rwa [hat.drop])
      rw [extractPage_eq hne _ hp] at heq
      exact (read_iff hat hdelimited).1 ⟨e, he, heq⟩
  · rintro ⟨hquoted, hpages⟩
    refine ⟨fun lastIndex p hne hp hdelimited => ?_, fun skipFirst r r' i j hrun => ?_, fun r p hne hp hdelimited => ?_,
      fun p hne hp hdelimited => ?_⟩
    · obtain ⟨hat, a, hsplit⟩ := at_of_indexOfFrom hkey hne hp
      rw [computeLastIndex_eq hne hp]
      exact (endOfValue_quote_iff hat hdelimited).2 (hquoted a _ hsplit hdelimited)
    · have hgives := randomComputeLastIndex_gives hkey hlen skipFirst r
      unfold Ensures at hgives
      rw [hrun] at hgives
      rcases hgives with ⟨hnone, -⟩ | ⟨p, t, hsome, hat, -⟩
      · cases hnone
      · obtain ⟨rfl, rfl⟩ := Prod.mk.inj (Option.some.inj hsome)
        refine ⟨p, rfl, fun hdelimited => ?_⟩
        rw [hat.drop] at hdelimited
        rw [isEnd_iff hat hdelimited]
        exact if_neg (restOf_ne_nil hdelimited)
    · obtain ⟨ts, hts⟩ := Occurs.exists_occurs (show "&page=".toList ≠ [] by decide) reply
      have hat : At reply p (reply.drop p) := by
        unfold chosenPage at hp
        simp only at hp
        have hlength : ("&page=".toList.length : ℤ) = 6 := by decide
        split_ifs at hp with hsecond
        · exact (at_of_indexOfFrom (by decide) hsecond.1 (by rw [hlength]; exact hp)).1
        · rw [indexOf_eq_indexOfFrom] at hne hp
          exact (at_of_indexOfFrom (by decide) hne (by rw [hlength]; exact hp)).1
      have hquote := hpages ts hts _ ((mem_take_two_iff hts _).2 ⟨r 0, p, hne, hp, hat⟩) hdelimited
      rw [extractPage_eq hne r hp]
      exact (read_iff hat hdelimited).2 hquote
    · rw [extractInt_eq hne hp]
      rw [indexOf_eq_indexOfFrom] at hne hp
      obtain ⟨hat, a, hsplit⟩ := at_of_indexOfFrom hkey hne hp
      exact (read_iff hat hdelimited).2 (hquoted a _ hsplit hdelimited)

/-- a reply that ends with a quote has one behind every position -/
theorem quote_of_suffix {a : Text} (hreply : reply = a ++ ['"']) (hsuffix : t <:+ reply) (ht : Delimited t) : '"' ∈ t := by
  obtain ⟨d, -, hd⟩ := ht
  obtain ⟨s, hs⟩ := hsuffix
  have hlast : t.getLast? = some '"' := by
    rw [← List.getLast?_append_of_ne_nil s (List.ne_nil_of_mem hd), hs, hreply, List.getLast?_concat]
  exact List.mem_of_getLast? hlast

/-- a page of results -/
def resultPage : Text := "<a href=\"Search?type=0&page=1\"".toList

theorem resultPage_ends : Ends resultPage "&page=".toList := by
  have hquote : resultPage = resultPage.dropLast ++ ['"'] := by decide
  refine (ends_iff (by decide) (by decide)).2 ⟨fun a t hsplit => ?_, fun ts hts t ht => ?_⟩
  · exact quote_of_suffix hquote ⟨a ++ "&page=".toList, by rw [hsplit, List.append_assoc]⟩
  · exact quote_of_suffix hquote (hts.suffix (List.mem_of_mem_take ht))

/-- the same page, broken off behind the number -/
def brokenPage : Text := "<a href=\"Search?type=0&page=1&nbOf".toList

/-- **Broken off**: the value between "&page=" and the '&' has no end. -/
theorem amp_without_quote : ¬ Ends brokenPage "&page=".toList := by
  intro h
  have hat : At brokenPage 28 "1&nbOf".toList := ⟨"<a href=\"Search?type=0&page=".toList, by decide, by decide⟩
  have hdelimited : Delimited "1&nbOf".toList := ⟨'&', by decide, by decide⟩
  have hpos : indexOfFrom brokenPage "&page=".toList 0 + "&page=".toList.length = (28 : ℕ) := by decide +kernel
  have hne : indexOfFrom brokenPage "&page=".toList 0 ≠ -1 := by decide +kernel
  have hend := h.computeLastIndex 0 28 hne hpos (by rwa [hat.drop])
  rw [computeLastIndex_eq hne hpos, endOfValue_quote_iff hat hdelimited] at hend
  exact absurd hend (by decide)

end Rubbos.Client.EndOfValue
