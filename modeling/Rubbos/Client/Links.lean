/-
The links to comments that the client reads out of a page (`UserSession.java`, over the pages of the servlets).

The page is given by its pieces; the client sees its text. `randomComputeLastIndex` counts the class name of a script,
draws one occurrence, and the parameters behind it are cut out one after the other: the end of one value is the place of
the '&' in front of the next key.

- `extractLink_some`, `extractLink_none`: which occurrence an extractor reads.
- `readPostComment_link`, `readViewComment_link`, `readModerateComment_link`: reading at an occurrence gives the parameters of
  the link that stands there.
- `reads_iff`: when an extractor gives a link of the page.
-/
import Rubbos.Client.RequestedPage
import Rubbos.Servlets.CommentPages

namespace Rubbos.Client.Links

open Rubbos.Core JString Servlets.Html

/-! ## Positions -/

/-- behind the first q characters of the reply stands the text -/
def At (reply : Text) (q : ℕ) (rest : Text) : Prop := ∃ a, a.length = q ∧ reply = a ++ rest

variable {reply key w rest t : Text} {q : ℕ} {c d : Char} {ts : List Text}

theorem At.drop (h : At reply q rest) : reply.drop q = rest := by
  obtain ⟨a, rfl, rfl⟩ := h
  simp

theorem At.skip (h : At reply q (t ++ rest)) : At reply (q + t.length) rest := by
  obtain ⟨a, rfl, rfl⟩ := h
  exact ⟨a ++ t, by simp, by simp⟩

theorem At.next (h : At reply q (c :: rest)) : At reply (q + 1) rest := At.skip (t := [c]) h

theorem At.le_length (h : At reply q rest) : q ≤ reply.length := by
  obtain ⟨a, rfl, rfl⟩ := h
  simp

theorem At.substring (h : At reply q (t ++ rest)) : substring reply q (q + t.length) = .ok t := by
  obtain ⟨a, rfl, rfl⟩ := h
  exact substring_append rfl rfl

/-- a key found from a position on -/
theorem At.indexOfFrom (h : At reply q rest) {i : ℕ} (hfind : find key rest = some i) :
    indexOfFrom reply key q = (q + i : ℕ) := by
  simp [JString.indexOfFrom, h.drop, hfind]

/-! ## Occurrences of a key -/

/-- the counting loop counts the occurrences -/
theorem countKey_of_occurs (hq : At reply q rest) (h : Occurs key rest ts) {fuel : ℕ} (hf : ts.length < fuel) :
    countKey reply key fuel (indexOfFrom reply key q) = .ok ts.length := by
  induction h generalizing q fuel with
  | @none s hnot =>
    obtain ⟨fuel, rfl⟩ : ∃ n, fuel = n + 1 := ⟨fuel - 1, by simp at hf; omega⟩
    have hnone : indexOfFrom reply key q = -1 := by simp [indexOfFrom, hq.drop, find_eq_none.2 hnot]
    simp [countKey, hnone]
  | @cons s t ts hfind ht ih =>
    obtain ⟨fuel, rfl⟩ : ∃ n, fuel = n + 1 := ⟨fuel - 1, by simp at hf; omega⟩
    have hnext : At reply (q + s.length + key.length) t := hq.skip.skip
    have hcount : countKey reply key fuel _ = .ok ts.length := ih hnext (by simpa using hf)
    rw [hq.indexOfFrom hfind]
    have hne : ((q + s.length : ℕ) : ℤ) ≠ -1 := by omega
    have hstart : ((q + s.length : ℕ) : ℤ) + key.length = (q + s.length + key.length : ℕ) := by push_cast; rfl
    rw [countKey, if_neg hne, hstart, hcount]
    rfl

/-- the picking loop goes to an occurrence -/
theorem pickKey_of_occurs (hq : At reply q rest) (h : Occurs key rest ts) {m : ℕ} (ht : ts[m]? = some t) {k : ℤ}
    (hk : k + key.length = q) : ∃ p : ℕ, pickKey reply key (m + 1) k + key.length = p ∧ At reply p t := by
  induction h generalizing q m k with
  | none => cases ht
  | @cons s t' ts hfind _ ih =>
    have hnext : At reply (q + s.length + key.length) t' := hq.skip.skip
    have hstart : ((q + s.length : ℕ) : ℤ) + key.length = (q + s.length + key.length : ℕ) := by push_cast; rfl
    rw [pickKey, hk, hq.indexOfFrom hfind]
    cases m with
    | zero =>
      obtain rfl : t' = t := Option.some.inj ht
      exact ⟨_, hstart, hnext⟩
    | succ m => exact ih hnext ht hstart

/-! ## The end of a value -/

theorem le_isMin {e l x : ℤ} (hl : e ≤ l) (hx : x = -1 ∨ e ≤ x) : e ≤ isMin l x := by
  unfold isMin
  split_ifs <;> omega

theorem isMin_eq_left {e x : ℤ} (hx : x = -1 ∨ e ≤ x) : isMin e x = e := by
  unfold isMin
  split_ifs <;> omega

theorem isMin_eq_right {e l : ℤ} (he : e ≠ -1) (hl : e ≤ l) : isMin l e = e := by
  unfold isMin
  split_ifs <;> omega

/-- a value ends at the first delimiter behind it -/
theorem endOfValue_eq (hq : At reply q (w ++ d :: rest)) (hvalue : ∀ x ∈ delimiters, x ∉ w) (hd : d ∈ delimiters)
    {last : ℤ} (hle : (q + w.length : ℕ) ≤ last) (hlast : d = '"' → last = (q + w.length : ℕ)) :
    endOfValue reply last q = (q + w.length : ℕ) := by
  have hother : ∀ x ∈ delimiters, indexOfFrom reply [x] q = -1 ∨ (q + w.length : ℕ) ≤ indexOfFrom reply [x] q := by
    intro x hx
    by_cases hmem : x ∈ d :: rest
    · obtain ⟨u, v, huv, hu⟩ := List.eq_append_cons_of_mem hmem
      have hdrop : reply.drop q = (w ++ u) ++ x :: v := by rw [hq.drop, huv, List.append_assoc]
      right
      rw [indexOfFrom_char hdrop (by simp [hvalue x hx, hu])]
      simp
    · left
      exact indexOfFrom_char_none (by simp [hq.drop, hvalue x hx, hmem])
  have hhere : indexOfFrom reply [d] q = (q + w.length : ℕ) := by
    rw [indexOfFrom_char hq.drop (hvalue d hd)]
    simp
  have hne : ((q + w.length : ℕ) : ℤ) ≠ -1 := by omega
  have hquestion := hother '?' (by decide)
  have hamp := hother '&' (by decide)
  have hgt := hother '>' (by decide)
  unfold endOfValue
  simp only [delimiters, List.mem_cons, List.not_mem_nil, or_false] at hd
  -- the delimiter d is reached in its turn, and the ones after it do not come earlier
  rcases hd with rfl | rfl | rfl | rfl
  · rw [hlast rfl, isMin_eq_left hquestion, isMin_eq_left hamp, isMin_eq_left hgt]
  · rw [hhere, isMin_eq_right hne hle, isMin_eq_left hamp, isMin_eq_left hgt]
  · rw [hhere, isMin_eq_right hne (le_isMin hle hquestion), isMin_eq_left hgt]
  · rw [hhere, isMin_eq_right hne (le_isMin (le_isMin hle hquestion) hamp)]

/-- **A parameter.** Behind the end of the last value stands a delimiter, the key and a value. -/
theorem extractParam_eq (hq : At reply q (c :: (key ++ (w ++ d :: rest)))) (hc : key.head? ≠ some c) (hkey : key ≠ [])
    (hvalue : ∀ x ∈ delimiters, x ∉ w) (hd : d ∈ delimiters) (hquote : '"' ∈ d :: rest) :
    ∃ p : ℕ, extractParam reply key q = .ok (some w, (p : ℤ)) ∧ At reply p (d :: rest) := by
  have hstart : At reply (q + 1 + key.length) (w ++ d :: rest) := hq.next.skip
  have hfind : find key (c :: (key ++ (w ++ d :: rest))) = some 1 := by
    have hnot : ¬ key <+: c :: (key ++ (w ++ d :: rest)) := by
      intro h
      cases key with
      | nil => exact hkey rfl
      | cons x key =>
        rw [List.cons_prefix_cons] at h
        simp [h.1] at hc
    rw [find, if_neg hnot, find_of_prefix (List.prefix_append _ _)]
    rfl
  have hindex := hq.indexOfFrom hfind
  obtain ⟨u, v, huv, hu⟩ := List.eq_append_cons_of_mem hquote
  have hlast : indexOfFrom reply ['"'] (q + 1 + key.length : ℕ) = (q + 1 + key.length : ℕ) + (w ++ u).length := by
    refine indexOfFrom_char (b := v) ?_ (by simp [hvalue '"' (by decide), hu])
    rw [hstart.drop, huv, List.append_assoc]
  have hend : computeLastIndex reply key q = (q + 1 + key.length + w.length : ℕ) := by
    have hne : ((q + 1 : ℕ) : ℤ) ≠ -1 := by omega
    have hpos : ((q + 1 : ℕ) : ℤ) + key.length = (q + 1 + key.length : ℕ) := by push_cast; rfl
    rw [computeLastIndex]
    simp only [hindex, hne, if_false, hpos]
    refine endOfValue_eq hstart hvalue hd ?_ ?_
    · rw [hlast, List.length_append]
      push_cast
      omega
    · rintro rfl
      have hnil : u = [] := by
        cases u with
        | nil => rfl
        | cons y u =>
          rw [List.cons_append, List.cons.injEq] at huv
          exact absurd (huv.1 ▸ List.mem_cons_self) hu
      rw [hlast, hnil]
      simp
  refine ⟨q + 1 + key.length + w.length, ?_, hstart.skip⟩
  have hmoved : ((q + 1 + key.length + w.length : ℕ) : ℤ) ≠ q := by omega
  have hcut : (q : ℤ) + key.length + 1 = (q + 1 + key.length : ℕ) := by push_cast; ring
  rw [extractParam]
  simp only [hend, hmoved, ne_eq, not_false_eq_true, if_true, hcut]
  have hsub := hstart.substring
  push_cast at hsub ⊢
  rw [hsub]
  rfl

/-- a parameter that is an int -/
theorem extractIntParam_eq {i : IntText} (hq : At reply q (c :: (key ++ (i.text ++ d :: rest)))) (hc : key.head? ≠ some c)
    (hkey : key ≠ []) (hd : d ∈ delimiters) (hquote : '"' ∈ d :: rest) :
    ∃ p : ℕ, extractIntParam reply key q = .ok (some i.value, (p : ℤ)) ∧ At reply p (d :: rest) := by
  have hvalue : ∀ x ∈ delimiters, x ∉ i.text := by
    intro x hx
    have hnum : x.isDigit = false ∧ x ≠ '-' ∧ x ≠ '+' := by
      revert x
      decide
    exact notMem_intText i hnum.1 hnum.2.1 hnum.2.2
  obtain ⟨p, hp, hat⟩ := extractParam_eq hq hc hkey hvalue hd hquote
  refine ⟨p, ?_, hat⟩
  simp [extractIntParam, hp, i.parses, bind, Except.bind, pure, Except.pure]

/-! ## The parameters of a link -/

theorem readPostComment_link {table : TableName} {storyId parent : IntText}
    (hq : At reply q ('?' :: ((Link.postComment table storyId parent).query ++ '"' :: rest))) :
    readPostComment reply q = .ok ⟨some table.text, some storyId.value, some parent.value⟩ := by
  simp only [Link.query, List.append_assoc, List.cons_append] at hq
  obtain ⟨p₁, h₁, hq₁⟩ := extractParam_eq hq (by decide) (by decide) table.isName (by decide) (by simp)
  obtain ⟨p₂, h₂, hq₂⟩ := extractIntParam_eq hq₁ (by decide) (by decide) (by decide) (by simp)
  obtain ⟨p₃, h₃, -⟩ := extractIntParam_eq hq₂ (by decide) (by decide) (by decide) (by simp)
  exact bind_eq_ok.2 ⟨_, h₁, bind_eq_ok.2 ⟨_, h₂, bind_eq_ok.2 ⟨_, h₃, rfl⟩⟩⟩

theorem readViewComment_link {table : TableName} {storyId commentId filter display : IntText}
    (hq : At reply q ('?' :: ((Link.viewComment table storyId commentId filter display).query ++ '"' :: rest))) :
    readViewComment reply q =
      .ok ⟨some table.text, some storyId.value, some commentId.value, some filter.value, some display.value⟩ := by
  simp only [Link.query, List.append_assoc, List.cons_append] at hq
  obtain ⟨p₁, h₁, hq₁⟩ := extractParam_eq hq (by decide) (by decide) table.isName (by decide) (by simp)
  obtain ⟨p₂, h₂, hq₂⟩ := extractIntParam_eq hq₁ (by decide) (by decide) (by decide) (by simp)
  obtain ⟨p₃, h₃, hq₃⟩ := extractIntParam_eq hq₂ (by decide) (by decide) (by decide) (by simp)
  obtain ⟨p₄, h₄, hq₄⟩ := extractIntParam_eq hq₃ (by decide) (by decide) (by decide) (by simp)
  obtain ⟨p₅, h₅, -⟩ := extractIntParam_eq hq₄ (by decide) (by decide) (by decide) (by simp)
  exact bind_eq_ok.2 ⟨_, h₁, bind_eq_ok.2 ⟨_, h₂, bind_eq_ok.2 ⟨_, h₃, bind_eq_ok.2 ⟨_, h₄, bind_eq_ok.2 ⟨_, h₅, rfl⟩⟩⟩⟩⟩

theorem readModerateComment_link {table : TableName} {commentId : IntText}
    (hq : At reply q ('?' :: ((Link.moderateComment table commentId).query ++ '"' :: rest))) :
    readModerateComment reply q = .ok (some table.text, some commentId.value) := by
  simp only [Link.query, List.append_assoc, List.cons_append] at hq
  obtain ⟨p₁, h₁, hq₁⟩ := extractParam_eq hq (by decide) (by decide) table.isName (by decide) (by simp)
  obtain ⟨p₂, h₂, -⟩ := extractIntParam_eq hq₁ (by decide) (by decide) (by decide) (by simp)
  exact bind_eq_ok.2 ⟨_, h₁, bind_eq_ok.2 ⟨_, h₂, rfl⟩⟩

/-! ## The occurrence that is drawn -/

section

variable {α : Type} {skipFirst : Bool} {read : Text → ℤ → Except Exc α}

theorem count_of_occurs (h : Occurs key reply ts) (hk : key ≠ []) :
    countKey reply key (reply.length + 2) (indexOf reply key) = .ok ts.length := by
  have hle := h.length_le hk
  rw [indexOf_eq_indexOfFrom]
  exact countKey_of_occurs ⟨[], rfl, rfl⟩ h (by omega)

/-- no occurrence, or only the one that is skipped: null -/
theorem extractLink_none (h : Occurs key reply ts) (hk : key ≠ []) (hn : ts.length = 0 ∨ skipFirst ∧ ts.length ≤ 1)
    (r : ℕ → ℕ) : (extractLink (some reply) key skipFirst read).run r = .ok (none, r) := by
  have hnone : (randomComputeLastIndex (some reply) key skipFirst).run r = .ok (none, r) := by
    simp only [randomComputeLastIndex, count_of_occurs h hk]
    change (if ts.length = 0 ∨ skipFirst ∧ ts.length ≤ 1 then _ else _ : Draw _).run r = _
    rw [if_pos hn]
    rfl
  unfold extractLink
  rw [StateT.run_bind, hnone]
  rfl

/-- the occurrence that a draw leads to -/
def drawn (skipFirst : Bool) (count draw : ℕ) : ℕ :=
  if skipFirst ∧ draw % count = 0 then draw % count + 1 else draw % count

theorem drawn_lt {count : ℕ} (hn : ¬ (count = 0 ∨ skipFirst ∧ count ≤ 1)) (draw : ℕ) : drawn skipFirst count draw < count := by
  have hlt : draw % count < count := Nat.mod_lt _ (by omega)
  unfold drawn
  split_ifs with h
  · have hcount : 1 < count := by
      by_contra hle
      exact hn (.inr ⟨h.1, by omega⟩)
    omega
  · exact hlt

theorem drawn_pos {count draw : ℕ} (hskip : skipFirst = true) : 0 < drawn skipFirst count draw := by
  unfold drawn
  split_ifs with h
  · omega
  · have : draw % count ≠ 0 := fun h0 => h ⟨hskip, h0⟩
    omega

/-- **The occurrence that is drawn** is read, if it is followed by a '?'. -/
theorem extractLink_some (h : Occurs key reply ts) (hk : key ≠ []) (hlen : reply.length ≤ maxInt)
    (hn : ¬ (ts.length = 0 ∨ skipFirst ∧ ts.length ≤ 1)) (r : ℕ → ℕ)
    (ht : ts[drawn skipFirst ts.length (r 0)]? = some ('?' :: t)) :
    ∃ p : ℕ, At reply p ('?' :: t) ∧ ∀ v, read reply p = .ok v →
      (extractLink (some reply) key skipFirst read).run r = .ok (some v, fun i => r (i + 1)) := by
  have hstart : At reply 0 reply := ⟨[], rfl, rfl⟩
  obtain ⟨p, hp, hat⟩ := pickKey_of_occurs hstart h ht (k := -key.length) (by simp)
  refine ⟨p, hat, fun v hv => ?_⟩
  have hend : endOfValue reply (isMin maxInt (indexOfFrom reply ['"'] p)) p = p := by
    have hle : (p : ℤ) ≤ maxInt := by
      have := hat.le_length
      omega
    have hquote : indexOfFrom reply ['"'] p = -1 ∨ (p : ℤ) ≤ indexOfFrom reply ['"'] p := by
      by_cases hne : indexOfFrom reply ['"'] p = -1
      · exact .inl hne
      · exact .inr (indexOfFrom_bounds (by decide) (by omega) hne).1
    exact endOfValue_eq (w := []) hat (by simp) (by decide) (le_isMin hle hquote) (fun h => absurd h (by decide))
  have hpos : (randomComputeLastIndex (some reply) key skipFirst).run r = .ok (some ((p : ℤ), (p : ℤ)), fun i => r (i + 1)) := by
    simp only [randomComputeLastIndex, count_of_occurs h hk]
    change (if ts.length = 0 ∨ skipFirst ∧ ts.length ≤ 1 then _ else _ : Draw _).run r = _
    rw [if_neg hn, StateT.run_bind, nextInt_run (fun h0 => hn (.inl h0))]
    have hcount : (if skipFirst ∧ r 0 % ts.length + 1 = 1 then r 0 % ts.length + 1 + 1 else r 0 % ts.length + 1) =
        drawn skipFirst ts.length (r 0) + 1 := by
      unfold drawn
      simp only [Nat.add_eq_right]
      split_ifs <;> rfl
    change Except.ok _ = _
    simp only [hcount, hp, hend]
  unfold extractLink
  rw [StateT.run_bind, hpos]
  change (StateT.lift (read reply p) >>= fun v => pure (some v) : Draw _).run _ = _
  rw [StateT.run_bind]
  rw [hv]
  rfl

end

/-! ## Links of a page -/

/-- an extractor that does not meet an action reads a link of the page -/
theorem extractLink_page {α : Type} {s : CommentScript} {h : Doc} {skipFirst : Bool} (read : Text → ℤ → Except Exc α)
    (hlen : (render h).length ≤ maxInt) (hn : ¬ ((refs s h).length = 0 ∨ skipFirst ∧ (refs s h).length ≤ 1))
    (hlinks : ∀ m r, (skipFirst = true → 0 < m) → (refs s h)[m]? = some r → r ∈ (links s h).map some) (r : ℕ → ℕ) :
    ∃ l ∈ links s h, ∃ (p : ℕ) (rest : Text), At (render h) p ('?' :: (l.query ++ '"' :: rest)) ∧
      ∀ v, read (render h) p = .ok v →
        (extractLink (some (render h)) (className s) skipFirst read).run r = .ok (some v, fun i => r (i + 1)) := by
  have hboth := followers_refs s h
  rw [← hboth.length_eq] at hn
  have hm : drawn skipFirst (followers s h).length (r 0) < (followers s h).length := drawn_lt hn (r 0)
  generalize hd : drawn skipFirst (followers s h).length (r 0) = m at hm
  have hm' : m < (refs s h).length := hboth.length_eq ▸ hm
  have hskip : skipFirst = true → 0 < m := fun hs => hd ▸ drawn_pos hs
  obtain ⟨l, hl, hrl⟩ := List.mem_map.1 (hlinks m _ hskip (List.getElem?_eq_getElem hm'))
  obtain ⟨rest, ht⟩ := (List.forall₂_iff_get.1 hboth).2 m hm hm' l hrl.symm
  have htm : (followers s h)[m]? = some ('?' :: (l.query ++ '"' :: rest)) := by
    rw [List.getElem?_eq_getElem hm, ← ht]
    rfl
  obtain ⟨p, hp, hrun⟩ := extractLink_some (occurs_render s h) (className_ne_nil s) hlen hn r (hd ▸ htm)
  exact ⟨l, hl, p, rest, hp, hrun⟩

/-- every draw makes the extractor for a script return the parameters of one link of the page -/
def ReadsLink (h : Doc) : CommentScript → Prop
  | .postComment => ∀ r, ∃ table storyId parent, Link.postComment table storyId parent ∈ links .postComment h ∧
      (extractPostCommentFromHTML (some (render h)) (Script.PostComment.file .servlets)).run r =
        .ok (some ⟨some table.text, some storyId.value, some parent.value⟩, fun i => r (i + 1))
  | .viewComment => ∀ r, ∃ table storyId commentId filter display,
      Link.viewComment table storyId commentId filter display ∈ links .viewComment h ∧
      (extractViewCommentFromHTML (some (render h)) (Script.ViewComment.file .servlets)).run r =
        .ok (some ⟨some table.text, some storyId.value, some commentId.value, some filter.value, some display.value⟩,
          fun i => r (i + 1))
  | .moderateComment => ∀ r, ∃ table commentId, Link.moderateComment table commentId ∈ links .moderateComment h ∧
      (extractModerateCommentIdFromHTML (some (render h)) (Script.ModerateComment.file .servlets)).run r =
        .ok (some (some table.text, some commentId.value), fun i => r (i + 1))

/-- the first occurrence is skipped -/
def skipsFirst : CommentScript → Bool
  | .viewComment => true
  | _ => false

theorem file_postComment : Script.PostComment.file .servlets = className .postComment := by decide
theorem file_viewComment : Script.ViewComment.file .servlets = className .viewComment := by decide
theorem file_moderateComment : Script.ModerateComment.file .servlets = className .moderateComment := by decide

theorem readsLink_of_refs {s : CommentScript} {h : Doc} (hlen : (render h).length ≤ maxInt)
    (hn : ¬ ((refs s h).length = 0 ∨ skipsFirst s ∧ (refs s h).length ≤ 1))
    (hlinks : ∀ m r, (skipsFirst s = true → 0 < m) → (refs s h)[m]? = some r → r ∈ (links s h).map some) :
    ReadsLink h s := by
  cases s with
  | postComment =>
    intro r
    obtain ⟨l, hl, p, rest, hat, hrun⟩ := extractLink_page readPostComment hlen hn hlinks r
    cases l with
    | postComment table storyId parent =>
      rw [file_postComment]
      exact ⟨table, storyId, parent, hl, hrun _ (readPostComment_link hat)⟩
    | viewComment => cases script_of_mem_links hl
    | moderateComment => cases script_of_mem_links hl
  | viewComment =>
    intro r
    obtain ⟨l, hl, p, rest, hat, hrun⟩ := extractLink_page readViewComment hlen hn hlinks r
    cases l with
    | postComment => cases script_of_mem_links hl
    | viewComment table storyId commentId filter display =>
      rw [file_viewComment]
      exact ⟨table, storyId, commentId, filter, display, hl, hrun _ (readViewComment_link hat)⟩
    | moderateComment => cases script_of_mem_links hl
  | moderateComment =>
    intro r
    obtain ⟨l, hl, p, rest, hat, hrun⟩ := extractLink_page readModerateComment hlen hn hlinks r
    cases l with
    | postComment => cases script_of_mem_links hl
    | viewComment => cases script_of_mem_links hl
    | moderateComment table commentId =>
      rw [file_moderateComment]
      exact ⟨table, commentId, hl, hrun _ (readModerateComment_link hat)⟩

/-- a script whose class name does not occur, or occurs only where it is skipped, is not read -/
theorem not_readsLink {s : CommentScript} {h : Doc}
    (hn : (refs s h).length = 0 ∨ skipsFirst s ∧ (refs s h).length ≤ 1) : ¬ ReadsLink h s := by
  rw [← (followers_refs s h).length_eq] at hn
  have hnull : ∀ {α : Type} (read : Text → ℤ → Except Exc α),
      (extractLink (some (render h)) (className s) (skipsFirst s) read).run (fun _ => 0) = .ok (none, fun _ => 0) :=
    fun read => extractLink_none (occurs_render s h) (className_ne_nil s) hn _
  intro hreads
  cases s with
  | postComment =>
    obtain ⟨table, storyId, parent, -, hrun⟩ := hreads fun _ => 0
    rw [file_postComment] at hrun
    cases (hnull readPostComment).symm.trans hrun
  | viewComment =>
    obtain ⟨table, storyId, commentId, filter, display, -, hrun⟩ := hreads fun _ => 0
    rw [file_viewComment] at hrun
    cases (hnull readViewComment).symm.trans hrun
  | moderateComment =>
    obtain ⟨table, commentId, -, hrun⟩ := hreads fun _ => 0
    rw [file_moderateComment] at hrun
    cases (hnull readModerateComment).symm.trans hrun

/-! ## Requests -/

open Servlets.CommentPages

/-- a request for a page with links to comments, with the answers of the database -/
inductive Request where
  | viewStory (r : ViewStory)
  | viewComment (r : ViewComment)
  | search (r : Search)

/-- the page, for a number of levels of comments -/
def printed (sp : ServletPrinter) (fuel : ℕ) : Request → Option Doc
  | .viewStory r => viewStory sp fuel r
  | .viewComment r => viewComment sp fuel r
  | .search r => some (search sp r)

/-- a search for comments that finds exactly one -/
def Request.FindsOne : Request → Prop
  | .search r => r.search.isSome ∧ r.typeValue = 1 ∧
      ∃ table rs, r.commentsFound = .ok (table, rs) ∧ rs.rows.length = 1
  | _ => False

theorem length_commentLinks_eq_one (r : Search) : r.commentLinks.length = 1 ↔ (Request.search r).FindsOne := by
  unfold Search.commentLinks Request.FindsOne
  by_cases hc : r.search.isSome ∧ r.typeValue = 1
  · rw [if_pos hc]
    cases hf : r.commentsFound with
    | error e => simp [hf]
    | ok found =>
      obtain ⟨table, rs⟩ := found
      simp only [List.length_map]
      constructor
      · intro hrows
        exact ⟨hc.1, hc.2, table, rs, hf, hrows⟩
      · intro hfound
        obtain ⟨-, -, table', rs', heq, hrows⟩ := hfound
        cases hf.symm.trans heq
        exact hrows
  · rw [if_neg hc]
    simp only [List.length_nil, zero_ne_one, false_iff]
    exact fun h => hc ⟨h.1, h.2.1⟩

variable {sp : ServletPrinter} {fuel : ℕ} {h : Doc} {s : CommentScript}

/-- all references are links -/
theorem readsLink_of_links (hlen : (render h).length ≤ maxInt) (hrefs : refs s h = (links s h).map some)
    (hn : ¬ ((links s h).length = 0 ∨ skipsFirst s ∧ (links s h).length ≤ 1)) : ReadsLink h s := by
  refine readsLink_of_refs hlen (by simpa [hrefs] using hn) fun m r _ hr => ?_
  rw [hrefs] at hr
  exact List.mem_of_getElem? hr

/-- on a page that begins with the form of the filter every script is read that has a link -/
theorem readsLink_of_formFirst (hlen : (render h).length ≤ maxInt) (hform : FormFirst h) (hlinks : links s h ≠ []) :
    ReadsLink h s := by
  have hpos := List.length_pos_of_ne_nil hlinks
  by_cases hs : s = .viewComment
  · subst hs
    rcases hform.view with hview | hview
    · exact absurd (by simp [links, hview]) hlinks
    · refine readsLink_of_refs hlen (by simp [hview, hlinks]) fun m r hm hr => ?_
      -- the first reference is the form
      rw [hview] at hr
      cases m with
      | zero => exact absurd (hm rfl) (by omega)
      | succ m => exact List.mem_of_getElem? hr
  · have hskip : skipsFirst s = false := by
      cases s with
      | viewComment => exact absurd rfl hs
      | postComment => rfl
      | moderateComment => rfl
    refine readsLink_of_links hlen (hform.links s hs) ?_
    simp [hskip, hlinks]

/-- **Link round trip.** For every page of the servlets and every draw an extractor returns the parameters of one link of the
page, exactly if the page has a link to the script and, for ViewComment, is not a search that finds one comment: a search
page has no form in front of its links, and the extractor skips the first. -/
theorem reads_link_iff {req : Request} (hprinted : printed sp fuel req = some h) (hlen : (render h).length ≤ maxInt)
    (s : CommentScript) : ReadsLink h s ↔ links s h ≠ [] ∧ ¬ (s = .viewComment ∧ req.FindsOne) := by
  constructor
  · intro hreads
    constructor
    · intro hnil
      cases s with
      | postComment =>
        obtain ⟨_, _, _, hmem, -⟩ := hreads fun _ => 0
        simp [hnil] at hmem
      | viewComment =>
        obtain ⟨_, _, _, _, _, hmem, -⟩ := hreads fun _ => 0
        simp [hnil] at hmem
      | moderateComment =>
        obtain ⟨_, _, hmem, -⟩ := hreads fun _ => 0
        simp [hnil] at hmem
    · rintro ⟨rfl, hone⟩
      cases req with
      | viewStory r => exact hone
      | viewComment r => exact hone
      | search r =>
        obtain rfl : search sp r = h := Option.some.inj hprinted
        refine not_readsLink (.inr ⟨rfl, ?_⟩) hreads
        rw [search_refs, if_pos rfl, List.length_map, (length_commentLinks_eq_one r).2 hone]
  · rintro ⟨hlinks, hone⟩
    cases req with
    | viewStory r => exact readsLink_of_formFirst hlen (viewStory_refs hprinted) hlinks
    | viewComment r => exact readsLink_of_formFirst hlen (viewComment_refs hprinted) hlinks
    | search r =>
      obtain rfl : search sp r = h := Option.some.inj hprinted
      have hrefs : refs s (search sp r) = (links s (search sp r)).map some := by
        unfold links
        rw [search_refs]
        split <;> simp
      refine readsLink_of_links hlen hrefs ?_
      rintro (hzero | ⟨hskip, hle⟩)
      · exact hlinks (List.length_eq_zero_iff.1 hzero)
      · cases s with
        | postComment => cases hskip
        | moderateComment => cases hskip
        | viewComment =>
          have hpos := List.length_pos_of_ne_nil hlinks
          rw [links_search] at hle hpos
          exact hone ⟨rfl, (length_commentLinks_eq_one r).1 (by omega)⟩

/-- ISO 8859-1 -/
def latin1 : Charset where
  bytes run := run.map fun c => UInt8.ofNat c.toNat
  nonempty run hrun := by simpa using hrun

/-- the first page of a search for comments, with what it finds -/
def commentSearch (hits : List CommentHit) : Search where
  type := some one.printed
  page := none
  search := some (plain "Great")
  stories := .ok ⟨[], none⟩
  old_stories := .ok ⟨[], none⟩
  comments := .ok ⟨hits, none⟩
  old_comments := .ok ⟨[], none⟩
  nullPointer := plain "NullPointerException"
  charset := latin1

def commentHit (id : JInt) : CommentHit :=
  ⟨one.printed, id.printed, plain "Great story", plain "user1", plain "2004-05-06"⟩

def searchPrinter : ServletPrinter := ⟨plain "Search", plain "<html>\n", plain "12 ms"⟩

theorem two_hits_read : links .viewComment (search searchPrinter (commentSearch [commentHit zero, commentHit one])) ≠ [] ∧
    ReadsLink (search searchPrinter (commentSearch [commentHit zero, commentHit one])) .viewComment := by
  have hlinks : links .viewComment (search searchPrinter (commentSearch [commentHit zero, commentHit one])) ≠ [] := by
    rw [links_search]
    exact List.cons_ne_nil _ _
  have hprinted : printed searchPrinter 0 (.search (commentSearch [commentHit zero, commentHit one])) = some _ := rfl
  refine ⟨hlinks, (reads_link_iff hprinted (by decide +kernel) .viewComment).2 ⟨hlinks, fun hone => ?_⟩⟩
  obtain ⟨-, -, -, table, rs, hfound, hrows⟩ := hone
  cases hfound
  cases hrows

/-- one comment is found: there is a link, and the extractor returns null -/
theorem one_hit_not_read : links .viewComment (search searchPrinter (commentSearch [commentHit one])) =
      [.viewComment comments one.printed one.printed zero.printed zero.printed] ∧
    (extractViewCommentFromHTML (some (render (search searchPrinter (commentSearch [commentHit one]))))
      (Script.ViewComment.file .servlets)).run (fun _ => 0) = .ok (none, fun _ => 0) := by
  have hlinks : links .viewComment (search searchPrinter (commentSearch [commentHit one])) =
      [.viewComment comments one.printed one.printed zero.printed zero.printed] := links_search _ _
  refine ⟨hlinks, ?_⟩
  have hrefs : (refs .viewComment (search searchPrinter (commentSearch [commentHit one]))).length = 1 := by
    rw [search_refs]
    rfl
  have hlen := (followers_refs .viewComment (search searchPrinter (commentSearch [commentHit one]))).length_eq
  rw [file_viewComment]
  exact extractLink_none (occurs_render _ _) (className_ne_nil _) (.inr ⟨rfl, by omega⟩) _

end Rubbos.Client.Links
