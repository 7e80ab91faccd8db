/-
The normal form of a path (`jk_servlet_normalize` in jk_util.c of mod_jk).

Four passes rewrite the path in place: they drop parameters, repeated slashes, "." segments, and ".." segments with the segment
before them. A pass reads at l and writes at w; what it reads behind l is what it has copied before.

- `jkServletNormalize_eq`: the passes together resolve the segments of the path.
- `jkServletNormalize_spec`: the path becomes the one that names the place where its segments lead.
-/
import Mathlib.Data.List.TakeWhile
import Rubbos.Core.Text

namespace Rubbos.Connector

open Rubbos.Core

/-! ## Model -/

/-- the array path: done is what stands before w and hole what stands from w to l, both backwards, and rest is the text from l on -/
structure Buf where
  done : Text
  hole : Text
  rest : Text

namespace Buf

/-- `path[l - 1]` -/
def prev (b : Buf) : Option Char := (b.hole ++ b.done).head?

/-- `path[w++] = path[l++]`, where c is at l -/
def copy (b : Buf) (c : Char) (s : Text) : Buf := ⟨c :: b.done, if b.hole = [] then [] else c :: b.hole.dropLast, s⟩

/-- `l += n` -/
def skip (b : Buf) (n : ℕ) : Buf := ⟨b.done, (b.rest.take n).reverse ++ b.hole, b.rest.drop n⟩

/-- `do { w--; } while (w != 0 && path[w - 1] != '/')` -/
def unwind (b : Buf) : Buf :=
  let k := 1 + (b.done.tail.takeWhile (· ≠ '/')).length
  ⟨b.done.drop k, b.hole ++ b.done.take k, b.rest⟩

end Buf

/-- the passes start at 1 -/
def startPass (s : Text) : Buf := ⟨['/'], [], s⟩

/-- drop path parameters -/
def firstPass (b : Buf) : Text :=
  match _h : b.rest with
  | [] => b.done.reverse
  | c :: s => if c = ';' then firstPass (b.skip (1 + (s.takeWhile (· ≠ '/')).length)) else firstPass (b.copy c s)
termination_by b.rest.length
decreasing_by
  · simp only [Buf.skip, _h, List.length_drop, List.length_cons]
    omega
  · simp [Buf.copy, _h]

/-- collapse slashes -/
def secondPass (b : Buf) : Text :=
  match _h : b.rest with
  | [] => b.done.reverse
  | c :: s => if b.done.head? = some '/' ∧ c = '/' then secondPass (b.skip 1) else secondPass (b.copy c s)
termination_by b.rest.length
decreasing_by
  · simp [Buf.skip, _h]
  · simp [Buf.copy, _h]

/-- where a segment ends: at a slash or at the end of the path -/
def atEnd (s : Text) : Bool := s.head? = none ∨ s.head? = some '/'

/-- n characters of a segment, and the slash behind them if there is one -/
def segmentLength (n : ℕ) (s : Text) : ℕ := if s.head? = some '/' then n + 1 else n

theorem lt_segmentLength {n : ℕ} (hn : 0 < n) (s : Text) : 0 < segmentLength n s := by
  unfold segmentLength
  split <;> omega

/-- remove "." segments -/
def thirdPass (b : Buf) : Text :=
  match _h : b.rest with
  | [] => b.done.reverse
  | c :: s =>
    if c = '.' ∧ atEnd s ∧ b.prev = some '/' then thirdPass (b.skip (segmentLength 1 s))
    else thirdPass (b.copy c s)
termination_by b.rest.length
decreasing_by
  · have := lt_segmentLength Nat.one_pos s
    simp only [Buf.skip, _h, List.length_drop, List.length_cons]
    omega
  · simp [Buf.copy, _h]

inductive Normalized where
  | ok (path : Text)
  /-- JK_NORMALIZE_BAD_PATH -/
  | badPath
  /-- JK_NORMALIZE_TRAVERSAL -/
  | traversal
deriving DecidableEq, Repr

/-- remove ".." segments and the segments before them -/
def fourthPass (b : Buf) : Normalized :=
  match _h : b.rest with
  | [] => .ok b.done.reverse
  | c :: s =>
    if c = '.' ∧ s.head? = some '.' ∧ atEnd s.tail ∧ b.prev = some '/' then
      if b.done.length = 1 then .traversal
      else fourthPass (b.unwind.skip (segmentLength 2 s.tail))
    else fourthPass (b.copy c s)
termination_by b.rest.length
decreasing_by
  · have := lt_segmentLength Nat.two_pos s.tail
    simp only [Buf.skip, Buf.unwind, _h, List.length_drop, List.length_cons]
    omega
  · simp [Buf.copy, _h]

/-- `jk_servlet_normalize` -/
def jkServletNormalize (path : Text) : Normalized :=
  match path with
  | '/' :: s =>
    let path := firstPass (startPass s)
    let path := secondPass (startPass path.tail)
    let path := thirdPass (startPass path.tail)
    fourthPass (startPass path.tail)
  | _ => if path = ['*'] then .ok path else .badPath

/-! ## The passes as functions on texts -/

def dropParams : Text → Text
  | [] => []
  | c :: s => if c = ';' then dropParams (s.dropWhile (· ≠ '/')) else c :: dropParams s
termination_by s => s.length
decreasing_by
  · exact Nat.lt_succ_of_le (List.dropWhile_sublist _).length_le
  · exact Nat.lt_succ_self _

/-- start says that a segment starts here -/
def collapse : (start : Bool) → Text → Text
  | _, [] => []
  | start, c :: s => if start ∧ c = '/' then collapse true s else c :: collapse (c = '/') s

def dropDots : (start : Bool) → Text → Text
  | _, [] => []
  | start, c :: s =>
    if c = '.' ∧ atEnd s ∧ start then dropDots true s.tail else c :: dropDots (c = '/') s
termination_by _ s => s.length
decreasing_by
  · simp only [List.length_tail, List.length_cons]
    omega
  · exact Nat.lt_succ_self _

/-- the path before the last segment of done, which ends with a slash -/
def parent (done : Text) : Text := done.tail.dropWhile (· ≠ '/')

def climb : (done : Text) → (start : Bool) → Text → Normalized
  | done, _, [] => .ok done.reverse
  | done, start, c :: s =>
    if c = '.' ∧ s.head? = some '.' ∧ atEnd s.tail ∧ start then
      if done.length = 1 then .traversal else climb (parent done) true s.tail.tail
    else climb (c :: done) (c = '/') s
termination_by _ _ s => s.length
decreasing_by
  · simp only [List.length_tail, List.length_cons]
    omega
  · exact Nat.lt_succ_self _

section

variable {b : Buf}

theorem drop_takeWhile (p : Char → Bool) (s : Text) : s.drop (s.takeWhile p).length = s.dropWhile p := by
  induction s with
  | nil => rfl
  | cons c s ih => by_cases hc : p c <;> simp [hc, ih]

theorem firstPass_eq (b : Buf) : firstPass b = b.done.reverse ++ dropParams b.rest := by
  fun_induction firstPass b with
  | case1 b h => simp [h, dropParams]
  | case2 b s h ih =>
    rw [ih, h, dropParams, if_pos rfl]
    simp only [Buf.skip, h, Nat.add_comm 1, List.drop_succ_cons, drop_takeWhile]
  | case3 b c s h hc ih =>
    rw [ih, h, dropParams, if_neg hc]
    simp [Buf.copy]

theorem secondPass_eq (b : Buf) : secondPass b = b.done.reverse ++ collapse (b.done.head? = some '/') b.rest := by
  fun_induction secondPass b with
  | case1 b h => simp [h, collapse]
  | case2 b c s h hc ih =>
    rw [ih, h, collapse, if_pos (by simpa using hc)]
    simp [Buf.skip, h, hc.1]
  | case3 b c s h hc ih =>
    rw [ih, h, collapse, if_neg (by simpa using hc)]
    simp [Buf.copy]

@[simp] theorem prev_copy (b : Buf) (c : Char) (s : Text) : (b.copy c s).prev = some c := by
  unfold Buf.prev Buf.copy
  by_cases h : b.hole = [] <;> simp [h]

/-- behind a segment that is skipped -/
theorem skip_segment {b : Buf} {n : ℕ} {s t : Text} (hrest : b.rest = s ++ t) (hn : s.length = n) (hend : atEnd t) :
    (b.skip (segmentLength n t)).rest = t.tail ∧ (t.tail = [] ∨ (b.skip (segmentLength n t)).prev = some '/') := by
  cases t with
  | nil => exact ⟨by simp [Buf.skip, segmentLength, hrest, hn], .inl rfl⟩
  | cons c t =>
    obtain rfl : c = '/' := by simpa [atEnd] using hend
    have hsplit : b.rest = (s ++ ['/']) ++ t := by simp [hrest]
    have hlen : (s ++ ['/']).length = n + 1 := by simp [hn]
    have hskip : b.skip (segmentLength n ('/' :: t)) = ⟨b.done, '/' :: (s.reverse ++ b.hole), t⟩ := by
      simp only [Buf.skip, segmentLength, List.head?_cons, if_true, hsplit, List.take_left' hlen, List.drop_left' hlen]
      simp
    rw [hskip]
    exact ⟨rfl, .inr rfl⟩

theorem dropDots_nil (start : Bool) : dropDots start [] = [] := by simp [dropDots]

theorem thirdPass_eq (b : Buf) : thirdPass b = b.done.reverse ++ dropDots (b.prev = some '/') b.rest := by
  fun_induction thirdPass b with
  | case1 b h => simp [h, dropDots]
  | case2 b c s h hc ih =>
    obtain ⟨hrest, hprev⟩ := skip_segment (b := b) (s := [c]) (t := s) (n := 1) h rfl hc.2.1
    rw [ih, h, dropDots, if_pos (by simpa using hc), hrest]
    obtain hnil | hprev := hprev
    · rw [hnil, dropDots_nil, dropDots_nil]
      rfl
    · rw [hprev, decide_eq_true rfl]
      rfl
  | case3 b c s h hc ih =>
    rw [ih, h, dropDots, if_neg (by simpa using hc), prev_copy]
    simp [Buf.copy]

theorem climb_nil (done : Text) (start : Bool) : climb done start [] = .ok done.reverse := by simp [climb]

theorem fourthPass_eq (b : Buf) : fourthPass b = climb b.done (b.prev = some '/') b.rest := by
  fun_induction fourthPass b with
  | case1 b h => simp [h, climb]
  | case2 b c s h hc hroot => rw [h, climb, if_pos (by simpa using hc), if_pos hroot]
  | case3 b c s h hc hroot ih =>
    have hs : s = '.' :: s.tail := by
      cases s with
      | nil => simp at hc
      | cons d s =>
        have hd : d = '.' := by simpa using hc.2.1
        simp [hd]
    have hsplit : b.unwind.rest = [c, '.'] ++ s.tail := by
      rw [List.cons_append, List.singleton_append, ← hs]
      exact h
    obtain ⟨hrest, hprev⟩ := skip_segment (t := s.tail) (n := 2) hsplit rfl hc.2.2.1
    have hdone : (b.unwind.skip (segmentLength 2 s.tail)).done = parent b.done := by
      simp only [Buf.skip, Buf.unwind, parent]
      cases b.done with
      | nil => rfl
      | cons d done => simp only [List.tail_cons, Nat.add_comm 1, List.drop_succ_cons, drop_takeWhile]
    rw [ih, h, climb, if_pos (by simpa using hc), if_neg hroot, hrest, hdone]
    obtain hnil | hprev := hprev
    · rw [hnil, climb_nil, climb_nil]
    · simp [hprev]
  | case4 b c s h hc ih =>
    rw [ih, h, climb, if_neg (by simpa using hc), prev_copy]
    simp [Buf.copy]

end

/-! ## Segments -/

/-- the segments in front of the last one, and the last one, behind the first slash of a path -/
def pathText (init : List Text) (last : Text) : Text := init.flatMap (· ++ ['/']) ++ last

@[simp] theorem pathText_nil (last : Text) : pathText [] last = last := rfl

@[simp] theorem pathText_cons (seg : Text) (init : List Text) (last : Text) :
    pathText (seg :: init) last = seg ++ '/' :: pathText init last := by simp [pathText]

/-- segments have no slashes -/
def Slashless (init : List Text) (last : Text) : Prop := (∀ seg ∈ init, '/' ∉ seg) ∧ '/' ∉ last

theorem exists_segments (s : Text) : ∃ init last, s = pathText init last ∧ Slashless init last := by
  induction s with
  | nil => exact ⟨[], [], rfl, by simp, by simp⟩
  | cons c s ih =>
    obtain ⟨init, last, rfl, hinit, hlast⟩ := ih
    by_cases hc : c = '/'
    · exact ⟨[] :: init, last, by simp [hc], List.forall_mem_cons.2 ⟨by simp, hinit⟩, hlast⟩
    · cases init with
      | nil => exact ⟨[], c :: last, rfl, by simp, by simp [Ne.symm hc, hlast]⟩
      | cons seg init =>
        obtain ⟨hseg, hinit⟩ := List.forall_mem_cons.1 hinit
        exact ⟨(c :: seg) :: init, last, by simp, List.forall_mem_cons.2 ⟨by simp [Ne.symm hc, hseg], hinit⟩, hlast⟩

/-- a segment without its parameters -/
def stripParams (seg : Text) : Text := seg.takeWhile (· ≠ ';')

section

variable {seg t last : Text} {init : List Text}

theorem dropParams_segment (hseg : '/' ∉ seg) : dropParams seg = stripParams seg ∧
    dropParams (seg ++ '/' :: t) = stripParams seg ++ '/' :: dropParams t := by
  induction seg with
  | nil => exact ⟨by simp [dropParams, stripParams], by simp [dropParams, stripParams]⟩
  | cons c seg ih =>
    simp only [List.mem_cons, not_or] at hseg
    obtain ⟨hend, hslash⟩ := ih hseg.2
    by_cases hc : c = ';'
    · have hall : ∀ d ∈ seg, decide (d ≠ '/') = true := by
        intro d hd
        simpa using fun h : d = '/' => hseg.2 (h ▸ hd)
      have hdrop : (seg ++ '/' :: t).dropWhile (· ≠ '/') = '/' :: t := by
        rw [List.dropWhile_append_of_pos hall, List.dropWhile_cons_of_neg (by simp)]
      have hdrop' : seg.dropWhile (· ≠ '/') = [] := by
        rw [List.dropWhile_eq_nil_iff]
        exact hall
      refine ⟨?_, ?_⟩
      · rw [dropParams, if_pos hc, hdrop']
        simp [dropParams, stripParams, hc]
      · rw [List.cons_append, dropParams, if_pos hc, hdrop]
        simp [dropParams, stripParams, hc]
    · refine ⟨?_, ?_⟩
      · rw [dropParams, if_neg hc, hend]
        simp [stripParams, hc]
      · rw [List.cons_append, dropParams, if_neg hc, hslash]
        simp [stripParams, hc]

theorem dropParams_path (h : Slashless init last) :
    dropParams (pathText init last) = pathText (init.map stripParams) (stripParams last) := by
  obtain ⟨hinit, hlast⟩ := h
  induction init with
  | nil => exact (dropParams_segment (t := []) hlast).1
  | cons seg init ih =>
    obtain ⟨hseg, hinit⟩ := List.forall_mem_cons.1 hinit
    rw [pathText_cons, (dropParams_segment hseg).2, ih hinit]
    simp

theorem collapse_segment (hseg : '/' ∉ seg) : collapse false seg = seg ∧
    collapse false (seg ++ '/' :: t) = seg ++ '/' :: collapse true t := by
  induction seg with
  | nil => exact ⟨by simp [collapse], by simp [collapse]⟩
  | cons c seg ih =>
    simp only [List.mem_cons, not_or] at hseg
    obtain ⟨hend, hslash⟩ := ih hseg.2
    have hc : (decide (c = '/')) = false := by simpa using Ne.symm hseg.1
    exact ⟨by simp [collapse, hc, hend], by simp [collapse, hc, hslash]⟩

theorem collapse_path (h : Slashless init last) :
    collapse true (pathText init last) = pathText (init.filter (· ≠ [])) last := by
  obtain ⟨hinit, hlast⟩ := h
  induction init with
  | nil =>
    cases last with
    | nil => rfl
    | cons c last =>
      simp only [List.mem_cons, not_or] at hlast
      simp [collapse, Ne.symm hlast.1, (collapse_segment (t := []) hlast.2).1]
  | cons seg init ih =>
    obtain ⟨hseg, hrest⟩ := List.forall_mem_cons.1 hinit
    have htail := ih hrest
    rw [pathText_cons]
    cases seg with
    | nil => simp [collapse, htail]
    | cons c seg =>
      simp only [List.mem_cons, not_or] at hseg
      simp [collapse, Ne.symm hseg.1, (collapse_segment hseg.2).2, htail]

theorem dropDots_segment (hseg : '/' ∉ seg) : dropDots false seg = seg ∧
    dropDots false (seg ++ '/' :: t) = seg ++ '/' :: dropDots true t := by
  induction seg with
  | nil => exact ⟨by simp [dropDots], by simp [dropDots]⟩
  | cons c seg ih =>
    simp only [List.mem_cons, not_or] at hseg
    obtain ⟨hend, hslash⟩ := ih hseg.2
    have hc : (decide (c = '/')) = false := by simpa using Ne.symm hseg.1
    exact ⟨by simp [dropDots, hc, hend], by simp [dropDots, hc, hslash]⟩

/-- a segment that is not a dot, at its start -/
theorem dropDots_start (hseg : '/' ∉ seg) (hdot : seg ≠ ['.']) : dropDots true seg = seg ∧
    dropDots true (seg ++ '/' :: t) = seg ++ '/' :: dropDots true t := by
  cases seg with
  | nil => exact ⟨by simp [dropDots], by simp [dropDots]⟩
  | cons c seg =>
    simp only [List.mem_cons, not_or] at hseg
    obtain ⟨hend, hslash⟩ := dropDots_segment (t := t) hseg.2
    have hc : (decide (c = '/')) = false := by simpa using Ne.symm hseg.1
    have hnot : ∀ u, (u = [] ∨ u.head? = some '/') → ¬ (c = '.' ∧ atEnd (seg ++ u) ∧ true = true) := by
      rintro u hu ⟨rfl, hat, -⟩
      cases seg with
      | nil => exact hdot rfl
      | cons d seg =>
        have hd : d = '/' := by simpa [atEnd] using hat
        exact hseg.2 (by simp [hd])
    have hnil := hnot [] (.inl rfl)
    have hcons := hnot ('/' :: t) (.inr rfl)
    rw [List.append_nil] at hnil
    refine ⟨?_, ?_⟩
    · rw [dropDots, if_neg hnil, hc, hend]
    · rw [List.cons_append, dropDots, if_neg hcons, hc, hslash]
      rfl

theorem dropDots_path (h : Slashless init last) : dropDots true (pathText init last) =
    pathText (init.filter (· ≠ ['.'])) (if last = ['.'] then [] else last) := by
  obtain ⟨hinit, hlast⟩ := h
  induction init with
  | nil =>
    split_ifs with hdot
    · simp [hdot, dropDots, atEnd]
    · exact (dropDots_start (t := []) hlast hdot).1
  | cons seg init ih =>
    obtain ⟨hseg, hinit⟩ := List.forall_mem_cons.1 hinit
    rw [pathText_cons]
    by_cases hdot : seg = ['.']
    · simp [hdot, dropDots, atEnd, ih hinit]
    · rw [(dropDots_start hseg hdot).2, ih hinit]
      simp [hdot]

/-- what is done when the names of a stack, the last one first, stand in the path -/
def doneOf (stack : List Text) : Text := stack.flatMap (fun seg => '/' :: seg.reverse) ++ ['/']

theorem parent_doneOf {stack : List Text} (hseg : '/' ∉ seg) : parent (doneOf (seg :: stack)) = doneOf stack := by
  have hall : ∀ c ∈ seg.reverse, decide (c ≠ '/') = true := by
    intro c hc
    simpa using fun h : c = '/' => hseg (h ▸ List.mem_reverse.1 hc)
  have hdone : (doneOf (seg :: stack)).tail = seg.reverse ++ doneOf stack := by simp [doneOf]
  have hhead : ∃ t, doneOf stack = '/' :: t := by cases stack <;> exact ⟨_, rfl⟩
  obtain ⟨t, ht⟩ := hhead
  rw [parent, hdone, List.dropWhile_append_of_pos hall, ht, List.dropWhile_cons_of_neg (by simp)]

theorem reverse_doneOf (stack : List Text) : (doneOf stack).reverse = '/' :: pathText stack.reverse [] := by
  induction stack with
  | nil => rfl
  | cons seg stack ih =>
    have hdone : doneOf (seg :: stack) = '/' :: (seg.reverse ++ doneOf stack) := by simp [doneOf]
    rw [hdone]
    simp only [List.reverse_cons, List.reverse_append, List.reverse_reverse, ih]
    simp [pathText]

theorem length_doneOf (stack : List Text) : (doneOf stack).length = 1 ↔ stack = [] := by
  cases stack with
  | nil => simp [doneOf]
  | cons seg stack => simp [doneOf]

/-- the stack of names, and the segments that are still to come -/
def resolve : (stack : List Text) → (init : List Text) → (last : Text) → Normalized
  | stack, [], last =>
    if last = ['.', '.'] then
      match stack with
      | [] => .traversal
      | _ :: stack => .ok ('/' :: pathText stack.reverse [])
    else .ok ('/' :: pathText stack.reverse last)
  | stack, seg :: init, last =>
    if seg = ['.', '.'] then
      match stack with
      | [] => .traversal
      | _ :: stack => resolve stack init last
    else resolve (seg :: stack) init last

theorem climb_segment (done : Text) (hseg : '/' ∉ seg) : climb done false seg = .ok (seg.reverse ++ done).reverse ∧
    climb done false (seg ++ '/' :: t) = climb ('/' :: (seg.reverse ++ done)) true t := by
  induction seg generalizing done with
  | nil => exact ⟨by simp [climb], by simp [climb]⟩
  | cons c seg ih =>
    simp only [List.mem_cons, not_or] at hseg
    obtain ⟨hend, hslash⟩ := ih (c :: done) hseg.2
    have hc : (decide (c = '/')) = false := by simpa using Ne.symm hseg.1
    exact ⟨by simp [climb, hc, hend], by simp [climb, hc, hslash]⟩

/-- a segment that is not "..", at its start -/
theorem climb_start {done : Text} (hseg : '/' ∉ seg) (hdots : seg ≠ ['.', '.']) :
    climb done true seg = .ok (seg.reverse ++ done).reverse ∧
      climb done true (seg ++ '/' :: t) = climb ('/' :: (seg.reverse ++ done)) true t := by
  cases seg with
  | nil => exact ⟨by simp [climb], by simp [climb]⟩
  | cons c seg =>
    simp only [List.mem_cons, not_or] at hseg
    obtain ⟨hend, hslash⟩ := climb_segment (c :: done) (t := t) hseg.2
    have hc : (decide (c = '/')) = false := by simpa using Ne.symm hseg.1
    have hnot : ∀ u, (u = [] ∨ u.head? = some '/') →
        ¬ (c = '.' ∧ (seg ++ u).head? = some '.' ∧ atEnd (seg ++ u).tail ∧ true = true) := by
      rintro u hu ⟨rfl, hsecond, hat, -⟩
      match seg, hdots, hseg with
      | [], _, _ =>
        obtain rfl | hu := hu
        · simp at hsecond
        · simp [hu] at hsecond
      | [d], hdots, _ =>
        have hd : d = '.' := by simpa using hsecond
        exact hdots (by rw [hd])
      | d :: e :: seg, _, hseg =>
        have he : e = '/' := by simpa [atEnd] using hat
        exact hseg.2 (by simp [he])
    have hnil := hnot [] (.inl rfl)
    have hcons := hnot ('/' :: t) (.inr rfl)
    rw [List.append_nil] at hnil
    refine ⟨?_, ?_⟩
    · rw [climb, if_neg hnil, hc, hend]
      simp
    · rw [List.cons_append, climb, if_neg hcons, hc, hslash]
      simp

theorem climb_path (stack : List Text) (hstack : ∀ seg ∈ stack, '/' ∉ seg) (h : Slashless init last) :
    climb (doneOf stack) true (pathText init last) = resolve stack init last := by
  obtain ⟨hinit, hlast⟩ := h
  induction init generalizing stack with
  | nil =>
    unfold resolve
    split_ifs with hdots
    · subst hdots
      simp only [pathText_nil]
      rw [climb, if_pos (by simp [atEnd])]
      cases stack with
      | nil => simp [doneOf]
      | cons seg stack =>
        obtain ⟨hseg, -⟩ := List.forall_mem_cons.1 hstack
        rw [if_neg (by simp [length_doneOf]), parent_doneOf hseg]
        simp only [List.tail_cons, List.tail_nil]
        rw [climb_nil, reverse_doneOf]
    · rw [pathText_nil, (climb_start (t := []) hlast hdots).1, List.reverse_append, List.reverse_reverse, reverse_doneOf]
      simp [pathText]
  | cons seg init ih =>
    obtain ⟨hseg, hrest⟩ := List.forall_mem_cons.1 hinit
    rw [pathText_cons]
    unfold resolve
    split_ifs with hdots
    · subst hdots
      simp only [List.cons_append, List.nil_append]
      rw [climb, if_pos (by simp [atEnd])]
      cases stack with
      | nil => simp [doneOf]
      | cons seg stack =>
        obtain ⟨hseg', hstack⟩ := List.forall_mem_cons.1 hstack
        rw [if_neg (by simp [length_doneOf]), parent_doneOf hseg']
        simp only [List.tail_cons]
        exact ih _ hstack hrest
    · have hdone : '/' :: (seg.reverse ++ doneOf stack) = doneOf (seg :: stack) := by simp [doneOf]
      rw [(climb_start hseg hdots).2, hdone]
      exact ih _ (List.forall_mem_cons.2 ⟨hseg, hstack⟩) hrest

end

/-! ## Where a path leads -/

/-- a name: neither empty nor a dot nor two -/
def isName (seg : Text) : Bool := seg ≠ [] ∧ seg ≠ ['.'] ∧ seg ≠ ['.', '.']

/-- from a directory, given by its names with the innermost first, into what a segment denotes -/
def enter (dir : List Text) (seg : Text) : Option (List Text) :=
  if seg = [] ∨ seg = ['.'] then some dir
  else if seg = ['.', '.'] then dir.tail?
  else some (seg :: dir)

/-- a name in a directory, or the directory itself -/
structure Place where
  dir : List Text
  file : Text
deriving DecidableEq, Repr

namespace Place

def path (p : Place) : Text := '/' :: pathText p.dir.reverse p.file

/-- the names can stand in a path as they are -/
structure Named (p : Place) : Prop where
  dir : ∀ seg ∈ p.dir, isName seg ∧ '/' ∉ seg ∧ ';' ∉ seg
  file : (p.file = [] ∨ isName p.file) ∧ '/' ∉ p.file ∧ ';' ∉ p.file

end Place

/-- the last segment is not entered if it is a name -/
def arrive (last : Text) (dir : List Text) : Option Place :=
  if isName last then some ⟨dir, last⟩ else (enter dir last).map (⟨·, []⟩)

def place (init : List Text) (last : Text) : Option Place := (init.foldlM enter []).bind (arrive last)

def Normalized.ofPlace : Option Place → Normalized
  | none => .traversal
  | some p => .ok p.path

section

variable {seg last : Text} {init stack : List Text}

theorem not_mem_stripParams (seg : Text) : ';' ∉ stripParams seg := fun h => by
  simpa using List.mem_takeWhile_imp h

theorem stripParams_of_not_mem (h : ';' ∉ seg) : stripParams seg = seg := by
  unfold stripParams
  rw [List.takeWhile_eq_self_iff]
  intro c hc
  simpa using fun h' : c = ';' => h (h' ▸ hc)

theorem slashless_strip (h : Slashless init last) : Slashless (init.map stripParams) (stripParams last) :=
  ⟨List.forall_mem_map.2 fun seg hseg hmem => h.1 seg hseg ((List.takeWhile_sublist _).mem hmem),
    fun hmem => h.2 ((List.takeWhile_sublist _).mem hmem)⟩

theorem slashless_filter (p : Text → Bool) (h : Slashless init last) : Slashless (init.filter p) last :=
  ⟨fun seg hseg => h.1 seg (List.mem_of_mem_filter hseg), h.2⟩

theorem slashless_last (h : Slashless init last) : Slashless init (if last = ['.'] then [] else last) := by
  refine ⟨h.1, ?_⟩
  split_ifs
  · simp
  · exact h.2

/-- the passes together -/
theorem jkServletNormalize_eq (h : Slashless init last) : jkServletNormalize ('/' :: pathText init last) =
    resolve [] (((init.map stripParams).filter (· ≠ [])).filter (· ≠ ['.']))
      (if stripParams last = ['.'] then [] else stripParams last) := by
  have h₁ := slashless_strip h
  have h₂ := slashless_filter (· ≠ []) h₁
  have h₃ := slashless_last (slashless_filter (· ≠ ['.']) h₂)
  have hstart : ∀ s, (startPass s).prev = some '/' := fun s => rfl
  unfold jkServletNormalize
  simp only [firstPass_eq, secondPass_eq, thirdPass_eq, fourthPass_eq, hstart]
  simp only [startPass, List.reverse_singleton, List.singleton_append, List.tail_cons, List.head?_cons, decide_true]
  rw [dropParams_path h, collapse_path h₁, dropDots_path h₂]
  exact climb_path [] (by simp) h₃

/-- the segments that are dropped are those that lead nowhere -/
theorem resolve_eq (stack init : List Text) (last : Text) :
    resolve stack ((init.filter (· ≠ [])).filter (· ≠ ['.'])) (if last = ['.'] then [] else last) =
      .ofPlace ((init.foldlM enter stack).bind (arrive last)) := by
  induction init generalizing stack with
  | nil =>
    simp only [List.filter_nil, List.foldlM_nil, Option.pure_def, Option.bind_some]
    unfold resolve arrive enter isName
    by_cases hnil : last = []
    · simp [hnil, Normalized.ofPlace, Place.path]
    · by_cases hdot : last = ['.']
      · simp [hdot, Normalized.ofPlace, Place.path]
      · by_cases hdots : last = ['.', '.']
        · cases stack <;> simp [hdots, Normalized.ofPlace, Place.path]
        · simp [hnil, hdot, hdots, Normalized.ofPlace, Place.path]
  | cons seg init ih =>
    rw [List.foldlM_cons]
    by_cases hnil : seg = []
    · simpa [hnil, enter] using ih stack
    · by_cases hdot : seg = ['.']
      · simpa [hdot, enter] using ih stack
      · have hfilter : ((seg :: init).filter (· ≠ [])).filter (· ≠ ['.']) = seg :: (init.filter (· ≠ [])).filter (· ≠ ['.']) := by
          simp [hnil, hdot]
        rw [hfilter]
        unfold resolve
        by_cases hdots : seg = ['.', '.']
        · cases stack with
          | nil => simp [hdots, enter, Normalized.ofPlace]
          | cons up stack => simpa [hdots, enter] using ih stack
        · simpa [hnil, hdot, hdots, enter] using ih (seg :: stack)

theorem normalize_place (h : Slashless init last) :
    jkServletNormalize ('/' :: pathText init last) = .ofPlace (place (init.map stripParams) (stripParams last)) := by
  rw [jkServletNormalize_eq h, resolve_eq]
  rfl

theorem named_enter {dir dir' : List Text} (hseg : '/' ∉ seg ∧ ';' ∉ seg) (hdir : ∀ name ∈ dir, isName name ∧ '/' ∉ name ∧ ';' ∉ name)
    (h : enter dir seg = some dir') : ∀ name ∈ dir', isName name ∧ '/' ∉ name ∧ ';' ∉ name := by
  unfold enter at h
  split_ifs at h with hstay hdots
  · cases h
    exact hdir
  · cases dir with
    | nil => cases h
    | cons up dir =>
      cases h
      exact fun name hname => hdir name (List.mem_cons_of_mem _ hname)
  · cases h
    have hname : isName seg := by
      rw [not_or] at hstay
      simp [isName, hstay.1, hstay.2, hdots]
    exact List.forall_mem_cons.2 ⟨⟨hname, hseg⟩, hdir⟩

theorem named_walk {dir dir' : List Text} (hinit : ∀ seg ∈ init, '/' ∉ seg ∧ ';' ∉ seg)
    (hdir : ∀ name ∈ dir, isName name ∧ '/' ∉ name ∧ ';' ∉ name) (h : init.foldlM enter dir = some dir') :
    ∀ name ∈ dir', isName name ∧ '/' ∉ name ∧ ';' ∉ name := by
  induction init generalizing dir with
  | nil =>
    cases h
    exact hdir
  | cons seg init ih =>
    obtain ⟨hseg, hrest⟩ := List.forall_mem_cons.1 hinit
    rw [List.foldlM_cons, Option.bind_eq_bind, Option.bind_eq_some_iff] at h
    obtain ⟨dir₁, henter, hwalk⟩ := h
    exact ih hrest (named_enter hseg hdir henter) hwalk

theorem named_place {p : Place} (hinit : ∀ seg ∈ init, '/' ∉ seg ∧ ';' ∉ seg) (hlast : '/' ∉ last ∧ ';' ∉ last)
    (h : place init last = some p) : p.Named := by
  obtain ⟨dir, hwalk, harrive⟩ := Option.bind_eq_some_iff.1 h
  have hdir := named_walk hinit (by simp) hwalk
  unfold arrive at harrive
  split_ifs at harrive with hname
  · cases harrive
    exact ⟨hdir, .inr hname, hlast⟩
  · obtain ⟨dir', henter, rfl⟩ := Option.map_eq_some_iff.1 harrive
    exact ⟨named_enter hlast hdir henter, .inl rfl, by simp, by simp⟩

theorem named_strip {p : Place} (h : Slashless init last) (hplace : place (init.map stripParams) (stripParams last) = some p) :
    p.Named := by
  obtain ⟨hinit, hlast⟩ := slashless_strip h
  refine named_place (fun seg hseg => ⟨hinit seg hseg, ?_⟩) ⟨hlast, not_mem_stripParams last⟩ hplace
  obtain ⟨seg', -, rfl⟩ := List.mem_map.1 hseg
  exact not_mem_stripParams seg'

/-- names lead into the directories that they name -/
theorem walk_names {names : List Text} (hnames : ∀ seg ∈ names, isName seg) (stack : List Text) :
    names.foldlM enter stack = some (names.reverse ++ stack) := by
  induction names generalizing stack with
  | nil => rfl
  | cons seg names ih =>
    obtain ⟨hseg, hrest⟩ := List.forall_mem_cons.1 hnames
    have henter : enter stack seg = some (seg :: stack) := by
      simp only [isName, decide_eq_true_eq] at hseg
      simp [enter, hseg]
    rw [List.foldlM_cons, henter, Option.bind_eq_bind, Option.bind_some, ih hrest]
    simp

theorem normalize_named {p : Place} (hp : p.Named) : jkServletNormalize p.path = .ok p.path := by
  have hdir : ∀ seg ∈ p.dir.reverse, isName seg ∧ '/' ∉ seg ∧ ';' ∉ seg := fun seg hseg => hp.dir seg (List.mem_reverse.1 hseg)
  have hstrip : p.dir.reverse.map stripParams = p.dir.reverse :=
    (List.map_congr_left fun seg hseg => stripParams_of_not_mem (hdir seg hseg).2.2).trans (List.map_id _)
  have harrive : arrive p.file p.dir = some p := by
    obtain hfile | hfile := hp.file.1
    · have hnot : isName [] = false := rfl
      obtain ⟨dir, file⟩ := p
      simp only at hfile
      simp [arrive, hfile, hnot, enter]
    · simp [arrive, hfile]
  have hplace : place p.dir.reverse p.file = some p := by
    unfold place
    rw [walk_names (fun seg hseg => (hdir seg hseg).1), List.append_nil, List.reverse_reverse, Option.bind_some, harrive]
  have hslash : Slashless p.dir.reverse p.file := ⟨fun seg hseg => (hdir seg hseg).2.1, hp.file.2.1⟩
  have hnormal := normalize_place hslash
  rw [hstrip, stripParams_of_not_mem hp.file.2.2, hplace] at hnormal
  exact hnormal

/-- the paths that are left as they are -/
def Normal (path : Text) : Prop := path = ['*'] ∨ ∃ p : Place, p.Named ∧ path = p.path

theorem normal_of_normalize {path p : Text} (h : jkServletNormalize path = .ok p) : Normal p := by
  cases path with
  | nil => cases h
  | cons c s =>
    by_cases hc : c = '/'
    · obtain ⟨init, last, rfl, hslashless⟩ := exists_segments s
      rw [hc, normalize_place hslashless] at h
      cases hplace : place (init.map stripParams) (stripParams last) with
      | none =>
        rw [hplace] at h
        cases h
      | some q =>
        rw [hplace] at h
        cases h
        exact .inr ⟨q, named_strip hslashless hplace, rfl⟩
    · unfold jkServletNormalize at h
      split at h
      · rename_i heq
        exact absurd (List.cons.inj heq).1 hc
      · split_ifs at h with hstar
        cases h
        exact .inl hstar

theorem normalize_of_normal {p : Text} (h : Normal p) : jkServletNormalize p = .ok p := by
  obtain rfl | ⟨q, hq, rfl⟩ := h
  · rfl
  · exact normalize_named hq

/-- **Normal forms.** A path is refused just if it climbs above the root, and otherwise becomes the one that names the place it
leads to; the paths that are left are just the normal ones, and these stay as they are. -/
theorem jkServletNormalize_spec :
    (∀ s, ∃ init last, s = pathText init last ∧ Slashless init last ∧
      jkServletNormalize ('/' :: s) = .ofPlace (place (init.map stripParams) (stripParams last))) ∧
    (∀ p, (∃ path, jkServletNormalize path = .ok p) ↔ Normal p) ∧
    ∀ p, Normal p → jkServletNormalize p = .ok p := by
  refine ⟨fun s => ?_, fun p => ⟨fun ⟨path, h⟩ => normal_of_normalize h, fun h => ⟨p, normalize_of_normal h⟩⟩,
    fun p => normalize_of_normal⟩
  obtain ⟨init, last, hs, hslashless⟩ := exists_segments s
  exact ⟨init, last, hs, hslashless, hs ▸ normalize_place hslashless⟩

end

end Rubbos.Connector
