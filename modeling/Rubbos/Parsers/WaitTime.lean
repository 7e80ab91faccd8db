/-
The file names of the wait time tool (`WaitTime.cpp`).

The name of the input is NODE_COMPONENT_MONITOR_RESOURCE_TO_NODE_COMPONENT_MONITOR_RESOURCE..., where the first part may
have further tokens. The tool looks for `_TO_`, counts separators on both sides of it, and builds the name of its output and
the label of its column from pieces of the name. A piece that is cut off ends behind its separator while `_dst` begins with
one, so RESOURCE is empty in the output; and `ptr` still points into the first part when the label is copied.

- `output_rejected`, `label_ne`: what comes of it, for every name that is accepted.
- `waitTime_never_round_trips`: no output is what the transformer expects.
-/
import Rubbos.Core.CLib
import Rubbos.Transform.FilenameUtils

namespace Rubbos.Parsers.WaitTime

open Rubbos.Core CLib Python Transform.FilenameUtils

/-! ## Model -/

/-- an argument of the program: a C string -/
structure FileName where
  text : Text
  noNul : NUL ∉ text

def outputResource : Text := "_dst".toList

/-- the variables of the two loops; a node that does not fit its array is `none` -/
structure Scan where
  flag : Bool
  count : ℕ
  ptr : ℕ
  firstPosStart : ℕ
  nextPosStart : ℕ
  lastPart : ℕ
  node : Option (CArray 100)

/-- `for(int i=0; i<len; ++i)`, from i on -/
def upstreamLoop (firstToTokenChar : ℕ) : (i : ℕ) → Text → Scan → Scan
  | _, [], st => st
  | i, c :: s, st =>
    let st' :=
      if c = '_' then
        { st with
          count := st.count + 1
          firstPosStart := if st.count + 1 = 4 then st.ptr else st.firstPosStart
          ptr := i + 1 }
      else st
    if firstToTokenChar < i then { st' with flag := true }
    else if st'.count = 4 then st'
    else upstreamLoop firstToTokenChar (i + 1) s st'

/-- the second loop at a separator -/
def separator (name : Text) (i : ℕ) (st : Scan) : Scan :=
  { st with
    count := st.count + 1
    node := if st.count + 1 = 5 then st.node.bind fun b => strncpy b (name.drop st.ptr) (i - st.ptr) else st.node
    nextPosStart := if st.count + 1 = 8 then st.ptr else st.nextPosStart
    ptr := i + 1 }

/-- `for(int i=last_part; i<len; ++i)`, from i on -/
def downstreamLoop (name : Text) : (i : ℕ) → Text → Scan → Scan
  | _, [], st => st
  | i, c :: s, st =>
    let st' := if c = '_' ∨ c = '.' then separator name i st else st
    if st'.count = 8 then st' else downstreamLoop name (i + 1) s st'

def initial : Scan where
  flag := true
  count := 0
  ptr := 0
  firstPosStart := 0
  nextPosStart := 0
  lastPart := 0
  node := some (zeros 100)

/-- from `strstr` to the check -/
def scan (name : Text) : Scan :=
  match find toToken name with
  | none => initial
  | some firstToTokenChar =>
    let lastPart := firstToTokenChar + 4
    downstreamLoop name lastPart (name.drop lastPart)
      (upstreamLoop firstToTokenChar 0 name { initial with flag := false, lastPart })

/-- not `flag == 1 || count!=8` -/
def Accepts (name : Text) : Prop := (scan name).flag = false ∧ (scan name).count = 8

instance (name : Text) : Decidable (Accepts name) := inferInstanceAs (Decidable (_ ∧ _))

/-- `firstPartStr` and `lastPartStr` -/
def cut (name : Text) (start len : ℕ) : Option Text := do
  let b ← strncpy (zeros 100) (name.drop start) len
  cstr b

/-- `outputFileName` and the label in the first row of the output -/
def files (name : Text) : Option (Text × Text) := do
  let firstPartStr ← cut name 0 (scan name).firstPosStart
  let lastPartStr ← cut name (scan name).lastPart ((scan name).nextPosStart - (scan name).lastPart)
  let b ← store (zeros 200)
    (firstPartStr ++ outputResource ++ toToken ++ lastPartStr ++ outputResource ++ ".csv".toList)
  let outputFileName ← cstr b
  let node ← (scan name).node
  let label ← cstr node
  return (outputFileName, label ++ outputResource)

/-- the NODE token behind `_TO_` -/
def downstreamNode (name : Text) : Text :=
  (((strstr toToken name).getD []).drop 4).takeWhile fun c => c ≠ '_' ∧ c ≠ '.'

/-- the output is accepted with the parts of the input and the resource, and the label names the downstream node -/
def RoundTrips (name : Text) : Prop :=
  ∃ outputFileName label, files name = some (outputFileName, label) ∧
    (∃ tokens, parseFilename outputFileName = .ok (.get tokens) ∧
      (∀ part ∈ [Part.node, Part.component, Part.monitor], tokens[part.index]? = (name.splitOn '_')[part.index]?) ∧
      tokens[Part.resource.index]? = some "dst".toList) ∧
    label = downstreamNode name ++ outputResource

/-! ## The first loop -/

/-- tokens with their separators behind them -/
def closed (ws : List Text) : Text := ws.flatMap (· ++ ['_'])

theorem closed_append (ws : List Text) (w : Text) : closed (ws ++ [w]) = closed ws ++ w ++ ['_'] := by
  simp [closed]

/-- what the loop knows in front of position i: complete tokens up to ptr, and the start of a token -/
structure Seen (pre : Text) (st : Scan) (ws : List Text) (w : Text) : Prop where
  text : pre = closed ws ++ w
  tokens : ∀ x ∈ ws, '_' ∉ x
  current : '_' ∉ w
  count : st.count = ws.length
  ptr : st.ptr = (closed ws).length

/-- where the first loop stops when it does not set the flag: behind four tokens that end no later than `_TO_` begins -/
structure Stopped (firstToTokenChar : ℕ) (name : Text) (st : Scan) (ws : List Text) (w rest : Text) : Prop where
  text : name = closed ws ++ w ++ '_' :: rest
  tokens : ∀ x ∈ ws, '_' ∉ x
  three : ws.length = 3
  count : st.count = 4
  firstPosStart : st.firstPosStart = (closed ws).length
  ptr : st.ptr = (closed ws).length + w.length + 1
  before : st.ptr ≤ firstToTokenChar + 1

theorem upstreamLoop_stops {f : ℕ} {name : Text} {s : Text} {i : ℕ} {st : Scan} {pre : Text} {ws : List Text} {w : Text}
    (hname : name = pre ++ s) (hi : pre.length = i) (hle : i ≤ f + 1) (hseen : Seen pre st ws w) (hws : ws.length < 4)
    (hflag : (upstreamLoop f i s st).flag = false) :
    name.length ≤ f + 1 ∨ ∃ ws w rest, Stopped f name (upstreamLoop f i s st) ws w rest := by
  induction s generalizing i st pre ws w with
  | nil =>
    left
    simp only [hname, List.append_nil]
    omega
  | cons c s ih =>
    simp only [upstreamLoop] at hflag ⊢
    by_cases hf : f < i
    · rw [if_pos hf] at hflag
      cases hflag
    · simp only [hf, if_false] at hflag ⊢
      by_cases hc : c = '_'
      · subst hc
        simp only [if_true] at hflag ⊢
        have hlen : i = (closed ws).length + w.length := by rw [← hi, hseen.text, List.length_append]
        by_cases h4 : st.count + 1 = 4
        · -- the fourth separator: w is the fourth token
          right
          simp only [h4, if_true] at hflag ⊢
          refine ⟨ws, w, s, ?_, hseen.tokens, ?_, rfl, hseen.ptr, ?_, ?_⟩
          · rw [hname, hseen.text]
          · have := hseen.count
            omega
          · simp only [hlen]
          · simp only
            omega
        · simp only [h4, if_false] at hflag ⊢
          have hseen' : Seen (pre ++ ['_'])
              { st with count := st.count + 1, firstPosStart := st.firstPosStart, ptr := i + 1 } (ws ++ [w]) [] := by
            refine ⟨?_, ?_, List.not_mem_nil, ?_, ?_⟩
            · rw [closed_append, hseen.text, List.append_nil]
            · intro x hx
              rcases List.mem_append.1 hx with hx | hx
              · exact hseen.tokens x hx
              · rw [List.mem_singleton.1 hx]
                exact hseen.current
            · simp [hseen.count]
            · simp [closed_append, hlen, Nat.add_assoc]
          refine ih ?_ ?_ (by omega) hseen' ?_ hflag
          · rw [hname, List.append_assoc]
            rfl
          · simp [hi]
          · have := hseen.count
            simp only [List.length_append, List.length_singleton]
            omega
      · have h4 : st.count ≠ 4 := by
          rw [hseen.count]
          omega
        simp only [hc, h4, if_false] at hflag ⊢
        have hseen' : Seen (pre ++ [c]) st ws (w ++ [c]) := by
          refine ⟨?_, hseen.tokens, ?_, hseen.count, hseen.ptr⟩
          · rw [hseen.text, List.append_assoc]
          · have hne : '_' ≠ c := fun h => hc h.symm
            simp [hseen.current, hne]
        refine ih ?_ ?_ (by omega) hseen' hws hflag
        · rw [hname, List.append_assoc]
          rfl
        · simp [hi]

theorem upstreamLoop_node (f i : ℕ) (s : Text) (st : Scan) : (upstreamLoop f i s st).node = st.node := by
  induction s generalizing i st with
  | nil => rfl
  | cons c s ih =>
    have hstep : ∀ st', st'.node = st.node →
        (if f < i then { st' with flag := true } else if st'.count = 4 then st' else upstreamLoop f (i + 1) s st').node
          = st.node := by
      intro st' h
      split
      · exact h
      · split
        · exact h
        · rw [ih, h]
    simp only [upstreamLoop]
    apply hstep
    split <;> rfl

/-! ## The second loop -/

theorem downstreamLoop_keeps (name : Text) (i : ℕ) (s : Text) (st : Scan) :
    (downstreamLoop name i s st).flag = st.flag ∧ (downstreamLoop name i s st).firstPosStart = st.firstPosStart ∧
    (downstreamLoop name i s st).lastPart = st.lastPart := by
  induction s generalizing i st with
  | nil => exact ⟨rfl, rfl, rfl⟩
  | cons c s ih =>
    have hstep : ∀ st', st'.flag = st.flag ∧ st'.firstPosStart = st.firstPosStart ∧ st'.lastPart = st.lastPart →
        let r := if st'.count = 8 then st' else downstreamLoop name (i + 1) s st'
        r.flag = st.flag ∧ r.firstPosStart = st.firstPosStart ∧ r.lastPart = st.lastPart := by
      intro st' h
      simp only
      split
      · exact h
      · obtain ⟨h₁, h₂, h₃⟩ := ih (i + 1) st'
        rw [h₁, h₂, h₃]
        exact h
    simp only [downstreamLoop]
    by_cases hc : c = '_' ∨ c = '.'
    · rw [if_pos hc]
      exact hstep (separator name i st) ⟨rfl, rfl, rfl⟩
    · rw [if_neg hc]
      exact hstep st ⟨rfl, rfl, rfl⟩

/-- the node is copied once -/
theorem downstreamLoop_node {name : Text} {i : ℕ} {s : Text} {st : Scan} (h : 5 ≤ st.count) :
    (downstreamLoop name i s st).node = st.node := by
  induction s generalizing i st with
  | nil => rfl
  | cons c s ih =>
    have h5 : st.count + 1 ≠ 5 := by omega
    have hsep : (separator name i st).node = st.node := by simp [separator, h5]
    simp only [downstreamLoop]
    by_cases hc : c = '_' ∨ c = '.'
    · rw [if_pos hc]
      split
      · exact hsep
      · rw [ih (show 5 ≤ st.count + 1 by omega), hsep]
    · rw [if_neg hc]
      split
      · rfl
      · exact ih h

/-- the first token behind `_TO_` ends the copy that starts at ptr -/
theorem downstreamLoop_copies (name : Text) {x s : Text} {c : Char} {i : ℕ} {st : Scan}
    (hx : ∀ y ∈ x, ¬ (y = '_' ∨ y = '.')) (hc : c = '_' ∨ c = '.') (h4 : st.count = 4) :
    (downstreamLoop name i (x ++ c :: s) st).node =
      st.node.bind fun b => strncpy b (name.drop st.ptr) (i + x.length - st.ptr) := by
  induction x generalizing i with
  | nil =>
    have h5 : (separator name i st).count = 5 := by simp [separator, h4]
    simp only [List.nil_append, downstreamLoop, hc, if_true, h5, Nat.reduceEqDiff, if_false]
    rw [downstreamLoop_node h5.ge]
    simp [separator, h4]
  | cons y x ih =>
    have hy := hx y List.mem_cons_self
    simp only [List.cons_append, downstreamLoop, hy, if_false, h4, Nat.reduceEqDiff]
    rw [ih fun z hz => hx z (List.mem_cons_of_mem _ hz), List.length_cons, Nat.add_right_comm i 1, Nat.add_assoc]

/-- without a separator nothing is counted -/
theorem downstreamLoop_count {name : Text} {s : Text} {i : ℕ} {st : Scan} (hs : ∀ y ∈ s, ¬ (y = '_' ∨ y = '.'))
    (h4 : st.count = 4) : (downstreamLoop name i s st).count = 4 := by
  induction s generalizing i with
  | nil => exact h4
  | cons y s ih =>
    have hy := hs y List.mem_cons_self
    simp only [downstreamLoop, hy, if_false, h4, Nat.reduceEqDiff]
    exact ih fun z hz => hs z (List.mem_cons_of_mem _ hz)

/-! ## Accepted names -/

/-- an accepted name: four tokens before `_TO_`, and the variables of the program behind both loops -/
theorem accepts_spec {name : Text} (h : Accepts name) : ∃ f st ws w rest, find toToken name = some f ∧
    scan name = downstreamLoop name (f + 4) (name.drop (f + 4)) st ∧ Stopped f name st ws w rest ∧
    st.node = some (zeros 100) := by
  obtain ⟨hflag, -⟩ := h
  cases hfind : find toToken name with
  | none =>
    simp only [scan, hfind] at hflag
    cases hflag
  | some f =>
    have hscan : scan name = downstreamLoop name (f + 4) (name.drop (f + 4))
        (upstreamLoop f 0 name { initial with flag := false, lastPart := f + 4 }) := by
      simp only [scan, hfind]
    rw [hscan, (downstreamLoop_keeps ..).1] at hflag
    have hlen : f + 4 ≤ name.length := by
      obtain ⟨hle, hpre, -⟩ := find_eq_some hfind
      have := hpre.length_le
      simp only [toToken, List.length_drop] at this
      have h4 : "_TO_".toList.length = 4 := by decide
      omega
    have hseen : Seen [] { initial with flag := false, lastPart := f + 4 } [] [] :=
      ⟨rfl, by simp, List.not_mem_nil, rfl, rfl⟩
    have hname : name = [] ++ name := rfl
    rcases upstreamLoop_stops hname rfl (Nat.zero_le _) hseen (by simp) hflag with hshort | ⟨ws, w, rest, hst⟩
    · omega
    · exact ⟨f, _, ws, w, rest, rfl, hscan, hst, upstreamLoop_node _ _ _ _⟩

/-- the token behind MONITOR is empty, so the name is not accepted -/
theorem not_parsed {ws : List Text} (h3 : ws.length = 3) (hws : ∀ x ∈ ws, '_' ∉ x) (rest : Text) (tokens : List Text) :
    parseFilename (closed ws ++ '_' :: rest) ≠ .ok (.get tokens) := by
  intro h
  obtain ⟨a, b, c, rfl⟩ := List.length_eq_three.1 h3
  obtain ⟨primary, hprimary, -, hname⟩ := parseName_zero_spec (closed [a, b, c] ++ '_' :: rest)
  obtain ⟨more, hmore⟩ : ∃ more, closed [a, b, c] ++ '_' :: rest = upstream primary ++ more := by
    obtain ⟨tail, htail⟩ := upstream_append primary
    rcases hname with hname | ⟨tail', hname⟩
    · exact ⟨tail, by rw [hname, ← htail]⟩
    · exact ⟨tail ++ '.' :: tail', by rw [hname, ← List.append_assoc, ← htail]⟩
  have hcheck : checkRegularFilenameTokens ((upstream primary).splitOn '_') = .ok () := by
    rw [parseFilename_of_primary hprimary] at h
    split at h
    · assumption
    · simp at h
  obtain ⟨node, component, monitor, resource, rest', hu, ⟨hn, hc, hm, hr⟩, -, -, -, hres⟩ := check_splitOn.1 hcheck
  have htext : a ++ '_' :: (b ++ '_' :: (c ++ '_' :: ([] ++ '_' :: rest))) =
      node ++ '_' :: (component ++ '_' :: (monitor ++ '_' :: (resource ++ '_' :: (rest' ++ more)))) := by
    simpa [closed, hu] using hmore
  obtain ⟨-, htext₁⟩ := append_cons_inj_left (hws a (by simp)) hn htext
  obtain ⟨-, htext₂⟩ := append_cons_inj_left (hws b (by simp)) hc htext₁
  obtain ⟨-, htext₃⟩ := append_cons_inj_left (hws c (by simp)) hm htext₂
  obtain ⟨rfl, -⟩ := append_cons_inj_left List.not_mem_nil hr htext₃
  exact absurd hres (by decide)

theorem cut_eq {name t : Text} {start len : ℕ} (h0 : NUL ∉ name) (hlen : start + len ≤ name.length)
    (h : cut name start len = some t) : t = (name.drop start).take len := by
  simp only [cut, bind, Option.bind_eq_some_iff] at h
  obtain ⟨b, hb, ht⟩ := h
  refine cstr_strncpy_zeros ?_ (fun h => h0 (List.mem_of_mem_drop h)) hb ht
  rw [List.length_drop]
  omega

/-- **Every output is rejected.** -/
theorem output_rejected (name : FileName) (h : Accepts name.text) {outputFileName label : Text}
    (hfiles : files name.text = some (outputFileName, label)) (tokens : List Text) :
    parseFilename outputFileName ≠ .ok (.get tokens) := by
  obtain ⟨f, st, ws, w, rest, -, hscan, hst, -⟩ := accepts_spec h
  have hfirst : (scan name.text).firstPosStart = (closed ws).length := by
    rw [hscan, (downstreamLoop_keeps ..).2.1, hst.firstPosStart]
  simp only [files, bind, Option.bind_eq_some_iff, pure, Option.some.injEq, Prod.mk.injEq] at hfiles
  obtain ⟨first, hcut, last, hlast, b, hb, out, hout, -, -, -, -, rfl, -⟩ := hfiles
  have hfirstPart : first = closed ws := by
    have hlen : 0 + (scan name.text).firstPosStart ≤ name.text.length := by
      rw [hfirst, hst.text]
      simp only [List.length_append]
      omega
    rw [cut_eq name.noNul hlen hcut, hfirst, hst.text]
    simp
  have hlast0 : NUL ∉ last := by
    simp only [cut, bind, Option.bind_eq_some_iff] at hlast
    obtain ⟨b', -, ht⟩ := hlast
    exact notMem_stringOf ht
  have hclosed0 : NUL ∉ closed ws := by
    intro hmem
    apply name.noNul
    rw [hst.text]
    simp [hmem]
  have htext0 : NUL ∉ first ++ outputResource ++ toToken ++ last ++ outputResource ++ ".csv".toList := by
    have hres : NUL ∉ outputResource := by decide
    have hto : NUL ∉ toToken := by decide
    have hcsv : NUL ∉ ".csv".toList := by decide
    simp only [List.mem_append, hfirstPart, hclosed0, hres, hto, hlast0, hcsv, or_self, not_false_eq_true]
  have htext : out = first ++ outputResource ++ toToken ++ last ++ outputResource ++ ".csv".toList := by
    rw [cstr_store htext0 hb] at hout
    exact (Option.some.inj hout).symm
  rw [htext, hfirstPart]
  have hsplit : closed ws ++ outputResource ++ toToken ++ last ++ outputResource ++ ".csv".toList =
      closed ws ++ '_' :: ("dst".toList ++ toToken ++ last ++ outputResource ++ ".csv".toList) := by
    simp [outputResource]
  rw [hsplit]
  exact not_parsed hst.three hst.tokens _ _

/-- the first token behind `_TO_` and its separator -/
theorem exists_downstreamNode {name : Text} {f : ℕ} (hfind : find toToken name = some f)
    (hsep : ∃ y ∈ name.drop (f + 4), y = '_' ∨ y = '.') :
    ∃ c s, (c = '_' ∨ c = '.') ∧ (∀ y ∈ downstreamNode name, ¬ (y = '_' ∨ y = '.')) ∧
      name.drop (f + 4) = downstreamNode name ++ c :: s := by
  have hnode : downstreamNode name = (name.drop (f + 4)).takeWhile fun c => c ≠ '_' ∧ c ≠ '.' := by
    simp [downstreamNode, strstr, hfind]
  have happend := List.takeWhile_append_dropWhile (l := name.drop (f + 4)) (p := fun c => c ≠ '_' ∧ c ≠ '.')
  have hfree : ∀ y ∈ downstreamNode name, ¬ (y = '_' ∨ y = '.') := by
    intro y hy
    rw [hnode] at hy
    have := List.mem_takeWhile_imp hy
    simpa [not_or] using this
  cases hdrop : (name.drop (f + 4)).dropWhile fun c => c ≠ '_' ∧ c ≠ '.' with
  | nil =>
    obtain ⟨y, hy, hysep⟩ := hsep
    rw [hdrop, List.append_nil, ← hnode] at happend
    rw [← happend] at hy
    exact absurd hysep (hfree y hy)
  | cons c s =>
    refine ⟨c, s, ?_, hfree, ?_⟩
    · have hhead : ((name.drop (f + 4)).dropWhile fun c => c ≠ '_' ∧ c ≠ '.').head? = some c := by rw [hdrop]; rfl
      have := List.head?_dropWhile_not (fun c => decide (c ≠ '_' ∧ c ≠ '.')) (name.drop (f + 4))
      rw [hhead] at this
      by_contra hc
      rw [not_or] at hc
      simp [hc] at this
    · rw [hnode, ← hdrop, happend]

/-- **Every label is wrong.** It starts in the first part of the name. -/
theorem label_ne (name : FileName) (h : Accepts name.text) {outputFileName label : Text}
    (hfiles : files name.text = some (outputFileName, label)) : label ≠ downstreamNode name.text ++ outputResource := by
  obtain ⟨f, st, ws, w, rest, hfind, hscan, hst, hnode⟩ := accepts_spec h
  have hsep : ∃ y ∈ name.text.drop (f + 4), y = '_' ∨ y = '.' := by
    by_contra hnone
    push Not at hnone
    have hcount := h.2
    rw [hscan, downstreamLoop_count (fun y hy => by simpa [not_or] using hnone y hy) hst.count] at hcount
    cases hcount
  obtain ⟨c, s, hc, hfree, hdrop⟩ := exists_downstreamNode hfind hsep
  have hcopy := downstreamLoop_copies name.text (s := s) (i := f + 4) hfree hc hst.count
  rw [← hdrop, ← hscan, hnode] at hcopy
  simp only [files, bind, Option.bind_eq_some_iff, pure, Option.some.injEq, Prod.mk.injEq] at hfiles
  obtain ⟨-, -, -, -, -, -, -, -, b, hb, node, hcstr, -, rfl⟩ := hfiles
  rw [hcopy, Option.bind_some] at hb
  -- the copy starts at ptr, in front of `_TO_`, and ends with the downstream node
  have hlen := congrArg List.length hdrop
  have hbefore := hst.before
  simp only [List.length_drop, List.length_append, List.length_cons] at hlen
  have hfit : f + 4 + (downstreamNode name.text).length - st.ptr ≤ (name.text.drop st.ptr).length := by
    rw [List.length_drop]
    omega
  have htext := cstr_strncpy_zeros hfit (fun h => name.noNul (List.mem_of_mem_drop h)) hb hcstr
  intro heq
  have hlabel := congrArg List.length heq
  rw [htext, List.length_append, List.length_append, List.length_take, Nat.min_eq_left hfit] at hlabel
  omega

/-- **No output fits the transformer.** For every name that is accepted, the transformer rejects the name of the output, and
the label of the column is not the downstream node. -/
theorem waitTime_never_round_trips (name : FileName) (h : Accepts name.text) : ¬ RoundTrips name.text ∧
    ∀ outputFileName label, files name.text = some (outputFileName, label) →
      (∀ tokens, parseFilename outputFileName ≠ .ok (.get tokens)) ∧
      label ≠ downstreamNode name.text ++ outputResource := by
  refine ⟨?_, ?_⟩
  · rintro ⟨outputFileName, label, hfiles, ⟨tokens, htokens, -⟩, -⟩
    exact output_rejected name h hfiles tokens htokens
  · intro outputFileName label hfiles
    exact ⟨fun tokens => output_rejected name h hfiles tokens, label_ne name h hfiles⟩

/-- a log of the calls from one node to another -/
def exampleName : FileName := ⟨"node1_http_mscope_dst_1_TO_node2_http_mscope_dst_1.csv".toList, by decide⟩

theorem waitTime_never_round_trips_example : Accepts exampleName.text ∧ ¬ RoundTrips exampleName.text :=
  ⟨by decide +kernel, (waitTime_never_round_trips exampleName (by decide +kernel)).1⟩

/-- the name of the output and the label there -/
theorem waitTime_output : Accepts exampleName.text ∧
    files exampleName.text = some ("node1_http_mscope__dst_TO_node2_http_mscope__dst.csv".toList, "1_TO_node2_dst".toList) ∧
    ¬ RoundTrips exampleName.text := by
  have hfiles : files exampleName.text =
      some ("node1_http_mscope__dst_TO_node2_http_mscope__dst.csv".toList, "1_TO_node2_dst".toList) := by
    decide +kernel
  refine ⟨by decide +kernel, hfiles, ?_⟩
  rintro ⟨outputFileName, label, h, -, hlabel⟩
  rw [hfiles, Option.some.injEq, Prod.mk.injEq] at h
  rw [← h.2] at hlabel
  exact absurd hlabel (by decide +kernel)

end Rubbos.Parsers.WaitTime
