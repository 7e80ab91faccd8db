/-
The part of Python that the transform tools use: exceptions, strings and dictionaries.

A dictionary is the list of its items in the order of their insertion, each key once. `set` writes an item, `update` all
items of another dictionary, one after the other.

- `splitOn_eq_cons`: the pieces of a text at a separator, one at a time.
- `get_set`, `get_update`: what a key is looked up to after a write.
-/
import Rubbos.Core.JSplit

namespace Rubbos.Core.Python

open Rubbos.Core

/-- the exceptions of library functions -/
inductive LibExc where
  | valueError
  | typeError
  | overflowError
  | osError
  | csvError
  | unicodeDecodeError
deriving DecidableEq, Repr

/-- the exceptions that the modelled code raises or meets -/
inductive PyExc where
  | indexError
  | keyError
  | attributeError
  | stopIteration
  | unboundLocalError
  | library (e : LibExc)
  | noMatchingFilesError
  | noTimestampColumnFoundError
  | fileProcessingError
deriving DecidableEq, Repr

/-! ## Strings -/

/-- `s.split(sep)`, for a separator that is not empty -/
def split (sep s : Text) : List Text := JString.pieces sep s.length s

/-- `s.lower()`, as far as it gives ASCII characters: apart from A to Z only the Kelvin sign and the dotted capital I become
a text with an ASCII character. -/
def lower (s : Text) : Text :=
  s.flatMap fun c => if c = '\u212a' then ['k'] else if c = '\u0130' then ['i', '\u0307'] else [c.toLower]

/-- what `str.strip()` removes -/
def isWhitespace (c : Char) : Bool :=
  c.toNat ∈ [0x9, 0xa, 0xb, 0xc, 0xd, 0x1c, 0x1d, 0x1e, 0x1f, 0x20, 0x85, 0xa0, 0x1680, 0x2000, 0x2001, 0x2002, 0x2003,
    0x2004, 0x2005, 0x2006, 0x2007, 0x2008, 0x2009, 0x200a, 0x2028, 0x2029, 0x202f, 0x205f, 0x3000]

/-- `s.strip()` -/
def strip (s : Text) : Text := ((s.dropWhile isWhitespace).reverse.dropWhile isWhitespace).reverse

/-- `for line in open(name)` for a file with this text: every kind of line break is read as a newline, which stays -/
def fileLines : Text → List Text
  | [] => []
  | '\n' :: s => ['\n'] :: fileLines s
  | '\r' :: '\n' :: s => ['\n'] :: fileLines s
  | '\r' :: s => ['\n'] :: fileLines s
  | c :: s =>
    match fileLines s with
    | [] => [[c]]
    | line :: rest => (c :: line) :: rest

theorem lower_append (a b : Text) : lower (a ++ b) = lower a ++ lower b := List.flatMap_append

theorem lower_cons_underscore (b : Text) : lower ('_' :: b) = '_' :: lower b := rfl

theorem toLower_eq_underscore {c : Char} (h : c.toLower = '_') : c = '_' := by
  unfold Char.toLower at h
  split at h
  · next hup =>
    -- a capital letter is moved to a small one, and '_' lies between the two
    have hlow : 65 ≤ c.val.toNat := UInt32.le_iff_toNat_le.1 hup.1
    have hhigh : c.val.toNat ≤ 90 := UInt32.le_iff_toNat_le.1 hup.2
    have hval : (c.val + ('a'.val - 'A'.val)).toNat = 95 := congrArg (fun d => d.val.toNat) h
    rw [UInt32.toNat_add] at hval
    have h32 : ('a'.val - 'A'.val).toNat = 32 := rfl
    rw [h32] at hval
    omega
  · exact h

/-- no other character becomes an underscore -/
theorem underscore_mem_lower {s : Text} : '_' ∈ lower s ↔ '_' ∈ s := by
  unfold lower
  rw [List.mem_flatMap]
  constructor
  · rintro ⟨c, hc, hmem⟩
    split at hmem
    · simp at hmem
    · split at hmem
      · simp at hmem
      · rw [← toLower_eq_underscore (List.mem_singleton.1 hmem).symm]
        exact hc
  · intro h
    exact ⟨'_', h, by decide⟩

/-- the pieces at a separator, one at a time -/
theorem splitOn_eq_cons {c : Char} {s t : Text} {ts : List Text} (h : s.splitOn c = t :: ts) (hts : ts ≠ []) :
    ∃ s', s = t ++ c :: s' ∧ c ∉ t ∧ s'.splitOn c = ts := by
  by_cases hc : c ∈ s
  · obtain ⟨a, b, rfl, ha⟩ := List.eq_append_cons_of_mem hc
    rw [List.splitOn_append_cons_self_of_not_mem ha, List.cons.injEq] at h
    obtain ⟨rfl, rfl⟩ := h
    exact ⟨b, rfl, ha, rfl⟩
  · rw [List.splitOn_eq_singleton hc, List.cons.injEq] at h
    exact absurd h.2.symm hts

/-- splitting at one character -/
theorem split_char (c : Char) (s : Text) : split [c] s = s.splitOn c := by
  have h : ∀ fuel s, s.length ≤ fuel → JString.pieces [c] fuel s = s.splitOn c := by
    intro fuel
    induction fuel with
    | zero =>
      intro s hs
      have : s = [] := List.length_eq_zero_iff.1 (Nat.le_zero.1 hs)
      subst this
      rfl
    | succ fuel ih =>
      intro s hs
      by_cases hc : c ∈ s
      · obtain ⟨a, b, rfl, ha⟩ := List.eq_append_cons_of_mem hc
        have hfind : find [c] (a ++ c :: b) = some a.length := find_cons_here ha List.nil_prefix
        have hdrop : (a ++ c :: b).drop (a.length + [c].length) = b := by simp [← List.drop_drop]
        simp only [List.length_append, List.length_cons] at hs
        rw [List.splitOn_append_cons_self_of_not_mem ha]
        simp only [JString.pieces, hfind, List.take_left, hdrop]
        rw [ih b (by omega)]
      · have hnone : find [c] s = none := find_eq_none.2 (not_infix_of_mem (List.mem_singleton_self c) hc)
        rw [List.splitOn_eq_singleton hc]
        simp only [JString.pieces, hnone]
  exact h s.length s le_rfl

/-! ## Dictionaries -/

structure Dict (κ ν : Type) where
  items : List (κ × ν)
  nodup : (items.map Prod.fst).Nodup
deriving DecidableEq

namespace Dict

variable {κ ν : Type}

def empty : Dict κ ν := ⟨[], List.nodup_nil⟩

def keys (d : Dict κ ν) : List κ := d.items.map Prod.fst

theorem ext_items {d e : Dict κ ν} (h : d.items = e.items) : d = e := by
  cases d
  cases e
  subst h
  rfl

variable [DecidableEq κ]

/-- `d.get(k)` -/
def get (d : Dict κ ν) (k : κ) : Option ν := (d.items.find? fun e => e.1 = k).map Prod.snd

def setItems : List (κ × ν) → κ → ν → List (κ × ν)
  | [], k, v => [(k, v)]
  | e :: d, k, v => if e.1 = k then (k, v) :: d else e :: setItems d k v

theorem map_fst_setItems (d : List (κ × ν)) (k : κ) (v : ν) :
    (setItems d k v).map Prod.fst = if k ∈ d.map Prod.fst then d.map Prod.fst else d.map Prod.fst ++ [k] := by
  induction d with
  | nil => rfl
  | cons e d ih =>
    by_cases he : e.1 = k
    · simp [setItems, he]
    · have hne : ¬ k = e.1 := fun h => he h.symm
      by_cases hk : k ∈ d.map Prod.fst
      · rw [if_pos hk] at ih
        simp only [setItems, he, if_false, List.map_cons, ih, List.mem_cons, hk, or_true, if_true]
      · rw [if_neg hk] at ih
        simp only [setItems, he, if_false, List.map_cons, ih, List.mem_cons, hk, hne, or_self, List.cons_append]

/-- `d[k] = v`: a new key goes to the end, an old one keeps its place -/
def set (d : Dict κ ν) (k : κ) (v : ν) : Dict κ ν where
  items := setItems d.items k v
  nodup := by
    rw [map_fst_setItems]
    split_ifs with h
    · exact d.nodup
    · exact List.nodup_append.2 ⟨d.nodup, List.nodup_singleton k, by
        intro a ha b hb
        rw [List.mem_singleton.1 hb]
        rintro rfl
        exact h ha⟩

/-- the writes of a list of items, one after the other -/
def setAll (d : Dict κ ν) (xs : List (κ × ν)) : Dict κ ν := xs.foldl (fun d x => d.set x.1 x.2) d

/-- `d.update(e)` -/
def update (d e : Dict κ ν) : Dict κ ν := d.setAll e.items

theorem mem_keys_set {d : Dict κ ν} {k x : κ} {v : ν} : x ∈ (d.set k v).keys ↔ x = k ∨ x ∈ d.keys := by
  unfold keys set
  rw [map_fst_setItems]
  split_ifs with h
  · constructor
    · exact Or.inr
    · rintro (rfl | hx)
      · exact h
      · exact hx
  · simp [or_comm]

theorem mem_keys_setAll {d : Dict κ ν} {xs : List (κ × ν)} {k : κ} :
    k ∈ (d.setAll xs).keys ↔ k ∈ xs.map Prod.fst ∨ k ∈ d.keys := by
  induction xs generalizing d with
  | nil => simp [setAll]
  | cons x xs ih =>
    have hcons : d.setAll (x :: xs) = (d.set x.1 x.2).setAll xs := rfl
    rw [hcons, ih, mem_keys_set, List.map_cons, List.mem_cons]
    tauto

theorem get_set (d : Dict κ ν) (k k' : κ) (v : ν) : (d.set k v).get k' = if k' = k then some v else d.get k' := by
  have h : ∀ items : List (κ × ν), ((setItems items k v).find? fun e => e.1 = k').map Prod.snd =
      if k' = k then some v else (items.find? fun e => e.1 = k').map Prod.snd := by
    intro items
    induction items with
    | nil =>
      by_cases hk : k' = k
      · simp [setItems, hk]
      · have hk' : ¬ k = k' := fun h => hk h.symm
        simp [setItems, hk, hk']
    | cons e items ih =>
      by_cases he : e.1 = k
      · by_cases hk : k' = k
        · simp [setItems, he, hk]
        · have hk' : ¬ k = k' := fun h => hk h.symm
          simp [setItems, he, hk, hk']
      · by_cases hk : k' = k
        · subst hk
          simp only [setItems, he, if_false, List.find?_cons, decide_false, if_true] at ih ⊢
          exact ih
        · by_cases hek : e.1 = k'
          · have hne : ¬ k' = k := hk
            simp [setItems, hek, hne]
          · simp only [setItems, he, if_false, List.find?_cons, hek, decide_false, hk] at ih ⊢
            exact ih
  exact h d.items

/-- the value of a key in the last item of a list that has it -/
def last (xs : List (κ × ν)) (k : κ) : Option ν := (xs.reverse.find? fun e => e.1 = k).map Prod.snd

theorem last_append (xs ys : List (κ × ν)) (k : κ) : last (xs ++ ys) k = (last ys k).or (last xs k) := by
  simp only [last, List.reverse_append, List.find?_append]
  cases ys.reverse.find? fun e => e.1 = k <;> rfl

theorem last_singleton (x : κ × ν) (k : κ) : last [x] k = if k = x.1 then some x.2 else none := by
  by_cases hx : k = x.1
  · simp [last, hx]
  · have hx' : ¬ x.1 = k := fun h => hx h.symm
    simp [last, hx, hx']

theorem get_setAll (d : Dict κ ν) (xs : List (κ × ν)) (k : κ) : (d.setAll xs).get k = (last xs k).or (d.get k) := by
  induction xs generalizing d with
  | nil => rfl
  | cons x xs ih =>
    have hcons : d.setAll (x :: xs) = (d.set x.1 x.2).setAll xs := rfl
    rw [hcons, ih, ← List.singleton_append, last_append, last_singleton, get_set]
    by_cases hx : k = x.1
    · rw [if_pos hx, if_pos hx, Option.or_assoc]
      rfl
    · rw [if_neg hx, if_neg hx, Option.or_none]

/-- a key that is there once is found from both ends -/
theorem last_of_nodup {items : List (κ × ν)} (hn : (items.map Prod.fst).Nodup) (k : κ) :
    last items k = (items.find? fun e => e.1 = k).map Prod.snd := by
  induction items with
  | nil => rfl
  | cons e items ih =>
    rw [List.map_cons, List.nodup_cons] at hn
    rw [← List.singleton_append, last_append, ih hn.2]
    by_cases he : e.1 = k
    · have hnone : items.find? (fun e => e.1 = k) = none := by
        rw [List.find?_eq_none]
        intro x hx hxk
        apply hn.1
        rw [he, ← of_decide_eq_true hxk]
        exact List.mem_map_of_mem hx
      simp [last, hnone, he]
    · simp [last, he]

theorem last_items (d : Dict κ ν) (k : κ) : last d.items k = d.get k := last_of_nodup d.nodup k

theorem last_eq_none {xs : List (κ × ν)} {k : κ} (h : k ∉ xs.map Prod.fst) : last xs k = none := by
  have hfind : xs.reverse.find? (fun e => e.1 = k) = none := by
    rw [List.find?_eq_none]
    intro e he hek
    apply h
    rw [← of_decide_eq_true hek]
    exact List.mem_map_of_mem (List.mem_reverse.1 he)
  simp [last, hfind]

theorem mem_of_last {xs : List (κ × ν)} {k : κ} {v : ν} (h : last xs k = some v) : (k, v) ∈ xs := by
  obtain ⟨e, he, rfl⟩ := Option.map_eq_some_iff.1 h
  have hk : e.1 = k := by simpa using List.find?_some he
  rw [← hk]
  exact List.mem_reverse.1 (List.mem_of_find?_eq_some he)

/-- new items with different keys go to the end as they are -/
theorem items_setAll {d : Dict κ ν} {xs : List (κ × ν)} (hn : (d.items.map Prod.fst ++ xs.map Prod.fst).Nodup) :
    (d.setAll xs).items = d.items ++ xs := by
  induction xs generalizing d with
  | nil => simp [setAll]
  | cons x xs ih =>
    have hx : x.1 ∉ d.items.map Prod.fst := by
      intro h
      have := List.nodup_append'.1 hn
      exact this.2.2 h (by simp)
    have hset : (d.set x.1 x.2).items = d.items ++ [x] := by
      have h : ∀ items : List (κ × ν), x.1 ∉ items.map Prod.fst → setItems items x.1 x.2 = items ++ [x] := by
        intro items hmem
        induction items with
        | nil => rfl
        | cons e items ih =>
          rw [List.map_cons, List.mem_cons, not_or] at hmem
          have he : ¬ e.1 = x.1 := fun h => hmem.1 h.symm
          simp only [setItems, he, if_false, ih hmem.2, List.cons_append]
      exact h d.items hx
    have hcons : d.setAll (x :: xs) = (d.set x.1 x.2).setAll xs := rfl
    rw [hcons, ih, hset, List.append_assoc, List.singleton_append]
    rw [hset]
    simpa using hn

theorem get_update (d e : Dict κ ν) (k : κ) : (d.update e).get k = (e.get k).or (d.get k) := by
  rw [update, get_setAll, last_items]

/-- a key is there when it has a value -/
theorem mem_keys_iff {d : Dict κ ν} {k : κ} : k ∈ d.keys ↔ ∃ v, d.get k = some v := by
  unfold keys get
  constructor
  · intro h
    obtain ⟨e, he, rfl⟩ := List.mem_map.1 h
    cases hf : d.items.find? fun x => x.1 = e.1 with
    | none => exact absurd (List.find?_eq_none.1 hf e he) (by simp)
    | some x => exact ⟨x.2, rfl⟩
  · rintro ⟨v, h⟩
    obtain ⟨x, hx, -⟩ := Option.map_eq_some_iff.1 h
    have hk := List.find?_some hx
    rw [← of_decide_eq_true hk]
    exact List.mem_map_of_mem (List.mem_of_find?_eq_some hx)

/-- a key has the value of its item -/
theorem get_eq_some_iff {d : Dict κ ν} {k : κ} {v : ν} : d.get k = some v ↔ (k, v) ∈ d.items := by
  constructor
  · intro h
    rw [← last_items] at h
    exact mem_of_last h
  · intro h
    obtain ⟨w, hw⟩ := mem_keys_iff.1 (List.mem_map_of_mem h : k ∈ d.keys)
    rw [← last_items] at hw
    have hval : v = w := congrArg Prod.snd (List.inj_on_of_nodup_map d.nodup h (mem_of_last hw) rfl)
    rw [← last_items, hw, hval]

/-- writing makes no dictionary empty -/
theorem items_set_ne_nil (d : Dict κ ν) (k : κ) (v : ν) : (d.set k v).items ≠ [] := by
  intro h
  have hmem : k ∈ (d.set k v).keys := mem_keys_set.2 (Or.inl rfl)
  rw [keys, h] at hmem
  cases hmem

/-- an item that writes into an empty dictionary have left -/
theorem mem_of_mem_setAll {xs : List (κ × ν)} {e : κ × ν} (he : e ∈ (empty.setAll xs).items) : e ∈ xs := by
  rw [← get_eq_some_iff, get_setAll] at he
  cases hl : last xs e.1 with
  | none =>
    rw [hl] at he
    cases he
  | some v =>
    rw [hl] at he
    cases he
    exact mem_of_last hl

end Dict

end Rubbos.Core.Python
