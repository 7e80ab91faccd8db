/-
Character buffers of a C program, and the part of stdio and string.h that the log parsers use.

A buffer is the list of its bytes; a byte that was never written is `none`. Writing behind the end of a buffer, reading
a byte that was never written or looking for the end of a string that has none is undefined behaviour: the operations
then answer `none`. A line in memory is a text without NUL.

`Refines b b'` says that b' holds at least the bytes that b holds. Every operation that is defined on b is defined on b'
with the same answer (`..._refines`): what a program has written before cannot change what it does with bytes it is
known to write itself.

- `fgets_line`, `readLines_flatten`: reading back a file of complete lines.
- `scanWord_word`: what "%s" reads.
- `getField_found`: a field `KEYvalue` of a line, found and copied.
-/
import Rubbos.Core.Text
import Rubbos.Core.Search

namespace Rubbos.Core.CLib

open Rubbos.Core

/-! ## Buffers -/

abbrev NUL : Char := '\x00'

/-- `char b[n]`; a byte that was never written is `none` -/
structure CArray (n : ℕ) where
  bytes : List (Option Char)
  size : bytes.length = n

/-- a local array before anything is written to it -/
def uninit (n : ℕ) : CArray n := ⟨List.replicate n none, by simp⟩

variable {n : ℕ}

/-- `memset(b, 0, k)`, for k at most the size -/
def memset0 (k : ℕ) (b : CArray n) : CArray n where
  bytes := List.replicate (min k n) (some NUL) ++ b.bytes.drop k
  size := by
    have := b.size
    simp only [List.length_append, List.length_replicate, List.length_drop]
    omega

/-- copy a string and its terminator to the front of the buffer -/
def store (b : CArray n) (w : Text) : Option (CArray n) :=
  if h : w.length < n then
    some ⟨w.map some ++ some NUL :: b.bytes.drop (w.length + 1), by
      have := b.size
      simp only [List.length_append, List.length_map, List.length_cons, List.length_drop]
      omega⟩
  else none

/-- `char b[n] = {0}` -/
def zeros (n : ℕ) : CArray n := memset0 n (uninit n)

/-- `strncpy(b, src, k)`: at most k characters, and zeros up to k of them -/
def strncpy (b : CArray n) (src : Text) (k : ℕ) : Option (CArray n) :=
  if h : k ≤ n then
    some ⟨(src.take k).map some ++ List.replicate (k - src.length) (some NUL) ++ b.bytes.drop k, by
      have := b.size
      simp only [List.length_append, List.length_map, List.length_take, List.length_replicate, List.length_drop]
      omega⟩
  else none

/-- the string that starts a list of bytes -/
def stringOf : List (Option Char) → Option Text
  | [] => none
  | none :: _ => none
  | some c :: b => if c = NUL then some [] else (stringOf b).map (c :: ·)

/-- the string in the buffer -/
def cstr (b : CArray n) : Option Text := stringOf b.bytes

/-- the first k of a list of bytes -/
def firstBytes : ℕ → List (Option Char) → Option Text
  | 0, _ => some []
  | _ + 1, [] => none
  | _ + 1, none :: _ => none
  | k + 1, some c :: b => (firstBytes k b).map (c :: ·)

/-- the first k bytes of the buffer, whatever string is in it -/
def peek (k : ℕ) (b : CArray n) : Option Text := firstBytes k b.bytes

/-! ## Reading -/

/-- `fgets` with room for n characters: a line up to its '\n', cut after n characters, and the rest of the file -/
def fgets : ℕ → Text → Text × Text
  | 0, s => ([], s)
  | _ + 1, [] => ([], [])
  | n + 1, c :: s => if c = '\n' then ([c], s) else (c :: (fgets n s).1, (fgets n s).2)

/-- the strings that `while (fgets(str, size, fp))` goes through; every one takes at least a character of the file -/
def readLines (size : ℕ) : (fuel : ℕ) → Text → List Text
  | 0, _ => []
  | _, [] => []
  | fuel + 1, s => (fgets (size - 1) s).1 :: readLines size fuel (fgets (size - 1) s).2

/-- the word that "%s" reads: none if only white space is left -/
def scanWord (s : Text) : Option Text :=
  match s.dropWhile isSpace with
  | [] => none
  | c :: t => some ((c :: t).takeWhile fun x => !isSpace x)

/-- `sscanf(s, "%s ", b)`: the buffer is written only if there is a word -/
def sscanf (s : Text) (b : CArray n) : Option (CArray n) :=
  match scanWord s with
  | none => some b
  | some w => store b w

/-- the shape of the parsers' field functions: clear `sizeof(char *)` bytes of the buffer, look for the key, copy the
word behind it -/
def getField (key str : Text) (b : CArray n) : Option (Bool × CArray n) :=
  match strstr key str with
  | none => some (false, memset0 8 b)
  | some t => (sscanf (t.drop key.length) (memset0 8 b)).map fun b' => (true, b')

/-! ## What is in a buffer -/

theorem stringOf_append {w : Text} (hw : NUL ∉ w) (b : List (Option Char)) :
    stringOf (w.map some ++ some NUL :: b) = some w := by
  induction w with
  | nil => simp [stringOf]
  | cons c w ih =>
    have hc : ¬ c = NUL := fun h => hw (by simp [h])
    have hw' : NUL ∉ w := fun h => hw (List.mem_cons_of_mem _ h)
    simp [stringOf, hc, ih hw']

/-- a string ends at its first NUL -/
theorem notMem_stringOf {b : List (Option Char)} {w : Text} (h : stringOf b = some w) : NUL ∉ w := by
  induction b generalizing w with
  | nil => cases h
  | cons o b ih =>
    cases o with
    | none => cases h
    | some c =>
      by_cases hc : c = NUL
      · simp only [stringOf, hc, if_true, Option.some.injEq] at h
        subst h
        exact List.not_mem_nil
      · simp only [stringOf, hc, if_false, Option.map_eq_some_iff] at h
        obtain ⟨w, hw, rfl⟩ := h
        have hne : NUL ≠ c := fun h => hc h.symm
        simp [ih hw, hne]

theorem store_some {b : CArray n} {w : Text} (h : w.length < n) (hw : NUL ∉ w) :
    ∃ b', store b w = some b' ∧ cstr b' = some w :=
  ⟨_, dif_pos h, stringOf_append hw _⟩

theorem cstr_store {b b' : CArray n} {w : Text} (hw : NUL ∉ w) (h : store b w = some b') : cstr b' = some w := by
  unfold store at h
  split_ifs at h
  cases h
  exact stringOf_append hw _

/-- a string that is read back from an array of zeros is the one that was copied -/
theorem cstr_strncpy_zeros {src w : Text} {k : ℕ} {b : CArray n} (hk : k ≤ src.length) (h0 : NUL ∉ src)
    (hb : strncpy (zeros n) src k = some b) (hw : cstr b = some w) : w = src.take k := by
  unfold strncpy at hb
  split_ifs at hb with hn
  cases hb
  have hsub : k - src.length = 0 := by omega
  have htake : NUL ∉ src.take k := fun h => h0 (List.mem_of_mem_take h)
  have hzeros : (zeros n).bytes.drop k = List.replicate (n - k) (some NUL) := by
    simp [zeros, memset0, uninit]
  simp only [cstr, hsub, hzeros, List.replicate_zero, List.append_nil] at hw
  cases hd : n - k with
  | zero =>
    -- no room for the terminator
    rw [hd] at hw
    have hnone : ∀ t : Text, NUL ∉ t → stringOf (t.map some) = none := by
      intro t ht
      induction t with
      | nil => rfl
      | cons c t ih =>
        have hc : ¬ c = NUL := fun h => ht (by simp [h])
        simp [stringOf, hc, ih fun h => ht (List.mem_cons_of_mem _ h)]
    rw [List.replicate_zero, List.append_nil, hnone _ htake] at hw
    cases hw
  | succ m =>
    rw [hd, List.replicate_succ, stringOf_append htake] at hw
    exact (Option.some.inj hw).symm

theorem firstBytes_stringOf {b : List (Option Char)} {w : Text} (h : stringOf b = some w) :
    firstBytes w.length b = some w := by
  induction b generalizing w with
  | nil => simp [stringOf] at h
  | cons o b ih =>
    cases o with
    | none => simp [stringOf] at h
    | some c =>
      by_cases hc : c = NUL
      · simp only [stringOf, hc, if_true, Option.some.injEq] at h
        subst h
        rfl
      · simp only [stringOf, hc, if_false, Option.map_eq_some_iff] at h
        obtain ⟨w, hw, rfl⟩ := h
        simp [firstBytes, ih hw]

/-- the bytes of the string are the first bytes of the buffer -/
theorem peek_cstr {b : CArray n} {w : Text} (h : cstr b = some w) : peek w.length b = some w :=
  firstBytes_stringOf h

/-! ## More is known -/

/-- b' holds at least the bytes that b holds -/
def Refines (b b' : CArray n) : Prop := List.Forall₂ (fun o o' => o = none ∨ o = o') b.bytes b'.bytes

theorem uninit_refines (b : CArray n) : Refines (uninit n) b := by
  unfold Refines uninit
  rw [List.forall₂_iff_get]
  refine ⟨by simp [b.size], ?_⟩
  intro i h h'
  simp

theorem memset0_refines {b b' : CArray n} (h : Refines b b') (k : ℕ) : Refines (memset0 k b) (memset0 k b') := by
  unfold Refines memset0
  refine List.rel_append ?_ (List.forall₂_drop k h)
  rw [List.forall₂_same]
  simp

theorem store_refines {b b' c : CArray n} (h : Refines b b') {w : Text} (hs : store b w = some c) :
    ∃ c', store b' w = some c' ∧ Refines c c' := by
  unfold store at hs ⊢
  split_ifs at hs ⊢ with hw
  cases hs
  refine ⟨_, rfl, ?_⟩
  refine List.rel_append ?_ (List.Forall₂.cons (Or.inr rfl) (List.forall₂_drop _ h))
  rw [List.forall₂_same]
  simp

theorem stringOf_refines {b b' : List (Option Char)} (h : List.Forall₂ (fun o o' => o = none ∨ o = o') b b') {w : Text}
    (hs : stringOf b = some w) : stringOf b' = some w := by
  induction h generalizing w with
  | nil => exact hs
  | @cons o o' b b' ho _ ih =>
    cases o with
    | none => simp [stringOf] at hs
    | some c =>
      have ho' : o' = some c := by simpa [eq_comm] using ho
      subst ho'
      by_cases hc : c = NUL
      · simpa [stringOf, hc] using hs
      · simp only [stringOf, hc, if_false, Option.map_eq_some_iff] at hs ⊢
        obtain ⟨w, hw, rfl⟩ := hs
        exact ⟨w, ih hw, rfl⟩

theorem cstr_refines {b b' : CArray n} (h : Refines b b') {w : Text} (hs : cstr b = some w) : cstr b' = some w :=
  stringOf_refines h hs

theorem firstBytes_refines {b b' : List (Option Char)} (h : List.Forall₂ (fun o o' => o = none ∨ o = o') b b') {k : ℕ}
    {w : Text} (hs : firstBytes k b = some w) : firstBytes k b' = some w := by
  induction h generalizing k w with
  | nil => exact hs
  | @cons o o' b b' ho _ ih =>
    rcases k with _ | k
    · simpa [firstBytes] using hs
    · cases o with
      | none => simp [firstBytes] at hs
      | some c =>
        have ho' : o' = some c := by simpa [eq_comm] using ho
        subst ho'
        simp only [firstBytes, Option.map_eq_some_iff] at hs ⊢
        obtain ⟨w, hw, rfl⟩ := hs
        exact ⟨w, ih hw, rfl⟩

theorem peek_refines {b b' : CArray n} (h : Refines b b') {k : ℕ} {w : Text} (hs : peek k b = some w) :
    peek k b' = some w :=
  firstBytes_refines h hs

theorem sscanf_refines {b b' c : CArray n} (h : Refines b b') {s : Text} (hs : sscanf s b = some c) :
    ∃ c', sscanf s b' = some c' ∧ Refines c c' := by
  unfold sscanf at hs ⊢
  split at hs
  · cases hs
    exact ⟨b', rfl, h⟩
  · exact store_refines h hs

theorem getField_refines {b b' c : CArray n} (h : Refines b b') {key str : Text} {ok : Bool}
    (hs : getField key str b = some (ok, c)) : ∃ c', getField key str b' = some (ok, c') ∧ Refines c c' := by
  unfold getField at hs ⊢
  split at hs
  · cases hs
    exact ⟨_, rfl, memset0_refines h 8⟩
  · simp only [Option.map_eq_some_iff, Prod.mk.injEq] at hs ⊢
    obtain ⟨c, hc, rfl, rfl⟩ := hs
    obtain ⟨c', hc', hr⟩ := sscanf_refines (memset0_refines h 8) hc
    exact ⟨c', ⟨c', hc', rfl, rfl⟩, hr⟩

/-! ## What is read -/

/-- a word followed by white space or by the end is what "%s" reads -/
theorem scanWord_word {w rest : Text} (hw : w ≠ []) (hs : ∀ c ∈ w, isSpace c = false)
    (hr : ∀ c ∈ rest.head?, isSpace c) : scanWord (w ++ rest) = some w := by
  have hdrop : (w ++ rest).dropWhile isSpace = w ++ rest := by
    rcases w with _ | ⟨c, w⟩
    · exact absurd rfl hw
    · simp [hs c List.mem_cons_self]
  have htake : (w ++ rest).takeWhile (fun x => !isSpace x) = w := by
    rw [List.takeWhile_append_of_pos (by intro c hc; simp [hs c hc])]
    rcases rest with _ | ⟨c, rest⟩
    · simp
    · simp [hr c rfl]
  unfold scanWord
  rw [hdrop]
  rcases w with _ | ⟨c, w⟩
  · exact absurd rfl hw
  · simp only [List.cons_append] at htake ⊢
    rw [htake]

/-- a field that is there, with a value that fits, is copied -/
theorem getField_found {key str w rest : Text} (hf : strstr key str = some (key ++ (w ++ rest))) (hw : w ≠ [])
    (hs : ∀ c ∈ w, isSpace c = false) (h0 : NUL ∉ w) (hr : ∀ c ∈ rest.head?, isSpace c) (hlen : w.length < n)
    (b : CArray n) : ∃ b', getField key str b = some (true, b') ∧ cstr b' = some w := by
  obtain ⟨b', hb, hc⟩ := store_some (b := memset0 8 b) hlen h0
  refine ⟨b', ?_, hc⟩
  simp [getField, hf, sscanf, scanWord_word hw hs hr, hb]

/-- what is read of a line: all of it and its '\n', or the first n characters -/
theorem fgets_cut {n : ℕ} {l rest : Text} (hl : '\n' ∉ l) :
    fgets n (l ++ '\n' :: rest) = if l.length < n then (l ++ ['\n'], rest) else (l.take n, l.drop n ++ '\n' :: rest) := by
  induction l generalizing n with
  | nil => cases n <;> simp [fgets]
  | cons c l ih =>
    have hc : ¬ c = '\n' := fun h => hl (by simp [h])
    have hl' : '\n' ∉ l := fun h => hl (List.mem_cons_of_mem _ h)
    cases n with
    | zero => simp [fgets]
    | succ n =>
      have hlen : (c :: l).length < n + 1 ↔ l.length < n := by simp
      rw [List.cons_append, fgets, if_neg hc, ih hl', if_congr hlen rfl rfl]
      split_ifs <;> simp

/-- a complete line that fits is read as a whole -/
theorem fgets_line {n : ℕ} {l rest : Text} (hl : '\n' ∉ l) (hn : l.length < n) :
    fgets n (l ++ '\n' :: rest) = (l ++ ['\n'], rest) := by
  rw [fgets_cut hl, if_pos hn]

theorem fgets_append (n : ℕ) (s : Text) : (fgets n s).1 ++ (fgets n s).2 = s := by
  induction n generalizing s with
  | zero => rfl
  | succ n ih =>
    cases s with
    | nil => rfl
    | cons c s =>
      rw [fgets]
      split_ifs
      · rfl
      · simp [ih s]

theorem infix_of_mem_readLines {size fuel : ℕ} {s str : Text} (h : str ∈ readLines size fuel s) : str <:+: s := by
  induction fuel generalizing s with
  | zero => cases h
  | succ fuel ih =>
    cases s with
    | nil => cases h
    | cons c s =>
      rcases List.mem_cons.1 h with rfl | h
      · exact ⟨[], (fgets (size - 1) (c :: s)).2, by rw [List.nil_append, fgets_append]⟩
      · have hrest : (fgets (size - 1) (c :: s)).2 <:+ c :: s := ⟨(fgets (size - 1) (c :: s)).1, fgets_append _ _⟩
        exact (ih h).trans hrest.isInfix

/-- a complete line of a log: one '\n', at its end, and short enough for the buffer -/
def IsLine (size : ℕ) (l : Text) : Prop := ∃ s, l = s ++ ['\n'] ∧ '\n' ∉ s ∧ s.length + 1 < size

theorem readLines_flatten {size : ℕ} {ls : List Text} (h : ∀ l ∈ ls, IsLine size l) {fuel : ℕ} (hf : ls.length ≤ fuel) :
    readLines size fuel ls.flatten = ls := by
  induction ls generalizing fuel with
  | nil => cases fuel <;> simp [readLines]
  | cons l ls ih =>
    obtain ⟨s, rfl, hs, hlen⟩ := h l List.mem_cons_self
    rcases fuel with _ | fuel
    · simp at hf
    · have hfl : fgets (size - 1) (s ++ '\n' :: ls.flatten) = (s ++ ['\n'], ls.flatten) := fgets_line hs (by omega)
      have hcons : s ++ ['\n'] ++ ls.flatten = s ++ '\n' :: ls.flatten := by simp
      have hne : s ++ '\n' :: ls.flatten ≠ [] := by simp
      rw [List.flatten_cons, hcons]
      have hstep : readLines size (fuel + 1) (s ++ '\n' :: ls.flatten) =
          (fgets (size - 1) (s ++ '\n' :: ls.flatten)).1 ::
            readLines size fuel (fgets (size - 1) (s ++ '\n' :: ls.flatten)).2 := by
        cases hc : s ++ '\n' :: ls.flatten with
        | nil => exact absurd hc hne
        | cons c t => rfl
      rw [hstep, hfl, ih (fun l hl => h l (List.mem_cons_of_mem _ hl)) (by simpa using hf)]

end Rubbos.Core.CLib
