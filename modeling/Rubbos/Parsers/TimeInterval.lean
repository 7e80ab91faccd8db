/-
`getTimeInterval` of the C parsers (the same text in Tomcatparser.cpp, Apacheparser.cpp, Clientparser.cpp and
CJDBCparser.cpp), on buffers of any size.

The loop goes over the positions of time2 from the right. It takes the two digits and the carry from the buffers, counts
the borrow in an inner loop and writes a digit to rt. `memset` clears as many bytes of rt as a pointer has.

- `loop_eq`: what the loop has written in front of what it had written before.
- `getTimeInterval_mod`: two strings of n digits, and the n digits of the difference modulo 10^n.
- `getTimeInterval_agrees`: on the buffers of the parsers, the function of `Fields`.
-/
import Rubbos.Parsers.Fields

namespace Rubbos.Parsers.TimeInterval

open Rubbos.Core CLib

/-! ## Model -/

variable {n n₁ n₂ : ℕ}

/-- `b[i]` -/
def get (b : CArray n) (i : ℕ) : Option Char := b.bytes[i]?.join

/-- `b[i] = c` -/
def put (b : CArray n) (i : ℕ) (c : Char) : Option (CArray n) :=
  if i < n then some ⟨b.bytes.set i (some c), by rw [List.length_set, b.size]⟩ else none

/-- `sizeof(rt)`: rt is a pointer -/
def sizeofPointer : ℕ := 8

/-- the loop over the positions below i -/
def loop (time1 : CArray n₁) (time2 : CArray n₂) : (i : ℕ) → (carry : ℤ) → CArray n → Option (CArray n)
  | 0, _, rt => some rt
  | i + 1, carry, rt => do
    let tmp := schar (← get time2 i) - schar (← get time1 i) - carry
    let rt ← put rt i (Char.ofNat ((tmp + 10 * borrows tmp + 48) % 256).toNat)
    loop time1 time2 i (borrows tmp) rt

def getTimeInterval (time1 : CArray n₁) (time2 : CArray n₂) (rt : CArray n) : Option (CArray n) :=
  if sizeofPointer ≤ n then do
    let _ ← cstr time1
    let t₂ ← cstr time2
    let rt ← loop time1 time2 t₂.length 0 (memset0 sizeofPointer rt)
    put rt t₂.length NUL
  else none

/-! ## Buffers -/

/-- the bytes of a string, up to its end -/
theorem bytes_of_stringOf {bytes : List (Option Char)} {w : Text} (h : stringOf bytes = some w) :
    ∃ rest, bytes = w.map some ++ some NUL :: rest := by
  induction bytes generalizing w with
  | nil => cases h
  | cons o bytes ih =>
    cases o with
    | none => cases h
    | some c =>
      by_cases hc : c = NUL
      · simp only [stringOf, hc, if_true, Option.some.injEq] at h
        exact ⟨bytes, by rw [← h, hc]; rfl⟩
      · simp only [stringOf, hc, if_false, Option.map_eq_some_iff] at h
        obtain ⟨v, hv, rfl⟩ := h
        obtain ⟨rest, hrest⟩ := ih hv
        exact ⟨rest, by rw [hrest, List.map_cons, List.cons_append]⟩

/-- the byte behind a text of the string -/
theorem get_of_cstr {b : CArray n} {u v : Text} {c : Char} (h : cstr b = some (u ++ c :: v)) : get b u.length = some c := by
  obtain ⟨rest, hrest⟩ := bytes_of_stringOf h
  unfold get
  rw [hrest, List.map_append, List.append_assoc, List.getElem?_append_right (by simp)]
  simp

theorem put_bytes {b : CArray n} {x y : List (Option Char)} {o : Option Char} (h : b.bytes = x ++ o :: y) (c : Char) :
    ∃ b', put b x.length c = some b' ∧ b'.bytes = x ++ some c :: y := by
  have hlt : x.length < n := by
    rw [← b.size, h]
    simp
  refine ⟨_, if_pos hlt, ?_⟩
  show b.bytes.set x.length (some c) = x ++ some c :: y
  rw [h, List.set_append_right _ _ le_rfl, Nat.sub_self, List.set_cons_zero]

/-! ## The loop -/

theorem subDigits_cons (c₁ c₂ : Char) (t₁ t₂ : Text) :
    subDigits (c₁ :: t₁) (c₂ :: t₂) =
      (((borrows (schar c₂ - schar c₁ - (subDigits t₁ t₂).1) : ℕ) : ℤ),
        Char.ofNat ((schar c₂ - schar c₁ - (subDigits t₁ t₂).1 +
          10 * borrows (schar c₂ - schar c₁ - (subDigits t₁ t₂).1) + 48) % 256).toNat :: (subDigits t₁ t₂).2) := rfl

/-- there are as many digits as positions -/
theorem subDigits_length {t₁ t₂ : Text} (hlen : t₁.length = t₂.length) : (subDigits t₁ t₂).2.length = t₂.length := by
  induction t₁ generalizing t₂ with
  | nil => exact hlen ▸ rfl
  | cons c₁ t₁ ih =>
    cases t₂ with
    | nil => cases hlen
    | cons c₂ t₂ =>
      rw [subDigits_cons, List.length_cons, List.length_cons, ih (Nat.succ.inj hlen)]

/-- the positions that are left, in front of those that have been written; by induction on how many are left -/
theorem loop_eq {time1 : CArray n₁} {time2 : CArray n₂} {u₁ u₂ v₁ v₂ : Text} (h₁ : cstr time1 = some (u₁ ++ v₁))
    (h₂ : cstr time2 = some (u₂ ++ v₂)) (hlen : u₁.length = u₂.length) {rt : CArray n} {x y : List (Option Char)}
    (hx : x.length = u₂.length) (hrt : rt.bytes = x ++ (subDigits v₁ v₂).2.map some ++ y) :
    ∃ rt', loop time1 time2 u₂.length (subDigits v₁ v₂).1 rt = some rt' ∧
      rt'.bytes = (subDigits (u₁ ++ v₁) (u₂ ++ v₂)).2.map some ++ y := by
  induction hn : u₂.length generalizing u₁ u₂ v₁ v₂ rt x with
  | zero =>
    obtain rfl := List.length_eq_zero_iff.1 hn
    obtain rfl := List.length_eq_zero_iff.1 hlen
    obtain rfl := List.length_eq_zero_iff.1 hx
    exact ⟨rt, rfl, hrt⟩
  | succ i ih =>
    obtain ⟨u₂, c₂, rfl⟩ := List.eq_nil_or_concat u₂ |>.resolve_left (by rintro rfl; cases hn)
    obtain ⟨u₁, c₁, rfl⟩ := List.eq_nil_or_concat u₁ |>.resolve_left (by rintro rfl; simp at hlen)
    obtain ⟨x, o, rfl⟩ := List.eq_nil_or_concat x |>.resolve_left (by rintro rfl; simp at hx)
    simp only [List.concat_eq_append, List.length_append, List.length_singleton, Nat.add_right_cancel_iff,
      List.append_assoc, List.singleton_append] at h₁ h₂ hlen hx hn hrt ⊢
    subst hn
    have hget₁ : get time1 u₂.length = some c₁ := hlen ▸ get_of_cstr h₁
    have hget₂ : get time2 u₂.length = some c₂ := get_of_cstr h₂
    obtain ⟨rt', hput, hrt'⟩ := put_bytes hrt (Char.ofNat ((schar c₂ - schar c₁ - (subDigits v₁ v₂).1 +
      10 * borrows (schar c₂ - schar c₁ - (subDigits v₁ v₂).1) + 48) % 256).toNat)
    rw [hx] at hput
    obtain ⟨rt'', hloop, hrt''⟩ := ih h₁ h₂ hlen hx
      (show rt'.bytes = _ by rw [hrt', subDigits_cons, List.append_assoc]; rfl) rfl
    refine ⟨rt'', ?_, hrt''⟩
    rw [subDigits_cons] at hloop
    simp only [loop, hget₁, hget₂, Option.bind_eq_bind, Option.bind_some, hput]
    exact hloop

/-- **The function writes the digits of `subDigits`.** -/
theorem getTimeInterval_bytes {time1 : CArray n₁} {time2 : CArray n₂} {t₁ t₂ : Text} (h₁ : cstr time1 = some t₁)
    (h₂ : cstr time2 = some t₂) (hlen : t₁.length = t₂.length) (rt : CArray n) (hpointer : sizeofPointer ≤ n)
    (hroom : t₂.length < n) :
    ∃ rt' rest, getTimeInterval time1 time2 rt = some rt' ∧ rt'.bytes = (subDigits t₁ t₂).2.map some ++ some NUL :: rest := by
  have hsize := (memset0 sizeofPointer rt).size
  -- the bytes of rt: those for the digits, the one for the end of the string, and the rest
  obtain ⟨o, y, hsplit⟩ : ∃ o y, (memset0 sizeofPointer rt).bytes = (memset0 sizeofPointer rt).bytes.take t₂.length ++ o :: y := by
    have hlt : t₂.length < (memset0 sizeofPointer rt).bytes.length := by rwa [hsize]
    refine ⟨(memset0 sizeofPointer rt).bytes[t₂.length], (memset0 sizeofPointer rt).bytes.drop (t₂.length + 1), ?_⟩
    rw [← List.drop_eq_getElem_cons hlt, List.take_append_drop]
  have htake : ((memset0 sizeofPointer rt).bytes.take t₂.length).length = t₂.length := by
    rw [List.length_take, hsize]
    omega
  have h₁' : cstr time1 = some (t₁ ++ []) := by rwa [List.append_nil]
  have h₂' : cstr time2 = some (t₂ ++ []) := by rwa [List.append_nil]
  obtain ⟨rt', hloop, hrt'⟩ := loop_eq h₁' h₂' hlen htake (by simpa [subDigits] using hsplit)
  rw [List.append_nil, List.append_nil] at hrt'
  obtain ⟨rt'', hput, hrt''⟩ := put_bytes hrt' NUL
  rw [List.length_map, subDigits_length hlen] at hput
  refine ⟨rt'', y, ?_, hrt''⟩
  have hzero : (subDigits [] []).1 = 0 := rfl
  rw [hzero] at hloop
  simp only [getTimeInterval, if_pos hpointer, h₁, h₂, Option.bind_eq_bind, Option.bind_some, hloop, hput]

/-! ## Numbers -/

theorem NUL_notMem_of_digits {w : Text} (h : ∀ c ∈ w, c.isDigit) : NUL ∉ w :=
  fun hmem => absurd (h NUL hmem) (by decide)

theorem cstr_of_bytes {b : CArray n} {w : Text} {rest : List (Option Char)} (hw : NUL ∉ w)
    (h : b.bytes = w.map some ++ some NUL :: rest) : cstr b = some w := by
  unfold cstr
  rw [h]
  exact stringOf_append hw rest

/-- a string is shorter than its buffer -/
theorem length_lt_of_cstr {b : CArray n} {w : Text} (h : cstr b = some w) : w.length < n := by
  obtain ⟨rest, hrest⟩ := bytes_of_stringOf h
  rw [← b.size, hrest]
  simp

/-- **The interval between two numbers of n digits.** The digits of the difference modulo 10^n are written to rt, and the
string ends behind them. -/
theorem getTimeInterval_mod {time1 : CArray n₁} {time2 : CArray n₂} {a b : Text} (h₁ : cstr time1 = some a)
    (h₂ : cstr time2 = some b) (ha : ∀ c ∈ a, c.isDigit) (hb : ∀ c ∈ b, c.isDigit) (hlen : a.length = b.length)
    (rt : CArray n) (hpointer : sizeofPointer ≤ n) (hroom : b.length < n) :
    ∃ rt' w, getTimeInterval time1 time2 rt = some rt' ∧ cstr rt' = some w ∧ w.length = b.length ∧
      (∀ c ∈ w, c.isDigit) ∧ (digits w : ℤ) = ((digits b : ℤ) - digits a) % 10 ^ b.length ∧
      (digits a ≤ digits b → digits w = digits b - digits a) := by
  obtain ⟨rt', rest, hrun, hbytes⟩ := getTimeInterval_bytes h₁ h₂ hlen rt hpointer hroom
  obtain ⟨hd, hl, hcarry, hval⟩ := subDigits_spec ha hb hlen
  have hlt : (digits (subDigits a b).2 : ℤ) < 10 ^ b.length := by exact_mod_cast hl ▸ digits_lt hd
  have hmod : (digits (subDigits a b).2 : ℤ) = ((digits b : ℤ) - digits a) % 10 ^ b.length := by
    rw [hval, Int.sub_mul_emod_self_right, Int.emod_eq_of_lt (Int.natCast_nonneg _) hlt]
  refine ⟨rt', (subDigits a b).2, hrun, cstr_of_bytes (NUL_notMem_of_digits hd) hbytes, hl, hd, hmod, ?_⟩
  intro hle
  have hltb : (digits b : ℤ) < 10 ^ b.length := by exact_mod_cast digits_lt hb
  rw [Int.emod_eq_of_lt (by omega) (by omega)] at hmod
  omega

/-- a buffer with a number of three digits -/
def stamp (x y z : Char) : CArray 8 := ⟨[some x, some y, some z, some NUL, none, none, none, none], rfl⟩

theorem borrow_over_two_digits :
    ∃ rt' w, getTimeInterval (stamp '0' '9' '9') (stamp '1' '0' '0') (stamp '7' '7' '7') = some rt' ∧ cstr rt' = some w ∧
      w.length = 3 ∧ (∀ c ∈ w, c.isDigit) ∧ (digits w : ℤ) = ((100 : ℤ) - 99) % 10 ^ 3 ∧ (99 ≤ 100 → digits w = 100 - 99) :=
  getTimeInterval_mod (a := ['0', '9', '9']) (b := ['1', '0', '0']) rfl rfl (by decide) (by decide) rfl _ le_rfl (by decide)

/-- on the buffers of the parsers, the string is the one of `Parsers.getTimeInterval` -/
theorem getTimeInterval_agrees {time1 time2 : TimeBuf} {a b : Text} (h₁ : cstr time1 = some a) (h₂ : cstr time2 = some b)
    (ha : ∀ c ∈ a, c.isDigit) (hb : ∀ c ∈ b, c.isDigit) (hlen : a.length = b.length) (rt : TimeBuf) :
    ∃ rt', getTimeInterval time1 time2 rt = some rt' ∧ cstr rt' = Parsers.getTimeInterval time1 time2 := by
  obtain ⟨rt', rest, hrun, hbytes⟩ := getTimeInterval_bytes h₁ h₂ hlen rt (by decide) (length_lt_of_cstr h₂)
  have hd : ∀ c ∈ (subDigits a b).2, c.isDigit := (subDigits_spec ha hb hlen).1
  have hpeek : peek b.length time1 = some a := hlen ▸ peek_cstr h₁
  refine ⟨rt', hrun, ?_⟩
  rw [cstr_of_bytes (NUL_notMem_of_digits hd) hbytes, Parsers.getTimeInterval, h₂, Option.bind_some, hpeek, Option.map_some]

end Rubbos.Parsers.TimeInterval
