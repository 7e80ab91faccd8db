/-
Parameters in the query of a URL (`application/x-www-form-urlencoded`), as a browser sends and a server reads them.

The query of a link goes up to the end of the attribute and is sent up to the fragment (`sent`). The server cuts it at '&', cuts
each part at its first '=', and decodes both sides: '+' is a blank, a run of %XX is a run of bytes in the charset, other
characters stand for themselves. A part that cannot be decoded is left out. `getParameter` is the value of the first part with
the name.

A text that is spliced into a query may break it: `query` puts together names and raw texts, and any text may stand there.

- `decode_encode`: what `URLEncoder.encode` writes is read back.
- `getParameter_query`: texts without special characters are read back.
- `clean_of_getParameter`: and only those, whatever the other texts are, as long as those that break the query are read back
  as well. A text that breaks it could only come back out of a longer one that breaks it too.
-/
import Rubbos.Core.JString

namespace Rubbos.Core.Urlencoded

open JString

/-! ## Decoding -/

/-- a charset in which every text can be written; a byte is at most one character -/
structure Codec where
  bytes : Text → List UInt8
  text : List UInt8 → Text
  bytes_nil : bytes [] = []
  text_bytes : ∀ run, text (bytes run) = run
  length_text_le : ∀ bs, (text bs).length ≤ bs.length

def hexValue (c : Char) : Option ℕ :=
  if '0' ≤ c ∧ c ≤ '9' then some (c.toNat - '0'.toNat)
  else if 'A' ≤ c ∧ c ≤ 'F' then some (c.toNat - 'A'.toNat + 10)
  else if 'a' ≤ c ∧ c ≤ 'f' then some (c.toNat - 'a'.toNat + 10)
  else none

variable (codec : Codec)

/-- the loop of `decode`, with the bytes still to be read; none for a '%' without two digits -/
def decodeRun : (run : List UInt8) → Text → Option Text
  | run, [] => some (codec.text run)
  | run, c :: s =>
    if c = '%' then
      match s with
      | a :: b :: s =>
        match hexValue a, hexValue b with
        | some x, some y => decodeRun (run ++ [UInt8.ofNat (16 * x + y)]) s
        | _, _ => none
      | _ => none
    else (decodeRun [] s).map fun t => codec.text run ++ (if c = '+' then ' ' else c) :: t

def decode (s : Text) : Option Text := decodeRun codec [] s

variable {codec}

theorem text_nil : codec.text [] = [] := by
  have h := codec.text_bytes []
  rwa [codec.bytes_nil] at h

theorem decodeRun_of_ne {c : Char} (hc : c ≠ '%') (run : List UInt8) (s : Text) :
    decodeRun codec run (c :: s) = (decodeRun codec [] s).map fun t => codec.text run ++ (if c = '+' then ' ' else c) :: t := by
  rcases s with _ | ⟨a, _ | ⟨b, s⟩⟩ <;> simp [decodeRun, hc]

theorem hexValue_hexDigit (n : Fin 16) : hexValue (hexDigit n) = some n.val := by
  revert n
  decide

theorem decodeRun_percent (run : List UInt8) (b : UInt8) (s : Text) :
    decodeRun codec run (percent b ++ s) = decodeRun codec (run ++ [b]) s := by
  have hb : UInt8.ofNat (16 * (b.toNat / 16) + b.toNat % 16) = b := by
    rw [Nat.div_add_mod, UInt8.ofNat_toNat]
  simp [percent, decodeRun, hexValue_hexDigit, hb]

theorem decodeRun_percents (run bs : List UInt8) (s : Text) :
    decodeRun codec run (bs.flatMap percent ++ s) = decodeRun codec (run ++ bs) s := by
  induction bs generalizing run with
  | nil => simp
  | cons b bs ih =>
    rw [List.flatMap_cons, List.append_assoc, decodeRun_percent, ih, List.append_assoc, List.singleton_append]

theorem ne_of_isUnreserved {c : Char} (h : isUnreserved c) : c ≠ '%' ∧ c ≠ '+' := by
  constructor
  · rintro rfl
    exact absurd h (by decide)
  · rintro rfl
    exact absurd h (by decide)

theorem decodeRun_encodeRun (run s : Text) : decodeRun codec [] (encodeRun codec.bytes run s) = some (run ++ s) := by
  induction s generalizing run with
  | nil =>
    have h : decodeRun codec [] ((codec.bytes run).flatMap percent ++ []) = decodeRun codec ([] ++ codec.bytes run) [] :=
      decodeRun_percents [] (codec.bytes run) []
    rw [List.append_nil, List.nil_append] at h
    rw [encodeRun, h, decodeRun, codec.text_bytes, List.append_nil]
  | cons c s ih =>
    unfold encodeRun
    split_ifs with hc hblank
    · obtain ⟨hpercent, hplus⟩ := ne_of_isUnreserved hc
      rw [decodeRun_percents, List.nil_append, decodeRun_of_ne hpercent, ih, Option.map_some, if_neg hplus, codec.text_bytes,
        List.nil_append]
    · rw [decodeRun_percents, List.nil_append, decodeRun_of_ne (by decide), ih, Option.map_some, if_pos rfl, codec.text_bytes,
        List.nil_append, hblank]
    · rw [ih, List.append_assoc, List.singleton_append]

/-- **What is encoded is read back.** -/
theorem decode_encode (s : Text) : decode codec (encode codec.bytes s) = some s := decodeRun_encodeRun [] s

/-- decoding makes a text no longer, and a '%' makes it shorter -/
theorem length_decodeRun {run : List UInt8} {s t : Text} (h : decodeRun codec run s = some t) :
    t.length ≤ run.length + s.length ∧ ('%' ∈ s → t.length < run.length + s.length) := by
  fun_induction decodeRun codec run s generalizing t with
  | case1 run =>
    cases h
    exact ⟨codec.length_text_le run, by simp⟩
  | case2 run a b s x y hx hy ih =>
    have hle := (ih h).1
    simp only [List.length_append, List.length_cons, List.length_nil] at hle ⊢
    refine ⟨?_, fun _ => ?_⟩ <;> omega
  | case3 => cases h
  | case4 => cases h
  | case5 run c s hc ih =>
    obtain ⟨t', ht', rfl⟩ := Option.map_eq_some_iff.1 h
    obtain ⟨hle, hlt⟩ := ih ht'
    have hrun := codec.length_text_le run
    simp only [List.length_append, List.length_cons, List.length_nil, List.mem_cons] at hle hlt ⊢
    refine ⟨by omega, ?_⟩
    intro hmem
    rcases hmem with hmem | hmem
    · exact absurd hmem.symm hc
    · have := hlt hmem
      omega

theorem length_decode_le {s t : Text} (h : decode codec s = some t) : t.length ≤ s.length := by
  simpa using (length_decodeRun h).1

/-- without '%' every character stands for itself, but '+' -/
theorem decodeRun_of_notMem {s : Text} (h : '%' ∉ s) :
    decodeRun codec [] s = some (s.map fun c => if c = '+' then ' ' else c) := by
  induction s with
  | nil => simp [decodeRun, text_nil]
  | cons c s ih =>
    rw [List.mem_cons, not_or] at h
    rw [decodeRun_of_ne (Ne.symm h.1), ih h.2, text_nil]
    rfl

/-- the texts that are read as they are -/
theorem decode_eq_self_iff {s : Text} : decode codec s = some s ↔ '%' ∉ s ∧ '+' ∉ s := by
  by_cases hpercent : '%' ∈ s
  · refine iff_of_false (fun h => ?_) (fun h => h.1 hpercent)
    have hlt := (length_decodeRun h).2 hpercent
    simp at hlt
  · rw [decode, decodeRun_of_notMem hpercent, Option.some.injEq]
    refine ⟨fun h => ⟨hpercent, fun hplus => ?_⟩, fun h => ?_⟩
    · rw [← h] at hplus
      obtain ⟨c, -, hc⟩ := List.mem_map.1 hplus
      split at hc
      · exact absurd hc (by decide)
      · next hne => exact hne hc
    · conv_rhs => rw [← List.map_id s]
      refine List.map_congr_left fun c hc => ?_
      have hne : c ≠ '+' := fun he => h.2 (he ▸ hc)
      rw [if_neg hne, id]

/-- the texts that `encode` leaves alone -/
theorem encode_eq_self_iff {s : Text} : encode codec.bytes s = s ↔ ∀ c ∈ s, isUnreserved c := by
  constructor
  · intro h c hc
    have hdecode : decode codec s = some s := by
      have hround : decode codec (encode codec.bytes s) = some s := decode_encode s
      rwa [h] at hround
    obtain ⟨hpercent, hplus⟩ := decode_eq_self_iff.1 hdecode
    have hmem : c ∈ encode codec.bytes s := by rwa [h]
    have hencoded : isEncoded c := isEncoded_of_mem_encodeRun hmem
    simp only [isEncoded, Bool.or_eq_true, decide_eq_true_eq, List.mem_cons, List.not_mem_nil, or_false] at hencoded
    rcases hencoded with hc' | rfl | rfl
    · exact hc'
    · exact absurd hc hplus
    · exact absurd hc hpercent
  · intro h
    unfold encode
    induction s with
    | nil => simp [encodeRun, codec.bytes_nil]
    | cons c s ih =>
      rw [encodeRun, if_pos (h c List.mem_cons_self), codec.bytes_nil, ih fun x hx => h x (List.mem_cons_of_mem c hx)]
      rfl

/-- a character that stands for itself and is no digit of a '%' separates what is decoded -/
theorem decodeRun_append_cons {c : Char} (hpercent : c ≠ '%') (hplus : c ≠ '+') (hhex : hexValue c = none)
    (run : List UInt8) (a b : Text) :
    decodeRun codec run (a ++ c :: b) =
      (decodeRun codec run a).bind fun x => (decodeRun codec [] b).map fun y => x ++ c :: y := by
  fun_induction decodeRun codec run a with
  | case1 run => simp [decodeRun_of_ne hpercent, hplus]
  | case2 run x y s u v hu hv ih => simpa only [List.cons_append, decodeRun, if_true, hu, hv] using ih
  | case3 run x y s hno =>
    rw [Option.bind_none, List.cons_append, List.cons_append, List.cons_append]
    simp only [decodeRun, if_true]
  | case4 run s hs =>
    rcases s with _ | ⟨x, _ | ⟨y, s⟩⟩
    · rcases b with _ | ⟨y, b⟩ <;> simp [decodeRun, hhex]
    · simp [decodeRun, hhex]
    · exact absurd rfl (hs x y s)
  | case5 run d s hd ih =>
    rw [List.cons_append, decodeRun_of_ne hd, ih]
    cases decodeRun codec [] s <;> simp [Function.comp_def]

/-! ## Reading a query -/

/-- a character that ends the attribute of a link or its query -/
def isEnd (c : Char) : Bool := c = '"' || c = '#'

/-- what is sent of the query of a link -/
def sent (q : Text) : Text := q.takeWhile fun c => !isEnd c

def isAmp (c : Char) : Bool := c = '&'

def isEq (c : Char) : Bool := c = '='

variable (codec)

/-- the name and the value of a part -/
def pairOf (part : Text) : Option (Text × Text) :=
  (decode codec (part.takeWhile fun c => !isEq c)).bind fun name =>
    (decode codec (part.dropWhile fun c => !isEq c).tail).map fun value => (name, value)

def parameters (q : Text) : List (Text × Text) := ((sent q).splitOnP isAmp).filterMap (pairOf codec)

def getParameter (q name : Text) : Option Text := (parameters codec q).lookup name

/-! ## Putting a query together -/

/-- names and texts, as they are -/
def query : List (Text × Text) → Text
  | [] => []
  | [f] => f.1 ++ '=' :: f.2
  | f :: fs => f.1 ++ '=' :: (f.2 ++ '&' :: query fs)

/-- a text that does not end its part -/
def Whole (w : Text) : Prop := ∀ c ∈ w, isEnd c = false ∧ isAmp c = false

/-- a text without special characters -/
def Clean (w : Text) : Prop := Whole w ∧ '%' ∉ w ∧ '+' ∉ w

/-- a name of letters -/
def Name (n : Text) : Prop := ∀ c ∈ n, c.isAlpha

instance (w : Text) : Decidable (Whole w) := inferInstanceAs (Decidable (∀ c ∈ w, isEnd c = false ∧ isAmp c = false))

instance (w : Text) : Decidable (Clean w) := inferInstanceAs (Decidable (Whole w ∧ '%' ∉ w ∧ '+' ∉ w))

instance (n : Text) : Decidable (Name n) := inferInstanceAs (Decidable (∀ c ∈ n, c.isAlpha))

variable {codec}

theorem isAlpha_ne {c d : Char} (hc : c.isAlpha) (hd : d.isAlpha = false) : c ≠ d := by
  rintro rfl
  rw [hc] at hd
  cases hd

theorem Name.whole {n : Text} (h : Name n) : Whole n := by
  intro c hc
  have hq := isAlpha_ne (d := '"') (h c hc) (by decide)
  have hf := isAlpha_ne (d := '#') (h c hc) (by decide)
  have ha := isAlpha_ne (d := '&') (h c hc) (by decide)
  simp [isEnd, isAmp, hq, hf, ha]

theorem Name.not_eq {n : Text} (h : Name n) : ∀ c ∈ n, isEq c = false := by
  intro c hc
  simp [isEq, isAlpha_ne (d := '=') (h c hc) (by decide)]

theorem Name.decode {n : Text} (h : Name n) : decode codec n = some n :=
  decode_eq_self_iff.2 ⟨fun hm => isAlpha_ne (h _ hm) (by decide) rfl, fun hm => isAlpha_ne (h _ hm) (by decide) rfl⟩

/-- a part is cut at its first '=' -/
theorem pairOf_append_cons {n : Text} (hn : ∀ c ∈ n, isEq c = false) (w : Text) :
    pairOf codec (n ++ '=' :: w) =
      (Urlencoded.decode codec n).bind fun name => (Urlencoded.decode codec w).map fun value => (name, value) := by
  have htake : (n ++ '=' :: w).takeWhile (fun c => !isEq c) = n := by
    rw [List.takeWhile_append_of_pos (fun c hc => by simp [hn c hc])]
    simp [isEq]
  have hdrop : (n ++ '=' :: w).dropWhile (fun c => !isEq c) = '=' :: w := by
    rw [List.dropWhile_append_of_pos (fun c hc => by simp [hn c hc])]
    simp [isEq]
  rw [pairOf, htake, hdrop, List.tail_cons]

/-- the part of a name and a text -/
theorem pairOf_append {n w : Text} (hn : Name n) : pairOf codec (n ++ '=' :: w) = (Urlencoded.decode codec w).map (n, ·) := by
  rw [pairOf_append_cons hn.not_eq, hn.decode, Option.bind_some]

/-- an encoded text is the value of its part, unless there is another '=' in front -/
theorem pairOf_encode_iff {n s name : Text} :
    pairOf codec (n ++ '=' :: encode codec.bytes s) = some (name, s) ↔
      (∀ c ∈ n, isEq c = false) ∧ Urlencoded.decode codec n = some name := by
  have hs : Urlencoded.decode codec (encode codec.bytes s) = some s := decode_encode s
  by_cases hn : ∀ c ∈ n, isEq c = false
  · rw [pairOf_append_cons hn, hs]
    cases Urlencoded.decode codec n with
    | none => simp
    | some name' => simpa using fun _ => hn
  · refine iff_of_false (fun h => ?_) (fun h => hn h.1)
    -- the value goes on with the text behind the first '='
    obtain ⟨a, b, rfl, ha⟩ : ∃ a b, n = a ++ '=' :: b ∧ ∀ c ∈ a, isEq c = false := by
      obtain ⟨c, hmem, hc⟩ : ∃ c ∈ n, isEq c := by simpa using hn
      rw [show c = '=' by simpa [isEq] using hc] at hmem
      obtain ⟨a, b, hab, ha⟩ := List.eq_append_cons_of_mem hmem
      refine ⟨a, b, hab, fun d hd => ?_⟩
      simpa [isEq] using fun he : d = '=' => ha (he ▸ hd)
    rw [List.append_assoc, List.cons_append, pairOf_append_cons ha] at h
    obtain ⟨name', -, hpair⟩ := Option.bind_eq_some_iff.1 h
    obtain ⟨value, hvalue, heq⟩ := Option.map_eq_some_iff.1 hpair
    have hb : Urlencoded.decode codec (b ++ '=' :: encode codec.bytes s) =
        (Urlencoded.decode codec b).map fun x => x ++ '=' :: s := by
      unfold Urlencoded.decode at hs ⊢
      rw [decodeRun_append_cons (by decide) (by decide) (by decide), hs]
      cases decodeRun codec [] b <;> rfl
    rw [hb] at hvalue
    obtain ⟨x, -, rfl⟩ := Option.map_eq_some_iff.1 hvalue
    have hlength := congrArg (fun e => e.2.length) heq
    simp at hlength
    omega

theorem sent_append {a : Text} (ha : ∀ c ∈ a, isEnd c = false) (b : Text) : sent (a ++ b) = a ++ sent b := by
  unfold sent
  rw [List.takeWhile_append_of_pos (fun c hc => by simp [ha c hc])]

theorem sent_of_forall {a : Text} (ha : ∀ c ∈ a, isEnd c = false) : sent a = a := by
  simpa [sent] using sent_append ha []

/-- a text with an end in it is cut, and what stands behind it is lost -/
theorem sent_append_of_end {a : Text} (ha : ¬ ∀ c ∈ a, isEnd c = false) (b : Text) :
    sent (a ++ b) = sent a ∧ (sent a).length < a.length := by
  induction a with
  | nil => exact absurd (fun c hc => nomatch hc) ha
  | cons c a ih =>
    by_cases hc : isEnd c
    · simp [sent, hc]
    · have hrest : ¬ ∀ c ∈ a, isEnd c = false := by
        intro h
        refine ha fun d hd => ?_
        rcases List.mem_cons.1 hd with rfl | hd
        · simpa using hc
        · exact h d hd
      obtain ⟨hsent, hlt⟩ := ih hrest
      unfold sent at hsent hlt ⊢
      simp [hc, hsent, hlt]

/-! ## Parts -/

/-- a front without '&' stays in front of the first part -/
theorem splitOnP_append_of_forall {a : Text} (ha : ∀ c ∈ a, isAmp c = false) (b : Text) :
    (a ++ b).splitOnP isAmp = (b.splitOnP isAmp).modifyHead (a ++ ·) := by
  induction a with
  | nil =>
    rw [List.nil_append]
    cases b.splitOnP isAmp <;> rfl
  | cons c a ih =>
    rw [List.cons_append, List.splitOnP_cons_eq_if_modifyHead, if_neg (by simp [ha c List.mem_cons_self]),
      ih fun d hd => ha d (List.mem_cons_of_mem _ hd)]
    cases b.splitOnP isAmp <;> rfl

/-- an end without '&' stays behind the last part -/
theorem splitOnP_append_of_forall_right {w : Text} (hw : ∀ c ∈ w, isAmp c = false) {a : Text} {parts : List Text} {last : Text}
    (h : a.splitOnP isAmp = parts ++ [last]) : (a ++ w).splitOnP isAmp = parts ++ [last ++ w] := by
  induction a generalizing parts last with
  | nil =>
    have hnil : [] = parts ∧ [] = last := by simpa [List.append_eq_singleton_iff, eq_comm] using h
    rw [← hnil.1, ← hnil.2, List.nil_append, List.splitOnP_eq_singleton hw]
    rfl
  | cons c a ih =>
    obtain ⟨front, back, hback⟩ : ∃ front back, a.splitOnP isAmp = front ++ [back] :=
      ⟨_, _, (List.dropLast_append_getLast (List.splitOnP_ne_nil _ _)).symm⟩
    rw [List.splitOnP_cons_eq_if_modifyHead, hback] at h
    rw [List.cons_append, List.splitOnP_cons_eq_if_modifyHead, ih hback]
    by_cases hc : isAmp c
    · rw [if_pos hc, ← List.cons_append] at h
      obtain ⟨rfl, hlast⟩ := List.append_inj' h rfl
      cases hlast
      rw [if_pos hc, List.cons_append]
    · rw [if_neg hc] at h
      rw [if_neg hc]
      cases front with
      | nil =>
        have hparts : [] ++ [c :: back] = parts ++ [last] := h
        obtain ⟨rfl, hlast⟩ := List.append_inj' hparts rfl
        cases hlast
        rfl
      | cons x front =>
        have hparts : (c :: x) :: front ++ [back] = parts ++ [last] := h
        obtain ⟨rfl, hlast⟩ := List.append_inj' hparts rfl
        cases hlast
        rfl

/-- the parts of a text are shorter than the text, unless it is a part itself -/
theorem splitOnP_parts (w : Text) :
    ∃ w₀ ws, w.splitOnP isAmp = w₀ :: ws ∧ (∀ x ∈ ws, x.length < w.length) ∧
      ((ws = [] ∧ w₀ = w ∧ ∀ c ∈ w, isAmp c = false) ∨ ((¬ ∀ c ∈ w, isAmp c = false) ∧ ws ≠ [] ∧ w₀.length < w.length)) := by
  induction w with
  | nil => exact ⟨[], [], rfl, by simp, .inl ⟨rfl, rfl, by simp⟩⟩
  | cons c w ih =>
    obtain ⟨w₀, ws, hsplit, hws, hw₀⟩ := ih
    rw [List.splitOnP_cons_eq_if_modifyHead, hsplit]
    by_cases hc : isAmp c
    · have hle : w₀.length ≤ w.length := by
        rcases hw₀ with ⟨-, rfl, -⟩ | ⟨-, -, hlt⟩
        · exact le_rfl
        · exact hlt.le
      rw [if_pos hc]
      refine ⟨[], w₀ :: ws, rfl, ?_, .inr ⟨fun h => ?_, List.cons_ne_nil _ _, by simp⟩⟩
      · intro x hx
        rw [List.length_cons]
        rcases List.mem_cons.1 hx with rfl | hx
        · omega
        · have := hws x hx
          omega
      · rw [h c List.mem_cons_self] at hc
        cases hc
    · rw [if_neg hc]
      refine ⟨c :: w₀, ws, rfl, fun x hx => (hws x hx).trans (Nat.lt_succ_self _), ?_⟩
      rcases hw₀ with ⟨rfl, rfl, hno⟩ | ⟨hamp, hne, hlt⟩
      · refine .inl ⟨rfl, rfl, fun d hd => ?_⟩
        rcases List.mem_cons.1 hd with rfl | hd
        · simpa using hc
        · exact hno d hd
      · refine .inr ⟨fun h => hamp fun d hd => h d (List.mem_cons_of_mem _ hd), hne, ?_⟩
        simpa using hlt

theorem length_le_of_pairOf {part : Text} {e : Text × Text} (h : pairOf codec part = some e) : e.2.length ≤ part.length := by
  obtain ⟨name, -, hvalue⟩ := Option.bind_eq_some_iff.1 h
  obtain ⟨value, hdecode, rfl⟩ := Option.map_eq_some_iff.1 hvalue
  have hle := length_decode_le hdecode
  have hdrop := List.length_dropWhile_le (fun c => !isEq c) part
  rw [List.length_tail] at hle
  show value.length ≤ part.length
  omega

/-- the name of a field is in its first part -/
theorem splitOnP_field {n : Text} (hn : Name n) (w : Text) :
    (n ++ '=' :: w).splitOnP isAmp = (w.splitOnP isAmp).modifyHead fun w₀ => n ++ '=' :: w₀ := by
  have hfront : ∀ c ∈ n ++ ['='], isAmp c = false := by
    intro c hc
    rcases List.mem_append.1 hc with hc | hc
    · exact (hn.whole c hc).2
    · rw [List.mem_singleton.1 hc]
      rfl
  rw [List.append_cons, splitOnP_append_of_forall hfront]
  simp only [List.append_assoc, List.singleton_append]

/-- the parameters of a name and a text: the text itself if it is whole, else values shorter than the text -/
theorem mem_parts {n w : Text} (hn : Name n) {e : Text × Text}
    (h : e ∈ ((n ++ '=' :: w).splitOnP isAmp).filterMap (pairOf codec)) :
    ((∀ c ∈ w, isAmp c = false) ∧ e.1 = n ∧ decode codec w = some e.2) ∨
      ((¬ ∀ c ∈ w, isAmp c = false) ∧ e.2.length < w.length) := by
  obtain ⟨w₀, ws, hsplit, hws, hw₀⟩ := splitOnP_parts w
  have hparts : (n ++ '=' :: w).splitOnP isAmp = (n ++ '=' :: w₀) :: ws := by
    rw [splitOnP_field hn, hsplit]
    rfl
  rw [hparts, List.filterMap_cons, pairOf_append hn] at h
  have hrest : e ∈ ws.filterMap (pairOf codec) → e.2.length < w.length := by
    intro he
    obtain ⟨part, hpart, hpair⟩ := List.mem_filterMap.1 he
    exact (length_le_of_pairOf hpair).trans_lt (hws part hpart)
  rcases hw₀ with ⟨rfl, rfl, hno⟩ | ⟨hamp, -, hlt⟩
  · cases hdecode : decode codec w₀ with
    | none => simp [hdecode] at h
    | some v =>
      simp only [hdecode, Option.map_some, List.filterMap_nil, List.mem_singleton] at h
      exact .inl ⟨hno, by rw [h], by rw [h]⟩
  · refine .inr ⟨hamp, ?_⟩
    cases hdecode : decode codec w₀ with
    | none => exact hrest (by simpa [hdecode] using h)
    | some v =>
      simp only [hdecode, Option.map_some, List.mem_cons] at h
      rcases h with rfl | h
      · exact (length_decode_le hdecode).trans_lt hlt
      · exact hrest h

/-! ## Fields -/

theorem whole_iff {w : Text} : Whole w ↔ (∀ c ∈ w, isEnd c = false) ∧ ∀ c ∈ w, isAmp c = false :=
  ⟨fun h => ⟨fun c hc => (h c hc).1, fun c hc => (h c hc).2⟩, fun h c hc => ⟨h.1 c hc, h.2 c hc⟩⟩

theorem front_no_end {n : Text} (hn : Name n) : ∀ c ∈ n ++ ['='], isEnd c = false := by
  intro c hc
  rcases List.mem_append.1 hc with hc | hc
  · exact (hn.whole c hc).1
  · rw [List.mem_singleton.1 hc]
    rfl

theorem query_cons (f g : Text × Text) (fs : List (Text × Text)) :
    query (f :: g :: fs) = f.1 ++ '=' :: (f.2 ++ '&' :: query (g :: fs)) := rfl

/-- a field whose text has no end goes in front of the others -/
theorem parameters_cons {f g : Text × Text} {fs : List (Text × Text)} (hn : Name f.1) (hend : ∀ c ∈ f.2, isEnd c = false) :
    parameters codec (query (f :: g :: fs)) =
      ((f.1 ++ '=' :: f.2).splitOnP isAmp).filterMap (pairOf codec) ++ parameters codec (query (g :: fs)) := by
  have hfront : ∀ c ∈ f.1 ++ '=' :: f.2 ++ ['&'], isEnd c = false := by
    intro c hc
    rcases List.mem_append.1 hc with hc | hc
    · rw [List.append_cons] at hc
      rcases List.mem_append.1 hc with hc | hc
      · exact front_no_end hn c hc
      · exact hend c hc
    · rw [List.mem_singleton.1 hc]
      rfl
  have hquery : query (f :: g :: fs) = (f.1 ++ '=' :: f.2 ++ ['&']) ++ query (g :: fs) := by
    rw [query_cons]
    simp
  unfold parameters
  rw [hquery, sent_append hfront, List.append_assoc, List.singleton_append, List.splitOnP_append_cons _ _ (by decide),
    List.filterMap_append]

/-- a text with an end in it is the last field that is sent, and not whole -/
theorem parameters_of_end {f : Text × Text} {rest : Text} (hn : Name f.1) (hend : ¬ ∀ c ∈ f.2, isEnd c = false) :
    parameters codec (f.1 ++ '=' :: (f.2 ++ rest)) = ((f.1 ++ '=' :: sent f.2).splitOnP isAmp).filterMap (pairOf codec) := by
  unfold parameters
  rw [List.append_cons, sent_append (front_no_end hn), (sent_append_of_end hend rest).1, List.append_assoc,
    List.singleton_append]

/-- every parameter is a field with a whole text, or comes out of a longer text that is not whole -/
theorem mem_parameters_query {fs : List (Text × Text)} (hne : fs ≠ []) (hnames : ∀ f ∈ fs, Name f.1) {e : Text × Text}
    (h : e ∈ parameters codec (query fs)) :
    ∃ f ∈ fs, (Whole f.2 ∧ e.1 = f.1 ∧ decode codec f.2 = some e.2) ∨ (¬ Whole f.2 ∧ e.2.length < f.2.length) := by
  -- the parameters of one field, as far as it is sent
  have hfield : ∀ f : Text × Text, Name f.1 → (∀ c ∈ f.2, isEnd c = false) →
      e ∈ ((f.1 ++ '=' :: f.2).splitOnP isAmp).filterMap (pairOf codec) →
      (Whole f.2 ∧ e.1 = f.1 ∧ decode codec f.2 = some e.2) ∨ (¬ Whole f.2 ∧ e.2.length < f.2.length) := by
    intro f hn hend he
    rcases mem_parts hn he with ⟨hamp, hname, hvalue⟩ | ⟨hamp, hlt⟩
    · exact .inl ⟨whole_iff.2 ⟨hend, hamp⟩, hname, hvalue⟩
    · exact .inr ⟨fun hw => hamp (whole_iff.1 hw).2, hlt⟩
  have hcut : ∀ (f : Text × Text) (rest : Text), Name f.1 → (¬ ∀ c ∈ f.2, isEnd c = false) →
      e ∈ parameters codec (f.1 ++ '=' :: (f.2 ++ rest)) → ¬ Whole f.2 ∧ e.2.length < f.2.length := by
    intro f rest hn hend he
    rw [parameters_of_end hn hend] at he
    have hshort := (sent_append_of_end hend rest).2
    refine ⟨fun hw => hend (whole_iff.1 hw).1, ?_⟩
    rcases mem_parts hn he with ⟨-, -, hvalue⟩ | ⟨-, hlt⟩
    · exact (length_decode_le hvalue).trans_lt hshort
    · exact hlt.trans hshort
  induction fs with
  | nil => exact absurd rfl hne
  | cons f fs ih =>
    have hn := hnames f List.mem_cons_self
    by_cases hend : ∀ c ∈ f.2, isEnd c = false
    · cases fs with
      | nil =>
        have hparts : parameters codec (query [f]) = ((f.1 ++ '=' :: f.2).splitOnP isAmp).filterMap (pairOf codec) := by
          unfold parameters
          rw [query, List.append_cons, sent_append (front_no_end hn), sent_of_forall hend]
        rw [hparts] at h
        exact ⟨f, List.mem_cons_self, hfield f hn hend h⟩
      | cons g fs =>
        rw [parameters_cons hn hend] at h
        rcases List.mem_append.1 h with h | h
        · exact ⟨f, List.mem_cons_self, hfield f hn hend h⟩
        · obtain ⟨f', hf', hor⟩ := ih (by simp) (fun f' hf' => hnames f' (List.mem_cons_of_mem _ hf')) h
          exact ⟨f', List.mem_cons_of_mem _ hf', hor⟩
    · refine ⟨f, List.mem_cons_self, .inr ?_⟩
      cases fs with
      | nil => exact hcut f [] hn hend (by simpa [query] using h)
      | cons g fs => exact hcut f _ hn hend h

/-- fields with whole texts are the parameters -/
theorem parameters_query {fs : List (Text × Text)} (hne : fs ≠ []) (hnames : ∀ f ∈ fs, Name f.1) (hwhole : ∀ f ∈ fs, Whole f.2) :
    parameters codec (query fs) = fs.filterMap fun f => (decode codec f.2).map (f.1, ·) := by
  have hpart : ∀ f ∈ fs, ((f.1 ++ '=' :: f.2).splitOnP isAmp).filterMap (pairOf codec) =
      [f].filterMap fun f => (decode codec f.2).map (f.1, ·) := by
    intro f hf
    have hno : ∀ c ∈ f.1 ++ '=' :: f.2, isAmp c = false := by
      intro c hc
      rcases List.mem_append.1 hc with hc | hc
      · exact ((hnames f hf).whole c hc).2
      · rcases List.mem_cons.1 hc with rfl | hc
        · rfl
        · exact (hwhole f hf c hc).2
    rw [List.splitOnP_eq_singleton hno, List.filterMap_cons, List.filterMap_cons, pairOf_append (hnames f hf)]
    rfl
  induction fs with
  | nil => exact absurd rfl hne
  | cons f fs ih =>
    have hn := hnames f List.mem_cons_self
    have hend := (whole_iff.1 (hwhole f List.mem_cons_self)).1
    cases fs with
    | nil =>
      unfold parameters
      rw [query, List.append_cons, sent_append (front_no_end hn), sent_of_forall hend, ← List.append_cons]
      exact hpart f List.mem_cons_self
    | cons g fs =>
      rw [parameters_cons hn hend, hpart f List.mem_cons_self, ih (by simp) (fun f' hf' => hnames f' (List.mem_cons_of_mem _ hf'))
        (fun f' hf' => hwhole f' (List.mem_cons_of_mem _ hf')) (fun f' hf' => hpart f' (List.mem_cons_of_mem _ hf')),
        ← List.filterMap_append]
      rfl

/-- **Clean texts are read back.** -/
theorem getParameter_query (codec : Codec) {fs : List (Text × Text)} (hnames : ∀ f ∈ fs, Name f.1)
    (hnodup : (fs.map Prod.fst).Nodup) (hwhole : ∀ f ∈ fs, Whole f.2) {f : Text × Text} (hf : f ∈ fs) (hdecode : (decode codec f.2).isSome) :
    getParameter codec (query fs) f.1 = decode codec f.2 := by
  rw [getParameter, parameters_query (List.ne_nil_of_mem hf) hnames hwhole]
  induction fs with
  | nil => cases hf
  | cons g fs ih =>
    rw [List.map_cons, List.nodup_cons] at hnodup
    rw [List.filterMap_cons]
    rcases List.mem_cons.1 hf with rfl | hf
    · obtain ⟨v, hv⟩ := Option.isSome_iff_exists.1 hdecode
      simp [hv]
    · have hih := ih (fun f' hf' => hnames f' (List.mem_cons_of_mem _ hf')) hnodup.2
        (fun f' hf' => hwhole f' (List.mem_cons_of_mem _ hf')) hf
      have hne : f.1 ≠ g.1 := fun he => hnodup.1 (he ▸ List.mem_map_of_mem hf)
      cases decode codec g.2 with
      | none => exact hih
      | some v => simpa [List.lookup_cons, beq_false_of_ne hne] using hih

/-- a text without special characters is read as it is -/
theorem getParameter_of_clean (codec : Codec) {fs : List (Text × Text)} (hnames : ∀ f ∈ fs, Name f.1)
    (hnodup : (fs.map Prod.fst).Nodup) (hwhole : ∀ f ∈ fs, Whole f.2) {f : Text × Text} (hf : f ∈ fs) (hclean : Clean f.2) :
    getParameter codec (query fs) f.1 = some f.2 := by
  have hdecode : decode codec f.2 = some f.2 := decode_eq_self_iff.2 hclean.2
  rw [getParameter_query codec hnames hnodup hwhole hf (by rw [hdecode]; rfl), hdecode]

/-- there is no parameter with another name -/
theorem getParameter_eq_none (codec : Codec) {fs : List (Text × Text)} (hne : fs ≠ []) (hnames : ∀ f ∈ fs, Name f.1)
    (hwhole : ∀ f ∈ fs, Whole f.2) {n : Text} (hn : n ∉ fs.map Prod.fst) : getParameter codec (query fs) n = none := by
  rw [getParameter, parameters_query hne hnames hwhole, List.lookup_eq_none_iff]
  intro e he
  obtain ⟨f, hf, hfe⟩ := List.mem_filterMap.1 he
  obtain ⟨v, -, rfl⟩ := Option.map_eq_some_iff.1 hfe
  rw [bne_iff_ne]
  intro h
  rw [h] at hn
  exact hn (List.mem_map.2 ⟨f, hf, rfl⟩)

theorem mem_of_lookup {l : List (Text × Text)} {k v : Text} (h : l.lookup k = some v) : (k, v) ∈ l := by
  induction l with
  | nil => cases h
  | cons e l ih =>
    rw [List.lookup_cons] at h
    split at h
    · next hk =>
      cases h
      rw [eq_of_beq hk]
      exact List.mem_cons_self
    · exact List.mem_cons_of_mem _ (ih h)

/-- **Only clean texts are read back.** If every text that is not whole is read back under its name, then all texts are whole,
and those that are read back are clean. -/
theorem clean_of_getParameter (codec : Codec) {fs : List (Text × Text)} (hnames : ∀ f ∈ fs, Name f.1)
    (hnodup : (fs.map Prod.fst).Nodup)
    (h : ∀ f ∈ fs, ¬ Whole f.2 → getParameter codec (query fs) f.1 = some f.2) :
    (∀ f ∈ fs, Whole f.2) ∧ ∀ f ∈ fs, getParameter codec (query fs) f.1 = some f.2 → Clean f.2 := by
  -- a text that is read back is clean, or comes out of a longer one that is not whole
  have hlonger : ∀ f ∈ fs, getParameter codec (query fs) f.1 = some f.2 →
      Clean f.2 ∨ ∃ g ∈ fs, ¬ Whole g.2 ∧ f.2.length < g.2.length := by
    intro f hf hget
    obtain ⟨g, hg, ⟨hwhole, hname, hvalue⟩ | ⟨hwhole, hlt⟩⟩ :=
      mem_parameters_query (List.ne_nil_of_mem hf) hnames (mem_of_lookup hget)
    · have hfg : f = g := List.inj_on_of_nodup_map hnodup hf hg hname
      subst hfg
      exact .inl ⟨hwhole, decode_eq_self_iff.1 hvalue⟩
    · exact .inr ⟨g, hg, hwhole, hlt⟩
  obtain ⟨m, hm⟩ : ∃ m, ∀ g ∈ fs, g.2.length ≤ m :=
    ⟨(fs.map fun g => g.2.length).sum, fun g hg =>
      List.single_le_sum (fun _ _ => Nat.zero_le _) _ (List.mem_map_of_mem hg)⟩
  have hbelow : ∀ k, ∀ f ∈ fs, ¬ Whole f.2 → f.2.length + k ≤ m := by
    intro k
    induction k with
    | zero => exact fun f hf _ => hm f hf
    | succ k ih =>
      intro f hf hnot
      rcases hlonger f hf (h f hf hnot) with hclean | ⟨g, hg, hgnot, hlt⟩
      · exact absurd hclean.1 hnot
      · have := ih g hg hgnot
        omega
  have hwhole : ∀ f ∈ fs, Whole f.2 := by
    intro f hf
    by_contra hnot
    have := hbelow (m + 1) f hf hnot
    omega
  refine ⟨hwhole, fun f hf hget => ?_⟩
  rcases hlonger f hf hget with hclean | ⟨g, hg, hgnot, -⟩
  · exact hclean
  · exact absurd (hwhole g hg) hgnot

/-! ## Texts that are read back -/

theorem clean_longText (n : ℤ) : Clean (longText n) := by
  refine ⟨fun c hc => ?_, notMem_longText (by decide), notMem_longText (by decide)⟩
  have hchar := isNumChar_of_mem_longText hc
  have hnot : ∀ d, isNumChar d = false → c ≠ d := by
    rintro d hd rfl
    rw [hchar] at hd
    cases hd
  simp [isEnd, isAmp, hnot '"' (by decide), hnot '#' (by decide), hnot '&' (by decide)]

theorem whole_encode (charset : Text → List UInt8) (s : Text) : Whole (encode charset s) := by
  intro c hc
  have hchar := isEncoded_of_mem_encodeRun hc
  have hnot : ∀ d, isEncoded d = false → c ≠ d := by
    rintro d hd rfl
    rw [hchar] at hd
    cases hd
  simp [isEnd, isAmp, hnot '"' (by decide), hnot '#' (by decide), hnot '&' (by decide)]

/-! ## UTF-8 -/

def utf8Text (bs : List UInt8) : Text :=
  match bs.toByteArray.utf8Decode? with
  | some cs => cs.toList
  | none => bs.map fun _ => Char.ofNat 0xFFFD

theorem utf8Text_utf8Encode (run : Text) : utf8Text (run.flatMap String.utf8EncodeChar) = run := by
  have h : (run.flatMap String.utf8EncodeChar).toByteArray.utf8Decode? = some run.toArray :=
    List.utf8Decode?_utf8Encode
  rw [utf8Text, h]

theorem length_le_flatMap (cs : Text) : cs.length ≤ (cs.flatMap String.utf8EncodeChar).length := by
  induction cs with
  | nil => exact le_rfl
  | cons c cs ih =>
    have hpos := c.utf8Size_pos
    rw [List.flatMap_cons, List.length_append, String.length_utf8EncodeChar, List.length_cons]
    omega

theorem length_utf8Text_le (bs : List UInt8) : (utf8Text bs).length ≤ bs.length := by
  unfold utf8Text
  split
  · next cs h =>
    have hbytes : cs.toList.utf8Encode = bs.toByteArray := by
      have hsome : bs.toByteArray.utf8Decode?.isSome := by rw [h]; rfl
      have hget := ByteArray.utf8Encode_get_utf8Decode? (h := hsome)
      simpa [h] using hget
    have hsize : (cs.toList.flatMap String.utf8EncodeChar).length = bs.length := by
      rw [← List.size_toByteArray, ← List.size_toByteArray]
      exact congrArg ByteArray.size hbytes
    rw [← hsize]
    exact length_le_flatMap _
  · simp

def utf8 : Codec where
  bytes := fun run => run.flatMap String.utf8EncodeChar
  text := utf8Text
  bytes_nil := rfl
  text_bytes := utf8Text_utf8Encode
  length_text_le := length_utf8Text_le

end Rubbos.Core.Urlencoded
