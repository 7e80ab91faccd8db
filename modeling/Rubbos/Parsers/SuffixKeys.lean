/-
Keys that end other keys (`CJDBCparser.cpp`, `Apacheparser.cpp`).

"ST(nano)=" is the end of "DBST(nano)=", "ET(nano)=" of "DBET(nano)=", and so are "ST(us)=" and "ET(us)=" of "TCST(us)=" and
"TCET(us)=". The parsers look for all of them with `strstr`, which finds the shorter key in the longer one as well: which of the two
fields is read depends on which comes first.

- `reads_iff`: what a field function returns.
- `first_of_two`: the first occurrence of a key that occurs in two fields.
- `own_values_iff`: when the four functions of a tool return the values of their own fields.

Counterexample: `inner_start_first`.
-/
import Rubbos.Core.Occurrences
import Rubbos.Parsers.Apacheparser
import Rubbos.Parsers.CJDBCparser

namespace Rubbos.Parsers.SuffixKeys

open Rubbos.Core CLib

/-! ## Lines -/

inductive Tool where
  | cjdbc
  | apache
deriving DecidableEq, Repr

def Tool.innerStartKey : Tool → Text
  | .cjdbc => CJDBCparser.dbstKey
  | .apache => Apacheparser.tcstKey

def Tool.innerEndKey : Tool → Text
  | .cjdbc => CJDBCparser.dbetKey
  | .apache => Apacheparser.tcetKey

def Tool.startKey : Tool → Text
  | .cjdbc => CJDBCparser.stKey
  | .apache => Apacheparser.stKey

def Tool.endKey : Tool → Text
  | .cjdbc => CJDBCparser.etKey
  | .apache => Apacheparser.etKey

/-- the field long occurs once, and the field short once besides: behind them are the texts tLong and tShort -/
structure OnceEach (long short line tLong tShort : Text) : Prop where
  long : Occurs long line [tLong]
  short : Occurs short line [tShort, tLong] ∨ Occurs short line [tLong, tShort]

/-- a line with each of the four fields once, in any order -/
structure Line (tool : Tool) where
  text : Text
  noNul : NUL ∉ text
  innerStart : Text
  innerEnd : Text
  start : Text
  stop : Text
  starts : OnceEach tool.innerStartKey tool.startKey text innerStart start
  ends : OnceEach tool.innerEndKey tool.endKey text innerEnd stop

/-- the value of a field -/
def value (t : Text) : Text := t.takeWhile fun c => !isSpace c

/-- a field function finds its key and leaves the value in its buffer -/
def Returns (get : Text → TimeBuf → Option (Bool × TimeBuf)) (line v : Text) : Prop :=
  ∀ b, ∃ b', get line b = some (true, b') ∧ cstr b' = some v

def Tool.getInnerStart : Tool → Text → TimeBuf → Option (Bool × TimeBuf)
  | .cjdbc => CJDBCparser.getDBST
  | .apache => Apacheparser.getTCST

def Tool.getInnerEnd : Tool → Text → TimeBuf → Option (Bool × TimeBuf)
  | .cjdbc => CJDBCparser.getDBET
  | .apache => Apacheparser.getTCET

def Tool.getStart : Tool → Text → TimeBuf → Option (Bool × TimeBuf)
  | .cjdbc => CJDBCparser.getST
  | .apache => Apacheparser.getST

def Tool.getEnd : Tool → Text → TimeBuf → Option (Bool × TimeBuf)
  | .cjdbc => CJDBCparser.getET
  | .apache => Apacheparser.getET

/-- every function returns the value of its own field -/
structure OwnValues {tool : Tool} (l : Line tool) : Prop where
  innerStart : Returns tool.getInnerStart l.text (value l.innerStart)
  innerEnd : Returns tool.getInnerEnd l.text (value l.innerEnd)
  start : Returns tool.getStart l.text (value l.start)
  stop : Returns tool.getEnd l.text (value l.stop)

/-- "%s" reads the value, and it fits -/
def Reads (t v : Text) : Prop := (scanWord t).getD [] = v ∧ v.length < max_timestamp_length

instance (t v : Text) : Decidable (Reads t v) := inferInstanceAs (Decidable (_ ∧ _))

/-- the one that comes first -/
def first (tLong tShort : Text) : Text := if tLong.length < tShort.length then tShort else tLong

/-! ## Fields -/

variable {key line t v tLong tShort long short : Text}

theorem cstr_memset0 (b : TimeBuf) : cstr (memset0 8 b) = some [] := by
  have hbytes : (memset0 8 b).bytes = some NUL :: (List.replicate 7 (some NUL) ++ b.bytes.drop 8) := rfl
  simp [cstr, hbytes, stringOf]

theorem mem_of_scanWord {w : Text} (h : scanWord t = some w) {c : Char} (hc : c ∈ w) : c ∈ t := by
  unfold scanWord at h
  split at h
  · cases h
  · next c' t' ht =>
    cases h
    have hmem := (List.takeWhile_prefix _).subset hc
    rw [← ht] at hmem
    exact (List.dropWhile_suffix _).subset hmem

/-- **What a field function returns**: the word behind the first occurrence of its key. -/
theorem reads_iff (h0 : NUL ∉ t) (hfirst : strstr key line = some (key ++ t)) : Returns (getField key) line v ↔ Reads t v := by
  unfold Returns Reads
  simp only [getField, hfirst, List.drop_left, sscanf]
  cases hword : scanWord t with
  | none =>
    simp only [Option.map_some, Option.some.injEq, Prod.mk.injEq, true_and, exists_eq_left', cstr_memset0, Option.getD_none]
    constructor
    · intro h
      have := h (uninit _)
      subst this
      exact ⟨rfl, by decide⟩
    · rintro ⟨rfl, -⟩ b
      rfl
  | some w =>
    have hw0 : NUL ∉ w := fun h => h0 (mem_of_scanWord hword h)
    simp only [Option.getD_some, Option.map_eq_some_iff, Prod.mk.injEq, true_and, exists_eq_right]
    constructor
    · intro h
      obtain ⟨b', hstore, hvalue⟩ := h (uninit _)
      have hlen : w.length < max_timestamp_length := by
        by_contra hlen
        rw [store, dif_neg hlen] at hstore
        cases hstore
      rw [cstr_store hw0 hstore] at hvalue
      obtain rfl := Option.some.inj hvalue
      exact ⟨rfl, hlen⟩
    · rintro ⟨rfl, hlen⟩ b
      exact store_some hlen hw0

theorem strstr_of_occurs {ts : List Text} (h : Occurs key line (t :: ts)) : strstr key line = some (key ++ t) := by
  cases h with
  | @cons s t ts hfind ht => rw [strstr, hfind, Option.map_some, List.drop_left]

theorem length_lt_of_occurs {a b : Text} (hkey : key ≠ []) (h : Occurs key line [a, b]) : b.length < a.length := by
  cases h with
  | @cons s t ts hfind ht =>
    cases ht with
    | @cons s' t' ts' hfind' ht' =>
      have := List.length_pos_of_ne_nil hkey
      simp only [List.length_append]
      omega

/-- **The first occurrence** of a key that occurs in two fields. -/
theorem first_of_two (hkey : short ≠ []) (h : OnceEach long short line tLong tShort) :
    strstr short line = some (short ++ first tLong tShort) ∧ first tLong tShort <:+ line := by
  rcases h.short with hts | hts
  · have hfirst : first tLong tShort = tShort := if_pos (length_lt_of_occurs hkey hts)
    rw [hfirst]
    exact ⟨strstr_of_occurs hts, hts.suffix List.mem_cons_self⟩
  · have hfirst : first tLong tShort = tLong := if_neg (length_lt_of_occurs hkey hts).not_gt
    rw [hfirst]
    exact ⟨strstr_of_occurs hts, hts.suffix List.mem_cons_self⟩

/-- the two functions of a pair of keys -/
theorem pair_iff (getLong getShort : Text → TimeBuf → Option (Bool × TimeBuf)) (hkey : short ≠ [])
    (hlong : getLong = getField long) (hshort : getShort = getField short) (h0 : NUL ∉ line)
    (h : OnceEach long short line tLong tShort) :
    (Returns getLong line (value tLong) ↔ Reads tLong (value tLong)) ∧
      (Returns getShort line (value tShort) ↔ Reads (first tLong tShort) (value tShort)) := by
  obtain ⟨hfirst, hsuffix⟩ := first_of_two hkey h
  have hLong0 : NUL ∉ tLong := fun hmem => h0 ((h.long.suffix List.mem_cons_self).subset hmem)
  have hFirst0 : NUL ∉ first tLong tShort := fun hmem => h0 (hsuffix.subset hmem)
  rw [hlong, hshort]
  exact ⟨reads_iff hLong0 (strstr_of_occurs h.long), reads_iff hFirst0 hfirst⟩

/-- **The values of the own fields** are returned exactly if they are what is read behind the first occurrence of each key. -/
theorem own_values_iff {tool : Tool} (l : Line tool) : OwnValues l ↔
    (Reads l.innerStart (value l.innerStart) ∧ Reads (first l.innerStart l.start) (value l.start)) ∧
      Reads l.innerEnd (value l.innerEnd) ∧ Reads (first l.innerEnd l.stop) (value l.stop) := by
  obtain ⟨hinnerStart, hstart⟩ : _ ∧ _ := pair_iff tool.getInnerStart tool.getStart
    (by cases tool <;> decide) (by cases tool <;> rfl) (by cases tool <;> rfl) l.noNul l.starts
  obtain ⟨hinnerEnd, hstop⟩ : _ ∧ _ := pair_iff tool.getInnerEnd tool.getEnd
    (by cases tool <;> decide) (by cases tool <;> rfl) (by cases tool <;> rfl) l.noNul l.ends
  rw [← hinnerStart, ← hstart, ← hinnerEnd, ← hstop]
  constructor
  · intro h
    exact ⟨⟨h.innerStart, h.start⟩, h.innerEnd, h.stop⟩
  · rintro ⟨⟨h₁, h₂⟩, h₃, h₄⟩
    exact ⟨h₁, h₃, h₂, h₄⟩

/-- where a key is, and what is behind it -/
theorem occurs_at {s : Text} {ts : List Text} (hline : line = s ++ (key ++ t)) (hfind : find key line = some s.length)
    (h : Occurs key t ts) : Occurs key line (t :: ts) := by
  subst hline
  exact .cons hfind h

/-- a line of the controller with the times of the database first -/
def innerFirst : Line .cjdbc where
  text := "DBST(nano)=20 DBET(nano)=40 ST(nano)=10 ET(nano)=50\n".toList
  noNul := by decide
  innerStart := "20 DBET(nano)=40 ST(nano)=10 ET(nano)=50\n".toList
  innerEnd := "40 ST(nano)=10 ET(nano)=50\n".toList
  start := "10 ET(nano)=50\n".toList
  stop := "50\n".toList
  starts := {
    long := occurs_at (s := []) (by decide) (by decide) (.none (by decide))
    short := .inr (occurs_at (s := "DB".toList) (by decide) (by decide)
      (occurs_at (s := "20 DBET(nano)=40 ".toList) (by decide) (by decide) (.none (by decide)))) }
  ends := {
    long := occurs_at (s := "DBST(nano)=20 ".toList) (by decide) (by decide) (.none (by decide))
    short := .inr (occurs_at (s := "DBST(nano)=20 DB".toList) (by decide) (by decide)
      (occurs_at (s := "40 ST(nano)=10 ".toList) (by decide) (by decide) (.none (by decide)))) }

/-- **The start** of the request is read from the field of the database. -/
theorem inner_start_first : ¬ OwnValues innerFirst := by
  intro h
  have hpair := (pair_iff CJDBCparser.getDBST CJDBCparser.getST (by decide) rfl rfl innerFirst.noNul innerFirst.starts).2
  exact absurd (hpair.1 h.start) (by decide)

end Rubbos.Parsers.SuffixKeys
