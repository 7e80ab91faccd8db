/-
LogFormat strings (`parse_log_string` of mod_log_config.c).

A format is literal text and directives "%...": modifiers in any order and number, then the tag of a handler. `unparse` writes the
items of a format as a format string, in one order and with every modifier that matters.

- `parse_unparse`, `formed_of_parse`: parsing gives formed items, and formed items are read back from what `unparse` writes.
- `parseLogString_iff`: the items that some format has, and those that are read back from what is written of them.
-/
import Mathlib.Data.List.TakeWhile
import Rubbos.Core.Text

namespace Rubbos.Httpd.LogFormat

open Rubbos.Core

/-! ## Model -/

/-- a tag of one character is none of those that `parse_log_item` takes for a modifier -/
def isTagChar (c : Char) : Bool := c ∉ ['!', '<', '>', ',', '{', '}', '^'] && !c.isDigit

def isTag : Text → Bool
  | [c] => isTagChar c
  | ['^', _, _] => true
  | _ => false

/-- `log_hash`: the tags of the handlers, with want_orig_default -/
structure LogHash where
  entries : List (Text × Bool)
  tags : ∀ e ∈ entries, isTag e.1

def LogHash.get (hash : LogHash) (tag : Text) : Option Bool := (hash.entries.find? fun e => e.1 = tag).map Prod.snd

/-- `func` of an item -/
inductive Func where
  | constantItem
  | handler (tag : Text)
deriving DecidableEq, Repr

/-- `log_format_item` -/
structure LogFormatItem where
  func : Func
  arg : Text
  conditionSense : Bool
  wantOrig : Bool
  conditions : List ℕ
deriving DecidableEq, Repr

/-- an item that writes its text; the other fields are not read -/
def constant (arg : Text) : LogFormatItem := ⟨.constantItem, arg, false, false, []⟩

/-- what stands behind a backslash; one that is no escape is copied verbatim -/
def unescape : Text → Char × Text
  | '\\' :: s => ('\\', s)
  | 'r' :: s => ('\r', s)
  | 'n' :: s => ('\n', s)
  | 't' :: s => ('\t', s)
  | s => ('\\', s)

/-- a character of literal text -/
def miscChar (c : Char) (s : Text) : Char × Text := if c = '\\' then unescape s else (c, s)

theorem miscChar_length (c : Char) (s : Text) : (miscChar c s).2.length ≤ s.length := by
  unfold miscChar unescape
  split_ifs
  · split <;> simp
  · exact le_refl _

/-- `parse_log_misc_string`: the text up to a '%', and the rest -/
def parseLogMiscString : Text → Text × Text
  | [] => ([], [])
  | c :: s =>
    if c = '%' then ([], c :: s)
    else
      let r := parseLogMiscString (miscChar c s).2
      ((miscChar c s).1 :: r.1, r.2)
termination_by s => s.length
decreasing_by exact Nat.lt_succ_of_le (miscChar_length c s)

/-- `ap_getword`: all stops behind the word are skipped -/
def apGetword (line : Text) (stop : Char) : Text × Text :=
  (line.takeWhile (· ≠ stop), (line.dropWhile (· ≠ stop)).dropWhile (· = stop))

/-- why there are no items; overflow is that of a condition, which is undefined in C -/
inductive ParseError where
  | message (err : Text)
  | overflow
deriving DecidableEq, Repr

/-- what the modifiers of a directive have set; want_orig is -1 in the beginning -/
structure Args where
  conditionSense : Bool
  wantOrig : Option Bool
  arg : Text
  conditions : List ℕ

/-- the handler that a directive ends with: a tag '^' with two characters is looked for first -/
def findHandler (hash : LogHash) (c : Char) (s : Text) : Option (Text × Bool × Text) :=
  let short := (hash.get [c]).map fun d => ([c], d, s)
  match c, s with
  | '^', a :: b :: s' =>
    match hash.get ['^', a, b] with
    | some d => some (['^', a, b], d, s')
    | none => short
  | _, _ => short

theorem length_dropWhile_le {α : Type} (p : α → Bool) (l : List α) : (l.dropWhile p).length ≤ l.length :=
  (List.dropWhile_sublist p).length_le

/-- `parse_log_item` behind the '%' -/
def parseArgs (hash : LogHash) (it : Args) : Text → Except ParseError (LogFormatItem × Text)
  | [] => .error (.message "Ran off end of LogFormat parsing args to some directive".toList)
  | c :: s =>
    if c = '!' then parseArgs hash { it with conditionSense := !it.conditionSense } s
    else if c = '<' then parseArgs hash { it with wantOrig := some true } s
    else if c = '>' then parseArgs hash { it with wantOrig := some false } s
    else if c = ',' then parseArgs hash it s
    else if c = '{' then parseArgs hash { it with arg := (apGetword s '}').1 } (apGetword s '}').2
    else if c.isDigit then
      let i := digits (c :: s.takeWhile Char.isDigit)
      if i < 2 ^ 31 then parseArgs hash { it with conditions := it.conditions ++ [i] } (s.dropWhile Char.isDigit)
      else .error .overflow
    else
      match findHandler hash c s with
      | some (tag, wantOrigDefault, s) =>
        .ok (⟨.handler tag, it.arg, it.conditionSense, it.wantOrig.getD wantOrigDefault, it.conditions⟩, s)
      | none => .error (.message ("Unrecognized LogFormat directive %".toList ++ [c]))
termination_by s => s.length
decreasing_by
  all_goals simp only [List.length_cons, apGetword]
  all_goals first
    | omega
    | exact Nat.lt_succ_of_le (length_dropWhile_le _ _)
    | exact Nat.lt_succ_of_le ((length_dropWhile_le _ _).trans (length_dropWhile_le _ _))

/-- `parse_log_item` -/
def parseLogItem (hash : LogHash) : Text → Except ParseError (LogFormatItem × Text)
  | '%' :: '%' :: s => .ok (constant ['%'], s)
  | '%' :: s => parseArgs hash ⟨false, none, [], []⟩ s
  | s => .ok (constant (parseLogMiscString s).1, (parseLogMiscString s).2)

section

variable {hash : LogHash} {item : LogFormatItem} {it : Args} {s rest : Text} {c : Char}

theorem findHandler_length {r : Text × Bool × Text} (h : findHandler hash c s = some r) : r.2.2.length ≤ s.length := by
  have hshort : ∀ {r : Text × Bool × Text}, ((hash.get [c]).map fun d => ([c], d, s)) = some r → r.2.2.length ≤ s.length := by
    intro r hr
    obtain ⟨d, -, rfl⟩ := Option.map_eq_some_iff.1 hr
    exact le_refl _
  unfold findHandler at h
  simp only at h
  split at h
  · split at h
    · cases h
      simp only [List.length_cons]
      omega
    · exact hshort h
  · exact hshort h

theorem parseArgs_length (h : parseArgs hash it s = .ok (item, rest)) : rest.length < s.length := by
  fun_induction parseArgs hash it s with
  | case1 => cases h
  | case2 it s ih => exact (ih h).trans (Nat.lt_succ_self _)
  | case3 it s _ ih => exact (ih h).trans (Nat.lt_succ_self _)
  | case4 it s _ _ ih => exact (ih h).trans (Nat.lt_succ_self _)
  | case5 it s _ _ _ ih => exact (ih h).trans (Nat.lt_succ_self _)
  | case6 it s _ _ _ _ ih =>
    exact (ih h).trans_le (((length_dropWhile_le _ _).trans (length_dropWhile_le _ _)).trans (Nat.le_succ _))
  | case7 it c s _ _ _ _ _ _ _ _ ih => exact (ih h).trans_le ((length_dropWhile_le _ _).trans (Nat.le_succ _))
  | case8 => cases h
  | case9 it c s _ _ _ _ _ _ tag d s' hfind =>
    cases h
    exact Nat.lt_succ_of_le (findHandler_length hfind)
  | case10 => cases h

theorem parseLogMiscString_length (s : Text) : (parseLogMiscString s).2.length ≤ s.length := by
  fun_induction parseLogMiscString s with
  | case1 => exact le_refl _
  | case2 => exact le_refl _
  | case3 c s _ r ih => exact (ih.trans (miscChar_length c s)).trans (Nat.le_succ _)

theorem parseLogItem_length (hs : s ≠ []) (h : parseLogItem hash s = .ok (item, rest)) : rest.length < s.length := by
  unfold parseLogItem at h
  split at h
  · cases h
    simp only [List.length_cons]
    omega
  · have := parseArgs_length h
    simp only [List.length_cons]
    omega
  · rename_i hne
    cases h
    cases s with
    | nil => exact absurd rfl hs
    | cons c s =>
      have hc : ¬ c = '%' := fun hc => hne s (by rw [hc])
      unfold parseLogMiscString
      rw [if_neg hc]
      exact Nat.lt_succ_of_le ((parseLogMiscString_length _).trans (miscChar_length c s))

end

/-- `parse_log_string`; the record ends with APR_EOL_STR -/
def parseLogString (hash : LogHash) (s : Text) : Except ParseError (List LogFormatItem) :=
  if _hs : s = [] then .ok [constant ['\n']]
  else
    match _h : parseLogItem hash s with
    | .error err => .error err
    | .ok (item, rest) => (parseLogString hash rest).map (item :: ·)
termination_by s.length
decreasing_by exact parseLogItem_length _hs _h

/-! ## Writing a format -/

/-- text in which no character starts an escape -/
def escapeText (t : Text) : Text := t.flatMap fun c => if c = '\\' then ['\\', '\\'] else [c]

def unparseConditions (conditions : List ℕ) : Text := conditions.flatMap fun n => natText n ++ [',']

/-- a directive behind its '%' -/
def directiveText (item : LogFormatItem) (tag : Text) : Text :=
  (if item.conditionSense then ['!'] else []) ++ unparseConditions item.conditions ++
    [if item.wantOrig then '<' else '>'] ++ (if item.arg = [] then [] else '{' :: item.arg ++ ['}']) ++ tag

/-- an item as a format string -/
def unparseItem (item : LogFormatItem) : Text :=
  match item.func with
  | .constantItem => if item.arg = ['%'] then ['%', '%'] else escapeText item.arg
  | .handler tag =>
    '%' :: directiveText item tag

def unparse (items : List LogFormatItem) : Text := (items.map unparseItem).flatten

/-- literal text, not a '%' -/
def isLiteral (item : LogFormatItem) : Bool := item.func = .constantItem && item.arg ≠ ['%']

/-- what an item of a format can be -/
structure FormedItem (hash : LogHash) (item : LogFormatItem) : Prop where
  literal : isLiteral item → item = constant item.arg ∧ item.arg ≠ [] ∧ '%' ∉ item.arg
  percent : item.func = .constantItem → ¬ isLiteral item → item = constant ['%']
  directive : ∀ tag, item.func = .handler tag → (hash.get tag).isSome ∧ '}' ∉ item.arg ∧ ∀ n ∈ item.conditions, n < 2 ^ 31

/-- formed items, with a directive or a '%' between literal texts -/
structure Formed (hash : LogHash) (items : List LogFormatItem) : Prop where
  each : ∀ item ∈ items, FormedItem hash item
  alternate : items.IsChain fun a b => ¬ (isLiteral a ∧ isLiteral b)

section

variable {hash : LogHash} {item : LogFormatItem} {items : List LogFormatItem} {it : Args} {s rest tag : Text} {c : Char} {d : Bool}

/-- where literal text ends -/
def EndsText (rest : Text) : Prop := ∀ c ∈ rest.head?, c = '%'

theorem parseLogMiscString_escape (hrest : EndsText rest) {t : Text} (ht : '%' ∉ t) :
    parseLogMiscString (escapeText t ++ rest) = (t, rest) := by
  induction t with
  | nil =>
    cases rest with
    | nil => simp [escapeText, parseLogMiscString]
    | cons c rest =>
      obtain rfl := hrest c rfl
      simp [escapeText, parseLogMiscString]
  | cons c t ih =>
    have ht' := ih fun h => ht (List.mem_cons_of_mem _ h)
    have hc : ¬ c = '%' := fun h => ht (h ▸ List.mem_cons_self)
    have hchar : ∃ u, escapeText (c :: t) ++ rest = c :: u ∧ miscChar c u = (c, escapeText t ++ rest) := by
      by_cases hb : c = '\\'
      · exact ⟨'\\' :: (escapeText t ++ rest), by simp [escapeText, hb], by simp [miscChar, hb, unescape]⟩
      · exact ⟨escapeText t ++ rest, by simp [escapeText, hb], by simp [miscChar, hb]⟩
    obtain ⟨u, hu, hmisc⟩ := hchar
    rw [hu, parseLogMiscString, if_neg hc, hmisc, ht']

theorem isDigit_ne (h : c.isDigit) : c ≠ '!' ∧ c ≠ '<' ∧ c ≠ '>' ∧ c ≠ ',' ∧ c ≠ '{' := by
  refine ⟨?_, ?_, ?_, ?_, ?_⟩ <;> rintro rfl <;> exact absurd h (by decide)

theorem parseArgs_digits (h : c.isDigit) (hint : digits (c :: s.takeWhile Char.isDigit) < 2 ^ 31) :
    parseArgs hash it (c :: s) =
      parseArgs hash { it with conditions := it.conditions ++ [digits (c :: s.takeWhile Char.isDigit)] }
        (s.dropWhile Char.isDigit) := by
  obtain ⟨h₁, h₂, h₃, h₄, h₅⟩ := isDigit_ne h
  conv_lhs => rw [parseArgs]
  simp only [h₁, h₂, h₃, h₄, h₅, h, hint, if_true, if_false]

/-- the numbers of a directive -/
theorem parseArgs_conditions {ns : List ℕ} (hns : ∀ n ∈ ns, n < 2 ^ 31) : parseArgs hash it (unparseConditions ns ++ s) =
    parseArgs hash { it with conditions := it.conditions ++ ns } s := by
  induction ns generalizing it with
  | nil => simp [unparseConditions]
  | cons n ns ih =>
    obtain ⟨c, ds, hnat⟩ := List.exists_cons_of_ne_nil (natText_ne_nil n)
    have hc : c.isDigit := isDigit_of_mem_natText (hnat ▸ List.mem_cons_self)
    have hds : ∀ x ∈ ds, x.isDigit := fun x hx => isDigit_of_mem_natText (n := n) (hnat ▸ List.mem_cons_of_mem _ hx)
    have hsplit : unparseConditions (n :: ns) ++ s = c :: (ds ++ ',' :: (unparseConditions ns ++ s)) := by
      simp [unparseConditions, hnat]
    have htake : (ds ++ ',' :: (unparseConditions ns ++ s)).takeWhile Char.isDigit = ds := by
      rw [List.takeWhile_append_of_pos hds]
      simp
    have hdrop : (ds ++ ',' :: (unparseConditions ns ++ s)).dropWhile Char.isDigit = ',' :: (unparseConditions ns ++ s) := by
      rw [List.dropWhile_append_of_pos hds]
      simp
    have hdigits : digits (c :: ds) = n := by rw [← hnat, digits_natText]
    rw [hsplit, parseArgs_digits hc (by rw [htake, hdigits]; exact hns n List.mem_cons_self), htake, hdrop, hdigits, parseArgs]
    simp only [Char.reduceEq, if_false, if_true]
    rw [ih fun m hm => hns m (List.mem_cons_of_mem _ hm), List.append_assoc, List.singleton_append]

theorem tag_of_get (h : hash.get tag = some d) : isTag tag := by
  obtain ⟨e, he, -⟩ := Option.map_eq_some_iff.1 h
  have htag : e.1 = tag := by simpa using List.find?_some he
  exact htag ▸ hash.tags e (List.mem_of_find?_eq_some he)

/-- the tag at the end of a directive -/
theorem parseArgs_tag (h : hash.get tag = some d) : parseArgs hash it (tag ++ rest) =
    .ok (⟨.handler tag, it.arg, it.conditionSense, it.wantOrig.getD d, it.conditions⟩, rest) := by
  have htag := tag_of_get h
  unfold isTag at htag
  split at htag
  · rename_i c
    simp only [isTagChar, List.mem_cons, List.not_mem_nil, or_false, not_or, Bool.and_eq_true, decide_eq_true_eq,
      Bool.not_eq_true'] at htag
    obtain ⟨⟨h₁, h₂, h₃, h₄, h₅, -, h₇⟩, hdigit⟩ := htag
    have hfind : findHandler hash c rest = some ([c], d, rest) := by
      unfold findHandler
      simp only
      split
      · exact absurd rfl h₇
      · rw [h]
        rfl
    rw [List.singleton_append, parseArgs, if_neg h₁, if_neg h₂, if_neg h₃, if_neg h₄, if_neg h₅, if_neg (by simp [hdigit]),
      hfind]
  · rename_i a b
    have hfind : findHandler hash '^' (a :: b :: rest) = some (['^', a, b], d, rest) := by
      simp only [findHandler, h]
    simp only [List.cons_append, List.nil_append]
    rw [parseArgs, hfind]
    simp
  · exact absurd htag (by decide)

theorem exists_cons_of_isTag (h : isTag tag) : ∃ c t, tag = c :: t ∧ c ≠ '}' := by
  unfold isTag at h
  split at h
  · rename_i c
    refine ⟨c, [], rfl, ?_⟩
    rintro rfl
    exact absurd h (by decide)
  · exact ⟨'^', _, rfl, by decide⟩
  · exact absurd h (by decide)

theorem apGetword_arg {arg : Text} (harg : '}' ∉ arg) (htag : isTag tag) :
    apGetword (arg ++ '}' :: (tag ++ rest)) '}' = (arg, tag ++ rest) := by
  have hword : ∀ c ∈ arg, decide (c ≠ '}') = true := by
    intro c hc
    simpa using fun h : c = '}' => harg (h ▸ hc)
  obtain ⟨c, t, rfl, hc⟩ := exists_cons_of_isTag htag
  unfold apGetword
  rw [List.takeWhile_append_of_pos hword, List.dropWhile_append_of_pos hword]
  simp [hc]

theorem parseLogItem_percent (hs : ∀ c ∈ s.head?, c ≠ '%') : parseLogItem hash ('%' :: s) = parseArgs hash ⟨false, none, [], []⟩ s := by
  unfold parseLogItem
  split
  · rename_i h
    cases h
    exact absurd rfl (hs '%' rfl)
  · rename_i h
    cases h
    rfl
  · rename_i h
    exact absurd rfl (h s)

theorem directiveText_head (c : Char) (hc : c ∈ (directiveText item tag ++ rest).head?) : c ≠ '%' := by
  rintro rfl
  obtain ⟨func, arg, sense, want, conditions⟩ := item
  cases sense with
  | true => simp [directiveText] at hc
  | false =>
    cases conditions with
    | nil => cases want <;> simp [directiveText, unparseConditions] at hc
    | cons n ns =>
      obtain ⟨c, ds, hnat⟩ := List.exists_cons_of_ne_nil (natText_ne_nil n)
      have hdigit : c.isDigit := isDigit_of_mem_natText (hnat ▸ List.mem_cons_self)
      have hc : c = '%' := by simpa [directiveText, unparseConditions, hnat] using hc
      exact absurd hdigit (by rw [hc]; decide)

/-- the modifiers of a directive are read in the order in which they are written -/
theorem parseLogItem_directive (h : hash.get tag = some d) (hfunc : item.func = .handler tag) (harg : '}' ∉ item.arg)
    (hns : ∀ n ∈ item.conditions, n < 2 ^ 31) : parseLogItem hash (unparseItem item ++ rest) = .ok (item, rest) := by
  have hitem : unparseItem item ++ rest = '%' :: (directiveText item tag ++ rest) := by simp [unparseItem, hfunc]
  rw [hitem, parseLogItem_percent directiveText_head]
  obtain ⟨func, arg, sense, want, conditions⟩ := item
  simp only at harg hfunc hns
  subst hfunc
  have hsense : ∀ s, parseArgs hash ⟨false, none, [], []⟩ ((if sense then ['!'] else []) ++ s) =
      parseArgs hash ⟨sense, none, [], []⟩ s := by
    intro s
    cases sense with
    | false => rfl
    | true =>
      simp only [if_true, List.singleton_append]
      rw [parseArgs]
      simp
  have hwant : ∀ it s, parseArgs hash it ((if want then '<' else '>') :: s) = parseArgs hash { it with wantOrig := some want } s := by
    intro it s
    cases want <;> simp [parseArgs]
  have hbraces : ∀ it : Args, it.arg = [] →
      parseArgs hash it ((if arg = [] then [] else '{' :: arg ++ ['}']) ++ (tag ++ rest)) =
        parseArgs hash { it with arg } (tag ++ rest) := by
    intro it hempty
    split_ifs with hnil
    · obtain ⟨_, _, _, _⟩ := it
      simp only at hempty
      subst hempty hnil
      rfl
    · have hcons : '{' :: arg ++ ['}'] ++ (tag ++ rest) = '{' :: (arg ++ '}' :: (tag ++ rest)) := by simp
      rw [hcons, parseArgs, apGetword_arg harg (tag_of_get h)]
      simp
  have hparts : directiveText ⟨.handler tag, arg, sense, want, conditions⟩ tag ++ rest = (if sense then ['!'] else []) ++
      (unparseConditions conditions ++ (if want then '<' else '>') ::
        ((if arg = [] then [] else '{' :: arg ++ ['}']) ++ (tag ++ rest))) := by
    simp [directiveText]
  rw [hparts, hsense, parseArgs_conditions hns, hwant, hbraces _ rfl, parseArgs_tag h]
  rfl

theorem escapeText_cons (t : Text) (c : Char) : ∃ u, escapeText (c :: t) = c :: u := by
  by_cases hb : c = '\\'
  · exact ⟨'\\' :: escapeText t, by simp [escapeText, hb]⟩
  · exact ⟨escapeText t, by simp [escapeText, hb]⟩

theorem parseLogItem_literal {t : Text} (hnil : t ≠ []) (ht : '%' ∉ t) (hrest : EndsText rest) :
    parseLogItem hash (escapeText t ++ rest) = .ok (constant t, rest) := by
  have hmisc := parseLogMiscString_escape hrest ht
  obtain ⟨c, t, rfl⟩ := List.exists_cons_of_ne_nil hnil
  obtain ⟨u, hu⟩ := escapeText_cons t c
  have hc : c ≠ '%' := fun h => ht (h ▸ List.mem_cons_self)
  rw [hu, List.cons_append] at hmisc ⊢
  unfold parseLogItem
  split
  · rename_i h
    exact absurd (List.cons.inj h).1 hc
  · rename_i h
    exact absurd (List.cons.inj h).1 hc
  · rw [hmisc]

/-- an item that is formed is read back, before an item that is no literal text if it is literal text -/
theorem parseLogItem_unparse (h : FormedItem hash item) (hrest : isLiteral item → EndsText rest) :
    unparseItem item ≠ [] ∧ parseLogItem hash (unparseItem item ++ rest) = .ok (item, rest) := by
  cases hfunc : item.func with
  | handler tag =>
    obtain ⟨hget, harg, hns⟩ := h.directive tag hfunc
    obtain ⟨d, hd⟩ := Option.isSome_iff_exists.1 hget
    exact ⟨by simp [unparseItem, hfunc], parseLogItem_directive hd hfunc harg hns⟩
  | constantItem =>
    by_cases hlit : isLiteral item
    · obtain ⟨hconst, hnil, ht⟩ := h.literal hlit
      have harg : item.arg ≠ ['%'] := fun h => ht (h ▸ List.mem_singleton_self _)
      have hitem : unparseItem item = escapeText item.arg := by simp [unparseItem, hfunc, harg]
      rw [hitem, parseLogItem_literal hnil ht (hrest hlit), ← hconst]
      refine ⟨?_, rfl⟩
      obtain ⟨c, t, hct⟩ := List.exists_cons_of_ne_nil hnil
      obtain ⟨u, hu⟩ := escapeText_cons t c
      simp [hct, hu]
    · obtain rfl := h.percent hfunc hlit
      exact ⟨by simp [unparseItem, constant], by simp [unparseItem, constant, parseLogItem]⟩

theorem endsText_unparse (h : ∀ item ∈ items.head?, ¬ isLiteral item) : EndsText (unparse items) := by
  intro c hc
  cases items with
  | nil => simp [unparse] at hc
  | cons item items =>
    have hlit := h item rfl
    cases hfunc : item.func with
    | handler tag => simpa [unparse, unparseItem, hfunc, eq_comm] using hc
    | constantItem =>
      have harg : item.arg = ['%'] := by simpa [isLiteral, hfunc] using hlit
      simpa [unparse, unparseItem, hfunc, harg, eq_comm] using hc

/-- **What is written is read back.** -/
theorem parse_unparse (h : Formed hash items) : parseLogString hash (unparse items) = .ok (items ++ [constant ['\n']]) := by
  induction items with
  | nil => simp [unparse, parseLogString]
  | cons item items ih =>
    have htail : Formed hash items := ⟨fun i hi => h.each i (List.mem_cons_of_mem _ hi), h.alternate.tail⟩
    have hnext : isLiteral item → EndsText (unparse items) := by
      intro hlit
      refine endsText_unparse fun next hnext hnextlit => ?_
      exact (List.isChain_cons.1 h.alternate).1 next hnext ⟨hlit, hnextlit⟩
    obtain ⟨hne, hparse⟩ := parseLogItem_unparse (h.each item List.mem_cons_self) hnext
    have hcons : unparse (item :: items) = unparseItem item ++ unparse items := by simp [unparse]
    have hnil : unparseItem item ++ unparse items ≠ [] := List.append_ne_nil_of_left_ne_nil hne _
    rw [hcons, parseLogString, dif_neg hnil]
    split
    · rename_i h'
      cases h'.symm.trans hparse
    · rename_i h'
      cases h'.symm.trans hparse
      rw [ih htail]
      rfl

/-! ## What parsing gives -/

theorem parseLogMiscString_text (s : Text) : '%' ∉ (parseLogMiscString s).1 ∧ EndsText (parseLogMiscString s).2 := by
  fun_induction parseLogMiscString s with
  | case1 => exact ⟨by simp, by simp [EndsText]⟩
  | case2 s => exact ⟨by simp, by simp [EndsText]⟩
  | case3 c s hc r ih =>
    refine ⟨fun hmem => ?_, ih.2⟩
    obtain hmem | hmem := List.mem_cons.1 hmem
    · unfold miscChar unescape at hmem
      split_ifs at hmem with hb
      · split at hmem <;> simp at hmem
      · exact hc hmem.symm
    · exact ih.1 hmem

theorem takeWhile_stop {stop : Char} (line : Text) : stop ∉ (apGetword line stop).1 := by
  intro h
  simpa using List.mem_takeWhile_imp h

theorem findHandler_get {r : Text × Bool × Text} (h : findHandler hash c s = some r) : (hash.get r.1).isSome := by
  have hshort : ∀ {r : Text × Bool × Text}, ((hash.get [c]).map fun d => ([c], d, s)) = some r → (hash.get r.1).isSome := by
    intro r hr
    obtain ⟨d, hd, rfl⟩ := Option.map_eq_some_iff.1 hr
    simp [hd]
  unfold findHandler at h
  simp only at h
  split at h
  · split at h
    · rename_i hget
      cases h
      simp [hget]
    · exact hshort h
  · exact hshort h

theorem formedItem_directive {arg : Text} {sense want : Bool} {ns : List ℕ} (h : (hash.get tag).isSome) (harg : '}' ∉ arg)
    (hns : ∀ n ∈ ns, n < 2 ^ 31) : FormedItem hash ⟨.handler tag, arg, sense, want, ns⟩ := by
  refine ⟨fun hlit => ?_, fun hfunc => absurd hfunc (by simp), ?_⟩
  · simp [isLiteral] at hlit
  · rintro tag' ⟨⟩
    exact ⟨h, harg, hns⟩

theorem formed_of_parseArgs (harg : '}' ∉ it.arg) (hns : ∀ n ∈ it.conditions, n < 2 ^ 31)
    (h : parseArgs hash it s = .ok (item, rest)) : FormedItem hash item ∧ ¬ isLiteral item := by
  fun_induction parseArgs hash it s with
  | case1 => cases h
  | case2 it s ih => exact ih harg hns h
  | case3 it s _ ih => exact ih harg hns h
  | case4 it s _ _ ih => exact ih harg hns h
  | case5 it s _ _ _ ih => exact ih harg hns h
  | case6 it s _ _ _ _ ih => exact ih (takeWhile_stop s) hns h
  | case7 it c s _ _ _ _ _ _ i hi ih =>
    refine ih harg (fun n hn => ?_) h
    obtain hn | hn := List.mem_append.1 hn
    · exact hns n hn
    · rwa [List.mem_singleton.1 hn]
  | case8 => cases h
  | case9 it c s _ _ _ _ _ _ tag d s' hfind =>
    cases h
    exact ⟨formedItem_directive (findHandler_get hfind) harg hns, by simp [isLiteral]⟩
  | case10 => cases h

theorem formedItem_constant {t : Text} (h : t = ['%'] ∨ t ≠ [] ∧ '%' ∉ t) : FormedItem hash (constant t) := by
  refine ⟨fun hlit => ?_, fun _ hlit => ?_, fun tag hfunc => absurd hfunc (by simp [constant])⟩
  · obtain rfl | h := h
    · exact absurd hlit (by decide)
    · exact ⟨rfl, h⟩
  · obtain rfl | ⟨-, hper⟩ := h
    · rfl
    · refine absurd (?_ : isLiteral (constant t) = true) hlit
      have hne : t ≠ ['%'] := fun h => hper (h ▸ List.mem_singleton_self _)
      simp [isLiteral, constant, hne]

/-- what one item is; literal text ends where the next item starts, and none starts with '%' -/
theorem formed_of_parseLogItem (hs : s ≠ []) (h : parseLogItem hash s = .ok (item, rest)) :
    FormedItem hash item ∧ (isLiteral item → EndsText rest) ∧ (EndsText s → ¬ isLiteral item) := by
  unfold parseLogItem at h
  split at h
  · cases h
    exact ⟨formedItem_constant (.inl rfl), fun hlit => absurd hlit (by decide), fun _ => by decide⟩
  · obtain ⟨hformed, hlit⟩ := formed_of_parseArgs (by simp) (by simp) h
    exact ⟨hformed, fun h => absurd h hlit, fun _ => hlit⟩
  · rename_i hne
    cases h
    obtain ⟨c, s, rfl⟩ := List.exists_cons_of_ne_nil hs
    have hc : c ≠ '%' := fun hc => hne s (by rw [hc])
    obtain ⟨hper, hends⟩ := parseLogMiscString_text (c :: s)
    refine ⟨formedItem_constant (.inr ⟨?_, hper⟩), fun _ => hends, fun hstart => absurd (hstart c rfl) hc⟩
    rw [parseLogMiscString, if_neg hc]
    simp

theorem formed_of_parse (h : parseLogString hash s = .ok items) : ∃ body, Formed hash body ∧ items = body ++ [constant ['\n']] ∧
    (EndsText s → ∀ item ∈ body.head?, ¬ isLiteral item) := by
  fun_induction parseLogString hash s generalizing items with
  | case1 =>
    cases h
    exact ⟨[], ⟨by simp, List.isChain_nil⟩, rfl, by simp⟩
  | case2 => cases h
  | case3 s hs item rest hitem ih =>
    obtain ⟨tail, htail, rfl⟩ : ∃ tail, parseLogString hash rest = .ok tail ∧ item :: tail = items := by
      cases hrest : parseLogString hash rest with
      | error => rw [hrest] at h; cases h
      | ok tail => rw [hrest] at h; exact ⟨tail, rfl, Except.ok.inj h⟩
    obtain ⟨body, hformed, rfl, hhead⟩ := ih htail
    obtain ⟨hone, hends, hstart⟩ := formed_of_parseLogItem hs hitem
    refine ⟨item :: body, ⟨?_, ?_⟩, rfl, ?_⟩
    · exact List.forall_mem_cons.2 ⟨hone, hformed.each⟩
    · refine List.isChain_cons.2 ⟨fun next hnext hboth => ?_, hformed.alternate⟩
      exact hhead (hends hboth.1) next hnext hboth.2
    · intro hs' first hfirst
      cases hfirst
      exact hstart hs'

/-- **The formats.** The items that some format has are the formed ones and a newline, and no others; and it is exactly the formed
ones that are read back from what `unparse` writes of them. -/
theorem parseLogString_iff (hash : LogHash) :
    (∀ items, (∃ s, parseLogString hash s = .ok items) ↔ ∃ body, Formed hash body ∧ items = body ++ [constant ['\n']]) ∧
      ∀ body, Formed hash body ↔ parseLogString hash (unparse body) = .ok (body ++ [constant ['\n']]) := by
  constructor
  · intro items
    constructor
    · rintro ⟨s, h⟩
      obtain ⟨body, hformed, rfl, -⟩ := formed_of_parse h
      exact ⟨body, hformed, rfl⟩
    · rintro ⟨body, hformed, rfl⟩
      exact ⟨unparse body, parse_unparse hformed⟩
  · intro body
    constructor
    · exact parse_unparse
    · intro h
      obtain ⟨body', hformed, heq, -⟩ := formed_of_parse h
      rwa [List.append_cancel_right heq]

end

end Rubbos.Httpd.LogFormat
