/-
The HTML that the servlets print, as far as links to comments are concerned.

A page is a list of pieces. Each piece ends in a markup of the source: a literal that begins and ends with characters that
the class names of the comment servlets do not have, and that has none of these names in it. In front of the markup stands
nothing, a text from the database or the request, a number, or a class name: in a link, with the parameters behind it, or
alone, as the action of a form. A class name is always followed by a markup that begins with a quote.

Texts do not have these class names in them (`PlainText`), so that on a page they occur in the links and actions only.

- `occurs_render`: the occurrences of a class name on a page.
-/
import Rubbos.Core.JString
import Rubbos.Core.Occurrences

namespace Rubbos.Servlets.Html

open Rubbos.Core JString

/-! ## Pieces -/

/-- the servlets that the client looks for in links to comments -/
inductive CommentScript where
  | postComment
  | viewComment
  | moderateComment
deriving DecidableEq, Repr

def className : CommentScript → Text
  | .postComment => "edu.rice.rubbos.servlets.PostComment".toList
  | .viewComment => "edu.rice.rubbos.servlets.ViewComment".toList
  | .moderateComment => "edu.rice.rubbos.servlets.ModerateComment".toList

def allScripts : List CommentScript := [.postComment, .viewComment, .moderateComment]

/-- a character that no class name has -/
def isSeparator (c : Char) : Bool := allScripts.all fun s => c ∉ className s

/-- a literal of the source -/
def isMarkup (t : Text) : Bool :=
  t.head?.any isSeparator && t.getLast?.any isSeparator && allScripts.all fun s => ¬ className s <:+: t

structure Markup where
  text : Text
  isMarkup : isMarkup text = true

/-- a text without the class names -/
structure PlainText where
  text : Text
  plain : ∀ s, ¬ className s <:+: text

/-- the text of an int, as `new Integer(text)` reads it, in a sign and ASCII digits -/
structure IntText where
  text : Text
  value : ℤ
  parses : parseInt text = .ok value
  ascii : ∀ c ∈ text, c.isDigit ∨ c = '-' ∨ c = '+'

/-- a Java int -/
structure JInt where
  value : ℤ
  isInt : -2 ^ 31 ≤ value ∧ value < 2 ^ 31
deriving DecidableEq

theorem parseInt_longText {n : ℤ} (hn : -2 ^ 31 ≤ n ∧ n < 2 ^ 31) : parseInt (longText n) = .ok n := by
  have hdigits : ∀ c ∈ natText n.natAbs, c.isDigit := fun c hc => isDigit_of_mem_natText hc
  unfold longText
  by_cases hneg : n < 0
  · have habs : -(n.natAbs : ℤ) = n := by omega
    rw [if_pos hneg, parseInt_minus (natText_ne_nil _) hdigits (by rw [digits_natText]; omega), digits_natText, habs]
  · have habs : (n.natAbs : ℤ) = n := by omega
    rw [if_neg hneg, parseInt_digits (natText_ne_nil _) hdigits (by rw [digits_natText]; omega), digits_natText, habs]

theorem ascii_of_mem_longText {n : ℤ} {c : Char} (hc : c ∈ longText n) : c.isDigit ∨ c = '-' ∨ c = '+' := by
  have hnum := isNumChar_of_mem_longText hc
  simp only [isNumChar, Bool.or_eq_true, decide_eq_true_eq] at hnum
  exact hnum.imp_right .inl

/-- an int, printed -/
def JInt.printed (n : JInt) : IntText :=
  ⟨longText n.value, n.value, parseInt_longText n.isInt, fun _ => ascii_of_mem_longText⟩

/-- the characters at which the client ends a value -/
def delimiters : Text := ['"', '?', '&', '>']

/-- the name of a table -/
structure TableName where
  text : Text
  isName : ∀ c ∈ delimiters, c ∉ text
  plain : ∀ s, ¬ className s <:+: text

inductive Link where
  | postComment (comment_table : TableName) (storyId parent : IntText)
  | viewComment (comment_table : TableName) (storyId commentId filter display : IntText)
  | moderateComment (comment_table : TableName) (commentId : IntText)

def Link.script : Link → CommentScript
  | .postComment .. => .postComment
  | .viewComment .. => .viewComment
  | .moderateComment .. => .moderateComment

def tableKey : Text := "comment_table=".toList
def storyIdKey : Text := "storyId=".toList
def parentKey : Text := "parent=".toList
def commentIdKey : Text := "commentId=".toList
def filterKey : Text := "filter=".toList
def displayKey : Text := "display=".toList

/-- the parameters, behind the '?', separated by '&' -/
def Link.query : Link → Text
  | .postComment table storyId parent =>
    tableKey ++ (table.text ++ '&' :: (storyIdKey ++ (storyId.text ++ '&' :: (parentKey ++ parent.text))))
  | .viewComment table storyId commentId filter display =>
    tableKey ++ (table.text ++ '&' :: (storyIdKey ++ (storyId.text ++ '&' :: (commentIdKey ++ (commentId.text ++
      '&' :: (filterKey ++ (filter.text ++ '&' :: (displayKey ++ display.text))))))))
  | .moderateComment table commentId =>
    tableKey ++ (table.text ++ '&' :: (commentIdKey ++ commentId.text))

inductive Piece where
  | markup (m : Markup)
  | text (t : PlainText) (m : Markup)
  | number (n : ℤ) (m : Markup)
  | link (l : Link) (m : Markup) (quoted : m.text.head? = some '"')
  | action (s : CommentScript) (m : Markup) (quoted : m.text.head? = some '"')

def Piece.after : Piece → Markup
  | .markup m => m
  | .text _ m => m
  | .number _ m => m
  | .link _ m _ => m
  | .action _ m _ => m

/-- what stands in front of the markup -/
def Piece.front : Piece → Text
  | .markup _ => []
  | .text t _ => t.text
  | .number n _ => longText n
  | .link l _ _ => className l.script ++ '?' :: l.query
  | .action s _ _ => className s

/-- how a piece is printed -/
def print : Print Piece Char := ⟨Piece.front, fun p => p.after.text⟩

abbrev Doc := List Piece

def render (h : Doc) : Text := print.render h

/-- the references to a script, in order: a link, or the action of a form -/
def refs (s : CommentScript) (h : Doc) : List (Option Link) :=
  h.filterMap fun
    | .link l _ _ => if l.script = s then some (some l) else none
    | .action s' _ _ => if s' = s then some none else none
    | _ => none

/-- the links to a script -/
def links (s : CommentScript) (h : Doc) : List Link := (refs s h).filterMap id

/-- links and actions -/
def Piece.isRef : Piece → Bool
  | .link .. => true
  | .action .. => true
  | _ => false

def Piece.isAction : Piece → Bool
  | .action .. => true
  | _ => false

/-- a document without a kind of pieces -/
def Without (P : Piece → Bool) (d : Doc) : Prop := ∀ p ∈ d, P p = false

/-! ## References -/

section

variable {s : CommentScript} {P : Piece → Bool} {a b d : Doc} {p : Piece}

@[simp] theorem without_nil : Without P [] := by simp [Without]

@[simp] theorem without_cons : Without P (p :: d) ↔ P p = false ∧ Without P d := List.forall_mem_cons

@[simp] theorem without_append : Without P (a ++ b) ↔ Without P a ∧ Without P b := List.forall_mem_append

@[simp] theorem refs_nil : refs s [] = [] := rfl

@[simp] theorem refs_append : refs s (a ++ b) = refs s a ++ refs s b := List.filterMap_append

@[simp] theorem links_append : links s (a ++ b) = links s a ++ links s b := by simp [links]

theorem refs_eq_nil (h : Without Piece.isRef d) : refs s d = [] := by
  refine List.filterMap_eq_nil_iff.2 fun p hp => ?_
  have hnot := h p hp
  cases p with
  | markup m => rfl
  | text t m => rfl
  | number n m => rfl
  | link l m quoted => cases hnot
  | action s' m quoted => cases hnot

theorem Without.isAction (h : Without Piece.isRef d) : Without Piece.isAction d := by
  intro p hp
  have hnot := h p hp
  cases p with
  | markup m => rfl
  | text t m => rfl
  | number n m => rfl
  | link l m quoted => rfl
  | action s' m quoted => cases hnot

/-- without actions every reference is a link -/
theorem refs_eq_links (h : Without Piece.isAction d) : refs s d = (links s d).map some := by
  have hall : ∀ r ∈ refs s d, r.isSome := by
    intro r hr
    obtain ⟨p, hp, hpr⟩ := List.mem_filterMap.1 hr
    have hnot := h p hp
    cases p with
    | markup m => cases hpr
    | text t m => cases hpr
    | number n m => cases hpr
    | link l m quoted =>
      simp only [Option.ite_none_right_eq_some, Option.some.injEq] at hpr
      rw [← hpr.2]
      rfl
    | action s' m quoted => cases hnot
  calc refs s d = (refs s d).filterMap (some ·) := (List.filterMap_some).symm
    _ = (refs s d).filterMap fun r => (id r).map some := by
      refine List.filterMap_congr fun r hr => ?_
      obtain ⟨l, rfl⟩ := Option.isSome_iff_exists.1 (hall r hr)
      rfl
    _ = (links s d).map some := List.map_filterMap.symm

end

/-! ## Class names on a page -/

variable {s s' : CommentScript} {t : Text}

theorem mem_allScripts (s : CommentScript) : s ∈ allScripts := by cases s <;> decide

theorem className_ne_nil (s : CommentScript) : className s ≠ [] := by cases s <;> decide

theorem dot_mem_className (s : CommentScript) : '.' ∈ className s := by cases s <;> decide

theorem question_notMem_className (s : CommentScript) : '?' ∉ className s := by cases s <;> decide

theorem eq_of_infix_className (h : className s <:+: className s') : s = s' := by
  revert h
  cases s <;> cases s' <;> decide

theorem separates_of_isMarkup (h : isMarkup t = true) (s : CommentScript) : Occurs.Separates (className s) t := by
  simp only [isMarkup, Bool.and_eq_true, Option.any_eq_true, List.all_eq_true, isSeparator, decide_eq_true_eq] at h
  obtain ⟨⟨⟨c, hc, hfirst⟩, ⟨d, hd, hlast⟩⟩, hplain⟩ := h
  exact ⟨⟨c, hfirst s (mem_allScripts s), hc⟩, ⟨d, hlast s (mem_allScripts s), hd⟩, hplain s (mem_allScripts s)⟩

/-- separators that literals of the source begin or end with -/
def literalEnds : Text := ['<', '>', '"', '&', ' ', '\n', ':', '/', ')', '=', 'E', 'F', 'R', 'Y', 'p']

/-- a check for literals that is quick to evaluate: a literal without a dot or without "Comment" has no class name -/
def isLiteral (t : Text) : Bool :=
  t.head?.any (· ∈ literalEnds) && t.getLast?.any (· ∈ literalEnds) &&
    (decide ('.' ∉ t) || decide (¬ ['C', 'o', 'm', 'm', 'e', 'n', 't'] <:+: t))

theorem isMarkup_of_isLiteral (h : isLiteral t = true) : isMarkup t = true := by
  simp only [isLiteral, Bool.and_eq_true, Bool.or_eq_true, Option.any_eq_true, decide_eq_true_eq] at h
  obtain ⟨⟨⟨c, hc, hfirst⟩, ⟨d, hd, hlast⟩⟩, hplain⟩ := h
  have hsep : ∀ c ∈ literalEnds, isSeparator c := by decide
  have hcomment : ∀ s, ['C', 'o', 'm', 'm', 'e', 'n', 't'] <:+: className s := by
    intro s
    cases s <;> decide
  simp only [isMarkup, Bool.and_eq_true, Option.any_eq_true, List.all_eq_true, decide_eq_true_eq]
  refine ⟨⟨⟨c, hc, hsep c hfirst⟩, ⟨d, hd, hsep d hlast⟩⟩, fun s _ hs => ?_⟩
  rcases hplain with hdot | hname
  · exact not_infix_of_mem (dot_mem_className s) hdot hs
  · exact hname ((hcomment s).trans hs)

theorem notMem_intText (i : IntText) {c : Char} (hc : c.isDigit = false) (hm : c ≠ '-') (hp : c ≠ '+') : c ∉ i.text := by
  intro h
  rcases i.ascii c h with hd | rfl | rfl
  · simp [hc] at hd
  · exact hm rfl
  · exact hp rfl

/-- what follows the name of the table has no dot -/
theorem exists_query_eq (l : Link) : ∃ (table : TableName) (ids : Text), '.' ∉ ids ∧
    l.query = "comment_table".toList ++ '=' :: (table.text ++ '&' :: ids) := by
  have hi : ∀ i : IntText, '.' ∉ i.text := fun i => notMem_intText i (by decide) (by decide) (by decide)
  have hkeys : ∀ k ∈ [storyIdKey, parentKey, commentIdKey, filterKey, displayKey], '.' ∉ k := by decide
  simp only [List.forall_mem_cons] at hkeys
  have hkey : ∀ t, tableKey ++ t = "comment_table".toList ++ '=' :: t := by
    intro t
    rw [show tableKey = "comment_table".toList ++ ['='] by decide, List.append_assoc, List.singleton_append]
  cases l with
  | postComment table storyId parent =>
    exact ⟨table, _, by simp [hi, hkeys], hkey _⟩
  | viewComment table storyId commentId filter display =>
    exact ⟨table, _, by simp [hi, hkeys], hkey _⟩
  | moderateComment table commentId =>
    exact ⟨table, _, by simp [hi, hkeys], hkey _⟩

theorem not_infix_query (s : CommentScript) (l : Link) : ¬ className s <:+: l.query := by
  obtain ⟨table, ids, hids, hquery⟩ := exists_query_eq l
  have hcut : '=' ∉ className s ∧ '&' ∉ className s := by cases s <;> decide
  have hname : ¬ className s <:+: "comment_table".toList := not_infix_of_mem (dot_mem_className s) (by decide)
  intro h
  rw [hquery] at h
  rcases (infix_append_cons hcut.1).1 h with h | h
  · exact hname h
  · rcases (infix_append_cons hcut.2).1 h with h | h
    · exact table.plain s h
    · exact not_infix_of_mem (dot_mem_className s) hids h

theorem occurs_link (s : CommentScript) (l : Link) :
    Occurs (className s) (className l.script ++ '?' :: l.query) (if l.script = s then ['?' :: l.query] else []) := by
  split
  · next hs =>
    rw [hs]
    refine Occurs.here (.none fun hq => ?_)
    rcases (infix_append_cons (a := []) (question_notMem_className s)).1 hq with hq | hq
    · exact className_ne_nil s (List.infix_nil.1 hq)
    · exact not_infix_query s l hq
  · next hs =>
    refine .none fun hq => ?_
    rcases (infix_append_cons (question_notMem_className s)).1 hq with hq | hq
    · exact hs (eq_of_infix_className hq).symm
    · exact not_infix_query s l hq

/-- what follows the class name in front of the markup -/
def Piece.behind (s : CommentScript) : Piece → List Text
  | .link l _ _ => if l.script = s then ['?' :: l.query] else []
  | .action s' _ _ => if s' = s then [[]] else []
  | _ => []

theorem occurs_front (s : CommentScript) (p : Piece) : Occurs (className s) p.front (p.behind s) := by
  cases p with
  | markup m => exact .none fun hq => className_ne_nil s (List.infix_nil.1 hq)
  | text t m => exact .none (t.plain s)
  | number n m => exact .none (not_infix_of_mem (dot_mem_className s) (notMem_longText (by decide)))
  | link l m quoted => exact occurs_link s l
  | action s' m quoted =>
    by_cases hs : s' = s
    · subst hs
      have hhere := Occurs.here (k := className s') (.none (s := []) fun hq => className_ne_nil s' (List.infix_nil.1 hq))
      simpa [Piece.front, Piece.behind] using hhere
    · simp only [Piece.front, Piece.behind, hs, if_false]
      exact .none fun hq => hs (eq_of_infix_className hq).symm

/-- the texts behind the occurrences of a class name -/
def followers (s : CommentScript) (h : Doc) : List Text := print.followers (Piece.behind s) h

theorem followers_cons (s : CommentScript) (p : Piece) (ps : Doc) :
    followers s (p :: ps) = (p.behind s).map (· ++ (p.after.text ++ render ps)) ++ followers s ps := rfl

/-- **The occurrences of a class name on a page** are those in its links and actions. -/
theorem occurs_render (s : CommentScript) (h : Doc) : Occurs (className s) (render h) (followers s h) :=
  Print.occurs_render (className_ne_nil s) fun p _ => ⟨occurs_front s p, separates_of_isMarkup p.after.isMarkup s⟩

/-- what follows a link on the page, and what follows an action -/
theorem followers_refs (s : CommentScript) (h : Doc) : List.Forall₂
    (fun t r => ∀ l, r = some l → ∃ rest, t = '?' :: (l.query ++ '"' :: rest)) (followers s h) (refs s h) := by
  induction h with
  | nil => exact .nil
  | cons p ps ih =>
    cases p with
    | markup m => exact ih
    | text t m => exact ih
    | number n m => exact ih
    | link l m quoted =>
      obtain ⟨tail, hm⟩ : ∃ tail, m.text = '"' :: tail := by
        obtain ⟨x, tail, hx⟩ := List.exists_cons_of_ne_nil (l := m.text) (by intro h; simp [h] at quoted)
        rw [hx] at quoted
        exact ⟨tail, by rw [hx, Option.some.inj quoted]⟩
      by_cases hs : l.script = s
      · have hrefs : refs s (.link l m quoted :: ps) = some l :: refs s ps := by simp [refs, hs]
        rw [hrefs]
        simp only [followers_cons, Piece.behind, hs, if_true, List.map_cons, List.map_nil, List.singleton_append]
        refine .cons ?_ ih
        rintro l' ⟨⟩
        exact ⟨tail ++ render ps, by simp [Piece.after, hm]⟩
      · have hrefs : refs s (.link l m quoted :: ps) = refs s ps := by simp [refs, hs]
        rw [hrefs]
        simpa [followers_cons, Piece.behind, hs] using ih
    | action s' m quoted =>
      by_cases hs : s' = s
      · have hrefs : refs s (.action s' m quoted :: ps) = none :: refs s ps := by simp [refs, hs]
        rw [hrefs]
        simp only [followers_cons, Piece.behind, hs, if_true, List.map_cons, List.map_nil, List.singleton_append]
        exact .cons (fun l hl => by cases hl) ih
      · have hrefs : refs s (.action s' m quoted :: ps) = refs s ps := by simp [refs, hs]
        rw [hrefs]
        simpa [followers_cons, Piece.behind, hs] using ih

theorem script_of_mem_links {l : Link} {h : Doc} (hl : l ∈ links s h) : l.script = s := by
  obtain ⟨r, hr, rfl⟩ := List.mem_filterMap.1 hl
  obtain ⟨p, -, hp⟩ := List.mem_filterMap.1 hr
  cases p with
  | link l' m quoted =>
    simp only [Option.ite_none_right_eq_some, Option.some.injEq] at hp
    obtain ⟨hs, rfl⟩ := hp
    exact hs
  | action s' m quoted => simp at hp
  | _ => cases hp

/-! ## Printing -/

section

variable {l : Text}

/-- a literal as markup -/
def lit (t : String) (e : t.toList = l := by exact String.toList_ofList) (h : isLiteral l = true := by decide +kernel) :
    Markup := ⟨t.toList, e ▸ isMarkup_of_isLiteral h⟩

def html (t : String) (e : t.toList = l := by exact String.toList_ofList) (h : isLiteral l = true := by decide +kernel) :
    Piece := .markup (lit t e h)

def text (x : PlainText) (t : String) (e : t.toList = l := by exact String.toList_ofList)
    (h : isLiteral l = true := by decide +kernel) : Piece := .text x (lit t e h)

def num (n : ℤ) (t : String) (e : t.toList = l := by exact String.toList_ofList)
    (h : isLiteral l = true := by decide +kernel) : Piece := .number n (lit t e h)

def ref (k : Link) (t : String) (e : t.toList = l := by exact String.toList_ofList)
    (h : isLiteral l = true := by decide +kernel) (q : l.head? = some '"' := by decide +kernel) : Piece :=
  .link k (lit t e h) ((congrArg List.head? e).trans q)

def formAction (s : CommentScript) (t : String) (e : t.toList = l := by exact String.toList_ofList)
    (h : isLiteral l = true := by decide +kernel) (q : l.head? = some '"' := by decide +kernel) : Piece :=
  .action s (lit t e h) ((congrArg List.head? e).trans q)

/-- a literal as text -/
def plain (t : String) (e : t.toList = l := by exact String.toList_ofList) (h : '.' ∉ l := by decide +kernel) : PlainText :=
  ⟨t.toList, fun s => e ▸ not_infix_of_mem (dot_mem_className s) h⟩

end

section

variable {l : Text} {t : String} {e : t.toList = l} {h : isLiteral l = true} {q : l.head? = some '"'}

@[simp] theorem isRef_html : (html t e h).isRef = false := rfl
@[simp] theorem isRef_text {x : PlainText} : (text x t e h).isRef = false := rfl
@[simp] theorem isRef_num {n : ℤ} : (num n t e h).isRef = false := rfl
@[simp] theorem isAction_html : (html t e h).isAction = false := rfl
@[simp] theorem isAction_text {x : PlainText} : (text x t e h).isAction = false := rfl
@[simp] theorem isAction_num {n : ℤ} : (num n t e h).isAction = false := rfl
@[simp] theorem isAction_ref {k : Link} : (ref k t e h q).isAction = false := rfl

end

/-- a text behind a markup, as one text -/
def PlainText.behind (m : Markup) (t : PlainText) : PlainText where
  text := m.text ++ t.text
  plain s := by
    have hm : Occurs.Separates (className s) m.text := separates_of_isMarkup m.isMarkup s
    have hnil : ¬ className s <:+: [] := fun h => className_ne_nil s (List.infix_nil.1 h)
    exact (Occurs.enclosed hm (.none hnil) (.none (t.plain s))).absent

def IntText.plainText (i : IntText) : PlainText where
  text := i.text
  plain s := not_infix_of_mem (dot_mem_className s) (notMem_intText i (by decide) (by decide) (by decide))

/-- `Integer.valueOf(text).intValue()` -/
def IntText.intValue (i : IntText) : JInt where
  value := i.value
  isInt := by
    rcases ite_eq_iff.1 i.parses with ⟨⟨-, -, hlow, hhigh⟩, hv⟩ | ⟨-, herror⟩
    · rw [← Except.ok.inj hv]
      exact ⟨hlow, hhigh⟩
    · cases herror

def TableName.plainText (t : TableName) : PlainText := ⟨t.text, t.plain⟩

/-- a charset of the platform: it writes no run of characters as nothing -/
structure Charset where
  bytes : Text → List UInt8
  nonempty : ∀ run ≠ [], bytes run ≠ []

/-- `URLEncoder.encode` -/
def PlainText.encode (charset : Charset) (t : PlainText) : PlainText where
  text := JString.encode charset.bytes t.text
  plain s h := by
    obtain ⟨k, hk⟩ : ∃ k, className s = 'e' :: k := by cases s <;> exact ⟨_, rfl⟩
    have hunreserved : ∀ c ∈ className s, isUnreserved c := by cases s <;> decide
    have hplain := t.plain s
    rw [hk] at h hunreserved hplain
    exact hplain (infix_of_infix_encodeRun charset.nonempty hunreserved (by decide) h)

end Rubbos.Servlets.Html
