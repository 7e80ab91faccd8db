/-
The lexer of SQL statements, and statements that are put together from texts.

A statement consists of words, symbols, literals in single quotes and comments. In a literal a quote is doubled or escaped with a
backslash, as in MySQL: `\n` and the like stand for one character, `\%` and `\_` for themselves, and any other character after a
backslash for itself. White space and comments only separate.

A program that writes texts between quotes gets a statement `Template.sql`; what it means to send is `Template.tokens`. A text that
is not changed by the lexer is `Verbatim`, one that stays inside a comment is `Commented`.

- `Denotes`: the text that the inside of a literal denotes.
- `not_denotes_beyond`: a literal that runs over its end does not denote the text that was put into it.
- `literal_iff`: one literal.
- `commented_iff`: the comment at the end.
- `sql_tokens_iff`: a whole statement.
-/
import Rubbos.Core.Search
import Rubbos.Core.Text

namespace Rubbos.Core.Sql

inductive Token where
  | word (w : Text)
  | symbol (c : Char)
  | literal (t : Text)
deriving DecidableEq, Repr

def isWord (c : Char) : Bool := c.isAlphanum || c = '_'

/-- what `\c` stands for -/
def unescape (c : Char) : Text :=
  if c = '%' ∨ c = '_' then ['\\', c]
  else if c = 'n' then ['\n']
  else if c = 't' then ['\t']
  else if c = 'r' then ['\r']
  else if c = 'b' then [Char.ofNat 8]
  else if c = '0' then [Char.ofNat 0]
  else if c = 'Z' then [Char.ofNat 26]
  else [c]

/-- where the lexer is: in a word (maybe an empty one), in a literal, or in a comment -/
inductive Mode where
  | code (w : Text)
  | literal (v : Text)
  | comment
deriving DecidableEq, Repr

def flush (w : Text) : List Token := if w = [] then [] else [.word w]

/-- the tokens of a text; none if a literal or a comment does not end -/
def lexFrom : Mode → Text → Option (List Token)
  | .code w, [] => some (flush w)
  | .code w, '/' :: '*' :: s => (lexFrom .comment s).map (flush w ++ ·)
  | .code w, c :: s =>
    if c = '\'' then (lexFrom (.literal []) s).map (flush w ++ ·)
    else if isWord c then lexFrom (.code (w ++ [c])) s
    else if c.isWhitespace then (lexFrom (.code []) s).map (flush w ++ ·)
    else (lexFrom (.code []) s).map (flush w ++ .symbol c :: ·)
  | .literal _, [] => none
  | .literal v, '\'' :: '\'' :: s => lexFrom (.literal (v ++ ['\''])) s
  | .literal v, '\\' :: c :: s => lexFrom (.literal (v ++ unescape c)) s
  | .literal v, c :: s =>
    if c = '\'' then (lexFrom (.code []) s).map (.literal v :: ·) else lexFrom (.literal (v ++ [c])) s
  | .comment, [] => none
  | .comment, '*' :: '/' :: s => lexFrom (.code []) s
  | .comment, _ :: s => lexFrom .comment s

def lex (s : Text) : Option (List Token) := lexFrom (.code []) s

example : lex "SELECT id FROM t WHERE n='it''s' /* x */".toList =
    some [.word "SELECT".toList, .word "id".toList, .word "FROM".toList, .word "t".toList, .word "WHERE".toList, .word "n".toList,
      .symbol '=', .literal "it's".toList] := by decide +kernel

/-! ## Literals -/

/-- the inside of a literal and the text that it denotes -/
inductive Denotes : Text → Text → Prop
  | nil : Denotes [] []
  | char {c : Char} {r v : Text} (hq : c ≠ '\'') (hb : c ≠ '\\') (h : Denotes r v) : Denotes (c :: r) (c :: v)
  | quote {r v : Text} (h : Denotes r v) : Denotes ('\'' :: '\'' :: r) ('\'' :: v)
  | escape {r v : Text} (c : Char) (h : Denotes r v) : Denotes ('\\' :: c :: r) (unescape c ++ v)

/-- a text that the lexer does not change: no quote, and only `%` and `_` behind a backslash -/
def Verbatim : Text → Bool
  | [] => true
  | '\\' :: c :: s => (c = '%' || c = '_') && Verbatim s
  | c :: s => c ≠ '\'' && c ≠ '\\' && Verbatim s

variable {a b r s v w : Text} {c : Char}

theorem length_unescape_le (c : Char) : (unescape c).length ≤ 2 := by
  unfold unescape
  split_ifs <;> simp

theorem Denotes.length_le (h : Denotes r v) : v.length ≤ r.length := by
  induction h with
  | nil => exact le_rfl
  | char _ _ _ ih => simpa using ih
  | quote _ ih =>
    simp only [List.length_cons]
    omega
  | escape c _ ih =>
    have := length_unescape_le c
    simp only [List.length_append, List.length_cons]
    omega

/-- a quote in the middle is the second half of a pair, if no quote follows it -/
theorem Denotes.split_quote {d : Text} (h : Denotes (a ++ '\'' :: b) d) (hb : b.head? ≠ some '\'') :
    ∃ a' x d₁ d₂, a = a' ++ [x] ∧ (x = '\'' ∨ x = '\\') ∧ Denotes a' d₁ ∧ Denotes b d₂ ∧ d = d₁ ++ '\'' :: d₂ := by
  generalize hs : a ++ '\'' :: b = s at h
  induction h generalizing a with
  | nil => simp at hs
  | @char c r v hq hc h ih =>
    obtain _ | ⟨x, a⟩ := a
    · simp only [List.nil_append, List.cons.injEq] at hs
      exact absurd hs.1.symm hq
    · simp only [List.cons_append, List.cons.injEq] at hs
      obtain ⟨rfl, hs⟩ := hs
      obtain ⟨a', y, d₁, d₂, rfl, hy, h₁, h₂, rfl⟩ := ih hs
      exact ⟨x :: a', y, x :: d₁, d₂, rfl, hy, .char hq hc h₁, h₂, rfl⟩
  | @quote r v h ih =>
    obtain _ | ⟨x, _ | ⟨y, a⟩⟩ := a
    · simp only [List.nil_append, List.cons.injEq, true_and] at hs
      rw [hs] at hb
      exact absurd rfl hb
    · simp only [List.cons_append, List.nil_append, List.cons.injEq, true_and] at hs
      obtain ⟨rfl, rfl⟩ := hs
      exact ⟨[], '\'', [], v, rfl, .inl rfl, .nil, h, rfl⟩
    · simp only [List.cons_append, List.cons.injEq] at hs
      obtain ⟨rfl, rfl, hs⟩ := hs
      obtain ⟨a', z, d₁, d₂, rfl, hz, h₁, h₂, rfl⟩ := ih hs
      exact ⟨'\'' :: '\'' :: a', z, '\'' :: d₁, d₂, rfl, hz, .quote h₁, h₂, rfl⟩
  | @escape r v c h ih =>
    obtain _ | ⟨x, _ | ⟨y, a⟩⟩ := a
    · simp only [List.nil_append, List.cons.injEq] at hs
      exact absurd hs.1 (by decide)
    · simp only [List.cons_append, List.nil_append, List.cons.injEq] at hs
      obtain ⟨rfl, rfl, rfl⟩ := hs
      exact ⟨[], '\\', [], v, rfl, .inr rfl, .nil, h, rfl⟩
    · simp only [List.cons_append, List.cons.injEq] at hs
      obtain ⟨rfl, rfl, hs⟩ := hs
      obtain ⟨a', z, d₁, d₂, rfl, hz, h₁, h₂, rfl⟩ := ih hs
      exact ⟨'\\' :: y :: a', z, unescape y ++ d₁, d₂, rfl, hz, .escape y h₁, h₂, by rw [List.append_assoc]⟩

/-- program text: no quote, no backslash, and no slash that could begin a comment -/
def IsCode (s : Text) : Prop := ∀ c ∈ s, c ≠ '\'' ∧ c ≠ '\\' ∧ c ≠ '/'

instance : DecidablePred IsCode := fun s => inferInstanceAs (Decidable (∀ c ∈ s, c ≠ '\'' ∧ c ≠ '\\' ∧ c ≠ '/'))

theorem Denotes.of_code_append {d : Text} (hs : IsCode s) (h : Denotes (s ++ r) d) : ∃ d', Denotes r d' ∧ d = s ++ d' := by
  induction s generalizing d with
  | nil => exact ⟨d, h, rfl⟩
  | cons c s ih =>
    obtain ⟨hq, hb, -⟩ := hs c List.mem_cons_self
    have hrest : IsCode s := fun x hx => hs x (List.mem_cons_of_mem c hx)
    rw [List.cons_append] at h
    generalize ht : s ++ r = t at h
    cases h with
    | char _ _ h =>
      obtain ⟨d', hd', rfl⟩ := ih hrest (ht ▸ h)
      exact ⟨d', hd', rfl⟩
    | quote => exact absurd rfl hq
    | escape => exact absurd rfl hb

/-- **A literal that runs over its end.** If the inside goes on behind the quote that should have ended it, with program text, then
it does not denote what stands in front of that quote: each text that would be so has a shorter one. -/
theorem not_denotes_beyond (hs : IsCode s) (hne : s ≠ []) (v w : Text) : ¬ Denotes (v ++ '\'' :: (s ++ w)) v := by
  induction hn : v.length using Nat.strong_induction_on generalizing v w with
  | _ n ih =>
    intro h
    have hhead : (s ++ w).head? ≠ some '\'' := by
      obtain _ | ⟨c, s⟩ := s
      · exact absurd rfl hne
      · intro heq
        exact (hs c List.mem_cons_self).1 (Option.some.inj heq)
    obtain ⟨v', x, d₁, d₂, rfl, hx, h₁, h₂, heq⟩ := h.split_quote hhead
    obtain ⟨d, -, rfl⟩ := h₂.of_code_append hs
    -- the text ends in a quote or a backslash, so it does not end in program text
    rcases List.eq_nil_or_concat d with rfl | ⟨d, y, rfl⟩
    · obtain ⟨s, c, rfl⟩ := List.eq_nil_or_concat s |>.resolve_left hne
      have hlast : x = c := by
        have hconcat : v' ++ [x] = (d₁ ++ '\'' :: s) ++ [c] := by simpa using heq
        exact (List.cons.inj (List.append_inj_right' hconcat rfl)).1
      obtain ⟨hq, hb, -⟩ := hs c (by simp)
      rcases hx with rfl | rfl
      · exact hq hlast.symm
      · exact hb hlast.symm
    · have hsplit : v' = d₁ ++ '\'' :: (s ++ d) := by
        have hconcat : v' ++ [x] = (d₁ ++ '\'' :: (s ++ d)) ++ [y] := by simpa using heq
        exact List.append_inj_left' hconcat rfl
      refine ih d₁.length ?_ d₁ d rfl (hsplit ▸ h₁)
      rw [← hn, hsplit]
      simp only [List.length_append, List.length_cons]
      omega

theorem unescape_of_length {c : Char} (h : (unescape c).length = 2) : (c = '%' ∨ c = '_') ∧ unescape c = ['\\', c] := by
  unfold unescape at h ⊢
  split_ifs at h ⊢ <;> simp_all

/-- a text that denotes one of its own length is kept as it is -/
theorem Denotes.verbatim (h : Denotes r v) (hlen : r.length ≤ v.length) : v = r ∧ Verbatim r = true := by
  induction h with
  | nil => exact ⟨rfl, rfl⟩
  | @char c r v hq hb _ ih =>
    obtain ⟨rfl, hr⟩ := ih (by simpa using hlen)
    refine ⟨rfl, ?_⟩
    rw [Verbatim]
    · simp [hq, hb, hr]
    · rintro x r' rfl
      exact absurd rfl hb
  | @quote r v h ih =>
    have := h.length_le
    simp only [List.length_cons] at hlen
    omega
  | @escape r v c h ih =>
    have hle := h.length_le
    have htwo := length_unescape_le c
    simp only [List.length_cons, List.length_append] at hlen
    obtain ⟨hc, hself⟩ := unescape_of_length (show (unescape c).length = 2 by omega)
    obtain ⟨rfl, hr⟩ := ih (by omega)
    rw [hself]
    refine ⟨rfl, ?_⟩
    simpa [Verbatim, hr] using hc

theorem denotes_of_verbatim (h : Verbatim s = true) : Denotes s s := by
  fun_induction Verbatim s with
  | case1 => exact .nil
  | case2 c s ih =>
    simp only [Bool.and_eq_true, Bool.or_eq_true, decide_eq_true_eq] at h
    have hself : unescape c = ['\\', c] := by simp [unescape, h.1]
    have := Denotes.escape c (ih h.2)
    rwa [hself] at this
  | case3 c s _ ih =>
    simp only [Bool.and_eq_true, decide_eq_true_eq] at h
    exact .char h.1.1 h.1.2 (ih h.2)

/-! ## The lexer in a literal -/

theorem lexFrom_double (v s : Text) : lexFrom (.literal v) ('\'' :: '\'' :: s) = lexFrom (.literal (v ++ ['\''])) s := rfl

theorem lexFrom_escape (v s : Text) (c : Char) :
    lexFrom (.literal v) ('\\' :: c :: s) = lexFrom (.literal (v ++ unescape c)) s := rfl

theorem lexFrom_close (v : Text) (hs : s.head? ≠ some '\'') :
    lexFrom (.literal v) ('\'' :: s) = (lexFrom (.code []) s).map (.literal v :: ·) := by
  rw [lexFrom]
  · rfl
  · rintro s' - rfl
    exact hs rfl
  · rintro c s' h
    cases h

theorem lexFrom_char (v s : Text) (hq : c ≠ '\'') (hb : c ≠ '\\') :
    lexFrom (.literal v) (c :: s) = lexFrom (.literal (v ++ [c])) s := by
  rw [lexFrom, if_neg hq]
  · rintro s' rfl
    exact absurd rfl hq
  · rintro c' s' rfl
    exact absurd rfl hb

/-- the inside of a literal is read up to the quote that ends it -/
theorem lexFrom_denotes {d : Text} (h : Denotes r d) (hs : s.head? ≠ some '\'') (v : Text) :
    lexFrom (.literal v) (r ++ '\'' :: s) = (lexFrom (.code []) s).map (.literal (v ++ d) :: ·) := by
  induction h generalizing v with
  | nil => rw [List.nil_append, lexFrom_close v hs, List.append_nil]
  | @char c r d hq hb _ ih => rw [List.cons_append, lexFrom_char v _ hq hb, ih, List.append_assoc, List.singleton_append]
  | @quote r d _ ih => rw [List.cons_append, List.cons_append, lexFrom_double, ih, List.append_assoc, List.singleton_append]
  | @escape r d c _ ih => rw [List.cons_append, List.cons_append, lexFrom_escape, ih, List.append_assoc]

/-- what a lexer in a literal has read when it ends -/
theorem exists_denotes_of_lexFrom {ts : List Token} (h : lexFrom (.literal v) s = some ts) :
    ∃ r d s' ts', s = r ++ '\'' :: s' ∧ Denotes r d ∧ s'.head? ≠ some '\'' ∧ lexFrom (.code []) s' = some ts' ∧
      ts = .literal (v ++ d) :: ts' := by
  induction hn : s.length using Nat.strong_induction_on generalizing s v with
  | _ n ih =>
    obtain _ | ⟨c, s⟩ := s
    · cases h
    rw [List.length_cons] at hn
    by_cases hq : c = '\''
    · subst hq
      by_cases hs : s.head? = some '\''
      · obtain ⟨s, rfl⟩ : ∃ s', s = '\'' :: s' := by
          obtain _ | ⟨x, s⟩ := s
          · cases hs
          · exact ⟨s, by rw [Option.some.inj hs]⟩
        rw [lexFrom_double] at h
        rw [List.length_cons] at hn
        obtain ⟨r, d, s', ts', rfl, hd, hs', hts', rfl⟩ := ih s.length (by omega) h rfl
        exact ⟨'\'' :: '\'' :: r, '\'' :: d, s', ts', rfl, .quote hd, hs', hts', by simp⟩
      · rw [lexFrom_close v hs, Option.map_eq_some_iff] at h
        obtain ⟨ts', hts', rfl⟩ := h
        exact ⟨[], [], s, ts', rfl, .nil, hs, hts', by simp⟩
    · by_cases hb : c = '\\'
      · subst hb
        obtain _ | ⟨x, s⟩ := s
        · cases h
        rw [lexFrom_escape] at h
        rw [List.length_cons] at hn
        obtain ⟨r, d, s', ts', rfl, hd, hs', hts', rfl⟩ := ih s.length (by omega) h rfl
        exact ⟨'\\' :: x :: r, unescape x ++ d, s', ts', rfl, .escape x hd, hs', hts', by simp⟩
      · rw [lexFrom_char v s hq hb] at h
        obtain ⟨r, d, s', ts', rfl, hd, hs', hts', rfl⟩ := ih s.length (by omega) h rfl
        exact ⟨c :: r, c :: d, s', ts', rfl, .char hq hb hd, hs', hts', by simp⟩

/-- **One literal.** It denotes the text that was put into it exactly if the lexer does not change that text. -/
theorem literal_iff {t k : Text} {ts : List Token} (hs : IsCode s) (hne : s ≠ []) :
    lexFrom (.literal []) (t ++ '\'' :: (s ++ k)) = some (.literal t :: ts) ↔
      Verbatim t = true ∧ lexFrom (.code []) (s ++ k) = some ts := by
  have hhead : (s ++ k).head? ≠ some '\'' := by
    obtain _ | ⟨c, s⟩ := s
    · exact absurd rfl hne
    · intro heq
      exact (hs c List.mem_cons_self).1 (Option.some.inj heq)
  constructor
  · intro h
    obtain ⟨r, d, s', ts', hsplit, hd, -, hts', heq⟩ := exists_denotes_of_lexFrom h
    simp only [List.nil_append, List.cons.injEq, Token.literal.injEq] at heq
    obtain ⟨rfl, rfl⟩ := heq
    rcases List.append_eq_append_iff.1 hsplit with ⟨z, rfl, hz⟩ | ⟨z, rfl, hz⟩
    · obtain _ | ⟨x, z⟩ := z
      · rw [List.append_nil] at hd
        obtain ⟨-, rfl⟩ := List.cons.inj hz
        exact ⟨(hd.verbatim le_rfl).2, hts'⟩
      · -- the literal goes on behind the quote
        simp only [List.cons_append, List.cons.injEq] at hz
        obtain ⟨rfl, hz⟩ := hz
        rcases List.append_eq_append_iff.1 hz with ⟨y, rfl, -⟩ | ⟨y, rfl, hy⟩
        · exact absurd hd (not_denotes_beyond hs hne t y)
        · obtain _ | ⟨x, y⟩ := y
          · rw [List.append_nil] at hs hne
            have := not_denotes_beyond hs hne t []
            rw [List.append_nil] at this
            exact absurd hd this
          · have hx : x = '\'' := (List.cons.inj hy).1.symm
            exact absurd hx (hs x (by simp)).1
    · have hle := hd.length_le
      obtain _ | ⟨x, z⟩ := z
      · rw [List.append_nil] at hd ⊢
        obtain ⟨-, rfl⟩ := List.cons.inj hz
        exact ⟨(hd.verbatim le_rfl).2, hts'⟩
      · simp only [List.length_append, List.length_cons] at hle
        omega
  · rintro ⟨ht, hk⟩
    rw [lexFrom_denotes (denotes_of_verbatim ht) hhead, hk]
    rfl

/-! ## Program text and comments -/

/-- the tokens of program text -/
def codeTokens : Text → Text → List Token
  | w, [] => flush w
  | w, c :: s =>
    if isWord c then codeTokens (w ++ [c]) s
    else if c.isWhitespace then flush w ++ codeTokens [] s
    else flush w ++ .symbol c :: codeTokens [] s

theorem lexFrom_code (w : Text) (hc : ¬ ['/', '*'] <+: c :: s) :
    lexFrom (.code w) (c :: s) =
      if c = '\'' then (lexFrom (.literal []) s).map (flush w ++ ·)
      else if isWord c then lexFrom (.code (w ++ [c])) s
      else if c.isWhitespace then (lexFrom (.code []) s).map (flush w ++ ·)
      else (lexFrom (.code []) s).map (flush w ++ .symbol c :: ·) := by
  rw [lexFrom]
  rintro s' rfl rfl
  exact hc (List.prefix_append ['/', '*'] s')

theorem not_open (hc : c ≠ '/') : ¬ ['/', '*'] <+: c :: s := fun h => hc (List.cons_prefix_cons.1 h).1.symm

theorem lexFrom_open (w s : Text) : lexFrom (.code w) ('/' :: '*' :: s) = (lexFrom .comment s).map (flush w ++ ·) :=
  rfl

/-- program text, up to something that ends a word -/
theorem lexFrom_code_append {k : Text} {m : Mode} {k' : Text} (hs : IsCode s)
    (hk : ∀ w, lexFrom (.code w) k = (lexFrom m k').map (flush w ++ ·)) (w : Text) :
    lexFrom (.code w) (s ++ k) = (lexFrom m k').map (codeTokens w s ++ ·) := by
  induction s generalizing w with
  | nil => exact hk w
  | cons c s ih =>
    obtain ⟨hq, -, hc⟩ := hs c List.mem_cons_self
    have hrest := ih fun x hx => hs x (List.mem_cons_of_mem c hx)
    rw [List.cons_append, lexFrom_code w (not_open hc), if_neg hq, codeTokens]
    split_ifs
    · exact hrest _
    · rw [hrest, Option.map_map]
      simp only [Function.comp_def, List.append_assoc]
    · rw [hrest, Option.map_map]
      simp only [Function.comp_def, List.append_assoc, List.cons_append]

theorem lexFrom_code_quote (hs : IsCode s) (w k : Text) :
    lexFrom (.code w) (s ++ '\'' :: k) = (lexFrom (.literal []) k).map (codeTokens w s ++ ·) := by
  refine lexFrom_code_append hs (fun w => ?_) w
  rw [lexFrom_code w (not_open (by decide)), if_pos rfl]

theorem lexFrom_code_open (hs : IsCode s) (w k : Text) :
    lexFrom (.code w) (s ++ '/' :: '*' :: k) = (lexFrom .comment k).map (codeTokens w s ++ ·) :=
  lexFrom_code_append hs (fun w => lexFrom_open w k) w

/-- a text that stays inside a comment: what ends the comment is followed by white space and another one -/
inductive Commented : Text → Prop
  | within {a : Text} (h : ¬ ['*', '/'] <:+: a) : Commented a
  | again {a b : Text} {space : Text} (h : ¬ ['*', '/'] <:+: a) (hs : ∀ x ∈ space, x.isWhitespace = true) (hb : Commented b) :
      Commented (a ++ '*' :: '/' :: (space ++ '/' :: '*' :: b))

theorem lexFrom_comment_end (s : Text) : lexFrom .comment ('*' :: '/' :: s) = lexFrom (.code []) s := rfl

theorem lexFrom_comment_cons (h : ¬ ['*', '/'] <+: c :: s) : lexFrom .comment (c :: s) = lexFrom .comment s := by
  rw [lexFrom]
  rintro s' rfl rfl
  exact h (List.prefix_append ['*', '/'] s')

/-- a comment is read up to its first end -/
theorem lexFrom_comment (h : ¬ ['*', '/'] <:+: a) (s : Text) :
    lexFrom .comment (a ++ '*' :: '/' :: s) = lexFrom (.code []) s := by
  induction a with
  | nil => exact lexFrom_comment_end s
  | cons c a ih =>
    have hrest : ¬ ['*', '/'] <:+: a := fun hin => h (hin.trans (List.suffix_cons c a).isInfix)
    rw [List.cons_append, lexFrom_comment_cons, ih hrest]
    intro hpre
    obtain _ | ⟨x, a⟩ := a
    · simp [List.cons_prefix_cons] at hpre
    · rw [List.cons_append, List.cons_prefix_cons, List.cons_prefix_cons] at hpre
      obtain ⟨rfl, rfl, -⟩ := hpre
      exact h (List.prefix_append ['*', '/'] a).isInfix

theorem lexFrom_spaces {space : Text} (hs : ∀ x ∈ space, x.isWhitespace = true) (k : Text) :
    lexFrom (.code []) (space ++ k) = lexFrom (.code []) k := by
  induction space with
  | nil => rfl
  | cons c space ih =>
    have hc := hs c List.mem_cons_self
    have hne : c ≠ '/' ∧ c ≠ '\'' ∧ isWord c = false := by
      simp only [Char.isWhitespace, Bool.or_eq_true, decide_eq_true_eq] at hc
      rcases hc with ((rfl | rfl) | rfl) | rfl <;> decide
    rw [List.cons_append, lexFrom_code _ (not_open hne.1), if_neg hne.2.1, hne.2.2, if_neg (by decide), if_pos hc,
      ih fun x hx => hs x (List.mem_cons_of_mem c hx)]
    simp [flush]

theorem flush_ne_nil (hw : w ≠ []) : flush w ≠ [] := by simp [flush, hw]

theorem ne_nil_of_flush {f : List Token → List Token} {x : Option (List Token)} {ts : List Token} (hw : w ≠ [])
    (h : x.map (fun ts => flush w ++ f ts) = some ts) : ts ≠ [] := by
  obtain ⟨ts', -, rfl⟩ := Option.map_eq_some_iff.1 h
  exact List.append_ne_nil_of_left_ne_nil (flush_ne_nil hw) _

/-- a word that has begun is a token -/
theorem ne_nil_of_word {ts : List Token} (hw : w ≠ []) (h : lexFrom (.code w) s = some ts) : ts ≠ [] := by
  induction s generalizing w with
  | nil =>
    cases h
    exact flush_ne_nil hw
  | cons c s ih =>
    by_cases hopen : ['/', '*'] <+: c :: s
    · obtain ⟨s', hs'⟩ := hopen
      rw [← hs', List.cons_append, List.cons_append, lexFrom_open] at h
      exact ne_nil_of_flush (f := fun ts => ts) hw h
    · rw [lexFrom_code w hopen] at h
      split_ifs at h
      · exact ne_nil_of_flush (f := fun ts => ts) hw h
      · exact ih (by simp) h
      · exact ne_nil_of_flush (f := fun ts => ts) hw h
      · exact ne_nil_of_flush hw h

/-- the text up to the first end of a comment -/
theorem exists_first_end (h : ['*', '/'] <:+: s) : ∃ a b, s = a ++ '*' :: '/' :: b ∧ ¬ ['*', '/'] <:+: a := by
  cases hf : find ['*', '/'] s with
  | none => exact absurd h (find_eq_none.1 hf)
  | some i =>
    obtain ⟨-, ⟨b, hb⟩, -⟩ := find_eq_some hf
    refine ⟨s.take i, b, ?_, ?_⟩
    · calc s = s.take i ++ s.drop i := (List.take_append_drop i s).symm
        _ = s.take i ++ '*' :: '/' :: b := by rw [← hb]; rfl
    · rw [← find_eq_none]
      cases hj : find ['*', '/'] (s.take i) with
      | none => rfl
      | some j =>
        obtain ⟨hj, hle⟩ := find_take.1 hj
        rw [hf] at hj
        obtain rfl := Option.some.inj hj
        simp at hle

/-- a character that is no white space is a token, or it begins a comment -/
theorem opens_of_no_token (hc : c.isWhitespace = false) (h : lexFrom (.code []) (c :: s) = some []) :
    ∃ s', c :: s = '/' :: '*' :: s' ∧ lexFrom .comment s' = some [] := by
  by_cases hopen : ['/', '*'] <+: c :: s
  · obtain ⟨s', hs'⟩ := hopen
    rw [← hs', List.cons_append, List.cons_append, lexFrom_open] at h
    refine ⟨s', hs'.symm, ?_⟩
    obtain ⟨ts, hts, hnil⟩ := Option.map_eq_some_iff.1 h
    obtain rfl : ts = [] := (List.append_eq_nil_iff.1 hnil).2
    exact hts
  · rw [lexFrom_code [] hopen] at h
    split_ifs at h with hquote hword hspace
    · obtain ⟨ts, hts, hnil⟩ := Option.map_eq_some_iff.1 h
      obtain rfl : ts = [] := (List.append_eq_nil_iff.1 hnil).2
      obtain ⟨r, d, s', ts', -, -, -, -, hts⟩ := exists_denotes_of_lexFrom hts
      cases hts
    · exact absurd rfl (ne_nil_of_word (by simp) h)
    · rw [hspace] at hc
      cases hc
    · obtain ⟨ts, -, hnil⟩ := Option.map_eq_some_iff.1 h
      cases hnil

/-- text that is no token at all, up to the end of a comment -/
theorem exists_open_of_no_token (h : lexFrom (.code []) (b ++ ['*', '/']) = some []) :
    ∃ space rest, b = space ++ '/' :: '*' :: rest ∧ (∀ x ∈ space, x.isWhitespace = true) ∧
      lexFrom .comment (rest ++ ['*', '/']) = some [] := by
  have hspace : ∀ x ∈ b.takeWhile Char.isWhitespace, x.isWhitespace = true := fun x hx => List.mem_takeWhile_imp hx
  have hsplit : b.takeWhile Char.isWhitespace ++ b.dropWhile Char.isWhitespace = b := List.takeWhile_append_dropWhile
  have hfirst := List.head?_dropWhile_not Char.isWhitespace b
  rw [← hsplit, List.append_assoc, lexFrom_spaces hspace] at h
  generalize b.dropWhile Char.isWhitespace = rest at *
  obtain _ | ⟨c, rest⟩ := rest
  · exact absurd h (by decide)
  · rw [List.cons_append] at h
    obtain ⟨s', hs', hcomment⟩ := opens_of_no_token (by simpa using hfirst) h
    obtain ⟨rfl, htail⟩ := List.cons.inj hs'
    obtain _ | ⟨x, rest⟩ := rest
    · -- the star of the end opens the comment, which then has no end
      obtain rfl : ['/'] = s' := (List.cons.inj htail).2
      exact absurd hcomment (by decide)
    · rw [List.cons_append] at htail
      obtain ⟨rfl, rfl⟩ := List.cons.inj htail
      exact ⟨_, rest, hsplit.symm, hspace, hcomment⟩

/-- **The comment at the end** hides a text exactly if it stays inside of comments. -/
theorem commented_iff {t : Text} : lexFrom .comment (t ++ ['*', '/']) = some [] ↔ Commented t := by
  constructor
  · intro h
    induction hn : t.length using Nat.strong_induction_on generalizing t with
    | _ n ih =>
      by_cases hin : ['*', '/'] <:+: t
      · obtain ⟨a, b, rfl, ha⟩ := exists_first_end hin
        rw [List.append_assoc, List.cons_append, List.cons_append, lexFrom_comment ha] at h
        obtain ⟨space, rest, rfl, hspace, hrest⟩ := exists_open_of_no_token h
        refine .again ha hspace (ih rest.length ?_ hrest rfl)
        rw [← hn]
        simp only [List.length_append, List.length_cons]
        omega
      · exact .within hin
  · intro h
    induction h with
    | within ha => rw [lexFrom_comment ha]; rfl
    | @again a b space ha hspace _ ih =>
      have hassoc : a ++ '*' :: '/' :: (space ++ '/' :: '*' :: b) ++ ['*', '/'] =
          a ++ '*' :: '/' :: (space ++ '/' :: '*' :: (b ++ ['*', '/'])) := by simp
      rw [hassoc, lexFrom_comment ha, lexFrom_spaces hspace, lexFrom_open, ih]
      rfl

/-! ## Statements -/

/-- program text, texts between quotes each with the program text behind it, and a comment at the end -/
structure Template where
  head : Text
  literals : List (Text × Text)
  comment : Text

/-- texts between quotes, as a program writes them -/
def Template.quoted (literals : List (Text × Text)) : Text := literals.flatMap fun p => '\'' :: (p.1 ++ '\'' :: p.2)

def Template.sql (t : Template) : Text := t.head ++ (quoted t.literals ++ '/' :: '*' :: (t.comment ++ ['*', '/']))

/-- the tokens that are meant -/
def Template.meaning (literals : List (Text × Text)) : List Token :=
  literals.flatMap fun p => .literal p.1 :: codeTokens [] p.2

def Template.tokens (t : Template) : List Token := codeTokens [] t.head ++ meaning t.literals

structure Template.Valid (t : Template) : Prop where
  head : IsCode t.head
  behind : ∀ p ∈ t.literals, IsCode p.2 ∧ p.2 ≠ []

theorem append_map_eq_some {x : Option (List Token)} {as ts : List Token} : x.map (as ++ ·) = some (as ++ ts) ↔ x = some ts := by
  cases x with
  | none => simp
  | some ys => simp

/-- **A whole statement** is lexed as it is meant exactly if the lexer changes no text between quotes, and the comment stays one. -/
theorem sql_tokens_iff {t : Template} (ht : t.Valid) :
    lex t.sql = some t.tokens ↔ (∀ p ∈ t.literals, Verbatim p.1 = true) ∧ Commented t.comment := by
  obtain ⟨head, literals, comment⟩ := t
  obtain ⟨hhead, hbehind⟩ := ht
  unfold lex Template.sql Template.tokens
  simp only at hhead hbehind ⊢
  induction literals generalizing head with
  | nil =>
    simp only [Template.quoted, Template.meaning, List.flatMap_nil, List.nil_append]
    rw [lexFrom_code_open hhead, append_map_eq_some, commented_iff]
    simp
  | cons p literals ih =>
    obtain ⟨hp, hne⟩ := hbehind p List.mem_cons_self
    have hrest := ih p.2 hp fun q hq => hbehind q (List.mem_cons_of_mem p hq)
    have hsql : head ++ (Template.quoted (p :: literals) ++ '/' :: '*' :: (comment ++ ['*', '/'])) =
        head ++ '\'' :: (p.1 ++ '\'' :: (p.2 ++ (Template.quoted literals ++ '/' :: '*' :: (comment ++ ['*', '/'])))) := by
      simp [Template.quoted]
    have htokens : codeTokens [] head ++ Template.meaning (p :: literals) =
        codeTokens [] head ++ (.literal p.1 :: (codeTokens [] p.2 ++ Template.meaning literals)) := by
      simp [Template.meaning]
    rw [hsql, htokens, lexFrom_code_quote hhead, append_map_eq_some, literal_iff hp hne, hrest, List.forall_mem_cons, and_assoc]

/-! ## Texts in a comment -/

/-- a blank behind the text -/
theorem commented_append_blank {u : Text} : Commented (u ++ [' ']) ↔ Commented u := by
  constructor
  · intro h
    generalize ht : u ++ [' '] = t at h
    induction h generalizing u with
    | within h => exact .within fun hin => h (ht ▸ hin.trans (List.prefix_append u [' ']).isInfix)
    | @again a b space h hs _ ih =>
      rcases List.eq_nil_or_concat b with rfl | ⟨b, x, rfl⟩
      · have hconcat : u ++ [' '] = (a ++ '*' :: '/' :: (space ++ ['/'])) ++ ['*'] := by simpa using ht
        exact absurd (List.append_inj_right' hconcat rfl) (by decide)
      · have hconcat : u ++ [' '] = (a ++ '*' :: '/' :: (space ++ '/' :: '*' :: b)) ++ [x] := by simpa using ht
        obtain ⟨rfl, hx⟩ := List.append_inj' hconcat rfl
        obtain rfl := (List.cons.inj hx).1
        exact .again h hs (ih (by simp))
  · intro h
    induction h with
    | within h =>
      refine .within fun hin => ?_
      rcases (infix_append_cons (c := ' ') (by decide)).1 hin with hin | hin
      · exact h hin
      · exact absurd hin (by decide)
    | @again a b space h hs _ ih =>
      have hassoc : a ++ '*' :: '/' :: (space ++ '/' :: '*' :: b) ++ [' '] =
          a ++ '*' :: '/' :: (space ++ '/' :: '*' :: (b ++ [' '])) := by simp
      rw [hassoc]
      exact .again h hs ih

/-- program text in front of it -/
theorem commented_append_left {p u : Text} (hp : '*' ∉ p) : Commented (p ++ u) ↔ Commented u := by
  constructor
  · intro h
    generalize ht : p ++ u = t at h
    cases h with
    | within h => exact .within fun hin => h (ht ▸ hin.trans (List.suffix_append p u).isInfix)
    | @again a b space h hs hb =>
      rcases List.append_eq_append_iff.1 ht with ⟨z, rfl, hz⟩ | ⟨z, rfl, hz⟩
      · rw [hz]
        exact .again (fun hin => h (hin.trans (List.suffix_append p z).isInfix)) hs hb
      · obtain _ | ⟨y, z⟩ := z
        · rw [List.nil_append] at hz
          rw [← hz]
          exact .again (a := []) (by decide) hs hb
        · obtain ⟨rfl, -⟩ := List.cons.inj hz
          exact absurd (by simp) hp
  · intro h
    cases h with
    | within h => exact .within fun hin => h (infix_of_infix_append hp hin)
    | @again a b space h hs hb =>
      rw [← List.append_assoc]
      exact .again (fun hin => h (infix_of_infix_append hp hin)) hs hb

theorem isCode_append : IsCode (a ++ b) ↔ IsCode a ∧ IsCode b := List.forall_mem_append

theorem verbatim_of_isCode (h : IsCode s) : Verbatim s = true := by
  induction s with
  | nil => rfl
  | cons c s ih =>
    obtain ⟨hq, hb, -⟩ := h c List.mem_cons_self
    rw [Verbatim]
    · simp [hq, hb, ih fun x hx => h x (List.mem_cons_of_mem c hx)]
    · rintro x s' rfl
      exact absurd rfl hb

end Rubbos.Core.Sql
