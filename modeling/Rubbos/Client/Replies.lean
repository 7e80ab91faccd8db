/-
Which replies end the thread of an emulated user (`UserSession.java`).

`computeURLFromState` cuts numbers and texts out of the last reply, and `callHTTPServer` the names of the images. A key that
is followed by something else than the servlets write there, in a title or in a page that breaks off, makes `substring`,
`new Integer` or `URLEncoder.encode(null)` throw, and `run` has no handler. The conditions here are about the text of the reply
alone: what follows the keys that the state looks for.

- `Params`: the parameters that are cut out behind a link.
- `Looks`: what a state needs of the reply. `GoesBack`: when it may go back, with the same reply, to an earlier state.
- `urlOfState_looks`: one pass through the switch.
- `computeURLFromState_looks`: the whole call, over all states that it may look at.
- `no_exception_escapes`: every request of every run.

Counterexample: `title_ends_thread`, a title with the key storyId.
-/
import Rubbos.Client.Links

namespace Rubbos.Client.Replies

open Rubbos.Core JString Links
open Servlets.Html (delimiters)

/-! ## Values -/

/-- the value at the beginning of a text: up to the first delimiter -/
def valueOf (t : Text) : Text := t.takeWhile (· ∉ delimiters)

/-- the text from that delimiter on -/
def restOf (t : Text) : Text := t.dropWhile (· ∉ delimiters)

/-- what `new Integer` takes -/
def IsInt (t : Text) : Prop := ∃ n, parseInt t = .ok n

/-- t follows the key in the text, where the first occurrence may be left out -/
def Follows (key : Text) (skipFirst : Bool) (text t : Text) : Prop :=
  ∃ a, text = a ++ (key ++ t) ∧ (skipFirst = true → key <:+: a)

/-- a number follows, and it ends -/
def Number (t : Text) : Prop := restOf t ≠ [] ∧ IsInt (valueOf t)

/-- a number follows, and a quote somewhere behind it -/
def QuotedNumber (t : Text) : Prop := '"' ∈ t ∧ IsInt (valueOf t)

/-- the first occurrences of the key are numbers -/
def FirstNumbers (n : ℕ) (key text : Text) : Prop := ∀ ts, Occurs key text ts → ∀ t ∈ ts.take n, QuotedNumber t

/-- the parameters that are cut out of a text one after the other, and whether they have to be numbers. A text is cut out from a
fixed distance on, so one that stands further behind is longer. -/
inductive Params : List (Text × Bool) → Text → List (Option Text) → Prop
  | nil {t : Text} : Params [] t []
  | absent {key t : Text} {isInt : Bool} {ks : List (Text × Bool)} {vs : List (Option Text)} (h : ¬ key <:+: t)
      (hks : Params ks t vs) : Params ((key, isInt) :: ks) t (none :: vs)
  | here {key t v : Text} {i : ℕ} {isInt : Bool} {ks : List (Text × Bool)} {vs : List (Option Text)}
      (hfind : find key t = some i) (hv : v = t.drop (i + key.length)) (hquote : '"' ∈ v)
      (hint : isInt = true → IsInt ((t.take (i + key.length + (valueOf v).length)).drop (key.length + 1)))
      (hks : Params ks (restOf v) vs) :
      Params ((key, isInt) :: ks) t (some ((t.take (i + key.length + (valueOf v).length)).drop (key.length + 1)) :: vs)

def Readable (ks : List (Text × Bool)) (t : Text) : Prop := ∃ vs, Params ks t vs

/-- one of the parameters is missing -/
def Lacks (ks : List (Text × Bool)) (t : Text) : Prop := ∃ vs, Params ks t vs ∧ none ∈ vs

/-! ## Reading values -/

/-- where the value of the drawn occurrence ends -/
def endIndex (p : ℕ) (t : Text) : ℤ := if restOf t = [] then maxInt else (p + (valueOf t).length : ℕ)

variable {reply key text t v w : Text} {q : ℕ}

theorem valueOf_append_restOf (t : Text) : valueOf t ++ restOf t = t := List.takeWhile_append_dropWhile

theorem notMem_valueOf {x : Char} (hx : x ∈ delimiters) : x ∉ valueOf t := by
  intro hmem
  have := List.mem_takeWhile_imp hmem
  simp [hx] at this

/-- the rest begins with a delimiter -/
theorem restOf_cons (h : restOf t ≠ []) : ∃ d rest, restOf t = d :: rest ∧ d ∈ delimiters := by
  have hhead := List.head_dropWhile_not (fun x : Char => decide (x ∉ delimiters)) h
  refine ⟨(restOf t).head h, (restOf t).tail, (List.cons_head_tail h).symm, ?_⟩
  simpa [restOf] using hhead

theorem mem_restOf {x : Char} (hx : x ∈ delimiters) (h : x ∈ t) : x ∈ restOf t := by
  rw [← valueOf_append_restOf t] at h
  rcases List.mem_append.1 h with h | h
  · exact absurd h (notMem_valueOf hx)
  · exact h

/-- the first quote is at the end of the value or behind it -/
theorem indexOf_quote (hq : At reply q t) (h : '"' ∈ t) :
    (q + (valueOf t).length : ℕ) ≤ indexOfFrom reply ['"'] q ∧
      ((restOf t).head? = some '"' → indexOfFrom reply ['"'] q = (q + (valueOf t).length : ℕ)) := by
  obtain ⟨u, v, huv, hu⟩ := List.eq_append_cons_of_mem (mem_restOf (by decide) h)
  have hindex : indexOfFrom reply ['"'] q = q + (valueOf t ++ u).length := by
    refine indexOfFrom_char (b := v) ?_ (by simp [notMem_valueOf (show '"' ∈ delimiters by decide), hu])
    rw [hq.drop, List.append_assoc, ← huv, valueOf_append_restOf]
  rw [hindex, List.length_append]
  refine ⟨by push_cast; omega, fun hhead => ?_⟩
  cases u with
  | nil => simp
  | cons y u =>
    rw [huv] at hhead
    simp only [List.cons_append, List.head?_cons, Option.some.injEq] at hhead
    exact absurd (hhead ▸ List.mem_cons_self) hu

/-- the end of a value that ends, for any place to start from that is not in front of it -/
theorem endOfValue_ended (hq : At reply q t) (hrest : restOf t ≠ []) {last : ℤ} (hle : (q + (valueOf t).length : ℕ) ≤ last)
    (hlast : (restOf t).head? = some '"' → last = (q + (valueOf t).length : ℕ)) :
    endOfValue reply last q = (q + (valueOf t).length : ℕ) := by
  obtain ⟨d, rest, hcons, hd⟩ := restOf_cons hrest
  have hat : At reply q (valueOf t ++ d :: rest) := by rwa [← hcons, valueOf_append_restOf]
  refine endOfValue_eq hat (fun x hx => notMem_valueOf hx) hd hle ?_
  rintro rfl
  exact hlast (by rw [hcons]; rfl)

/-- the end of a value with a quote somewhere behind it -/
theorem endOfValue_quoted (hq : At reply q t) (hquote : '"' ∈ t) :
    endOfValue reply (indexOfFrom reply ['"'] q) q = (q + (valueOf t).length : ℕ) := by
  obtain ⟨hle, hlast⟩ := indexOf_quote hq hquote
  exact endOfValue_ended hq (List.ne_nil_of_mem (mem_restOf (by decide) hquote)) hle hlast

/-- the end of a value that may not end -/
theorem endOfValue_any (hq : At reply q t) (hlen : reply.length ≤ maxInt) :
    endOfValue reply (isMin maxInt (indexOfFrom reply ['"'] q)) q =
      if restOf t = [] then maxInt else (q + (valueOf t).length : ℕ) := by
  split_ifs with hrest
  · have hnone (x : Char) (hx : x ∈ delimiters) : indexOfFrom reply [x] q = -1 := by
      refine indexOfFrom_char_none ?_
      rw [hq.drop]
      exact fun hmem => by simpa [hrest] using mem_restOf hx hmem
    unfold endOfValue
    rw [hnone '"' (by decide), hnone '?' (by decide), hnone '&' (by decide), hnone '>' (by decide)]
    rfl
  · have hle : ((q + (valueOf t).length : ℕ) : ℤ) ≤ maxInt := by
      have hat : At reply q (valueOf t ++ restOf t) := by rwa [valueOf_append_restOf]
      have := hat.skip.le_length
      omega
    by_cases hquote : '"' ∈ t
    · obtain ⟨hbehind, hlast⟩ := indexOf_quote hq hquote
      refine endOfValue_ended hq hrest (le_isMin hle (.inr hbehind)) fun hhead => ?_
      rw [hlast hhead]
      exact isMin_eq_right (by omega) hle
    · have hnone : indexOfFrom reply ['"'] q = -1 := indexOfFrom_char_none (by rwa [hq.drop])
      rw [hnone]
      refine endOfValue_ended hq hrest hle fun hhead => ?_
      have hmem : '"' ∈ valueOf t ++ restOf t := List.mem_append_right _ (List.mem_of_mem_head? hhead)
      rw [valueOf_append_restOf] at hmem
      exact absurd hmem hquote

/-- a number that is cut out -/
theorem read_number (hq : At reply q t) {n : ℤ} (h : parseInt (valueOf t) = .ok n) :
    (substring reply q (q + (valueOf t).length : ℕ) >>= parseInt) = .ok n := by
  have hat : At reply q (valueOf t ++ restOf t) := by rwa [valueOf_append_restOf]
  have hsub := hat.substring
  push_cast
  rw [hsub]
  exact h

theorem read_value {p : ℕ} (hq : At reply p t) (h : restOf t ≠ []) :
    substring reply p (endIndex p t) = .ok (valueOf t) := by
  have hend : endIndex p t = (p + (valueOf t).length : ℕ) := if_neg h
  have hat : At reply p (valueOf t ++ restOf t) := by rwa [valueOf_append_restOf]
  rw [hend]
  push_cast
  exact hat.substring

/-! ## Reading parameters -/

/-- where the next parameter is looked for: at a delimiter, or behind the reply -/
def Reached (reply : Text) (pos : ℤ) (t : Text) : Prop :=
  (∃ p : ℕ, pos = p ∧ At reply p t ∧ ∃ d ∈ delimiters, t.head? = some d) ∨ (t = [] ∧ (reply.length : ℤ) ≤ pos)

variable {pos : ℤ} {isInt : Bool} {ks : List (Text × Bool)} {vs : List (Option Text)}

theorem indexOfFrom_absent (h : At reply q t) (hnot : ¬ key <:+: t) : indexOfFrom reply key q = -1 := by
  simp [indexOfFrom, h.drop, find_eq_none.2 hnot]

theorem indexOfFrom_reached (h : Reached reply pos t) (hnot : ¬ key <:+: t) : indexOfFrom reply key pos = -1 := by
  rcases h with ⟨p, rfl, hat, -⟩ | ⟨rfl, hle⟩
  · exact indexOfFrom_absent hat hnot
  · have hdrop : reply.drop pos.toNat = [] := List.drop_eq_nil_of_le (by omega)
    simp [indexOfFrom, hdrop, find_eq_none.2 hnot]

/-- a key does not begin with a delimiter -/
def IsKey (key : Text) : Bool := key.head?.any (· ∉ delimiters)

/-- a parameter is read, and the next one is looked for behind it -/
theorem extractParam_params (hpos : Reached reply pos t) (hkey : IsKey key = true) (h : Params ((key, isInt) :: ks) t vs) :
    ∃ v p t' vs', extractParam reply key pos = .ok (v, p) ∧ Reached reply p t' ∧ Params ks t' vs' ∧ vs = v :: vs' ∧
      ∀ w, v = some w → isInt = true → IsInt w := by
  obtain _ | ⟨x, k⟩ := key
  · cases hkey
  have hx : x ∉ delimiters := of_decide_eq_true hkey
  cases h with
  | @absent _ _ _ _ vs' hnot hks =>
    refine ⟨none, pos, t, vs', ?_, hpos, hks, rfl, fun w hw => by cases hw⟩
    simp [extractParam, computeLastIndex, indexOfFrom_reached hpos hnot]
  | @here _ _ v i _ _ vs' hfind hv hquote hint hks =>
    obtain ⟨p, rfl, hat, d, hd, hhead⟩ | ⟨rfl, -⟩ := hpos
    swap
    · cases hfind
    -- the key is behind the delimiter
    have hi : 1 ≤ i := by
      by_contra hlt
      obtain rfl : i = 0 := by omega
      obtain ⟨-, hpre, -⟩ := find_eq_some hfind
      obtain ⟨r, hr⟩ := hpre
      rw [List.drop_zero] at hr
      rw [← hr] at hhead
      exact hx (Option.some.inj hhead ▸ hd)
    obtain ⟨hle, ⟨r, hr⟩, -⟩ := find_eq_some hfind
    have hsplit : t = (t.take i ++ (x :: k)) ++ v := by
      rw [hv, ← List.drop_drop, ← hr, List.drop_left, List.append_assoc, hr, List.take_append_drop]
    have hlen : (t.take i ++ (x :: k)).length = i + (x :: k).length := by
      rw [List.length_append, List.length_take, min_eq_left (by omega)]
    have hbehind : At reply (p + (i + (x :: k).length)) v := by
      rw [← hlen]
      exact At.skip (hsplit ▸ hat)
    have hend : computeLastIndex reply (x :: k) p = (p + (i + (x :: k).length) + (valueOf v).length : ℕ) := by
      have hne : ((p + i : ℕ) : ℤ) ≠ -1 := by omega
      have hstart : ((p + i : ℕ) : ℤ) + (x :: k).length = (p + (i + (x :: k).length) : ℕ) := by push_cast; ring
      simp only [computeLastIndex, hat.indexOfFrom hfind, if_neg hne, hstart]
      exact endOfValue_quoted hbehind hquote
    have hrest := List.ne_nil_of_mem (mem_restOf (by decide) hquote)
    obtain ⟨d', rest, hcons, hd'⟩ := restOf_cons hrest
    have hreached : At reply (p + (i + (x :: k).length) + (valueOf v).length) (restOf v) :=
      At.skip ((valueOf_append_restOf v).symm ▸ hbehind)
    refine ⟨_, _, restOf v, vs', ?_, .inl ⟨_, rfl, hreached, d', hd', by rw [hcons]; rfl⟩, hks, rfl, ?_⟩
    · have hmoved : ((p + (i + (x :: k).length) + (valueOf v).length : ℕ) : ℤ) ≠ p := by
        rw [List.length_cons]
        omega
      have hrange : (0 : ℤ) ≤ p + (x :: k).length + 1 ∧
          (p : ℤ) + (x :: k).length + 1 ≤ (p + (i + (x :: k).length) + (valueOf v).length : ℕ) ∧
          ((p + (i + (x :: k).length) + (valueOf v).length : ℕ) : ℤ) ≤ reply.length := by
        have := hreached.le_length
        omega
      have hcut : (reply.take (p + (i + (x :: k).length) + (valueOf v).length)).drop (p + (x :: k).length + 1) =
          (t.take (i + (x :: k).length + (valueOf v).length)).drop ((x :: k).length + 1) := by
        obtain ⟨a, rfl, rfl⟩ := hat
        rw [Nat.add_assoc a.length, Nat.add_assoc a.length, List.take_length_add_append, List.drop_length_add_append]
      have hnat : ((p : ℤ) + (x :: k).length + 1).toNat = p + (x :: k).length + 1 := by omega
      simp only [extractParam, hend, ne_eq, hmoved, not_false_eq_true, if_true, substring, if_pos hrange, Except.map,
        Int.toNat_natCast, hnat, hcut]
    · rintro w ⟨⟩ hw
      exact hint hw

theorem extractIntParam_params (hpos : Reached reply pos t) (hkey : IsKey key = true) (h : Params ((key, true) :: ks) t vs) :
    ∃ n v p t' vs', extractIntParam reply key pos = .ok (n, p) ∧ Reached reply p t' ∧ Params ks t' vs' ∧ vs = v :: vs' ∧
      (n = none → v = none) := by
  obtain ⟨v, p, t', vs', hread, hreached, hks, rfl, hint⟩ := extractParam_params hpos hkey h
  cases v with
  | none => exact ⟨none, none, p, t', vs', by rw [extractIntParam, hread]; rfl, hreached, hks, rfl, fun _ => rfl⟩
  | some w =>
    obtain ⟨n, hn⟩ := hint w rfl rfl
    refine ⟨some n, some w, p, t', vs', ?_, hreached, hks, rfl, fun h => by cases h⟩
    rw [extractIntParam, hread]
    simp only [bind, Except.bind, hn]
    rfl

/-- the parameters of the links -/
def postCommentKeys : List (Text × Bool) := [("comment_table=".toList, false), ("storyId=".toList, true), ("parent=".toList, true)]

def viewCommentKeys : List (Text × Bool) :=
  [("comment_table=".toList, false), ("storyId=".toList, true), ("commentId=".toList, true), ("filter=".toList, true),
    ("display=".toList, true)]

def moderateCommentKeys : List (Text × Bool) := [("comment_table=".toList, false), ("commentId=".toList, true)]

def acceptRejectKeys : List (Text × Bool) := [("storyId=".toList, true)]

def categoryKeys : List (Text × Bool) := [("categoryName=".toList, false)]

theorem readPostComment_params (hpos : Reached reply pos t) (h : Readable postCommentKeys t) :
    ∃ l, readPostComment reply pos = .ok l ∧
      (l.comment_table = none ∨ l.storyId = none ∨ l.parent = none → Lacks postCommentKeys t) := by
  obtain ⟨vs, h⟩ := h
  obtain ⟨v₁, p₁, t₁, vs₁, e₁, r₁, h₁, rfl, -⟩ := extractParam_params hpos (by decide) h
  obtain ⟨n₂, v₂, p₂, t₂, vs₂, e₂, r₂, h₂, rfl, i₂⟩ := extractIntParam_params r₁ (by decide) h₁
  obtain ⟨n₃, v₃, p₃, t₃, vs₃, e₃, -, -, rfl, i₃⟩ := extractIntParam_params r₂ (by decide) h₂
  refine ⟨⟨v₁, n₂, n₃⟩, bind_eq_ok.2 ⟨_, e₁, bind_eq_ok.2 ⟨_, e₂, bind_eq_ok.2 ⟨_, e₃, rfl⟩⟩⟩, fun hnone => ⟨_, h, ?_⟩⟩
  rcases hnone with hv | hv | hv
  · simp [show v₁ = none from hv]
  · simp [i₂ hv]
  · simp [i₃ hv]

theorem readViewComment_params (hpos : Reached reply pos t) (h : Readable viewCommentKeys t) :
    ∃ l, readViewComment reply pos = .ok l ∧ (l.comment_table = none ∨ l.storyId = none ∨ l.commentId = none ∨
      l.filter = none ∨ l.display = none → Lacks viewCommentKeys t) := by
  obtain ⟨vs, h⟩ := h
  obtain ⟨v₁, p₁, t₁, vs₁, e₁, r₁, h₁, rfl, -⟩ := extractParam_params hpos (by decide) h
  obtain ⟨n₂, v₂, p₂, t₂, vs₂, e₂, r₂, h₂, rfl, i₂⟩ := extractIntParam_params r₁ (by decide) h₁
  obtain ⟨n₃, v₃, p₃, t₃, vs₃, e₃, r₃, h₃, rfl, i₃⟩ := extractIntParam_params r₂ (by decide) h₂
  obtain ⟨n₄, v₄, p₄, t₄, vs₄, e₄, r₄, h₄, rfl, i₄⟩ := extractIntParam_params r₃ (by decide) h₃
  obtain ⟨n₅, v₅, p₅, t₅, vs₅, e₅, -, -, rfl, i₅⟩ := extractIntParam_params r₄ (by decide) h₄
  refine ⟨⟨v₁, n₂, n₃, n₄, n₅⟩, bind_eq_ok.2 ⟨_, e₁, bind_eq_ok.2 ⟨_, e₂, bind_eq_ok.2 ⟨_, e₃, bind_eq_ok.2 ⟨_, e₄,
    bind_eq_ok.2 ⟨_, e₅, rfl⟩⟩⟩⟩⟩, fun hnone => ⟨_, h, ?_⟩⟩
  rcases hnone with hv | hv | hv | hv | hv
  · simp [show v₁ = none from hv]
  · simp [i₂ hv]
  · simp [i₃ hv]
  · simp [i₄ hv]
  · simp [i₅ hv]

theorem readModerateComment_params (hpos : Reached reply pos t) (h : Readable moderateCommentKeys t) :
    ∃ l, readModerateComment reply pos = .ok l ∧ (l.1 = none ∨ l.2 = none → Lacks moderateCommentKeys t) := by
  obtain ⟨vs, h⟩ := h
  obtain ⟨v₁, p₁, t₁, vs₁, e₁, r₁, h₁, rfl, -⟩ := extractParam_params hpos (by decide) h
  obtain ⟨n₂, v₂, p₂, t₂, vs₂, e₂, -, -, rfl, i₂⟩ := extractIntParam_params r₁ (by decide) h₁
  refine ⟨(v₁, n₂), bind_eq_ok.2 ⟨_, e₁, bind_eq_ok.2 ⟨_, e₂, rfl⟩⟩, fun hnone => ⟨_, h, ?_⟩⟩
  rcases hnone with hv | hv
  · simp [show v₁ = none from hv]
  · simp [i₂ hv]

/-! ## The occurrence that is drawn -/

variable {α β : Type} {ts : List Text} {skipFirst : Bool}

/-- the program over the draws does not throw, and its value is so -/
def Gives (d : Draw α) (Q : α → Prop) : Prop := ∀ r, Ensures d r (fun a _ => Q a) fun _ => False

theorem gives_pure {Q : α → Prop} {a : α} (h : Q a) : Gives (pure a : Draw α) Q := fun _ => ensures_pure h

theorem gives_bind {d : Draw α} {f : α → Draw β} {Q : α → Prop} {R : β → Prop} (hd : Gives d Q)
    (hf : ∀ a, Q a → Gives (f a) R) : Gives (d >>= f) R := fun r => ensures_bind (hd r) fun a r' ha => hf a ha r'

theorem gives_ok {x : Except Exc α} {a : α} (hx : x = .ok a) : Gives (StateT.lift x : Draw α) (· = a) := by
  intro r
  refine ensures_lift (fun b hb => ?_) fun e he => ?_
  · cases hx.symm.trans hb
    rfl
  · cases hx.symm.trans he

theorem gives_nextInt {n : ℤ} (hn : 0 < n) : Gives (nextInt n) fun _ => True := by
  intro r
  unfold nextInt
  rw [if_neg (by omega)]
  exact trivial

theorem follows_of_occurs (h : Occurs key text ts) {m : ℕ} (ht : ts[m]? = some t) :
    ∃ a, text = a ++ (key ++ t) ∧ (0 < m → key <:+: a) := by
  induction h generalizing m with
  | none => cases ht
  | @cons s t₀ ts hfind _ ih =>
    cases m with
    | zero =>
      obtain rfl : t₀ = t := Option.some.inj ht
      exact ⟨s, rfl, fun h => absurd h (lt_irrefl 0)⟩
    | succ m =>
      obtain ⟨a, rfl, -⟩ := ih ht
      exact ⟨s ++ (key ++ a), by simp, fun _ => (List.infix_append' s key a).trans (by simp)⟩

/-- the search misses no second occurrence -/
theorem not_follows_of_occurs (h : Occurs key text ts) (hn : ts.length = 0 ∨ skipFirst ∧ ts.length ≤ 1) :
    ¬ Follows key skipFirst text t := by
  rintro ⟨a, hsplit, hskip⟩
  cases h with
  | none hnot => exact hnot ⟨a, t, by rw [hsplit, List.append_assoc]⟩
  | @cons s t₀ ts hfind ht =>
    obtain ⟨hs, hle⟩ : skipFirst = true ∧ ts.length = 0 := by simpa using hn
    obtain rfl : ts = [] := List.length_eq_zero_iff.1 hle
    obtain ⟨u, v, rfl⟩ := hskip hs
    -- the first one is not behind the one that is skipped, so what follows it has the other one
    have hbefore : s.length ≤ u.length := by
      by_contra hlt
      obtain ⟨-, -, hfirst⟩ := find_eq_some hfind
      refine hfirst u.length (by omega) ⟨v ++ (key ++ t), ?_⟩
      rw [hsplit]
      simp
    refine ht.absent ⟨(u ++ key ++ v).drop (s.length + key.length), t, ?_⟩
    have hdrop : (s ++ (key ++ t₀)).drop (s.length + key.length) = t₀ := by simp [← List.drop_drop]
    have htail : (u ++ key ++ v ++ (key ++ t)).drop (s.length + key.length) =
        (u ++ key ++ v).drop (s.length + key.length) ++ (key ++ t) :=
      List.drop_append_of_le_length (by simp only [List.length_append]; omega)
    rw [List.append_assoc, ← htail, ← hsplit, hdrop]

/-- **The occurrence that is drawn** is one of the text. -/
theorem randomComputeLastIndex_gives (hkey : key ≠ []) (hlen : text.length ≤ maxInt) (skipFirst : Bool) :
    Gives (randomComputeLastIndex (some text) key skipFirst) fun a =>
      (a = none ∧ ∀ t, ¬ Follows key skipFirst text t) ∨
      ∃ (p : ℕ) (t : Text), a = some ((p : ℤ), endIndex p t) ∧ At text p t ∧ Follows key skipFirst text t := by
  intro r
  obtain ⟨ts, hts⟩ := Occurs.exists_occurs hkey text
  by_cases hn : ts.length = 0 ∨ skipFirst ∧ ts.length ≤ 1
  · have hrun : (randomComputeLastIndex (some text) key skipFirst).run r = .ok (none, r) := by
      simp only [randomComputeLastIndex, count_of_occurs hts hkey]
      change (if ts.length = 0 ∨ skipFirst ∧ ts.length ≤ 1 then _ else _ : Draw _).run r = _
      rw [if_pos hn]
      rfl
    unfold Ensures
    rw [hrun]
    exact .inl ⟨rfl, fun t => not_follows_of_occurs hts hn⟩
  · have hlt := drawn_lt hn (r 0)
    have ht := List.getElem?_eq_getElem hlt
    have hstart : At text 0 text := ⟨[], rfl, rfl⟩
    obtain ⟨p, hp, hat⟩ := pickKey_of_occurs hstart hts ht (k := -key.length) (by simp)
    have hend := endOfValue_any hat hlen
    have hrun : (randomComputeLastIndex (some text) key skipFirst).run r =
        .ok (some ((p : ℤ), endIndex p ts[drawn skipFirst ts.length (r 0)]), fun i => r (i + 1)) := by
      simp only [randomComputeLastIndex, count_of_occurs hts hkey]
      change (if ts.length = 0 ∨ skipFirst ∧ ts.length ≤ 1 then _ else _ : Draw _).run r = _
      rw [if_neg hn, StateT.run_bind, nextInt_run (fun h0 => hn (.inl h0))]
      have hcount : (if skipFirst ∧ r 0 % ts.length + 1 = 1 then r 0 % ts.length + 1 + 1 else r 0 % ts.length + 1) =
          drawn skipFirst ts.length (r 0) + 1 := by
        unfold drawn
        simp only [Nat.add_eq_right]
        split_ifs <;> rfl
      change Except.ok _ = _
      simp only [hcount, hp, hend]
      rfl
    unfold Ensures
    rw [hrun]
    obtain ⟨a, hsplit, hskip⟩ := follows_of_occurs hts ht
    exact .inr ⟨p, _, rfl, hat, a, hsplit, fun hs => hskip (drawn_pos hs)⟩

/-- a number behind the occurrence that is drawn -/
theorem storyIdFromHTML_gives (hlen : text.length ≤ maxInt)
    (h : ∀ t, Follows "storyId=".toList false text t → Number t) :
    Gives (storyIdFromHTML text) fun id =>
      (id = none ∧ ∀ t, ¬ Follows "storyId=".toList false text t) ∨
      ∃ t n, id = some n ∧ Follows "storyId=".toList false text t ∧ parseInt (valueOf t) = .ok n := by
  unfold storyIdFromHTML
  refine gives_bind (randomComputeLastIndex_gives (by decide) hlen false) fun a ha => ?_
  rcases ha with ⟨rfl, hnot⟩ | ⟨p, t, rfl, hat, hfollows⟩
  · exact gives_pure (.inl ⟨rfl, hnot⟩)
  · obtain ⟨hrest, n, hn⟩ := h t hfollows
    have hend : endIndex p t = (p + (valueOf t).length : ℕ) := if_neg hrest
    simp only [hend]
    exact gives_bind (gives_ok (read_number hat hn)) fun m hm => gives_pure (.inr ⟨t, n, by rw [hm], hfollows, hn⟩)

theorem extractCategoryFromHTML_gives (hlen : text.length ≤ maxInt)
    (h : ∀ t, Follows "category=".toList false text t → Number t ∧ ∃ v, Params categoryKeys (restOf t) [some v]) :
    Gives (extractCategoryFromHTML (some text)) fun c =>
      (c = none ∧ ∀ t, ¬ Follows "category=".toList false text t) ∨ ∃ id name, c = some (id, some name) := by
  unfold extractCategoryFromHTML
  refine gives_bind (randomComputeLastIndex_gives (by decide) hlen false) fun a ha => ?_
  rcases ha with ⟨rfl, hnot⟩ | ⟨p, t, rfl, hat, hfollows⟩
  · exact gives_pure (.inl ⟨rfl, hnot⟩)
  · obtain ⟨⟨hrest, n, hn⟩, v, hparams⟩ := h t hfollows
    have hend : endIndex p t = (p + (valueOf t).length : ℕ) := if_neg hrest
    obtain ⟨d, rest, hcons, hd⟩ := restOf_cons hrest
    have hbehind : At text (p + (valueOf t).length) (restOf t) := At.skip ((valueOf_append_restOf t).symm ▸ hat)
    obtain ⟨v', p', t', vs', hread, -, -, hvs, -⟩ :=
      extractParam_params (.inl ⟨_, rfl, hbehind, d, hd, by rw [hcons]; rfl⟩) (by decide) hparams
    obtain ⟨rfl, -⟩ := List.cons.inj hvs
    simp only [hend]
    refine gives_bind (gives_ok (read_number hat hn)) fun m _ => ?_
    exact gives_bind (gives_ok hread) fun r hr => gives_pure (.inr ⟨m, v, by rw [hr]⟩)

/-- a link that is drawn, with the parameters behind it -/
theorem extractLink_gives {file : Text} (hfile : file ≠ []) (hlen : text.length ≤ maxInt)
    {read : Text → ℤ → Except Exc α} {R : Text → α → Prop}
    (h : ∀ t pos, Follows file skipFirst text t → Reached text pos (restOf t) → ∃ v, read text pos = .ok v ∧ R t v) :
    Gives (extractLink (some text) file skipFirst read) fun a =>
      (a = none ∧ ∀ t, ¬ Follows file skipFirst text t) ∨ ∃ t v, a = some v ∧ Follows file skipFirst text t ∧ R t v := by
  unfold extractLink
  refine gives_bind (randomComputeLastIndex_gives hfile hlen skipFirst) fun a ha => ?_
  rcases ha with ⟨rfl, hnot⟩ | ⟨p, t, rfl, hat, hfollows⟩
  · exact gives_pure (.inl ⟨rfl, hnot⟩)
  · have hreached : Reached text (endIndex p t) (restOf t) := by
      unfold endIndex
      split_ifs with hrest
      · exact .inr ⟨hrest, hlen⟩
      · obtain ⟨d, rest, hcons, hd⟩ := restOf_cons hrest
        have hbehind : At text (p + (valueOf t).length) (restOf t) := At.skip ((valueOf_append_restOf t).symm ▸ hat)
        exact .inl ⟨_, rfl, hbehind, d, hd, by rw [hcons]; rfl⟩
    obtain ⟨v, hread, hv⟩ := h t _ hfollows hreached
    exact gives_bind (gives_ok hread) fun w hw => gives_pure (.inr ⟨t, v, by rw [hw], hfollows, hv⟩)

theorem extractAcceptReject_gives {file : Text} (hfile : file ≠ []) (hlen : text.length ≤ maxInt)
    (h : ∀ t, Follows file false text t → Readable acceptRejectKeys (restOf t)) :
    Gives (extractAcceptRejectStoryIdFromHTML (some text) file) fun _ => True := by
  refine gives_bind (extractLink_gives (R := fun _ _ => True) hfile hlen fun t pos hfollows hreached => ?_)
    fun _ _ => gives_pure trivial
  obtain ⟨vs, hvs⟩ := h t hfollows
  obtain ⟨n, v, p, t', vs', hread, -⟩ := extractIntParam_params hreached (by decide) hvs
  exact ⟨n, by rw [hread]; rfl, trivial⟩

/-! ## Numbers behind the first occurrences -/

theorem read_quoted (hat : At text q t) (h : QuotedNumber t) :
    ∃ n, (substring text q (endOfValue text (indexOfFrom text ['"'] q) q) >>= parseInt) = .ok n := by
  obtain ⟨hquote, n, hn⟩ := h
  rw [endOfValue_quoted hat hquote]
  exact ⟨n, read_number hat hn⟩

theorem at_follower (s key t : Text) : At (s ++ (key ++ t)) (s.length + key.length) t := ⟨s ++ key, by simp, by simp⟩

theorem gives_quoted {p : ℕ} {i : ℤ} (hi : i = p) (hat : At text p t) (ht : QuotedNumber t) :
    Gives (StateT.lift (substring text i (endOfValue text (indexOfFrom text ['"'] i) i) >>= parseInt) : Draw ℤ)
      fun _ => True := by
  obtain ⟨n, hn⟩ := read_quoted hat ht
  rw [hi]
  exact fun r => (gives_ok hn r).mono (fun _ _ _ => trivial) fun _ h => h

theorem extractPageFromHTML_gives (h : FirstNumbers 2 "&page=".toList text) :
    Gives (extractPageFromHTML (some text)) fun _ => True := by
  have hkey : ("&page=".toList.length : ℤ) = 6 := by decide
  obtain ⟨ts, hts⟩ := Occurs.exists_occurs (show "&page=".toList ≠ [] by decide) text
  have hnumbers := h ts hts
  unfold extractPageFromHTML
  simp only
  cases hts with
  | none hnot =>
    rw [if_pos (indexOf_eq_neg_one.2 hnot)]
    exact gives_pure trivial
  | @cons s t ts hfind ht =>
    have hfirst : At (s ++ ("&page=".toList ++ t)) (s.length + "&page=".toList.length) t := at_follower s _ t
    have hstart : (s.length : ℤ) + 6 = (s.length + "&page=".toList.length : ℕ) := by rw [← hkey]; push_cast; rfl
    have hread := gives_quoted hstart hfirst (hnumbers t (by simp))
    rw [indexOf_of_find hfind, if_neg (by omega)]
    split_ifs with hsecond
    · refine gives_bind (gives_nextInt (by norm_num)) fun n _ => ?_
      split_ifs
      · cases ht with
        | none hnot =>
          rw [hstart] at hsecond
          exact absurd (indexOfFrom_absent hfirst hnot) hsecond
        | @cons s' t' ts' hfind' ht' =>
          have hindex := hfirst.indexOfFrom hfind'
          rw [hstart, hindex]
          refine gives_quoted ?_ hfirst.skip.skip (hnumbers t' (by simp))
          rw [← hkey]
          push_cast
          rfl
      · exact hread
    · exact hread

theorem extractIntFromHTML_ok (h : FirstNumbers 1 key text) (hkey : key ≠ []) :
    ∃ n, extractIntFromHTML (some text) key = .ok n := by
  obtain ⟨ts, hts⟩ := Occurs.exists_occurs hkey text
  have hnumbers := h ts hts
  unfold extractIntFromHTML
  simp only
  cases hts with
  | none hnot => exact ⟨-1, if_pos (indexOf_eq_neg_one.2 hnot)⟩
  | @cons s t ts hfind ht =>
    obtain ⟨n, hn⟩ := read_quoted (at_follower s key t) (hnumbers t (by simp))
    have hstart : (s.length : ℤ) + key.length = (s.length + key.length : ℕ) := by push_cast; rfl
    rw [indexOf_of_find hfind, if_neg (by omega), hstart]
    exact ⟨n, hn⟩

/-! ## Texts and dates -/

theorem randomWord_gives (dictionary : WordList) :
    Gives (randomWordFromDictionary dictionary true) fun w => w ≠ [] := by
  have hpos : (0 : ℤ) < dictionary.wordarray.length := by
    have := List.length_pos_of_ne_nil dictionary.nonempty
    omega
  unfold randomWordFromDictionary
  refine gives_bind (gives_nextInt hpos) fun pos _ => ?_
  refine gives_bind (gives_nextInt (by norm_num)) fun n _ => ?_
  exact gives_pure (by simp [punctuation_ne_nil])

theorem fillText_gives (dictionary : WordList) {size fuel : ℕ} {text : Text} (h : size < fuel + text.length) (hf : 0 < fuel) :
    Gives (fillText dictionary size fuel text) fun _ => True := by
  induction fuel generalizing text with
  | zero => omega
  | succ fuel ih =>
    unfold fillText
    refine gives_bind (randomWord_gives dictionary) fun w hw => ?_
    have hpos := List.length_pos_of_ne_nil hw
    simp only
    split_ifs with hlt
    · rw [List.length_append] at hlt
      exact ih (by rw [List.length_append]; omega) (by omega)
    · exact gives_pure trivial

section

variable (e : Env)

theorem shortText_gives : Gives (shortText e) fun _ => True :=
  gives_bind (gives_nextInt (by norm_num)) fun size _ =>
    gives_bind (fillText_gives _ (by simp) (by omega)) fun _ _ => gives_pure trivial

theorem longTextOf_gives {n : ℤ} (hn : 0 < n) : Gives (longTextOf e n) fun _ => True :=
  gives_bind (gives_nextInt hn) fun size _ => fillText_gives _ (by simp) (by omega)

theorem olderStoriesDate_gives : Gives (olderStoriesDate e) fun _ => True := by
  unfold olderStoriesDate
  refine gives_bind (gives_nextInt (by norm_num)) fun w _ => gives_bind (Q := fun _ => True) ?_ fun d _ => gives_pure trivial
  split_ifs
  · exact gives_bind (gives_nextInt (by norm_num)) fun _ _ => gives_bind (gives_nextInt (by norm_num)) fun _ _ =>
      gives_bind (gives_nextInt (by norm_num)) fun _ _ => gives_pure trivial
  · exact gives_pure trivial

end

/-! ## One pass through the switch -/

/-- the properties that the draws need -/
structure Configured (e : Env) : Prop where
  users : 0 < e.rubbos.nbOfUsers
  comments : 0 < e.rubbos.commentMaxLength
  stories : 0 < e.rubbos.storyMaximumLength

/-- what a state needs of the reply that it looks at -/
def Looks (version : Version) (lastCategoryName : Option Text) (text : Text) : ℤ → Prop
  | 5 =>
    (∀ t, Follows "category=".toList false text t → Number t ∧ ∃ v, Params categoryKeys (restOf t) [some v]) ∧
    ((∀ t, ¬ Follows "category=".toList false text t) → lastCategoryName ≠ none) ∧ FirstNumbers 2 "&page=".toList text
  | 6 | 16 | 17 | 18 => FirstNumbers 2 "&page=".toList text
  | 7 => ∀ t, Follows "storyId=".toList false text t → Number t
  | 8 => ∀ t, Follows (Script.PostComment.file version) false text t → Readable postCommentKeys (restOf t)
  | 9 => ∀ t, Follows "name=comment_table value=".toList false text t →
      restOf t ≠ [] ∧ FirstNumbers 1 "name=storyId value=".toList text ∧ FirstNumbers 1 "name=parent value=".toList text
  | 10 => ∀ t, Follows (Script.ViewComment.file version) true text t → Readable viewCommentKeys (restOf t)
  | 11 => ∀ t, Follows (Script.ModerateComment.file version) false text t → Readable moderateCommentKeys (restOf t)
  | 12 => ∀ t, Follows "name=comment_table value=".toList false text t →
      restOf t ≠ [] ∧ FirstNumbers 1 "name=commentId value=".toList text
  | 14 => ∀ t, Follows "OPTION value=\"".toList false text t → Number t
  | 22 => ∀ t, Follows (Script.AcceptStory.file version) false text t → Readable acceptRejectKeys (restOf t)
  | 23 => ∀ t, Follows (Script.RejectStory.file version) false text t → Readable acceptRejectKeys (restOf t)
  | _ => True

/-- a state may go back -/
def GoesBack (version : Version) (lastStoryId : ℤ) (text : Text) : ℤ → Prop
  | 7 => (lastStoryId = -1 ∧ ∀ t, ¬ Follows "storyId=".toList false text t) ∨
      ∃ t, Follows "storyId=".toList false text t ∧ parseInt (valueOf t) = .ok (-1)
  | 8 => ∃ t, Follows (Script.PostComment.file version) false text t ∧ Lacks postCommentKeys (restOf t)
  | 10 => (∀ t, ¬ Follows (Script.ViewComment.file version) true text t) ∨
      ∃ t, Follows (Script.ViewComment.file version) true text t ∧ Lacks viewCommentKeys (restOf t)
  | 11 => (∀ t, ¬ Follows (Script.ModerateComment.file version) false text t) ∨
      ∃ t, Follows (Script.ModerateComment.file version) false text t ∧ Lacks moderateCommentKeys (restOf t)
  | _ => False

/-- what a state that goes back has kept -/
structure Kept (text : Text) (s s' : Session) : Prop where
  lastHTMLReply : s'.lastHTMLReply = s.lastHTMLReply
  lastCategoryName : s'.lastCategoryName = s.lastCategoryName
  lastStoryId : s'.lastStoryId = s.lastStoryId ∨ ∃ t, Follows "storyId=".toList false text t

section Pass

variable {e : Env} {s s₀ : Session} {state : ℤ}

/-- a pass ends, or it goes back -/
def Ended (e : Env) (text : Text) (state : ℤ) (s₀ : Session) (n : Next) (s' : Session) : Prop :=
  n = .goBack → GoesBack e.urlGen.version s₀.lastStoryId text state ∧ s'.transition = s₀.transition ∧ Kept text s₀ s'

theorem draw_gives {d : Draw α} {Q : α → Prop} {E : Exc → Prop} (hd : Gives d Q) :
    Ensures (draw d) s (fun a s' => Q a ∧ ∃ r, s' = { s with rand := r }) E := by
  have h := hd s.rand
  unfold Ensures draw at *
  simp only [StateT.run] at h ⊢
  cases hr : d s.rand with
  | error x =>
    rw [hr] at h
    exact h.elim
  | ok r =>
    rw [hr] at h
    exact ⟨h, r.2, rfl⟩

theorem draw_then {d : Draw α} {Q : α → Prop} {f : α → M β} {R : β → Session → Prop} {E : Exc → Prop} (hd : Gives d Q)
    (hf : ∀ a r, Q a → Ensures (f a) { s with rand := r } R E) : Ensures (draw d >>= f) s R E := by
  refine ensures_bind (draw_gives hd) ?_
  rintro a s' ⟨ha, r, rfl⟩
  exact hf a r ha

theorem ok_then {x : Except Exc α} {a : α} {f : α → M β} {R : β → Session → Prop} {E : Exc → Prop} (hx : x = .ok a)
    (hf : Ensures (f a) s R E) : Ensures (StateT.lift x >>= f) s R E := by
  rw [hx]
  exact hf

theorem modify_then {m : Session → Session} {f : PUnit → M β} {R : β → Session → Prop} {E : Exc → Prop}
    (hf : Ensures (f ⟨⟩) (m s) R E) : Ensures (modify m >>= f) s R E := hf

theorem ended {n : Next} (hn : n ≠ .goBack) : Ensures (pure n : M Next) s (Ended e text state s₀) fun _ => False :=
  ensures_pure fun h => absurd h hn

theorem ended_home : Ensures (do resetToInitialState; return .page .homePage : M Next) s (Ended e text state s₀) fun _ => False :=
  ensures_bind (Q := fun _ _ => True) trivial fun _ _ _ => ended (by simp)

theorem randomWordPlain_gives (dictionary : WordList) : Gives (randomWordFromDictionary dictionary false) fun _ => True := by
  have hpos : (0 : ℤ) < dictionary.wordarray.length := by
    have := List.length_pos_of_ne_nil dictionary.nonempty
    omega
  unfold randomWordFromDictionary
  exact gives_bind (gives_nextInt hpos) fun _ _ => gives_pure trivial

theorem searchPage_ended {kind : ℤ} (hk : kind ≠ 0) {searchType : Text} {word : Draw Text} (hw : Gives word fun _ => True)
    (hreply : s.lastHTMLReply = some text) (hpage : FirstNumbers 2 "&page=".toList text) :
    Ensures (searchPage e kind hk searchType word) s (Ended e text state s₀) fun _ => False := by
  unfold searchPage
  refine ensures_bind (ensures_get (Q := fun a s' => a = s ∧ s' = s) ⟨rfl, rfl⟩) fun a s₁ h₁ => ?_
  obtain ⟨rfl, rfl⟩ := h₁
  refine ensures_bind (Q := fun _ _ => True) ?_ fun w s₂ _ => ?_
  · split_ifs
    · exact ensures_pure trivial
    · exact (draw_gives hw).mono (fun _ _ _ => trivial) fun _ h => h
  · refine modify_then ?_
    rw [hreply]
    exact draw_then (extractPageFromHTML_gives hpage) fun page r _ => ended (by simp)

/-- **One pass through the switch** does not throw on a reply that the state can read. -/
theorem urlOfState_looks (hconf : Configured e) (hreply : s.lastHTMLReply = some text) (hlen : text.length ≤ maxInt)
    (h : Looks e.urlGen.version s.lastCategoryName text state) :
    Ensures (urlOfState e state) s (Ended e text state s) fun _ => False := by
  unfold urlOfState
  refine ensures_bind (ensures_get (Q := fun a s' => a = s ∧ s' = s) ⟨rfl, rfl⟩) fun a s₁ h₁ => ?_
  obtain ⟨rfl, rfl⟩ := h₁
  simp only [hreply]
  split
  case h_1 => exact ended_home
  case h_2 | h_3 | h_5 | h_6 | h_15 | h_17 | h_21 | h_22 | h_23 | h_26 => exact ended (by simp)
  case h_4 => exact draw_then (gives_nextInt (by norm_num)) fun _ _ _ => ended (by simp)
  case h_7 =>
    obtain ⟨hcategory, hlast, hpage⟩ := h
    refine draw_then (extractCategoryFromHTML_gives hlen hcategory) fun c r hc => ?_
    refine modify_then (draw_then (extractPageFromHTML_gives hpage) fun page r' _ => ?_)
    obtain ⟨name, hname⟩ : ∃ name, (c.getD (s₁.lastCategoryId, s₁.lastCategoryName)).2 = some name := by
      rcases hc with ⟨rfl, hnot⟩ | ⟨id, name, rfl⟩
      · exact Option.ne_none_iff_exists'.1 (hlast hnot)
      · exact ⟨name, rfl⟩
    simp only [hname]
    exact ended (by simp)
  case h_8 =>
    refine draw_then (olderStoriesDate_gives e) fun d r _ => ?_
    exact draw_then (extractPageFromHTML_gives h) fun _ _ _ => ended (by simp)
  case h_9 =>
    refine draw_then (storyIdFromHTML_gives hlen h) fun id r hid => modify_then (ensures_pure fun hback => ?_)
    split_ifs at hback with hnone
    refine ⟨?_, rfl, rfl, rfl, ?_⟩
    · rcases hid with ⟨rfl, hnot⟩ | ⟨t, n, rfl, hfollows, hn⟩
      · exact .inl ⟨hnone, hnot⟩
      · obtain rfl : n = -1 := hnone
        exact .inr ⟨t, hfollows, hn⟩
    · rcases hid with ⟨rfl, hnot⟩ | ⟨t, n, rfl, hfollows, hn⟩
      · exact .inl rfl
      · exact .inr ⟨t, hfollows⟩
  case h_10 =>
    refine draw_then (extractLink_gives (Script.file_ne_nil _ _) hlen
      fun t pos hfollows hreached => readPostComment_params hreached (h t hfollows)) fun l r hl => ?_
    split
    · exact ended (by simp)
    · exact ended (by simp)
    · next l' hsome =>
      refine ensures_pure fun _ => ⟨?_, rfl, rfl, rfl, .inl rfl⟩
      rcases hl with ⟨hnone, -⟩ | ⟨t, v, hv, hfollows, hlacks⟩
      · cases hnone
      · obtain ⟨_ | c, _ | i, _ | p⟩ := v
        all_goals first | exact (hsome _ _ _ (Option.some.inj hv)).elim | exact ⟨t, hfollows, hlacks (by simp)⟩
  case h_11 =>
    refine draw_then (shortText_gives e) fun subject r _ => draw_then (longTextOf_gives e hconf.comments) fun body r' _ => ?_
    refine draw_then (randomComputeLastIndex_gives (by decide) hlen false) fun a r'' ha => ?_
    rcases ha with ⟨rfl, -⟩ | ⟨p, t, rfl, hat, hfollows⟩
    · exact ended (by simp)
    · obtain ⟨hrest, hstory, hparent⟩ := h t hfollows
      obtain ⟨n, hn⟩ := extractIntFromHTML_ok hstory (by decide)
      obtain ⟨m, hm⟩ := extractIntFromHTML_ok hparent (by decide)
      refine ok_then (read_value hat hrest) (ok_then hn (ok_then hm (ended (by simp))))
  case h_12 =>
    refine draw_then (extractLink_gives (Script.file_ne_nil _ _) hlen
      fun t pos hfollows hreached => readViewComment_params hreached (h t hfollows)) fun l r hl => ?_
    split
    · exact ended (by simp)
    · next l' hsome =>
      refine ensures_pure fun _ => ⟨?_, rfl, rfl, rfl, .inl rfl⟩
      rcases hl with ⟨-, hnot⟩ | ⟨t, v, hv, hfollows, hlacks⟩
      · exact .inl hnot
      · obtain ⟨_ | c, _ | i, _ | j, _ | f, _ | d⟩ := v
        all_goals first | exact (hsome _ _ _ _ _ hv).elim | exact .inr ⟨t, hfollows, hlacks (by simp)⟩
  case h_13 =>
    refine draw_then (extractLink_gives (Script.file_ne_nil _ _) hlen
      fun t pos hfollows hreached => readModerateComment_params hreached (h t hfollows)) fun l r hl => ?_
    split
    · exact ended (by simp)
    · next l' hsome =>
      refine ensures_pure fun _ => ⟨?_, rfl, rfl, rfl, .inl rfl⟩
      rcases hl with ⟨-, hnot⟩ | ⟨t, v, hv, hfollows, hlacks⟩
      · exact .inl hnot
      · obtain ⟨_ | c, _ | i⟩ := v
        all_goals first | exact (hsome _ _ hv).elim | exact .inr ⟨t, hfollows, hlacks (by simp)⟩
  case h_14 =>
    refine draw_then (gives_nextInt (by norm_num)) fun rating r _ => ?_
    refine draw_then (randomComputeLastIndex_gives (by decide) hlen false) fun a r' ha => ?_
    rcases ha with ⟨rfl, -⟩ | ⟨p, t, rfl, hat, hfollows⟩
    · exact ended (by simp)
    · obtain ⟨hrest, hcomment⟩ := h t hfollows
      obtain ⟨n, hn⟩ := extractIntFromHTML_ok hcomment (by decide)
      exact ok_then (read_value hat hrest) (ok_then hn (ended (by simp)))
  case h_16 =>
    refine draw_then (shortText_gives e) fun title r _ => draw_then (longTextOf_gives e hconf.stories) fun body r' _ => ?_
    refine draw_then (randomComputeLastIndex_gives (by decide) hlen false) fun a r'' ha => ?_
    rcases ha with ⟨rfl, -⟩ | ⟨p, t, rfl, hat, hfollows⟩
    · exact ended (by simp)
    · obtain ⟨hrest, n, hn⟩ := h t hfollows
      have hend : endIndex p t = (p + (valueOf t).length : ℕ) := if_neg hrest
      simp only [hend]
      exact ok_then (read_number hat hn) (ended (by simp))
  case h_18 => exact searchPage_ended _ (randomWordPlain_gives _) hreply h
  case h_19 => exact searchPage_ended _ (randomWordPlain_gives _) hreply h
  case h_20 =>
    exact searchPage_ended _ (gives_bind (gives_nextInt hconf.users) fun _ _ => gives_pure trivial) hreply h
  case h_24 | h_25 =>
    refine draw_then (extractAcceptReject_gives (Script.file_ne_nil _ _) hlen h) fun id r _ => ?_
    split
    · exact ended (by simp)
    · exact ended_home

end Pass

/-! ## The whole call -/

/-- the state that the switch gets: a reply that says sorry goes back first -/
def afterSorry (text : Text) (state : ℤ) (t : TransitionTable.St) : ℤ × TransitionTable.St :=
  if indexOf text "Sorry".toList ≠ -1 then
    ((TransitionTable.backToPreviousState t).2.value, (TransitionTable.backToPreviousState t).1)
  else (state, t)

/-- the states that a call may look at -/
inductive LooksAt (e : Env) (s : Session) (text : Text) : ℤ × TransitionTable.St → Prop
  | first : LooksAt e s text (afterSorry text s.transition.currentState s.transition)
  | back {state : ℤ} {t : TransitionTable.St} (h : LooksAt e s text (state, t))
      (hback : GoesBack e.urlGen.version s.lastStoryId text state) :
      LooksAt e s text
        (afterSorry text (TransitionTable.backToPreviousState t).2.value (TransitionTable.backToPreviousState t).1)

/-- the reply can be read in every state that the call may look at -/
def ReadableReply (e : Env) (s : Session) (text : Text) : Prop :=
  ∀ state t, LooksAt e s text (state, t) → Looks e.urlGen.version s.lastCategoryName text state

section Call

variable {e : Env} {s s₀ s₁ : Session} {state : ℤ}

theorem Kept.trans (h : Kept text s₀ s) (h' : Kept text s s₁) : Kept text s₀ s₁ where
  lastHTMLReply := h'.lastHTMLReply.trans h.lastHTMLReply
  lastCategoryName := h'.lastCategoryName.trans h.lastCategoryName
  lastStoryId := by
    rcases h'.lastStoryId with heq | hfollows
    · rw [heq]
      exact h.lastStoryId
    · exact .inr hfollows

/-- a state that goes back later could have gone back at first -/
theorem goesBack_kept (h : Kept text s₀ s) (hback : GoesBack e.urlGen.version s.lastStoryId text state) :
    GoesBack e.urlGen.version s₀.lastStoryId text state := by
  unfold GoesBack at hback ⊢
  split at hback
  · rcases hback with ⟨hid, hnot⟩ | hfound
    · rcases h.lastStoryId with heq | ⟨t, ht⟩
      · exact .inl ⟨heq ▸ hid, hnot⟩
      · exact absurd ht (hnot t)
    · exact .inr hfound
  · exact hback
  · exact hback
  · exact hback
  · exact hback

theorem backToPreviousState_run :
    Ensures backToPreviousState s (fun state s' => state = (TransitionTable.backToPreviousState s.transition).2.value ∧
      s' = { s with transition := (TransitionTable.backToPreviousState s.transition).1 }) fun x => x = .outOfFuel :=
  ⟨rfl, rfl⟩

/-- **The whole call** does not throw on a reply that can be read in every state that it may look at. -/
theorem computeURLFromState_looks (hconf : Configured e) (hreply : s₀.lastHTMLReply = some text)
    (hlen : text.length ≤ maxInt) (h : ReadableReply e s₀ text) {fuel : ℕ} (hs : Kept text s₀ s)
    (hat : LooksAt e s₀ text (afterSorry text state s.transition)) :
    Ensures (computeURLFromState e fuel state) s (fun _ _ => True) fun x => x = .outOfFuel := by
  induction fuel generalizing s state with
  | zero => exact ensures_throw rfl
  | succ fuel ih =>
    -- the switch, for a state that the call may look at, and the retry
    have hswitch {s₁ : Session} {state : ℤ} {next : Next → M (Option Text)} (hs : Kept text s₀ s₁)
        (hat : LooksAt e s₀ text (state, s₁.transition))
        (hpage : ∀ p, next (.page p) = do return some (e.urlGen.url p (← nanoTime))) (hnull : next .null = pure none)
        (hgoBack : next .goBack = do computeURLFromState e fuel (← backToPreviousState)) :
        Ensures (urlOfState e state >>= next) s₁ (fun _ _ => True) fun x => x = .outOfFuel := by
      have hlooks := h state s₁.transition hat
      rw [← hs.lastCategoryName] at hlooks
      have hpass := urlOfState_looks hconf (hs.lastHTMLReply.trans hreply) hlen hlooks
      refine ensures_bind (hpass.mono (fun _ _ hend => hend) fun _ hx => hx.elim) fun n s₂ hend => ?_
      cases n with
      | page p =>
        rw [hpage]
        exact ensures_bind (Q := fun _ _ => True) trivial fun _ _ _ => ensures_pure trivial
      | null =>
        rw [hnull]
        exact ensures_pure trivial
      | goBack =>
        rw [hgoBack]
        obtain ⟨hback, htransition, hkept⟩ := hend rfl
        refine ensures_bind backToPreviousState_run ?_
        rintro state' s₃ ⟨rfl, rfl⟩
        refine ih (hs.trans ⟨hkept.lastHTMLReply, hkept.lastCategoryName, hkept.lastStoryId⟩) ?_
        rw [htransition]
        exact .back hat (goesBack_kept hs hback)
    unfold computeURLFromState
    refine ensures_bind (ensures_get (Q := fun a s' => a = s ∧ s' = s) ⟨rfl, rfl⟩) fun a s₁ h₁ => ?_
    obtain ⟨rfl, rfl⟩ := h₁
    refine ensures_bind (Q := fun state' s' => Kept text s₀ s' ∧ LooksAt e s₀ text (state', s'.transition)) ?_ ?_
    · rw [hs.lastHTMLReply, hreply]
      unfold afterSorry at hat
      split_ifs with hsorry
      · have hsorry' : indexOf text "Sorry".toList ≠ -1 := by simpa using hsorry
        rw [if_pos hsorry'] at hat
        refine backToPreviousState_run.mono ?_ fun _ hx => hx
        rintro state' s' ⟨rfl, rfl⟩
        exact ⟨⟨hs.lastHTMLReply, hs.lastCategoryName, hs.lastStoryId⟩, hat⟩
      · have hsorry' : ¬ indexOf text "Sorry".toList ≠ -1 := by simpa using hsorry
        rw [if_neg hsorry'] at hat
        exact ensures_pure ⟨hs, hat⟩
    · rintro state' s₂ ⟨hs₂, hat₂⟩
      dsimp only
      split_ifs
      · refine modify_then (hswitch ⟨hs₂.lastHTMLReply, hs₂.lastCategoryName, hs₂.lastStoryId⟩ hat₂ ?_ rfl rfl)
        exact fun _ => rfl
      · exact hswitch hs₂ hat₂ (fun _ => rfl) rfl rfl

end Call

/-! ## Images -/

def imageTag : Text := "<IMG SRC=\"".toList

/-- every image tag that is found has its second quote, not at once -/
inductive Closed : Text → Prop
  | none {t : Text} (h : ¬ imageTag <:+: t) : Closed t
  | tag {a w b : Text} {c : Char} (hfind : find imageTag (a ++ (imageTag ++ c :: (w ++ '"' :: b))) = some a.length)
      (hw : '"' ∉ w) (h : Closed ('"' :: b)) : Closed (a ++ (imageTag ++ c :: (w ++ '"' :: b)))

theorem scanImages_closed {html : Text} (h : Closed t) (fuel : ℕ) (hat : At html q t) (hfuel : t.length < fuel) :
    ∃ names, scanImages html fuel (indexOfFrom html imageTag q) = .ok names := by
  induction h generalizing q fuel with
  | none hnot =>
    obtain ⟨fuel, rfl⟩ : ∃ n, fuel = n + 1 := ⟨fuel - 1, by omega⟩
    exact ⟨[], by rw [indexOfFrom_absent hat hnot]; rfl⟩
  | @tag a w b c hfind hw _ ih =>
    obtain ⟨fuel, rfl⟩ : ∃ n, fuel = n + 1 := ⟨fuel - 1, by omega⟩
    have htag : imageTag.length = 10 := by decide
    have hstart : At html (q + a.length + 10) (c :: (w ++ '"' :: b)) := by
      rw [← htag]
      exact hat.skip.skip
    have hend : At html (q + a.length + 10 + 1 + w.length) ('"' :: b) := hstart.next.skip
    have hquote : indexOfFrom html ['"'] (((q + a.length : ℕ) : ℤ) + 10 + 1) = (q + a.length + 10 + 1 + w.length : ℕ) := by
      have hindex := indexOfFrom_char hstart.next.drop hw
      push_cast at hindex ⊢
      exact hindex
    have hname : substring html (((q + a.length : ℕ) : ℤ) + 10) (q + a.length + 10 + 1 + w.length : ℕ) = .ok (c :: w) := by
      have hat' : At html (q + a.length + 10) ((c :: w) ++ '"' :: b) := hstart
      have hsub := hat'.substring
      rw [List.length_cons] at hsub
      push_cast at hsub ⊢
      rw [← hsub]
      congr 1
      ring
    obtain ⟨names, hnames⟩ := ih fuel hend (by simp only [List.length_append, List.length_cons] at hfuel ⊢; omega)
    refine ⟨(c :: w) :: names, ?_⟩
    have htext : "<IMG SRC=\"".toList = imageTag := rfl
    rw [scanImages, hat.indexOfFrom hfind, if_neg (by omega)]
    simp only [hquote, htext]
    exact bind_eq_ok.2 ⟨_, hname, bind_eq_ok.2 ⟨_, hnames, rfl⟩⟩

/-- the reply of a call, if there is one, has no image tag that is left open -/
theorem callHTTPServer_closed {g : URLGenerator} {p : Page} {n : ℤ} {x : Exchange}
    (h : ∀ html, x.reply = some html → Closed html) : ∃ r, callHTTPServer g (g.url p n) x = .ok r := by
  obtain ⟨id, hid, -⟩ := imageID_url_iff g p n
  unfold callHTTPServer
  rw [hid]
  change ∃ r, (if 5 ≤ x.failures then _ else _) = _
  split_ifs
  · exact ⟨_, rfl⟩
  · cases hreply : x.reply with
    | none => exact ⟨_, rfl⟩
    | some html =>
      obtain ⟨names, hnames⟩ := scanImages_closed (q := 0) (h html hreply) (html.length + 1) ⟨[], rfl, rfl⟩ (by omega)
      have himages : images html = .ok names := by
        rw [images, indexOf_eq_indexOfFrom]
        exact hnames
      rcases hurls : download g id x 0 names with ⟨urls, _ | msg⟩
      all_goals simp only [himages, bind, Except.bind, hurls]
      · exact ⟨_, rfl⟩
      · exact ⟨_, rfl⟩

/-! ## Runs -/

section Runs

variable {F : Type} [AddZeroClass F] [LT F] [DecidableLT F] [DecidableEq F]

/-- no reply, or one that reports an error -/
def failed (reply : Option Text) : Bool := reply.all fun html => indexOf html "ERROR".toList ≠ -1

/-- the sessions that a thread has when it is about to compute a URL -/
inductive Run (e : Env) (table : TransitionTable.Table F) : Session → Prop
  | start {s : Session} (hreply : s.lastHTMLReply = none) (hstate : s.transition = TransitionTable.fresh) : Run e table s
  | nextSession {s : Session} (h : Run e table s) (username password : Text) :
      Run e table { s with
        transition := (TransitionTable.resetToInitialState s.transition).1, username := username, password := password }
  | error {s s₁ : Session} (h : Run e table s) {fuel : ℕ} {url : Text} {next : ℤ} {x : Exchange} {a : Answer}
      (hrequest : (nextRequest e fuel s.transition.currentState).run s = .ok ((url, next), s₁))
      (hcall : callHTTPServer e.urlGen url x = .ok a) (hfailed : failed a.reply = true) :
      Run e table { s₁ with
        lastHTMLReply := a.reply, transition := (TransitionTable.resetToInitialState s₁.transition).1 }
  | answer {s s₁ : Session} (h : Run e table s) {fuel : ℕ} {url : Text} {next : ℤ} {x : Exchange} {a : Answer}
      (hrequest : (nextRequest e fuel s.transition.currentState).run s = .ok ((url, next), s₁))
      (hcall : callHTTPServer e.urlGen url x = .ok a) (hok : failed a.reply = false) {step : F}
      {t : TransitionTable.St} {r : TransitionTable.Ret}
      (hnext : TransitionTable.nextState table s₁.transition step = .ok (t, r)) :
      Run e table { s₁ with lastHTMLReply := a.reply, transition := t }

variable {e : Env} {table : TransitionTable.Table F} {s : Session}

/-- without a reply the thread is at the home page -/
theorem home_of_no_reply (h : Run e table s) : s.lastHTMLReply = none → s.transition.currentState = 0 := by
  intro hnone
  induction h with
  | start _ hstate => rw [hstate]; rfl
  | nextSession h username password _ => rfl
  | error h hrequest hcall hfailed _ => rfl
  | answer h hrequest hcall hok hnext _ =>
    simp only at hnone
    rw [hnone] at hok
    cases hok

/-- the home page needs no reply -/
theorem computeURLFromState_home (hreply : s.lastHTMLReply = none) {fuel : ℕ} (hfuel : 0 < fuel) :
    Ensures (computeURLFromState e fuel 0) s (fun _ _ => True) fun _ => False := by
  obtain ⟨fuel, rfl⟩ : ∃ n, fuel = n + 1 := ⟨fuel - 1, by omega⟩
  unfold computeURLFromState
  refine ensures_bind (ensures_get (Q := fun a s' => a = s ∧ s' = s) ⟨rfl, rfl⟩) fun a s₁ h₁ => ?_
  obtain ⟨rfl, rfl⟩ := h₁
  rw [hreply]
  exact trivial

/-- a call that does not throw gives a request for one of the site's pages -/
theorem nextRequest_ok {fuel : ℕ} (hfuel : s.transition.previousStates.length + 2 ≤ fuel)
    (h : Ensures (computeURLFromState e fuel s.transition.currentState) s (fun _ _ => True) fun x => x = .outOfFuel) :
    ∃ p n next s', (nextRequest e fuel s.transition.currentState).run s = .ok ((e.urlGen.url p n, next), s') := by
  have hspec := computeURLFromState_spec e (Or.inl ⟨rfl, hfuel⟩ : Settled fuel s.transition.currentState s)
  unfold nextRequest
  rw [StateT.run_bind]
  unfold Ensures at h hspec
  cases hrun : (computeURLFromState e fuel s.transition.currentState).run s with
  | error x =>
    rw [hrun] at h hspec
    exact absurd h hspec
  | ok r =>
    rw [hrun] at hspec
    obtain ⟨u, s₁⟩ := r
    cases u with
    | none => exact ⟨_, _, _, _, rfl⟩
    | some url =>
      obtain ⟨p, n, rfl, -⟩ := hspec url rfl
      exact ⟨p, n, _, _, rfl⟩

/-- **No exception escapes** at any request of any run, if the last reply can be read in every state that the call may look at,
and the new one has no image tag that is left open. -/
theorem no_exception_escapes (hconf : Configured e) (hrun : Run e table s)
    (hlen : ∀ text, s.lastHTMLReply = some text → text.length ≤ maxInt)
    (hread : ∀ text, s.lastHTMLReply = some text → ReadableReply e s text)
    {fuel : ℕ} (hfuel : s.transition.previousStates.length + 2 ≤ fuel) :
    ∃ url next s', (nextRequest e fuel s.transition.currentState).run s = .ok ((url, next), s') ∧
      ∀ x : Exchange, (∀ html, x.reply = some html → Closed html) → ∃ a, callHTTPServer e.urlGen url x = .ok a := by
  have hcompute : Ensures (computeURLFromState e fuel s.transition.currentState) s (fun _ _ => True) fun x => x = .outOfFuel := by
    cases hreply : s.lastHTMLReply with
    | none =>
      rw [home_of_no_reply hrun hreply]
      exact (computeURLFromState_home hreply (by omega)).mono (fun _ _ h => h) fun _ h => h.elim
    | some text =>
      exact computeURLFromState_looks hconf hreply (hlen text hreply) (hread text hreply) ⟨rfl, rfl, .inl rfl⟩ .first
  obtain ⟨p, n, next, s', hrequest⟩ := nextRequest_ok hfuel hcompute
  exact ⟨_, next, s', hrequest, fun x hx => callHTTPServer_closed hx⟩

end Runs

/-! ## A page of stories -/

/-- home leads to the stories -/
def toStories : TransitionTable.Table Binary32 := ⟨24, 26, fun _ i => if i = 7 then 1 else 0⟩

/-- a session that has just begun -/
def novice : Session := { lost with transition := TransitionTable.fresh, lastHTMLReply := none, rand := fun _ => 1 }

/-- the page is answered at once -/
def answered (page : Text) : Exchange := { oneImage with reply := some page }

/-- the novice after the home page -/
def reader (page : Text) : Session :=
  { novice with transition := ⟨7, []⟩, lastHTMLReply := some page, search := novice.search.reset, nanoTime := fun _ => 9 }

theorem run_reader {page : Text}
    (hcall : (callHTTPServer site (site.url .homePage 9) (answered page)).toOption.map Answer.reply = some (some page))
    (hok : failed (some page) = false) : Run visitor toStories (reader page) := by
  have hrequest : (nextRequest visitor 2 novice.transition.currentState).run novice =
      .ok ((site.url .homePage 9, 0), { novice with search := novice.search.reset, nanoTime := fun _ => 9 }) := rfl
  cases ha : callHTTPServer site (site.url .homePage 9) (answered page) with
  | error x =>
    rw [ha] at hcall
    cases hcall
  | ok a =>
    rw [ha] at hcall
    obtain hreply : a.reply = some page := Option.some.inj hcall
    have hnext : TransitionTable.nextState toStories TransitionTable.fresh 0 = .ok (⟨7, []⟩, ⟨7, .cleared⟩) := by decide
    have hrun := Run.answer (.start rfl rfl) hrequest ha (by rw [hreply]; exact hok) hnext
    rw [hreply] at hrun
    exact hrun

/-- one story -/
def storyPage : Text := "<a href=\"ViewStory?storyId=1\">A story</a>".toList

/-- one story, with the key in its title -/
def titlePage : Text := "<a href=\"ViewStory?storyId=1\">my storyId=</a>".toList

theorem follows_storyPage {t : Text} (h : Follows "storyId=".toList false storyPage t) : t = "1\">A story</a>".toList := by
  have hsplit : storyPage = "<a href=\"ViewStory?".toList ++ ("storyId=".toList ++ "1\">A story</a>".toList) := by decide
  have hfind : find "storyId=".toList ("<a href=\"ViewStory?".toList ++ ("storyId=".toList ++ "1\">A story</a>".toList)) =
      some "<a href=\"ViewStory?".toList.length := by decide
  have hoccurs : Occurs "storyId=".toList storyPage ["1\">A story</a>".toList] := by
    rw [hsplit]
    exact .cons hfind (.none (by decide))
  obtain ⟨a, ha, -⟩ := h
  have hmem := Occurs.mem_followers (x := 's') (k := "toryId=".toList) (by decide) hoccurs ha
  exact List.mem_singleton.1 hmem

theorem readable_storyPage : ReadableReply visitor (reader storyPage) storyPage := by
  have hnumber : Number "1\">A story</a>".toList := ⟨by decide, 1, by decide⟩
  have hfollows : Follows "storyId=".toList false storyPage "1\">A story</a>".toList :=
    ⟨"<a href=\"ViewStory?".toList, by decide, fun h => by cases h⟩
  have hat : ∀ p, LooksAt visitor (reader storyPage) storyPage p → p = (7, ⟨7, []⟩) := by
    intro p h
    induction h with
    | first => decide
    | @back state t h hback ih =>
      obtain ⟨rfl, rfl⟩ := Prod.mk.inj ih
      rcases hback with ⟨-, hnot⟩ | ⟨t, ht, hvalue⟩
      · exact absurd hfollows (hnot _)
      · rw [follows_storyPage ht] at hvalue
        exact absurd hvalue (by decide)
  intro state t h
  obtain ⟨rfl, rfl⟩ := Prod.mk.inj (hat _ h)
  intro t ht
  rw [follows_storyPage ht]
  exact hnumber

theorem visitor_configured : Configured visitor := ⟨by decide, by decide, by decide⟩

/-- the story is viewed -/
theorem story_is_viewed :
    ∃ url next s', (nextRequest visitor 2 (reader storyPage).transition.currentState).run (reader storyPage) =
      .ok ((url, next), s') ∧
      ∀ x : Exchange, (∀ html, x.reply = some html → Closed html) → ∃ a, callHTTPServer visitor.urlGen url x = .ok a := by
  have hrun : Run visitor toStories (reader storyPage) := run_reader (by decide) (by decide)
  refine no_exception_escapes visitor_configured hrun ?_ ?_ (by decide)
  · rintro text ⟨⟩
    decide
  · rintro text ⟨⟩
    exact readable_storyPage

/-- **A title ends the thread.** -/
theorem title_ends_thread :
    ¬ ∀ s, Run visitor toStories s → (∀ text, s.lastHTMLReply = some text → text.length ≤ maxInt) →
      ∀ fuel, s.transition.previousStates.length + 2 ≤ fuel →
        ∃ r, (nextRequest visitor fuel s.transition.currentState).run s = .ok r := by
  intro h
  obtain ⟨r, hr⟩ := h (reader titlePage) (run_reader (by decide) (by decide))
    (by rintro text ⟨⟩; decide) 2 (by decide)
  have hthrows : (nextRequest visitor 2 (reader titlePage).transition.currentState).run (reader titlePage) =
      .error .numberFormat := by rfl
  cases hthrows.symm.trans hr

end Rubbos.Client.Replies
