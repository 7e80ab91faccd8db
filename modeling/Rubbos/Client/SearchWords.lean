/-
The keyword of a search over a run (`UserSession.java`, cases 16, 17 and 18 of `computeURLFromState`).

A search page that follows a page of the same search should have its keyword, since the page number is cut out of that page;
after any other page a new keyword is drawn. The code remembers the last search under the numbers 17, 18 and 19, forgets it at
every state that it looks at outside 17 to 19, and so works for the numbers of the marker, not for those of the states:
- a search of stories (16) never finds its own marker;
- a search that is reached by going back from a state without its link has been forgotten on the way;
- the author login (19) does not forget, so the search before it goes on behind it.

- `lastPass`: the state that a call looks at last; `computeURLFromState_eq`.
- `request_spec`: the keyword of a request and what is remembered after it.
- `keyword_spec`: the keyword as a function of the requests before.
- `keywords_follow`: in every run in which these three do not happen.
Witness `comments_searched_twice`. Counterexample `stories_change_word`: two searches of stories, one after the other.
-/
import Rubbos.Client.Replies

namespace Rubbos.Client.SearchWords

open Rubbos.Core JString Replies

/-! ## The last pass through the switch -/

/-- the pass that a call ends with -/
structure Pass where
  /-- there was a pass before, at a state whose link is missing -/
  wentBack : Bool
  state : ℤ
  /-- the fields when the switch is reached -/
  before : Session
  next : Next

/-- `computeURLFromState` up to its last pass -/
def lastPass (e : Env) : (fuel : ℕ) → (state : ℤ) → M Pass
  | 0, _ => throw .outOfFuel
  | fuel + 1, state => do
    let s ← get
    let state ← (if (s.lastHTMLReply.any fun text => indexOf text "Sorry".toList ≠ -1) then backToPreviousState
      else pure state : M ℤ)
    if state < 17 ∨ 19 < state then modify fun s => { s with search := s.search.reset }
    let before ← get
    match ← urlOfState e state with
    | .page page => return ⟨false, state, before, .page page⟩
    | .null => return ⟨false, state, before, .null⟩
    | .goBack => do
      let p ← lastPass e fuel (← backToPreviousState)
      return { p with wentBack := true }

variable (e : Env)

/-- the switch, with the fields before it or without them -/
theorem switch_eq {fuel : ℕ} (ih : ∀ state, computeURLFromState e fuel state = (do
      match (← lastPass e fuel state).next with
      | .page p => return some (e.urlGen.url p (← nanoTime))
      | _ => return none)) (state : ℤ) : (do
    match ← urlOfState e state with
    | .page p => return some (e.urlGen.url p (← nanoTime))
    | .null => return none
    | .goBack => computeURLFromState e fuel (← backToPreviousState)) = (do
    let p ← (do
      let before ← get
      match ← urlOfState e state with
      | .page page => return ⟨false, state, before, .page page⟩
      | .null => return ⟨false, state, before, .null⟩
      | .goBack => do
        let p ← lastPass e fuel (← backToPreviousState)
        return { p with wentBack := true } : M Pass)
    match p.next with
    | .page p => return some (e.urlGen.url p (← nanoTime))
    | _ => return none) := by
  apply StateT.ext
  intro s
  simp only [StateT.run_bind, StateT.run_get, pure_bind, bind_assoc]
  congr 1
  funext r
  obtain ⟨n, s₁⟩ := r
  cases n with
  | page p => rfl
  | null => rfl
  | goBack =>
    simp only [StateT.run_bind, bind_assoc, ih]
    rfl

theorem computeURLFromState_eq (fuel : ℕ) (state : ℤ) : computeURLFromState e fuel state = (do
    match (← lastPass e fuel state).next with
    | .page p => return some (e.urlGen.url p (← nanoTime))
    | _ => return none) := by
  induction fuel generalizing state with
  | zero => rfl
  | succ fuel ih =>
    unfold computeURLFromState lastPass
    rw [bind_assoc]
    congr 1
    funext s
    rw [bind_assoc]
    congr 1
    funext state
    dsimp only
    split_ifs
    · rw [bind_assoc]
      congr 1
      funext u
      exact switch_eq e ih state
    · exact switch_eq e ih state

/-! ## Requests -/

/-- what `run` asks for -/
structure Request where
  /-- the state that is charged -/
  state : ℤ
  page : Page
  /-- the call went back from a state whose link is missing -/
  wentBack : Bool
  /-- the draws still to come when the page was made -/
  rand : ℕ → ℕ

/-- `nextRequest`, with the page of the URL -/
def request (fuel : ℕ) (next : ℤ) : M (Text × Request) := do
  let p ← lastPass e fuel next
  let (lastURL, page) ← (match p.next with
    | .page page => do return (e.urlGen.url page (← nanoTime), page)
    | _ => do
      resetToInitialState
      return (e.urlGen.url .homePage (← nanoTime), .homePage) : M (Text × Page))
  let s ← get
  return (lastURL, ⟨s.transition.currentState, page, p.wentBack, p.before.rand⟩)

theorem nextRequest_eq (fuel : ℕ) (next : ℤ) : nextRequest e fuel next = (do
    let (url, r) ← request e fuel next
    return (url, r.state)) := by
  unfold nextRequest request
  rw [computeURLFromState_eq]
  simp only [bind_assoc]
  congr 1
  funext p
  cases p.next <;> rfl

/-- a state of a search for a keyword -/
def IsSearch (state : ℤ) : Prop := state = 16 ∨ state = 17 ∨ state = 18

instance (state : ℤ) : Decidable (IsSearch state) := inferInstanceAs (Decidable (_ ∨ _ ∨ _))

def keyword : Page → Option Text
  | .search w _ _ _ => w
  | _ => none

/-- how the state draws a keyword -/
def drawWord (state : ℤ) : Draw Text :=
  if state = 18 then do return "user".toList ++ longText ((← nextInt e.rubbos.nbOfUsers) + 1)
  else randomWordFromDictionary e.dictionary false

/-- the keyword is what the next draws give -/
def Drawn (r : Request) : Prop := ∃ w rest, keyword r.page = some w ∧ (drawWord e r.state).run r.rand = .ok (w, rest)

/-! ## What a pass does to the memory -/

section Memory

variable {α β : Type} {e : Env}

/-- a program that leaves the memory as it is, and the table too if it does not reset it -/
def Quiet (d : M α) : Prop := ∀ s, Ensures d s
  (fun _ s' => s'.search = s.search ∧ (s'.transition = s.transition ∨ s'.transition.currentState = 0)) fun _ => True

theorem quiet_pure (a : α) : Quiet (pure a) := fun _ => ensures_pure ⟨rfl, .inl rfl⟩

theorem quiet_throw (x : Exc) : Quiet (throw x : M α) := fun _ => ensures_throw trivial

theorem quiet_bind {d : M α} {f : α → M β} (hd : Quiet d) (hf : ∀ a, Quiet (f a)) : Quiet (d >>= f) := by
  intro s
  refine ensures_bind (hd s) fun a s₁ ⟨hsearch, htable⟩ => (hf a s₁).mono (fun _ s₂ ⟨hsearch₂, htable₂⟩ => ?_) fun _ h => h
  refine ⟨hsearch₂.trans hsearch, ?_⟩
  rcases htable₂ with htable₂ | htable₂
  · rw [htable₂]
    exact htable
  · exact .inr htable₂

theorem quiet_get : Quiet (get : M Session) := fun _ => ensures_get ⟨rfl, .inl rfl⟩

theorem quiet_modify {m : Session → Session} (hsearch : ∀ s, (m s).search = s.search)
    (htable : ∀ s, (m s).transition = s.transition) : Quiet (modify m) :=
  fun s => ensures_modify ⟨hsearch s, .inl (htable s)⟩

theorem quiet_lift (x : Except Exc α) : Quiet (StateT.lift x) :=
  fun _ => ensures_lift (fun _ _ => ⟨rfl, .inl rfl⟩) fun _ _ => trivial

theorem quiet_draw (d : Draw α) : Quiet (draw d) := by
  intro s
  unfold Ensures draw
  simp only [StateT.run]
  cases d s.rand with
  | error x => trivial
  | ok r => exact ⟨rfl, .inl rfl⟩

theorem quiet_reset : Quiet resetToInitialState := fun _ => show _ ∧ _ from ⟨rfl, .inr rfl⟩

theorem quiet_home : Quiet (do resetToInitialState; return Next.page .homePage) := quiet_bind quiet_reset fun _ => quiet_pure _

/-- apart from the searches, no state of the switch remembers or forgets anything -/
theorem urlOfState_quiet {state : ℤ} (h : ¬ IsSearch state) : Quiet (urlOfState e state) := by
  unfold urlOfState
  refine quiet_bind quiet_get fun s => ?_
  simp only
  split
  case h_1 => exact quiet_home
  case h_18 | h_19 | h_20 => exact absurd (by decide) h
  case h_2 | h_3 | h_5 | h_6 | h_15 | h_17 | h_21 | h_22 | h_23 | h_26 => exact quiet_pure _
  case h_4 => exact quiet_bind (quiet_draw _) fun _ => quiet_pure _
  case h_7 =>
    refine quiet_bind (quiet_draw _) fun c => ?_
    refine quiet_bind (quiet_modify (fun _ => rfl) fun _ => rfl) fun _ => ?_
    refine quiet_bind (quiet_draw _) fun page => ?_
    split
    · exact quiet_throw _
    · exact quiet_pure _
  case h_8 => exact quiet_bind (quiet_draw _) fun _ => quiet_bind (quiet_draw _) fun _ => quiet_pure _
  case h_9 =>
    split
    · exact quiet_pure _
    · refine quiet_bind (quiet_draw _) fun id => ?_
      exact quiet_bind (quiet_modify (fun _ => rfl) fun _ => rfl) fun _ => quiet_pure _
  case h_10 =>
    refine quiet_bind (quiet_draw _) fun l => ?_
    split
    · exact quiet_pure _
    · exact quiet_pure _
    · exact quiet_pure _
  case h_11 =>
    refine quiet_bind (quiet_draw _) fun subject => quiet_bind (quiet_draw _) fun body => quiet_bind (quiet_draw _) fun pos => ?_
    split
    · exact quiet_pure _
    · exact quiet_bind (quiet_lift _) fun _ => quiet_bind (quiet_lift _) fun _ => quiet_bind (quiet_lift _) fun _ => quiet_pure _
  case h_12 | h_13 =>
    refine quiet_bind (quiet_draw _) fun l => ?_
    split
    · exact quiet_pure _
    · exact quiet_pure _
  case h_14 =>
    refine quiet_bind (quiet_draw _) fun r => quiet_bind (quiet_draw _) fun pos => ?_
    split
    · exact quiet_pure _
    · exact quiet_bind (quiet_lift _) fun _ => quiet_bind (quiet_lift _) fun _ => quiet_pure _
  case h_16 =>
    refine quiet_bind (quiet_draw _) fun title => quiet_bind (quiet_draw _) fun body => quiet_bind (quiet_draw _) fun pos => ?_
    split
    · exact quiet_pure _
    · exact quiet_bind (quiet_lift _) fun _ => quiet_pure _
  case h_24 | h_25 =>
    refine quiet_bind (quiet_draw _) fun id => ?_
    split
    · exact quiet_pure _
    · exact quiet_home

theorem ensures_draw_run (d : Draw α) (s : Session) : Ensures (draw d) s
    (fun a s' => ∃ rest, d.run s.rand = .ok (a, rest) ∧ s' = { s with rand := rest }) fun _ => True := by
  unfold Ensures draw
  simp only [StateT.run]
  cases d s.rand with
  | error x => trivial
  | ok r => exact ⟨r.2, rfl, rfl⟩

/-- the page of a search, where m is remembered, and what is remembered after it -/
structure Searched (state : ℤ) (word : Draw Text) (s : Session) (page : Page) (s' : Session) : Prop where
  table : s'.transition = s.transition
  marker : s'.search.lastSearch = state + 1
  remembered : s'.search.lastRandomWord = keyword page
  kept : s.search.lastSearch = state + 1 → keyword page = s.search.lastRandomWord
  drawn : s.search.lastSearch ≠ state + 1 → ∃ w rest, keyword page = some w ∧ word.run s.rand = .ok (w, rest)

theorem searchPage_searched {state kind : ℤ} (hstate : kind = state + 1) (hk : kind ≠ 0) (searchType : Text) (word : Draw Text)
    (s : Session) : Ensures (searchPage e kind hk searchType word) s
      (fun n s' => ∃ page, n = .page page ∧ Searched state word s page s') fun _ => True := by
  subst hstate
  unfold searchPage
  refine ensures_bind (ensures_get (Q := fun a s' => a = s ∧ s' = s) ⟨rfl, rfl⟩) fun a s₁ h₁ => ?_
  obtain ⟨rfl, rfl⟩ := h₁
  refine ensures_bind (Q := fun w s' => s'.transition = s₁.transition ∧
    (s₁.search.lastSearch = state + 1 → some w = s₁.search.lastRandomWord) ∧
    (s₁.search.lastSearch ≠ state + 1 → ∃ rest, word.run s₁.rand = .ok (w, rest))) ?_ fun w s₂ h₂ => ?_
  · split_ifs with hlast
    · exact ensures_pure ⟨rfl, fun _ => Option.some_get _, fun hne => absurd hlast hne⟩
    · refine (ensures_draw_run word s₁).mono (fun w s₂ hw => ?_) fun _ h => h
      obtain ⟨rest, hrest, rfl⟩ := hw
      exact ⟨rfl, fun h => absurd h hlast, fun _ => ⟨rest, hrest⟩⟩
  · obtain ⟨htable, hkept, hdrawn⟩ := h₂
    refine ensures_bind (ensures_modify (Q := fun _ s' => s'.transition = s₁.transition ∧
      s'.search.lastSearch = state + 1 ∧ s'.search.lastRandomWord = some w) ⟨htable, rfl, rfl⟩) fun _ s₃ h₃ => ?_
    obtain ⟨htable₃, hmarker, hword⟩ := h₃
    refine ensures_bind (ensures_draw_run _ s₃) fun page s₄ h₄ => ensures_pure ⟨_, rfl, ?_⟩
    obtain ⟨rest, -, rfl⟩ := h₄
    refine ⟨htable₃, hmarker, hword, hkept, fun hne => ?_⟩
    obtain ⟨rest, hrest⟩ := hdrawn hne
    exact ⟨w, rest, rfl, hrest⟩

theorem urlOfState_search {state : ℤ} (h : IsSearch state) : ∃ kind, ∃ hk : kind ≠ 0, ∃ searchType, kind = state + 1 ∧
    urlOfState e state = (do let _ ← get; searchPage e kind hk searchType (drawWord e state)) := by
  rcases h with rfl | rfl | rfl
  · exact ⟨17, by decide, ['0'], rfl, rfl⟩
  · exact ⟨18, by decide, ['1'], rfl, rfl⟩
  · exact ⟨19, by decide, ['2'], rfl, rfl⟩

theorem urlOfState_searched {state : ℤ} (h : IsSearch state) (s : Session) : Ensures (urlOfState e state) s
    (fun n s' => ∃ page, n = .page page ∧ Searched state (drawWord e state) s page s') fun _ => True := by
  obtain ⟨kind, hk, searchType, hkind, heq⟩ := urlOfState_search (e := e) h
  rw [heq]
  refine ensures_bind (ensures_get (Q := fun a s' => a = s ∧ s' = s) ⟨rfl, rfl⟩) fun a s₁ h₁ => ?_
  obtain ⟨rfl, rfl⟩ := h₁
  exact searchPage_searched hkind hk searchType _ _

/-- the end of a pass at a state: a page of a search, or the memory as it was -/
structure Made (e : Env) (state : ℤ) (s : Session) (n : Next) (s' : Session) : Prop where
  search : IsSearch state → ∃ page, n = .page page ∧ Searched state (drawWord e state) s page s'
  quiet : ¬ IsSearch state → s'.search = s.search ∧ (s'.transition = s.transition ∨ s'.transition.currentState = 0)
  login : state = 19 → n = .page .authorLogin ∧ s'.transition = s.transition
  home : state = -1 → s'.transition.currentState = 0

theorem urlOfState_made (state : ℤ) (s : Session) :
    Ensures (urlOfState e state) s (Made e state s) fun _ => True := by
  by_cases hs : IsSearch state
  · refine (urlOfState_searched hs s).mono (fun n s' h => ⟨fun _ => h, fun hn => absurd hs hn, ?_, ?_⟩) fun _ h => h
    · rintro rfl
      exact absurd hs (by decide)
    · rintro rfl
      exact absurd hs (by decide)
  · by_cases hlogin : state = 19
    · subst hlogin
      exact show Made e 19 s _ _ from ⟨fun h => absurd h hs, fun _ => ⟨rfl, .inl rfl⟩, fun _ => ⟨rfl, rfl⟩, fun h => (by cases h)⟩
    · by_cases herror : state = -1
      · subst herror
        exact show Made e (-1) s _ _ from ⟨fun h => absurd h hs, fun _ => ⟨rfl, .inr rfl⟩, (fun h => by cases h), fun _ => rfl⟩
      · exact (urlOfState_quiet hs s).mono
          (fun n s' h => ⟨fun h => absurd h hs, fun _ => h, fun h => absurd h hlogin, fun h => absurd h herror⟩) fun _ h => h

end Memory

/-! ## What a call does to the memory -/

section Call

variable {e : Env}

/-- the state that is looked at is the table's, or the -1 of a history with nothing left -/
def Here (state : ℤ) (s : Session) : Prop := s.transition.currentState = state ∨ state = -1

theorem ensures_goBack (s : Session) :
    Ensures backToPreviousState s (fun state s' => Here state s' ∧ s'.search = s.search) fun _ => True := by
  refine ensures_bind (ensures_get (Q := fun a s' => a = s ∧ s' = s) ⟨rfl, rfl⟩) fun a s₁ h₁ => ?_
  obtain ⟨rfl, rfl⟩ := h₁
  refine ensures_bind (ensures_set (Q := fun _ s' => Here _ s' ∧ s'.search = s₁.search) ?_) fun _ s₂ h₂ => ensures_pure h₂
  refine ⟨?_, rfl⟩
  cases s₁.transition.previousStates with
  | nil => exact .inr rfl
  | cons p ps => exact .inl rfl

/-- the last pass of a call that begins with the memory m -/
structure Ended (e : Env) (m : SearchMemory) (p : Pass) (s' : Session) : Prop where
  kept : p.wentBack = false → 17 ≤ p.state → p.state ≤ 19 → p.before.search = m
  forgot : p.wentBack = true ∨ p.state < 17 ∨ 19 < p.state → p.before.search.lastSearch = 0
  here : Here p.state p.before
  made : Made e p.state p.before p.next s'

/-- the states that go back are none of 17 to 19 -/
theorem Made.of_goBack {state : ℤ} {s s' : Session} (h : Made e state s .goBack s') :
    (state < 17 ∨ 19 < state) ∧ s'.search = s.search := by
  have hsearch : ¬ IsSearch state := fun hs => by
    obtain ⟨page, hpage, -⟩ := h.search hs
    cases hpage
  have hlogin : state ≠ 19 := fun hs => by
    obtain ⟨hpage, -⟩ := h.login hs
    cases hpage
  unfold IsSearch at hsearch
  exact ⟨by omega, (h.quiet (by unfold IsSearch; omega)).1⟩

/-- the switch and what comes after it -/
theorem ensures_switch {fuel : ℕ} {state : ℤ} {m : SearchMemory} {s : Session} (hhere : Here state s)
    (hkept : 17 ≤ state → state ≤ 19 → s.search = m) (hforgot : state < 17 ∨ 19 < state → s.search.lastSearch = 0)
    (ih : ∀ {state : ℤ} {s : Session}, Here state s → Ensures (lastPass e fuel state) s (Ended e s.search) fun _ => True) :
    Ensures (do
      let before ← get
      match ← urlOfState e state with
      | .page page => return ⟨false, state, before, .page page⟩
      | .null => return ⟨false, state, before, .null⟩
      | .goBack => do
        let p ← lastPass e fuel (← backToPreviousState)
        return { p with wentBack := true } : M Pass) s (Ended e m) fun _ => True := by
  refine ensures_bind (ensures_get (Q := fun a s' => a = s ∧ s' = s) ⟨rfl, rfl⟩) fun a s₁ h₁ => ?_
  obtain ⟨rfl, rfl⟩ := h₁
  refine ensures_bind (urlOfState_made state s₁) fun n s₂ h₂ => ?_
  have hforgot' : false = true ∨ state < 17 ∨ 19 < state → s₁.search.lastSearch = 0 := fun h => hforgot (h.resolve_left (by decide))
  cases n with
  | page p => exact ensures_pure ⟨fun _ => hkept, hforgot', hhere, h₂⟩
  | null => exact ensures_pure ⟨fun _ => hkept, hforgot', hhere, h₂⟩
  | goBack =>
    obtain ⟨hout, hsearch⟩ := h₂.of_goBack
    refine ensures_bind (ensures_goBack s₂) fun state' s₃ h₃ => ?_
    refine ensures_bind (ih h₃.1) fun p s₄ h₄ => ensures_pure ?_
    -- the state that went back has reset the memory that the next pass begins with
    have hzero : s₃.search.lastSearch = 0 := by rw [h₃.2, hsearch, hforgot hout]
    refine ⟨(fun h => by cases h), fun _ => ?_, h₄.here, h₄.made⟩
    by_cases hp : p.wentBack = true ∨ p.state < 17 ∨ 19 < p.state
    · exact h₄.forgot hp
    · obtain ⟨hback, hlow, hhigh⟩ : p.wentBack ≠ true ∧ 17 ≤ p.state ∧ p.state ≤ 19 := by
        refine ⟨fun h => hp (.inl h), ?_, ?_⟩
        · by_contra h
          exact hp (.inr (.inl (by omega)))
        · by_contra h
          exact hp (.inr (.inr (by omega)))
      change p.before.search.lastSearch = 0
      rw [h₄.kept (by simpa using hback) hlow hhigh]
      exact hzero

theorem ensures_lastPass {fuel : ℕ} {state : ℤ} {s : Session} (h : Here state s) :
    Ensures (lastPass e fuel state) s (Ended e s.search) fun _ => True := by
  induction fuel generalizing state s with
  | zero => exact ensures_throw trivial
  | succ fuel ih =>
    unfold lastPass
    refine ensures_bind (ensures_get (Q := fun a s' => a = s ∧ s' = s) ⟨rfl, rfl⟩) fun a s₁ h₁ => ?_
    obtain ⟨rfl, rfl⟩ := h₁
    refine ensures_bind (Q := fun state s' => Here state s' ∧ s'.search = s₁.search) ?_ fun state s₂ h₂ => ?_
    · split_ifs
      · exact ensures_goBack s₁
      · exact ensures_pure ⟨h, rfl⟩
    · obtain ⟨hhere, hsearch⟩ := h₂
      dsimp only
      split_ifs with hout
      · refine ensures_bind (ensures_modify (Q := fun _ s' => Here state s' ∧ s'.search.lastSearch = 0) ⟨hhere, rfl⟩)
          fun _ s₃ h₃ => ?_
        exact ensures_switch h₃.1 (fun hlow hhigh => by omega) (fun _ => h₃.2) ih
      · exact ensures_switch hhere (fun _ _ => hsearch) (fun h => absurd h hout) ih

/-! ## What a request does to the memory -/

/-- the search that is remembered under the number of its marker serves the state again -/
def Serves (r : Request) (m : SearchMemory) : Prop := r.state ≠ 16 ∧ r.wentBack = false ∧ m.lastSearch = r.state + 1

/-- a request that begins with the memory m and ends with m' -/
structure Requested (e : Env) (m : SearchMemory) (r : Request) (m' : SearchMemory) : Prop where
  marker : IsSearch r.state → m'.lastSearch = r.state + 1
  remembered : IsSearch r.state → m'.lastRandomWord = keyword r.page
  kept : IsSearch r.state → Serves r m → keyword r.page = m.lastRandomWord
  drawn : IsSearch r.state → ¬ Serves r m → Drawn e r
  login : r.state = 19 → r.wentBack = false → m' = m
  other : ¬ IsSearch r.state → ¬ (r.state = 19 ∧ r.wentBack = false) → m'.lastSearch = 0

/-- the state that is charged is that of the last pass, as far as searches and logins go -/
theorem Made.charged {state : ℤ} {s s' : Session} {n : Next} (h : Made e state s n s') (hhere : Here state s) :
    (IsSearch state ∨ state = 19 → s'.transition.currentState = state) ∧
      (IsSearch s'.transition.currentState ∨ s'.transition.currentState = 19 → s'.transition.currentState = state) := by
  have hsame : s'.transition = s.transition → state ≠ -1 → s'.transition.currentState = state := by
    intro htable hne
    rw [htable]
    exact hhere.resolve_right hne
  constructor
  · intro hstate
    by_cases hs : IsSearch state
    · obtain ⟨page, -, hpage⟩ := h.search hs
      exact hsame hpage.table (by unfold IsSearch at hs; omega)
    · have hlogin := hstate.resolve_left hs
      exact hsame (h.login hlogin).2 (by omega)
  · intro hcharged
    unfold IsSearch at hcharged
    by_cases herror : state = -1
    · have := h.home herror
      omega
    · by_cases hs : IsSearch state
      · obtain ⟨page, -, hpage⟩ := h.search hs
        exact hsame hpage.table herror
      · rcases (h.quiet hs).2 with htable | hzero
        · exact hsame htable herror
        · omega

theorem Ended.requested {m : SearchMemory} {p : Pass} {s' : Session} (h : Ended e m p s') {page : Page}
    (hpage : p.next = .page page) :
    Requested e m ⟨s'.transition.currentState, page, p.wentBack, p.before.rand⟩ s'.search := by
  obtain ⟨hsame, hcharged⟩ := h.made.charged h.here
  have hsearched (hs : IsSearch s'.transition.currentState) :
      s'.transition.currentState = p.state ∧ Searched p.state (drawWord e p.state) p.before page s' := by
    have hstate := hcharged (.inl hs)
    obtain ⟨page', hpage', hsearched⟩ := h.made.search (hstate ▸ hs)
    have hpp : page = page' := Next.page.inj (hpage.symm.trans hpage')
    exact ⟨hstate, hpp ▸ hsearched⟩
  constructor
  · intro hs
    obtain ⟨hstate, hsearched⟩ := hsearched hs
    rw [hsearched.marker, hstate]
  · intro hs
    exact (hsearched hs).2.remembered
  · intro hs ⟨hne, hback, hmarker⟩
    obtain ⟨hstate, hsearched⟩ := hsearched hs
    simp only at hne hback hmarker
    rw [hstate] at hne hmarker
    have hsearch : IsSearch p.state := hstate ▸ hs
    unfold IsSearch at hsearch
    have hbefore := h.kept hback (by omega) (by omega)
    change keyword page = _
    rw [hsearched.kept (by rw [hbefore]; exact hmarker), hbefore]
  · intro hs hserves
    obtain ⟨hstate, hsearched⟩ := hsearched hs
    have hfresh : p.before.search.lastSearch ≠ p.state + 1 := by
      intro hmarker
      have hsearch : IsSearch p.state := hstate ▸ hs
      unfold IsSearch at hsearch
      by_cases hforgot : p.wentBack = true ∨ p.state < 17 ∨ 19 < p.state
      · have := h.forgot hforgot
        omega
      · have hback : p.wentBack = false := by
          cases hw : p.wentBack with
          | false => rfl
          | true => exact absurd (.inl hw) hforgot
        have hne : p.state ≠ 16 := fun h16 => hforgot (.inr (.inl (by omega)))
        refine hserves ⟨?_, hback, ?_⟩
        · rw [hstate]
          exact hne
        · rw [hstate, ← hmarker, h.kept hback (by omega) (by omega)]
    obtain ⟨w, rest, hw, hdrawn⟩ := hsearched.drawn hfresh
    refine ⟨w, rest, hw, ?_⟩
    simp only
    rw [hstate]
    exact hdrawn
  · intro hlogin hback
    have hstate : p.state = 19 := by
      rw [← hcharged (.inr hlogin)]
      exact hlogin
    have hquiet := (h.made.quiet (by rw [hstate]; decide)).1
    rw [hquiet]
    exact h.kept hback (by omega) (by omega)
  · intro hs hlogin
    have hother : ¬ IsSearch p.state := fun h => hs (by simp only; rw [hsame (.inl h)]; exact h)
    rw [(h.made.quiet hother).1]
    apply h.forgot
    by_cases h19 : p.state = 19
    · left
      cases hw : p.wentBack with
      | true => rfl
      | false => exact absurd ⟨(hsame (.inr h19)).trans h19, hw⟩ hlogin
    · right
      unfold IsSearch at hother
      omega

/-- a call without a page ends at the home page, and has forgotten the search -/
theorem Ended.home {m : SearchMemory} {p : Pass} {s' : Session} (h : Ended e m p s')
    (hpage : ∀ page, p.next ≠ .page page) (w : Bool) (r : ℕ → ℕ) :
    Requested e m ⟨0, .homePage, w, r⟩ s'.search := by
  have hsearch : ¬ IsSearch p.state := fun hs => by
    obtain ⟨page, hp, -⟩ := h.made.search hs
    exact hpage page hp
  have hlogin : p.state ≠ 19 := fun hs => hpage _ (h.made.login hs).1
  have hzero : ¬ IsSearch 0 := by decide
  refine ⟨fun h => absurd h hzero, fun h => absurd h hzero, fun h => absurd h hzero, fun h => absurd h hzero,
    (fun h => by cases h), fun _ _ => ?_⟩
  rw [(h.made.quiet hsearch).1]
  apply h.forgot
  unfold IsSearch at hsearch
  omega

theorem ensures_request {fuel : ℕ} {s : Session} : Ensures (request e fuel s.transition.currentState) s
    (fun r s' => Requested e s.search r.2 s'.search) fun _ => True := by
  unfold request
  refine ensures_bind (ensures_lastPass (.inl rfl)) fun p s₁ hp => ?_
  cases hnext : p.next with
  | page page => exact hp.requested hnext
  | null => exact hp.home (fun page h => by rw [hnext] at h; cases h) _ _
  | goBack => exact hp.home (fun page h => by rw [hnext] at h; cases h) _ _

end Call

/-! ## Runs -/

section Runs

variable {F : Type} [AddZeroClass F] [LT F] [DecidableLT F] [DecidableEq F]

/-- the sessions that a thread has when it is about to compute a URL, with the requests that it has made, the last one first -/
inductive History (e : Env) (table : TransitionTable.Table F) : List Request → Session → Prop
  | start {s : Session} (hreply : s.lastHTMLReply = none) (hstate : s.transition = TransitionTable.fresh)
      (hsearch : s.search.lastSearch = 0) : History e table [] s
  | nextSession {rs : List Request} {s : Session} (h : History e table rs s) (username password : Text) :
      History e table rs { s with
        transition := (TransitionTable.resetToInitialState s.transition).1, username := username, password := password }
  | error {rs : List Request} {s s₁ : Session} (h : History e table rs s) {fuel : ℕ} {url : Text} {r : Request} {x : Exchange}
      {a : Answer} (hrequest : (request e fuel s.transition.currentState).run s = .ok ((url, r), s₁))
      (hcall : callHTTPServer e.urlGen url x = .ok a) (hfailed : failed a.reply = true) :
      History e table (r :: rs) { s₁ with
        lastHTMLReply := a.reply, transition := (TransitionTable.resetToInitialState s₁.transition).1 }
  | answer {rs : List Request} {s s₁ : Session} (h : History e table rs s) {fuel : ℕ} {url : Text} {r : Request} {x : Exchange}
      {a : Answer} (hrequest : (request e fuel s.transition.currentState).run s = .ok ((url, r), s₁))
      (hcall : callHTTPServer e.urlGen url x = .ok a) (hok : failed a.reply = false) {step : F}
      {t : TransitionTable.St} {v : TransitionTable.Ret}
      (hnext : TransitionTable.nextState table s₁.transition step = .ok (t, v)) :
      History e table (r :: rs) { s₁ with lastHTMLReply := a.reply, transition := t }

variable {e : Env} {table : TransitionTable.Table F} {rs : List Request} {s : Session}

theorem nextRequest_of_request {fuel : ℕ} {next : ℤ} {s₁ : Session} {url : Text} {r : Request}
    (h : (request e fuel next).run s = .ok ((url, r), s₁)) : (nextRequest e fuel next).run s = .ok ((url, r.state), s₁) := by
  rw [nextRequest_eq, StateT.run_bind, h]
  rfl

/-- the runs with their requests are runs -/
theorem History.run (h : History e table rs s) : Run e table s := by
  induction h with
  | start hreply hstate _ => exact .start hreply hstate
  | nextSession _ username password ih => exact .nextSession ih username password
  | error _ hrequest hcall hfailed ih => exact .error ih (nextRequest_of_request hrequest) hcall hfailed
  | answer _ hrequest hcall hok hnext ih => exact .answer ih (nextRequest_of_request hrequest) hcall hok hnext

/-- the request that the memory is about: logins change nothing -/
def subject (rs : List Request) : Option Request := rs.find? fun r => ¬ (r.state = 19 ∧ r.wentBack = false)

theorem subject_cons (r : Request) (rs : List Request) :
    subject (r :: rs) = if r.state = 19 ∧ r.wentBack = false then subject rs else some r := by
  unfold subject
  by_cases hlogin : r.state = 19 ∧ r.wentBack = false
  · rw [if_pos hlogin, List.find?_cons_of_neg (by rw [decide_eq_true_iff]; exact not_not_intro hlogin)]
  · rw [if_neg hlogin, List.find?_cons]
    simp only [hlogin, not_false_eq_true, decide_true]

/-- what is remembered after some requests -/
def Remembers (rs : List Request) (m : SearchMemory) : Prop :=
  match subject rs with
  | none => m.lastSearch = 0
  | some r => if IsSearch r.state then m.lastSearch = r.state + 1 ∧ m.lastRandomWord = keyword r.page else m.lastSearch = 0

theorem remembers_cons {r : Request} {m m' : SearchMemory} (h : Remembers rs m) (hr : Requested e m r m') :
    Remembers (r :: rs) m' := by
  unfold Remembers
  rw [subject_cons]
  by_cases hlogin : r.state = 19 ∧ r.wentBack = false
  · rw [if_pos hlogin, hr.login hlogin.1 hlogin.2]
    exact h
  · rw [if_neg hlogin]
    by_cases hs : IsSearch r.state
    · simp only [if_pos hs]
      exact ⟨hr.marker hs, hr.remembered hs⟩
    · simp only [if_neg hs]
      exact hr.other hs hlogin

theorem requested_of_request {fuel : ℕ} {s₁ : Session} {url : Text} {r : Request}
    (h : (request e fuel s.transition.currentState).run s = .ok ((url, r), s₁)) : Requested e s.search r s₁.search := by
  have hrequest : Ensures (request e fuel s.transition.currentState) s _ _ := ensures_request
  unfold Ensures at hrequest
  rw [h] at hrequest
  exact hrequest

theorem remembers_history (h : History e table rs s) : Remembers rs s.search := by
  induction h with
  | start _ _ hsearch => exact hsearch
  | nextSession _ _ _ ih => exact ih
  | error _ hrequest _ _ ih =>
    have hr := requested_of_request hrequest
    exact remembers_cons ih hr
  | answer _ hrequest _ _ _ ih =>
    have hr := requested_of_request hrequest
    exact remembers_cons ih hr

/-- every request of a run was made with a memory of those before -/
theorem request_of_history (h : History e table rs s) {newer older : List Request} {r : Request}
    (hrs : rs = newer ++ r :: older) : ∃ m m', Remembers older m ∧ Requested e m r m' := by
  induction h generalizing newer with
  | start => exact absurd hrs (by simp)
  | nextSession _ _ _ ih => exact ih hrs
  | @error rs s s₁ hs fuel url r' x a hrequest _ _ ih =>
    obtain ⟨rfl, hcons⟩ | ⟨newer, rfl, hcons⟩ := List.cons_eq_append_iff.1 hrs
    · obtain ⟨rfl, rfl⟩ := List.cons.inj hcons
      exact ⟨_, _, remembers_history hs, requested_of_request hrequest⟩
    · exact ih hcons
  | @answer rs s s₁ hs fuel url r' x a hrequest _ _ step t v _ ih =>
    obtain ⟨rfl, hcons⟩ | ⟨newer, rfl, hcons⟩ := List.cons_eq_append_iff.1 hrs
    · obtain ⟨rfl, rfl⟩ := List.cons.inj hcons
      exact ⟨_, _, remembers_history hs, requested_of_request hrequest⟩
    · exact ih hcons

/-- the search before serves the request again: it has the same state, the call did not go back, and only logins are between;
a search of stories never does -/
def Recalls (r : Request) (older : List Request) : Prop :=
  r.state ≠ 16 ∧ r.wentBack = false ∧ ∃ r₀, subject older = some r₀ ∧ r₀.state = r.state

theorem serves_iff {r : Request} {older : List Request} {m : SearchMemory} (h : Remembers older m) (hr : IsSearch r.state) :
    Serves r m ↔ Recalls r older := by
  unfold Serves Recalls
  refine and_congr_right fun _ => and_congr_right fun _ => ?_
  unfold Remembers at h
  unfold IsSearch at hr
  cases hs : subject older with
  | none =>
    rw [hs] at h
    simp only at h
    exact ⟨fun hm => by omega, fun ⟨r₀, hr₀, _⟩ => by cases hr₀⟩
  | some r₀ =>
    rw [hs] at h
    simp only at h
    constructor
    · intro hm
      refine ⟨r₀, rfl, ?_⟩
      split_ifs at h
      · omega
      · omega
    · rintro ⟨r₁, hr₁, hstate⟩
      cases hr₁
      rw [if_pos (hstate ▸ hr)] at h
      omega

/-- the keyword of a search, by the requests before it -/
theorem keyword_spec (h : History e table rs s) {newer older : List Request} {r : Request} (hrs : rs = newer ++ r :: older)
    (hr : IsSearch r.state) :
    (∀ r₀, Recalls r older → subject older = some r₀ → keyword r.page = keyword r₀.page) ∧ (¬ Recalls r older → Drawn e r) := by
  obtain ⟨m, m', hm, hrequested⟩ := request_of_history h hrs
  constructor
  · intro r₀ hrecalls hr₀
    rw [hrequested.kept hr ((serves_iff hm hr).2 hrecalls)]
    obtain ⟨-, -, r₁, hr₁, hstate⟩ := hrecalls
    have h01 : r₀ = r₁ := Option.some.inj (hr₀.symm.trans hr₁)
    subst h01
    unfold Remembers at hm
    rw [hr₁] at hm
    simp only at hm
    rw [if_pos (hstate ▸ hr)] at hm
    exact hm.2
  · intro hrecalls
    exact hrequested.drawn hr fun hserves => hrecalls ((serves_iff hm hr).1 hserves)

/-! ## The rule -/

/-- the keyword of a search: that of the page before, if it is a page of the same search, and otherwise a new one -/
def Follows (e : Env) (r before : Request) : Prop :=
  IsSearch r.state → if before.state = r.state then keyword r.page = keyword before.page else Drawn e r

/-- none of the three: a second search of stories; a second search of another kind that a call goes back to; a search behind
logins that follow a search of the same kind -/
def Regular (r before : Request) (older : List Request) : Prop :=
  IsSearch r.state →
    if before.state = r.state then r.state ≠ 16 ∧ r.wentBack = false else ¬ Recalls r (before :: older)

/-- what holds of every request with the one before it and those before that -/
def Along (P : Request → Request → List Request → Prop) (rs : List Request) : Prop :=
  ∀ newer r before older, rs = newer ++ r :: before :: older → P r before older

/-- **The keyword of a search** follows the page before it in every run whose requests are regular. -/
theorem keywords_follow (h : History e table rs s) (hregular : Along Regular rs) :
    Along (fun r before _ => Follows e r before) rs := by
  intro newer r before older hrs hr
  have hreg := hregular newer r before older hrs hr
  obtain ⟨hkept, hdrawn⟩ := keyword_spec h hrs hr
  split_ifs at hreg ⊢ with hsame
  · have hsubject : subject (before :: older) = some before := by
      rw [subject_cons, if_neg]
      intro hlogin
      unfold IsSearch at hr
      omega
    exact hkept before ⟨hreg.1, hreg.2, before, hsubject, hsame⟩ hsubject
  · exact hdrawn hreg

end Runs

/-! ## Two users -/

/-- a user with two words -/
def searcher : Env := { visitor with dictionary := ⟨[['a'], ['b']], by decide, by decide⟩ }

/-- every state leads to the same one -/
def leadingTo (state : ℤ) : TransitionTable.Table Binary32 := ⟨24, 26, fun _ i => if i = state then 1 else 0⟩

/-- a page of results without links -/
def results : Text := "Results".toList

/-- the session before its n-th search, when the memory is m -/
def searching (state : ℤ) (n : ℕ) (m : SearchMemory) : Session :=
  { novice with transition := ⟨state, []⟩, lastHTMLReply := some results, search := m, rand := fun i => i + n }

def fresh : Session := { novice with rand := fun i => i }

def homeRequest : Request := ⟨0, .homePage, false, fun i => i⟩

def searchRequest (state : ℤ) (searchType : Text) (w : Text) (n : ℕ) : Request :=
  ⟨state, .search (some w) searchType 0 5, false, fun i => i + n⟩

theorem history_answered {table : TransitionTable.Table Binary32} {rs : List Request} {s s₁ : Session}
    (h : History searcher table rs s) {fuel : ℕ} {page : Page} {r : Request}
    (hrequest : (request searcher fuel s.transition.currentState).run s = .ok ((site.url page 9, r), s₁))
    (hcall : (callHTTPServer site (site.url page 9) (answered results)).toOption.map Answer.reply = some (some results))
    {t : TransitionTable.St} {v : TransitionTable.Ret}
    (hnext : TransitionTable.nextState table s₁.transition 0 = .ok (t, v)) :
    History searcher table (r :: rs) { s₁ with lastHTMLReply := some results, transition := t } := by
  cases ha : callHTTPServer site (site.url page 9) (answered results) with
  | error x =>
    rw [ha] at hcall
    cases hcall
  | ok a =>
    rw [ha] at hcall
    obtain hreply : a.reply = some results := Option.some.inj hcall
    have hrun := History.answer h hrequest ha (by rw [hreply]; decide) hnext
    rw [hreply] at hrun
    exact hrun

theorem history_home {state : ℤ}
    (hnext : TransitionTable.nextState (leadingTo state) TransitionTable.fresh 0 = .ok (⟨state, []⟩, ⟨state, .cleared⟩)) :
    History searcher (leadingTo state) [homeRequest] (searching state 0 novice.search.reset) := by
  have hstart : History searcher (leadingTo state) [] fresh := .start rfl rfl rfl
  have hrequest : (request searcher 2 fresh.transition.currentState).run fresh =
      .ok ((site.url .homePage 9, homeRequest), { fresh with search := novice.search.reset }) := rfl
  exact history_answered hstart hrequest (by decide) hnext

/-- two searches of comments have one keyword -/
theorem comments_searched_twice : ∃ rs s, History searcher (leadingTo 17) rs s ∧
    rs.map (fun r => (r.state, keyword r.page)) = [(17, some ['a']), (17, some ['a']), (0, none)] ∧
    Along (fun r before _ => Follows searcher r before) rs := by
  have h₀ : History searcher (leadingTo 17) [homeRequest] (searching 17 0 novice.search.reset) :=
    history_home (by decide)
  have hfirst : (request searcher 2 17).run (searching 17 0 novice.search.reset) =
      .ok ((site.url (.search (some ['a']) ['1'] 0 5) 9, searchRequest 17 ['1'] ['a'] 0),
        searching 17 1 ⟨18, some ['a'], fun _ => rfl⟩) := rfl
  have hsecond : (request searcher 2 17).run (searching 17 1 ⟨18, some ['a'], fun _ => rfl⟩) =
      .ok ((site.url (.search (some ['a']) ['1'] 0 5) 9, searchRequest 17 ['1'] ['a'] 1),
        searching 17 1 ⟨18, some ['a'], fun _ => rfl⟩) := rfl
  have hnext : TransitionTable.nextState (leadingTo 17) ⟨17, []⟩ 0 = .ok (⟨17, []⟩, ⟨17, .cleared⟩) := by decide
  have h₁ := history_answered h₀ hfirst (by decide +kernel) hnext
  have h₂ := history_answered h₁ hsecond (by decide +kernel) hnext
  refine ⟨_, _, h₂, by decide, keywords_follow h₂ ?_⟩
  intro newer r before older hrs hr
  obtain ⟨rfl, hcons⟩ | ⟨newer, rfl, hcons⟩ := List.cons_eq_append_iff.1 hrs
  · cases hcons
    exact ⟨by decide, rfl⟩
  · obtain ⟨rfl, hcons⟩ | ⟨newer, rfl, hcons⟩ := List.cons_eq_append_iff.1 hcons
    · cases hcons
      rintro ⟨-, -, r₀, hr₀, hstate⟩
      cases hr₀
      cases hstate
    · have hlen := congrArg List.length hcons
      simp only [List.length_append, List.length_cons, List.length_nil] at hlen
      omega

/-- **Two searches of stories have different keywords.** -/
theorem stories_change_word : ¬ ∀ rs s, History searcher (leadingTo 16) rs s →
    Along (fun r before _ => Follows searcher r before) rs := by
  intro h
  have h₀ : History searcher (leadingTo 16) [homeRequest] (searching 16 0 novice.search.reset) :=
    history_home (by decide)
  have hfirst : (request searcher 2 16).run (searching 16 0 novice.search.reset) =
      .ok ((site.url (.search (some ['a']) ['0'] 0 5) 9, searchRequest 16 ['0'] ['a'] 0),
        searching 16 1 ⟨17, some ['a'], fun _ => rfl⟩) := rfl
  have hsecond : (request searcher 2 16).run (searching 16 1 ⟨17, some ['a'], fun _ => rfl⟩) =
      .ok ((site.url (.search (some ['b']) ['0'] 0 5) 9, searchRequest 16 ['0'] ['b'] 1),
        searching 16 2 ⟨17, some ['b'], fun _ => rfl⟩) := rfl
  have hnext : TransitionTable.nextState (leadingTo 16) ⟨16, []⟩ 0 = .ok (⟨16, []⟩, ⟨16, .cleared⟩) := by decide
  have h₁ := history_answered h₀ hfirst (by decide +kernel) hnext
  have h₂ := history_answered h₁ hsecond (by decide +kernel) hnext
  have hfollows := h _ _ h₂ [] _ _ _ rfl (by decide)
  rw [if_pos (by rfl)] at hfollows
  exact absurd hfollows (by decide)

end Rubbos.Client.SearchWords
