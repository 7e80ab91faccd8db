/-
Which page an emulated user requests (`UserSession.computeURLFromState` and the loop of `run`).

`Page.IsOf state p` says that p is a page of the state, as the switch labels and the rows of the transition table name
them. `computeURLFromState` may replace its argument, go back, reset the table and call itself again; what carries the
proof is that the state it looks at is always the table's current state, or -1 with nothing left to go back to. A retry
takes a state off the history, or finds it empty and then ends at the home page: with n states in the history there are
at most n + 2 calls.

- `urlOfState_spec`: what one pass through the switch does.
- `computeURLFromState_spec`: enough fuel is never used up, and a URL that is returned is one of the current state.
- `requested_page_is_charged`: the same for the request that `run` makes and the state it charges.

Witness: `visitor`, who got lost at state 7 and goes back to state 4.
-/
import Rubbos.Client.UserSession
import Rubbos.Client.CallHTTPServer

namespace Rubbos.Client

open Rubbos.Core JString

/-! ## Pages of a state -/

/-- the page belongs to the state -/
def Page.IsOf (state : ℤ) : Page → Prop
  | .homePage | .StoriesOfTheDay => state = 0
  | .register => state = 1
  | .registerUser .. => state = 2
  | .browse => state = 3
  | .browseCategories => state = 4
  | .browseStoriesByCategory .. => state = 5
  | .OlderStories .. => state = 6
  | .viewStory .. => state = 7
  | .postComment .. => state = 8
  | .storeComment .. => state = 9
  | .viewComment .. => state = 10
  | .moderateComment .. => state = 11
  | .storeModerateLog .. => state = 12
  | .submitStory => state = 13
  | .storeStory .. => state = 14
  | .search none _ _ _ => state = 15
  | .search (some _) searchType _ _ =>
    (state = 16 ∧ searchType = ['0']) ∨ (state = 17 ∧ searchType = ['1']) ∨ (state = 18 ∧ searchType = ['2'])
  | .authorLogin => state = 19
  | .authorTasks .. => state = 20
  | .reviewStories => state = 21
  | .acceptStory .. => state = 22
  | .rejectStory .. => state = 23

/-! ## Loops that end -/

/-- the exceptions of the code itself -/
abbrev Genuine (x : Exc) : Prop := x ≠ .outOfFuel

/-- the program over the draws ends -/
def Total {α : Type} (d : Draw α) : Prop := ∀ r, Ensures d r (fun _ _ => True) Genuine

/-- a computation without draws ends -/
def Ends {α : Type} (x : Except Exc α) : Prop := ∀ e, x = .error e → Genuine e

section Total

variable {α β : Type}

theorem total_pure (a : α) : Total (pure a : Draw α) := fun _ => ensures_pure trivial

theorem total_throw {x : Exc} (hx : Genuine x) : Total (throw x : Draw α) := fun _ => ensures_throw hx

theorem total_bind {d : Draw α} {f : α → Draw β} (hd : Total d) (hf : ∀ a, Total (f a)) : Total (d >>= f) :=
  fun r => ensures_bind (hd r) fun a r' _ => hf a r'

theorem total_lift {x : Except Exc α} (hx : Ends x) : Total (StateT.lift x : Draw α) :=
  fun _ => ensures_lift (fun _ _ => trivial) hx

theorem nextInt_run {n : ℕ} (hn : n ≠ 0) (r : ℕ → ℕ) : (nextInt n).run r = .ok (r 0 % n, fun i => r (i + 1)) := by
  have hpos : ¬ (n : ℤ) ≤ 0 := by omega
  unfold nextInt
  rw [if_neg hpos]
  rfl

theorem total_nextInt (n : ℤ) : Total (nextInt n) := by
  intro r
  unfold nextInt
  by_cases h : n ≤ 0
  · simp only [h, if_true]
    exact fun hx => by cases hx
  · simp only [h, if_false]
    exact trivial

theorem ends_ok (a : α) : Ends (.ok a : Except Exc α) := by
  intro e h
  cases h

theorem ends_bind {x : Except Exc α} {f : α → Except Exc β} (hx : Ends x) (hf : ∀ a, Ends (f a)) : Ends (x >>= f) := by
  intro e h
  cases x with
  | error e' =>
    cases h
    exact hx e rfl
  | ok a => exact hf a e h

theorem ends_map {x : Except Exc α} {f : α → β} (hx : Ends x) : Ends (x.map f) := by
  intro e h
  cases x with
  | error e' =>
    simp only [Except.map, Except.error.injEq] at h
    exact h ▸ hx e' rfl
  | ok a => cases h

theorem ends_substring (s : Text) (i j : ℤ) : Ends (substring s i j) := by
  intro e h
  unfold substring at h
  split_ifs at h
  cases h
  exact fun hx => by cases hx

theorem ends_parseInt (s : Text) : Ends (parseInt s) := by
  intro e h
  unfold parseInt at h
  simp only at h
  split_ifs at h <;> cases h <;> exact fun hx => by cases hx

end Total

/-- an occurrence found from a start on lies at or behind it, and inside the text -/
theorem indexOfFrom_bounds {s k : Text} {start : ℤ} (hk : k ≠ []) (hs : 0 ≤ start) (h : indexOfFrom s k start ≠ -1) :
    start ≤ indexOfFrom s k start ∧ indexOfFrom s k start < s.length := by
  unfold indexOfFrom at h ⊢
  cases hf : find k (s.drop start.toNat) with
  | none => simp [hf] at h
  | some i =>
    obtain ⟨-, hpre, -⟩ := find_eq_some hf
    have hlen := hpre.length_le
    have hpos := List.length_pos_of_ne_nil hk
    simp only [List.length_drop] at hlen
    simp only
    omega

/-- the counting loop ends: the index moves on by the length of the key at least -/
theorem ends_countKey {reply key : Text} (hk : key ≠ []) {fuel : ℕ} {idx : ℤ} (hf : 0 < fuel)
    (hidx : idx ≠ -1 → 0 ≤ idx ∧ idx < reply.length ∧ reply.length + 2 ≤ fuel + idx) :
    Ends (countKey reply key fuel idx) := by
  induction fuel generalizing idx with
  | zero => omega
  | succ fuel ih =>
    unfold countKey
    split_ifs with hi
    · exact ends_ok 0
    · obtain ⟨h0, hlt, hfuel⟩ := hidx hi
      have hpos := List.length_pos_of_ne_nil hk
      refine ends_map (ih (by omega) fun hne => ?_)
      obtain ⟨hle, hlt'⟩ := indexOfFrom_bounds hk (by omega : (0 : ℤ) ≤ idx + key.length) hne
      omega

theorem indexOf_eq_indexOfFrom (s k : Text) : indexOf s k = indexOfFrom s k 0 := by
  simp [indexOf, indexOfFrom]

theorem total_randomComputeLastIndex {key : Text} (hk : key ≠ []) (reply : Option Text) (skipFirst : Bool) :
    Total (randomComputeLastIndex reply key skipFirst) := by
  unfold randomComputeLastIndex
  cases reply with
  | none => exact total_throw (fun hx => by cases hx)
  | some text =>
    refine total_bind (total_lift (ends_countKey hk (by omega) fun hne => ?_)) fun count => ?_
    · rw [indexOf_eq_indexOfFrom] at hne ⊢
      have := indexOfFrom_bounds hk le_rfl hne
      push_cast
      omega
    · split_ifs
      · exact total_pure none
      · exact total_bind (total_nextInt _) fun _ => total_pure _

theorem ends_extractParam (reply key : Text) (pos : ℤ) : Ends (extractParam reply key pos) := by
  unfold extractParam
  simp only
  split_ifs
  · exact ends_map (ends_substring _ _ _)
  · exact ends_ok _

theorem ends_extractIntParam (reply key : Text) (pos : ℤ) : Ends (extractIntParam reply key pos) := by
  unfold extractIntParam
  refine ends_bind (ends_extractParam _ _ _) fun r => ?_
  rcases r with ⟨_ | v, newLast⟩
  · exact ends_ok _
  · exact ends_bind (ends_parseInt v) fun _ => ends_ok _

theorem total_extractLink {α : Type} {scriptName : Text} (hk : scriptName ≠ []) (reply : Option Text) (skipFirst : Bool)
    {read : Text → ℤ → Except Exc α} (hread : ∀ text pos, Ends (read text pos)) :
    Total (extractLink reply scriptName skipFirst read) := by
  unfold extractLink
  cases reply with
  | none => exact total_pure none
  | some text =>
    refine total_bind (total_randomComputeLastIndex hk _ _) fun r => ?_
    rcases r with _ | ⟨i, pos⟩
    · exact total_pure none
    · exact total_bind (total_lift (hread text pos)) fun _ => total_pure _

theorem ends_readPostComment (reply : Text) (pos : ℤ) : Ends (readPostComment reply pos) :=
  ends_bind (ends_extractParam _ _ _) fun _ => ends_bind (ends_extractIntParam _ _ _) fun _ =>
    ends_bind (ends_extractIntParam _ _ _) fun _ => ends_ok _

theorem ends_readViewComment (reply : Text) (pos : ℤ) : Ends (readViewComment reply pos) :=
  ends_bind (ends_extractParam _ _ _) fun _ => ends_bind (ends_extractIntParam _ _ _) fun _ =>
    ends_bind (ends_extractIntParam _ _ _) fun _ => ends_bind (ends_extractIntParam _ _ _) fun _ =>
      ends_bind (ends_extractIntParam _ _ _) fun _ => ends_ok _

theorem ends_readModerateComment (reply : Text) (pos : ℤ) : Ends (readModerateComment reply pos) :=
  ends_bind (ends_extractParam _ _ _) fun _ => ends_bind (ends_extractIntParam _ _ _) fun _ => ends_ok _

theorem total_extractAcceptReject {scriptName : Text} (hk : scriptName ≠ []) (reply : Option Text) :
    Total (extractAcceptRejectStoryIdFromHTML reply scriptName) :=
  total_bind (total_extractLink hk reply false fun _ _ => ends_map (ends_extractIntParam _ _ _)) fun _ => total_pure _

theorem total_extractCategoryFromHTML (reply : Option Text) : Total (extractCategoryFromHTML reply) := by
  unfold extractCategoryFromHTML
  cases reply with
  | none => exact total_pure none
  | some text =>
    refine total_bind (total_randomComputeLastIndex (by decide) _ _) fun r => ?_
    rcases r with _ | ⟨start, pos⟩
    · exact total_pure none
    · exact total_bind (total_lift (ends_bind (ends_substring _ _ _) fun _ => ends_parseInt _)) fun _ =>
        total_bind (total_lift (ends_extractParam _ _ _)) fun _ => total_pure _

theorem total_storyIdFromHTML (text : Text) : Total (storyIdFromHTML text) := by
  unfold storyIdFromHTML
  refine total_bind (total_randomComputeLastIndex (by decide) _ _) fun r => ?_
  rcases r with _ | ⟨start, pos⟩
  · exact total_pure none
  · exact total_bind (total_lift (ends_bind (ends_substring _ _ _) fun _ => ends_parseInt _)) fun _ => total_pure _

theorem total_extractPageFromHTML (reply : Option Text) : Total (extractPageFromHTML reply) := by
  have hread : ∀ text start stop, Total (StateT.lift (substring text start stop >>= parseInt) : Draw ℤ) :=
    fun text start stop => total_lift (ends_bind (ends_substring _ _ _) fun _ => ends_parseInt _)
  unfold extractPageFromHTML
  cases reply with
  | none => exact total_pure 0
  | some text =>
    simp only
    split_ifs
    · exact total_pure 0
    · refine total_bind (total_nextInt _) fun n => ?_
      split_ifs
      · exact hread _ _ _
      · exact hread _ _ _
    · exact hread _ _ _

theorem ends_extractIntFromHTML (reply : Option Text) (key : Text) : Ends (extractIntFromHTML reply key) := by
  unfold extractIntFromHTML
  cases reply with
  | none => exact ends_ok _
  | some text =>
    simp only
    split_ifs
    · exact ends_ok _
    · exact ends_bind (ends_substring _ _ _) fun _ => ends_parseInt _

theorem punctuation_ne_nil (n : ℕ) : punctuation n ≠ [] := by
  unfold punctuation
  split <;> decide

/-- a word with punctuation is not empty -/
theorem randomWord_ne_nil (dictionary : WordList) (r : ℕ → ℕ) :
    Ensures (randomWordFromDictionary dictionary true) r (fun w _ => w ≠ []) Genuine := by
  unfold randomWordFromDictionary
  refine ensures_bind (total_nextInt _ r) fun pos r₁ _ => ?_
  refine ensures_bind (total_nextInt _ r₁) fun n r₂ _ => ?_
  exact ensures_pure (by simp [punctuation_ne_nil])

theorem total_randomWord (dictionary : WordList) : Total (randomWordFromDictionary dictionary false) := by
  unfold randomWordFromDictionary
  exact total_bind (total_nextInt _) fun _ => total_pure _

/-- the filling loop ends: every word makes the text longer -/
theorem total_fillText (dictionary : WordList) {size fuel : ℕ} {text : Text} (h : size < fuel + text.length) (hf : 0 < fuel) :
    Total (fillText dictionary size fuel text) := by
  induction fuel generalizing text with
  | zero => omega
  | succ fuel ih =>
    intro r
    unfold fillText
    refine ensures_bind (randomWord_ne_nil dictionary r) fun w r₁ hw => ?_
    have hpos := List.length_pos_of_ne_nil hw
    simp only
    split_ifs with hlt
    · rw [List.length_append] at hlt
      exact ih (by rw [List.length_append]; omega) (by omega) r₁
    · exact ensures_pure trivial

section

variable (e : Env)

theorem total_shortText : Total (shortText e) :=
  total_bind (total_nextInt _) fun size =>
    total_bind (total_fillText _ (by simp) (by omega)) fun _ => total_pure _

theorem total_longTextOf (n : ℤ) : Total (longTextOf e n) :=
  total_bind (total_nextInt _) fun size => total_fillText _ (by simp) (by omega)

theorem total_olderStoriesDate : Total (olderStoriesDate e) := by
  unfold olderStoriesDate
  refine total_bind (total_nextInt _) fun w => total_bind ?_ fun d => total_pure _
  split_ifs
  · exact total_bind (total_nextInt _) fun _ => total_bind (total_nextInt _) fun _ =>
      total_bind (total_nextInt _) fun _ => total_pure _
  · exact total_pure _

end

/-! ## One pass through the switch -/

/-- what a pass that started with the table t₀ may end in -/
def Passed (t₀ : TransitionTable.St) : Next → Session → Prop
  | .page p, s => p.IsOf s.transition.currentState
  | .null, _ => True
  | .goBack, s => s.transition = t₀

section Pass

variable {α : Type} {t₀ : TransitionTable.St} {s : Session}

/-- the draws do not touch the table -/
theorem ensures_draw {d : Draw α} (hd : Total d) : Ensures (draw d) s (fun _ s' => s'.transition = s.transition) Genuine := by
  have h := hd s.rand
  unfold Ensures draw at *
  simp only [StateT.run] at h ⊢
  cases hr : d s.rand with
  | error x =>
    rw [hr] at h
    exact h
  | ok r => rfl

theorem pass_draw {d : Draw α} {f : α → M Next} (hd : Total d) (hs : s.transition = t₀)
    (hf : ∀ a s', s'.transition = t₀ → Ensures (f a) s' (Passed t₀) Genuine) :
    Ensures (draw d >>= f) s (Passed t₀) Genuine :=
  ensures_bind (ensures_draw hd) fun a s' h => hf a s' (h.trans hs)

theorem pass_lift {x : Except Exc α} {f : α → M Next} (hx : Ends x) (hs : s.transition = t₀)
    (hf : ∀ a s', s'.transition = t₀ → Ensures (f a) s' (Passed t₀) Genuine) :
    Ensures (StateT.lift x >>= f) s (Passed t₀) Genuine :=
  ensures_bind (ensures_lift (Q := fun _ s' => s'.transition = t₀) (fun _ _ => hs) hx) fun a s' h => hf a s' h

theorem pass_modify {m : Session → Session} {f : PUnit → M Next} (hm : (m s).transition = s.transition)
    (hs : s.transition = t₀) (hf : ∀ s', s'.transition = t₀ → Ensures (f ⟨⟩) s' (Passed t₀) Genuine) :
    Ensures (modify m >>= f) s (Passed t₀) Genuine :=
  ensures_bind (ensures_modify (Q := fun _ s' => s'.transition = t₀) (hm.trans hs)) fun _ s' h => hf s' h

theorem pass_page {p : Page} (hs : s.transition = t₀) (hp : p.IsOf t₀.currentState) :
    Ensures (pure (Next.page p) : M Next) s (Passed t₀) Genuine :=
  ensures_pure (by rw [Passed, hs]; exact hp)

theorem pass_null : Ensures (pure Next.null : M Next) s (Passed t₀) Genuine := ensures_pure trivial

theorem pass_goBack (hs : s.transition = t₀) : Ensures (pure Next.goBack : M Next) s (Passed t₀) Genuine :=
  ensures_pure hs

theorem ensures_resetToInitialState :
    Ensures resetToInitialState s (fun _ s' => s'.transition.currentState = 0) Genuine := rfl

theorem ensures_nanoTime : Ensures nanoTime s (fun _ s' => s'.transition = s.transition) Genuine := rfl

/-- a reset makes the home page the page of the current state -/
theorem pass_home : Ensures (do resetToInitialState; return .page .homePage : M Next) s (Passed t₀) Genuine :=
  ensures_bind ensures_resetToInitialState fun _ _ h => ensures_pure (Q := Passed t₀) h

theorem pass_search (e : Env) {kind : ℤ} (hk : kind ≠ 0) {searchType : Text} {word : Draw Text} (hw : Total word)
    (hs : s.transition = t₀) (hp : ∀ w page n, (Page.search (some w) searchType page n).IsOf t₀.currentState) :
    Ensures (searchPage e kind hk searchType word) s (Passed t₀) Genuine := by
  unfold searchPage
  refine ensures_bind (ensures_get (Q := fun a s' => s'.transition = t₀) hs) fun a s₁ h₁ => ?_
  refine ensures_bind (Q := fun _ s' => s'.transition = t₀) ?_ fun w s₂ h₂ => ?_
  · split_ifs
    · exact ensures_pure h₁
    · exact (ensures_draw hw).mono (fun _ _ h => h.trans h₁) fun _ h => h
  · refine pass_modify rfl h₂ fun s₃ h₃ => ?_
    refine pass_draw (total_extractPageFromHTML _) h₃ fun page s₄ h₄ => ?_
    exact pass_page h₄ (hp _ _ _)

theorem Script.file_ne_nil (v : Version) (sc : Script) : sc.file v ≠ [] := by
  cases v <;> simp [Script.file]

/-- one pass through the switch, for the current state or for -1 -/
theorem urlOfState_spec (e : Env) {state : ℤ} (h : s.transition.currentState = state ∨ state = -1) :
    Ensures (urlOfState e state) s (Passed s.transition) Genuine := by
  unfold urlOfState
  refine ensures_bind (ensures_get (Q := fun a s' => s'.transition = s.transition) rfl) fun a s₁ h₁ => ?_
  simp only
  split
  case h_1 => exact pass_home
  case h_26 => exact pass_null
  -- in every other case the argument is the current state
  all_goals have hcur := h.resolve_right (by decide)
  case h_2 | h_3 | h_5 | h_6 | h_15 | h_17 | h_21 | h_22 | h_23 => exact pass_page h₁ hcur
  case h_4 => exact pass_draw (total_nextInt _) h₁ fun _ _ h₂ => pass_page h₂ hcur
  case h_7 =>
    refine pass_draw (total_extractCategoryFromHTML _) h₁ fun c s₂ h₂ => ?_
    refine pass_modify rfl h₂ fun s₃ h₃ => ?_
    refine pass_draw (total_extractPageFromHTML _) h₃ fun page s₄ h₄ => ?_
    split
    · exact ensures_throw (fun hx => by cases hx)
    · exact pass_page h₄ hcur
  case h_8 =>
    refine pass_draw (total_olderStoriesDate e) h₁ fun d s₂ h₂ => ?_
    exact pass_draw (total_extractPageFromHTML _) h₂ fun _ _ h₃ => pass_page h₃ hcur
  case h_9 =>
    split
    · exact pass_goBack h₁
    · refine pass_draw (total_storyIdFromHTML _) h₁ fun id s₂ h₂ => ?_
      refine pass_modify rfl h₂ fun s₃ h₃ => ?_
      split_ifs
      · exact pass_goBack h₃
      · exact pass_page h₃ hcur
  case h_10 =>
    refine pass_draw (total_extractLink (Script.file_ne_nil _ _) _ _ ends_readPostComment) h₁ fun l s₂ h₂ => ?_
    split
    · exact pass_null
    · exact pass_page h₂ hcur
    · exact pass_goBack h₂
  case h_11 =>
    refine pass_draw (total_shortText e) h₁ fun subject s₂ h₂ => ?_
    refine pass_draw (total_longTextOf e _) h₂ fun body s₃ h₃ => ?_
    refine pass_draw (total_randomComputeLastIndex (by decide) _ _) h₃ fun pos s₄ h₄ => ?_
    split
    · exact pass_null
    · refine pass_lift (ends_substring _ _ _) h₄ fun t s₅ h₅ => ?_
      refine pass_lift (ends_extractIntFromHTML _ _) h₅ fun t s₆ h₆ => ?_
      exact pass_lift (ends_extractIntFromHTML _ _) h₆ fun _ _ h₇ => pass_page h₇ hcur
  case h_12 =>
    refine pass_draw (total_extractLink (Script.file_ne_nil _ _) _ _ ends_readViewComment) h₁ fun l s₂ h₂ => ?_
    split
    · exact pass_page h₂ hcur
    · exact pass_goBack h₂
  case h_13 =>
    refine pass_draw (total_extractLink (Script.file_ne_nil _ _) _ _ ends_readModerateComment) h₁ fun l s₂ h₂ => ?_
    split
    · exact pass_page h₂ hcur
    · exact pass_goBack h₂
  case h_14 =>
    refine pass_draw (total_nextInt _) h₁ fun r s₂ h₂ => ?_
    refine pass_draw (total_randomComputeLastIndex (by decide) _ _) h₂ fun pos s₃ h₃ => ?_
    split
    · exact pass_null
    · refine pass_lift (ends_substring _ _ _) h₃ fun t s₄ h₄ => ?_
      exact pass_lift (ends_extractIntFromHTML _ _) h₄ fun _ _ h₅ => pass_page h₅ hcur
  case h_16 =>
    refine pass_draw (total_shortText e) h₁ fun title s₂ h₂ => ?_
    refine pass_draw (total_longTextOf e _) h₂ fun body s₃ h₃ => ?_
    refine pass_draw (total_randomComputeLastIndex (by decide) _ _) h₃ fun pos s₄ h₄ => ?_
    split
    · exact pass_null
    · exact pass_lift (ends_bind (ends_substring _ _ _) fun _ => ends_parseInt _) h₄ fun _ _ h₅ => pass_page h₅ hcur
  case h_18 => exact pass_search e _ (total_randomWord _) h₁ fun _ _ _ => Or.inl ⟨hcur, rfl⟩
  case h_19 => exact pass_search e _ (total_randomWord _) h₁ fun _ _ _ => Or.inr (Or.inl ⟨hcur, rfl⟩)
  case h_20 =>
    exact pass_search e _ (total_bind (total_nextInt _) fun _ => total_pure _) h₁
      fun _ _ _ => Or.inr (Or.inr ⟨hcur, rfl⟩)
  case h_24 | h_25 =>
    refine pass_draw (total_extractAcceptReject (Script.file_ne_nil _ _) _) h₁ fun id s₂ h₂ => ?_
    split
    · exact pass_page h₂ hcur
    · exact pass_home

end Pass

/-! ## Retries -/

section Retries

variable {s : Session} (e : Env)

/-- what a call of `computeURLFromState` finds: the current state and fuel for every state of the history, or the answer
-1 of a history with nothing left -/
def Settled (fuel : ℕ) (state : ℤ) (s : Session) : Prop :=
  (s.transition.currentState = state ∧ s.transition.previousStates.length + 2 ≤ fuel) ∨
    (state = -1 ∧ s.transition.previousStates = [] ∧ 1 ≤ fuel)

/-- the state -1 ends at the home page -/
theorem urlOfState_error : Ensures (urlOfState e (-1)) s
    (fun n s' => ∃ p, n = .page p ∧ p.IsOf s'.transition.currentState) Genuine :=
  show ∃ p, Next.page .homePage = .page p ∧ p.IsOf 0 from ⟨.homePage, rfl, rfl⟩

/-- going back takes a state off the history, or answers -1 and leaves it empty -/
theorem ensures_backToPreviousState {fuel : ℕ} (h : s.transition.previousStates.length + 1 ≤ fuel) :
    Ensures backToPreviousState s (Settled fuel) Genuine := by
  refine ensures_bind (ensures_get (Q := fun a s' => a = s ∧ s' = s) ⟨rfl, rfl⟩) fun a s₁ h₁ => ?_
  obtain ⟨rfl, rfl⟩ := h₁
  refine ensures_bind (ensures_set (Q := fun _ s' => Settled fuel _ s') ?_) fun _ s₂ h₂ => ensures_pure h₂
  cases hp : s₁.transition.previousStates with
  | nil => exact Or.inr ⟨rfl, hp, by omega⟩
  | cons p ps =>
    rw [hp, List.length_cons] at h
    exact Or.inl ⟨rfl, h⟩

/-- the URL, if there is one, is of a page of the current state -/
def OfCurrentState (u : Option Text) (s : Session) : Prop :=
  ∀ url, u = some url → ∃ p t, url = e.urlGen.url p t ∧ p.IsOf s.transition.currentState

theorem ensures_url {p : Page} (hp : p.IsOf s.transition.currentState) :
    Ensures (do return some (e.urlGen.url p (← nanoTime))) s (OfCurrentState e) Genuine := by
  refine ensures_bind ensures_nanoTime fun t s₁ h₁ => ensures_pure ?_
  rintro url ⟨⟩
  exact ⟨p, t, rfl, h₁ ▸ hp⟩

/-- the switch, and the retry with less fuel -/
theorem ensures_retry {fuel : ℕ} {state : ℤ} (h : Settled (fuel + 1) state s)
    (ih : ∀ {s : Session} {state : ℤ}, Settled fuel state s →
      Ensures (computeURLFromState e fuel state) s (OfCurrentState e) Genuine) :
    Ensures (do
      match ← urlOfState e state with
      | .page p => return some (e.urlGen.url p (← nanoTime))
      | .null => return none
      | .goBack => computeURLFromState e fuel (← backToPreviousState)) s (OfCurrentState e) Genuine := by
  rcases h with ⟨hcur, hfuel⟩ | ⟨rfl, -, -⟩
  · refine ensures_bind (urlOfState_spec e (Or.inl hcur)) fun n s₁ h₁ => ?_
    cases n with
    | page p => exact ensures_url e h₁
    | null => exact ensures_pure fun url h => by cases h
    | goBack =>
      have hlen : s₁.transition.previousStates.length + 1 ≤ fuel := by
        rw [show s₁.transition = s.transition from h₁]
        omega
      exact ensures_bind (ensures_backToPreviousState hlen) fun state s₂ h₂ => ih h₂
  · refine ensures_bind (urlOfState_error e) fun n s₁ h₁ => ?_
    obtain ⟨p, rfl, hp⟩ := h₁
    exact ensures_url e hp

/-- a URL that is returned is one of the current state, and enough fuel is never used up -/
theorem computeURLFromState_spec {fuel : ℕ} {state : ℤ} (h : Settled fuel state s) :
    Ensures (computeURLFromState e fuel state) s (OfCurrentState e) Genuine := by
  induction fuel generalizing state s with
  | zero =>
    rcases h with ⟨-, h⟩ | ⟨-, -, h⟩
    · omega
    · omega
  | succ fuel ih =>
    unfold computeURLFromState
    refine ensures_bind (ensures_get (Q := fun a s' => a = s ∧ s' = s) ⟨rfl, rfl⟩) fun a s₁ h₁ => ?_
    obtain ⟨rfl, rfl⟩ := h₁
    refine ensures_bind (Q := Settled (fuel + 1)) ?_ fun state s₂ h₂ => ?_
    · -- "Sorry" only goes back once more
      split_ifs
      · apply ensures_backToPreviousState
        rcases h with ⟨-, h⟩ | ⟨-, h, -⟩
        · omega
        · simp [h]
      · exact ensures_pure h
    · dsimp only
      split_ifs
      · refine ensures_bind (ensures_modify (Q := fun _ s' => Settled (fuel + 1) state s') h₂) fun _ s₃ h₃ => ?_
        exact ensures_retry e h₃ ih
      · exact ensures_retry e h₂ ih

/-- **The page that is charged.** Whatever the last reply and the history are: the call that starts at the current state
ends after at most one call for each state of the history and two more, and then the URL that is requested is one of the
state that the request is charged to. -/
theorem requested_page_is_charged (e : Env) (s : Session) (fuel : ℕ)
    (hfuel : s.transition.previousStates.length + 2 ≤ fuel) :
    (nextRequest e fuel s.transition.currentState).run s ≠ .error .outOfFuel ∧
    ∀ url next s', (nextRequest e fuel s.transition.currentState).run s = .ok ((url, next), s') →
      next = s'.transition.currentState ∧ ∃ p t, url = e.urlGen.url p t ∧ p.IsOf next := by
  have h : Ensures (nextRequest e fuel s.transition.currentState) s
      (fun r s' => r.2 = s'.transition.currentState ∧ ∃ p t, r.1 = e.urlGen.url p t ∧ p.IsOf r.2) Genuine := by
    unfold nextRequest
    refine ensures_bind (computeURLFromState_spec e (Or.inl ⟨rfl, hfuel⟩)) fun u s₁ h₁ => ?_
    refine ensures_bind (Q := fun url s' => ∃ p t, url = e.urlGen.url p t ∧ p.IsOf s'.transition.currentState) ?_ ?_
    · cases u with
      | some url => exact ensures_pure (h₁ url rfl)
      | none =>
        refine ensures_bind ensures_resetToInitialState fun _ s₂ h₂ => ?_
        refine ensures_bind ensures_nanoTime fun t s₃ h₃ => ensures_pure ⟨.homePage, t, rfl, ?_⟩
        exact h₃ ▸ h₂
    · intro url s₂ h₂
      exact ensures_bind (ensures_get (Q := fun a s' => a = s₂ ∧ s' = s₂) ⟨rfl, rfl⟩) fun a s₃ ⟨ha, hs⟩ =>
        ensures_pure ⟨by rw [ha, hs], ha ▸ h₂⟩
  unfold Ensures at h
  constructor
  · intro herr
    rw [herr] at h
    exact h rfl
  · intro url next s' hok
    rw [hok] at h
    exact h

/-- a user of `site` -/
def visitor : Env where
  urlGen := site
  rubbos := ⟨10, 5, 1999, 1, 100, 100⟩
  dictionary := ⟨[['w']], by decide, by decide⟩
  thisYear := 2001
  today := ⟨1, 1, 2001⟩

/-- nothing matched the last request, at state 7 -/
def lost : Session where
  transition := ⟨7, [4, 0]⟩
  lastHTMLReply := some "Sorry".toList
  lastStoryId := -1
  lastCategoryId := -1
  lastCategoryName := none
  search := ⟨0, none, fun h => absurd rfl h⟩
  username := ['u']
  password := ['p']
  rand := fun _ => 0
  nanoTime := fun _ => 9

theorem requested_page_is_charged_lost :
    ((nextRequest visitor 4 7).run lost).toOption.map (fun r => r.1.2) = some 4 ∧
    (nextRequest visitor 4 7).run lost ≠ .error .outOfFuel ∧
    ∀ url next s', (nextRequest visitor 4 7).run lost = .ok ((url, next), s') →
      next = s'.transition.currentState ∧ ∃ p t, url = visitor.urlGen.url p t ∧ p.IsOf next :=
  ⟨by decide, requested_page_is_charged visitor lost 4 (by decide)⟩

end Retries

end Rubbos.Client
