/-
How many database calls a row of the servlets log can have.

All servlets but two have a fixed number of statements, seven at most (`Adds`, a rule for each step of `doGet`). ViewStory
and ViewComment add a statement for every level of the comments: after level n there is another one as long as a comment of
level n has childs (`LastLevel`). The arrays of `getDB` hold twenty calls, so a row of these pages is stored exactly when
the last level comes early enough, or when a statement of the levels throws, which drops the calls of all levels (`Fits`).

Nothing bounds the levels: StoreComment adds a comment below any other. For tables in which the counter childs is what it
should be, the condition is that there is no comment at depth 18 (`shallow_iff_depth`).

- `logged_calls_fit_iff`: `getDB` stores the calls of a row exactly when the comments are `Shallow`.
- `deep_thread_overflows`: nineteen comments, each a reply to the one before, make ViewStory log 21 calls.
-/
import Rubbos.Parsers.TomcatparserRows
import Rubbos.Servlets.Pages

namespace Rubbos.Servlets

open Rubbos.Core JString
open Rubbos.Parsers Tomcatparser TomcatLogs

variable {α β : Type}

/-! ## Rules for the number of calls -/

/-- the calls logged so far, in both texts -/
def St.calls (s : St) : ℕ := s.logMessage.length + s.logTmpMessage.length

/-- the program logs at most n calls more -/
def Adds (n : ℕ) (m : M α) : Prop :=
  ∀ s, Ensures m s (fun _ s' => s'.calls ≤ s.calls + n) fun e => ∀ calls, e = .row calls → calls.length ≤ s.calls + n

section Rules

variable {n k : ℕ} {m : M α} {f : α → M β}

theorem adds_pure (a : α) : Adds n (pure a) := fun _ => ensures_pure (Nat.le_add_right _ _)

theorem ensures_log {s : St} {Q : α → St → Prop} {E : End → Prop} (h : E (.row s.logMessage)) :
    Ensures (log : M α) s Q E := h

theorem adds_log : Adds n (log : M α) := by
  intro s
  apply ensures_log
  intro calls h
  cases h
  unfold St.calls
  omega

theorem adds_leave : Adds n (leave : M α) := fun _ => ensures_throw fun _ h => by cases h

theorem Adds.mono (h : Adds k m) (hk : k ≤ n) : Adds n m :=
  fun s => (h s).mono (fun _ _ hs => by omega) fun _ he calls hc => by
    have := he calls hc
    omega

theorem Adds.bind (hm : Adds k m) (hf : ∀ a, Adds n (f a)) : Adds (n + k) (m >>= f) := by
  intro s
  have hweak : Ensures m s (fun _ s' => s'.calls ≤ s.calls + k)
      (fun e => ∀ calls, e = .row calls → calls.length ≤ s.calls + (n + k)) :=
    (hm s).mono (fun _ _ h => h) fun _ he calls hc => by
      have := he calls hc
      omega
  apply ensures_bind hweak
  intro a s' hs'
  apply (hf a s').mono
  · intro _ _ h
    omega
  · intro _ he calls hc
    have := he calls hc
    omega

/-- a step that adds no call -/
theorem adds_free (hm : Adds 0 m) (hf : ∀ a, Adds n (f a)) : Adds n (m >>= f) := hm.bind hf

theorem adds_ite {c : Prop} [Decidable c] {m m' : M α} (h : Adds n m) (h' : Adds n m') : Adds n (if c then m else m') := by
  split_ifs
  · exact h
  · exact h'

theorem adds_logIf (c : Prop) [Decidable c] : Adds 0 (logIf c) := adds_ite adds_log (adds_pure _)

theorem adds_leaveIf (c : Prop) [Decidable c] : Adds 0 (leaveIf c) := adds_ite adds_leave (adds_pure _)

theorem adds_nextAnswer (db : Database) : Adds 0 (nextAnswer db) := fun _ => le_refl _

theorem adds_modify {add : St → St} (h : ∀ s, (add s).calls ≤ s.calls + 1) : Adds 1 (modify add) :=
  fun s => ensures_modify (h s)

theorem calls_addMessage (call : DBCall) (s : St) : (s.addMessage call).calls = s.calls + 1 := by
  simp only [St.calls, St.addMessage, List.length_append, List.length_singleton]
  omega

theorem calls_addTmpMessage (call : DBCall) (s : St) : (s.addTmpMessage call).calls = s.calls + 1 := by
  simp only [St.calls, St.addTmpMessage, List.length_append, List.length_singleton]
  omega

theorem adds_addTmp : Adds 0 addTmp := by
  intro s
  apply ensures_modify
  simp [St.calls]

variable (db : Database)

theorem adds_executeWith {add : DBCall → St → St} (h : ∀ call s, (add call s).calls ≤ s.calls + 1) :
    Adds 1 (executeWith add db) := by
  apply adds_free (adds_nextAnswer db)
  rintro (_ | ⟨call, rs⟩)
  · exact adds_log
  · exact Adds.bind (adds_modify (h call)) fun _ => adds_pure rs

theorem adds_execute : Adds 1 (execute db) := adds_executeWith db fun call s => (calls_addMessage call s).le

theorem adds_executeTmp : Adds 1 (executeTmp db) := adds_executeWith db fun call s => (calls_addTmpMessage call s).le

theorem adds_authenticate : Adds 1 (authenticate db) := by
  apply adds_free (adds_nextAnswer db)
  rintro (_ | ⟨call, rs⟩)
  · exact adds_leave
  · apply Adds.bind (adds_modify fun s => (calls_addTmpMessage call s).le)
    intro _
    cases rs with
    | nil => exact adds_pure 0
    | cons r rs => exact adds_pure (r idColumn)

theorem adds_withTmp {m : M Unit} (h : Adds n m) : Adds n (withTmp m) := by
  have := h.bind fun _ => adds_addTmp
  rwa [Nat.zero_add] at this

theorem adds_getUserName : Adds 1 (getUserName db) := (adds_executeTmp db).bind fun _ => adds_logIf _

theorem adds_executeWithOld : Adds 2 (executeWithOld db) :=
  (adds_execute db).bind fun rs => adds_ite (adds_execute db) (adds_pure rs)

/-- a statement, and what follows it -/
theorem adds_statement {f : List Row → M β} (hf : ∀ rs, Adds n (f rs)) : Adds (n + 1) (execute db >>= f) :=
  (adds_execute db).bind hf

end Rules

/-! ## Servlets with a fixed number of statements -/

section Fixed

variable (request : Request) (db : Database)

theorem adds_parameter (name : Text) : Adds 0 (parameter request name) := by
  unfold parameter
  cases request.getParameter name with
  | none => exact adds_leave
  | some text => exact adds_pure text

theorem adds_valueOf (text : Text) : Adds 0 (valueOf text) := by
  unfold valueOf
  cases parseInt text with
  | error e => exact adds_leave
  | ok n => exact adds_pure n

theorem adds_intParameter (name : Text) : Adds 0 (intParameter request name) :=
  adds_free (adds_parameter request name) adds_valueOf

theorem adds_intParameterD (name : Text) (n : ℤ) : Adds 0 (intParameterD request name n) := by
  unfold intParameterD
  cases request.getParameter name with
  | none => exact adds_pure n
  | some text => exact adds_valueOf text

theorem adds_listRows : Adds 1 (listRows db) :=
  adds_statement db fun _ => adds_free (adds_logIf _) fun _ => adds_log

theorem adds_acceptStory : Adds 3 (acceptStory request db) :=
  adds_free (adds_intParameter _ _) fun _ => adds_free (adds_leaveIf _) fun _ => adds_statement db fun _ =>
    adds_free (adds_logIf _) fun _ => adds_statement db fun _ => adds_statement db fun _ => adds_log

theorem adds_author : Adds 1 (author request db) :=
  adds_free (adds_parameter _ _) fun _ => adds_free (adds_parameter _ _) fun _ => adds_statement db fun _ => adds_log

theorem adds_browseCategories : Adds 1 (browseCategories db) :=
  adds_statement db fun _ => adds_free (adds_leaveIf _) fun _ => adds_log

theorem adds_browseStoriesByCategory : Adds 1 (browseStoriesByCategory request db) :=
  adds_free (adds_intParameterD _ _ _) fun _ => adds_free (adds_intParameterD _ _ _) fun _ =>
    adds_free (adds_parameter _ _) fun _ => adds_free (adds_parameter _ _) fun _ => adds_listRows db

theorem adds_moderateComment : Adds 2 (moderateComment request db) :=
  adds_free (adds_parameter _ _) fun _ => adds_free (adds_parameter _ _) fun _ => adds_statement db fun _ =>
    adds_free (adds_logIf _) fun _ => (adds_withTmp (adds_getUserName db)).bind fun _ => adds_log

theorem adds_olderStories : Adds 2 (olderStories request db) :=
  adds_free (adds_intParameterD _ _ _) fun _ => adds_free (adds_intParameterD _ _ _) fun _ =>
    adds_free (adds_logIf _) fun _ => (adds_executeWithOld db).bind fun _ => adds_free (adds_logIf _) fun _ => adds_log

theorem adds_registerUser : Adds 3 (registerUser request db) :=
  adds_free (adds_parameter _ _) fun _ => adds_free (adds_parameter _ _) fun _ => adds_free (adds_parameter _ _) fun _ =>
    adds_free (adds_parameter _ _) fun _ => adds_free (adds_parameter _ _) fun _ => adds_statement db fun _ =>
      adds_free (adds_leaveIf _) fun _ => adds_statement db fun _ => adds_statement db fun _ => adds_log

theorem adds_rejectStory : Adds 2 (rejectStory request db) :=
  adds_free (adds_parameter _ _) fun _ => adds_statement db fun _ => adds_free (adds_logIf _) fun _ =>
    adds_statement db fun _ => adds_log

theorem adds_search : Adds 2 (search request db) :=
  adds_free (adds_intParameterD _ _ _) fun _ => adds_free (adds_intParameterD _ _ _) fun _ =>
    adds_free (adds_logIf _) fun _ => (adds_executeWithOld db).bind fun _ => adds_free (adds_logIf _) fun _ => adds_log

theorem adds_storeComment : Adds 3 (storeComment request db) :=
  adds_free (adds_parameter _ _) fun _ => adds_free (adds_parameter _ _) fun _ => adds_free (adds_parameter _ _) fun _ =>
    adds_free (adds_parameter _ _) fun _ => adds_free (adds_parameter _ _) fun _ => (adds_authenticate db).bind fun _ =>
      adds_free adds_addTmp fun _ => adds_statement db fun _ => adds_statement db fun _ => adds_log

theorem adds_updateRatings (rsrating rating : ℤ) : Adds 2 (updateRatings db rsrating rating) :=
  adds_ite (adds_pure _) (adds_statement db fun _ => adds_statement db fun _ => adds_pure _)

theorem adds_moderate (rating : ℤ) : Adds 6 (moderate db rating) := by
  apply adds_statement
  rintro (_ | ⟨r, rs⟩)
  · exact adds_log
  · exact (adds_updateRatings db _ rating).bind fun _ =>
      adds_statement db fun _ => adds_statement db fun _ => adds_statement db fun _ => adds_log

theorem adds_storeModeratorLog : Adds 7 (storeModeratorLog request db) := by
  refine adds_free (adds_parameter _ _) fun _ => adds_free (adds_parameter _ _) fun _ =>
    adds_free (adds_parameter _ _) fun _ => adds_free (adds_parameter _ _) fun _ =>
      adds_free (adds_intParameter _ _) fun rating => adds_statement db fun rs => ?_
  cases rs with
  | nil => exact adds_log
  | cons r rs => exact adds_free (adds_logIf _) fun _ => adds_moderate db rating

theorem adds_selectUser : Adds 1 (selectUser request db) := adds_ite (adds_pure _) (adds_execute db)

theorem adds_storeStory : Adds 2 (storeStory request db) :=
  adds_free (adds_parameter _ _) fun _ => adds_free (adds_parameter _ _) fun _ => adds_free (adds_parameter _ _) fun _ =>
    (adds_selectUser request db).bind fun _ => adds_statement db fun _ => adds_log

/-- without comments no row has more than seven calls -/
theorem adds_doGet (fuel : ℕ) {servlet : Servlet} (hc : servlet ≠ .ViewComment) (hs : servlet ≠ .ViewStory) :
    Adds 7 (doGet request db fuel servlet) := by
  cases servlet with
  | AcceptStory => exact (adds_acceptStory request db).mono (by decide)
  | Author => exact (adds_author request db).mono (by decide)
  | BrowseCategories => exact (adds_browseCategories db).mono (by decide)
  | BrowseStoriesByCategory => exact (adds_browseStoriesByCategory request db).mono (by decide)
  | ModerateComment => exact (adds_moderateComment request db).mono (by decide)
  | OlderStories => exact (adds_olderStories request db).mono (by decide)
  | PostComment => exact adds_leave
  | RegisterUser => exact (adds_registerUser request db).mono (by decide)
  | RejectStory => exact (adds_rejectStory request db).mono (by decide)
  | ReviewStories => exact (adds_listRows db).mono (by decide)
  | Search => exact (adds_search request db).mono (by decide)
  | StoreComment => exact (adds_storeComment request db).mono (by decide)
  | StoreModeratorLog => exact adds_storeModeratorLog request db
  | StoreStory => exact (adds_storeStory request db).mono (by decide)
  | StoriesOfTheDay => exact (adds_listRows db).mono (by decide)
  | SubmitStory => exact (adds_listRows db).mono (by decide)
  | ViewComment => exact absurd rfl hc
  | ViewStory => exact absurd rfl hs

end Fixed

/-! ## Levels of comments -/

def Answer.isThrows : Answer → Bool
  | .throws => true
  | .rows _ _ => false

/-- the level has a comment with childs -/
def Answer.deeper : Answer → Bool
  | .throws => false
  | .rows _ rs => Servlets.deeper rs

/-- of the levels from statement k on, level n is the first that throws or has no comment with childs -/
structure LastLevel (db : Database) (k n : ℕ) : Prop where
  before : ∀ m < n, (db (k + m)).deeper = true
  last : (db (k + n)).deeper = false

theorem eq_throws {a : Answer} (h : a.isThrows = true) : a = .throws := by
  cases a with
  | throws => rfl
  | rows call rs => cases h

theorem deeper_of_isThrows {a : Answer} (h : a.isThrows = true) : a.deeper = false := by
  rw [eq_throws h]
  rfl

theorem LastLevel.unique {db : Database} {k n n' : ℕ} (h : LastLevel db k n) (h' : LastLevel db k n') : n = n' := by
  rcases lt_trichotomy n n' with hlt | rfl | hlt
  · exact absurd (h'.before n hlt) (by simp [h.last])
  · rfl
  · exact absurd (h.before n' hlt) (by simp [h'.last])

theorem LastLevel.zero {db : Database} {k : ℕ} (hk : (db k).deeper = false) : LastLevel db k 0 :=
  ⟨fun m hm => absurd hm (Nat.not_lt_zero m), hk⟩

theorem LastLevel.succ {db : Database} {k n : ℕ} (hk : (db k).deeper = true) (h : LastLevel db (k + 1) n) :
    LastLevel db k (n + 1) := by
  refine ⟨fun m hm => ?_, ?_⟩
  · cases m with
    | zero => exact hk
    | succ m =>
      rw [show k + (m + 1) = k + 1 + m by omega]
      exact h.before m (by omega)
  · rw [show k + (n + 1) = k + 1 + n by omega]
    exact h.last

section Levels

variable (db : Database) {s : St} {E : End → Prop}

theorem ensures_executeWith {add : DBCall → St → St} {Q : List Row → St → Prop}
    (hthrows : (db s.next).isThrows → E (.row s.logMessage))
    (hrows : ∀ call rs, db s.next = .rows call rs → Q rs (add call { s with next := s.next + 1 })) :
    Ensures (executeWith add db) s Q E := by
  have hanswer : Ensures (nextAnswer db) s (fun a s' => a = db s.next ∧ s' = { s with next := s.next + 1 }) E := ⟨rfl, rfl⟩
  apply ensures_bind hanswer
  rintro _ _ ⟨rfl, rfl⟩
  cases h : db s.next with
  | throws => exact ensures_log (hthrows (by rw [h]; rfl))
  | rows call rs => exact hrows call rs h

/-- the levels are read up to the last one; each of them adds a call, and if the last one throws, none does -/
theorem ensures_fetchLowerLevels (fuel : ℕ) (s : St) :
    Ensures (fetchLowerLevels db fuel) s
      (fun _ s' => s'.logMessage = s.logMessage ∧ ∃ n, LastLevel db s.next n ∧ (db (s.next + n)).isThrows = false ∧
        s'.logTmpMessage.length = s.logTmpMessage.length + (n + 1))
      (fun e => ∀ calls, e = .row calls → calls = s.logMessage ∧
        ∃ n, LastLevel db s.next n ∧ (db (s.next + n)).isThrows = true) := by
  induction fuel generalizing s with
  | zero =>
    apply ensures_throw
    intro calls h
    cases h
  | succ fuel ih =>
    refine ensures_bind (ensures_executeWith db (Q := fun rs s' => ∃ call, db s.next = .rows call rs ∧
      s' = ⟨s.next + 1, s.logMessage, s.logTmpMessage ++ [call]⟩) ?_ fun call rs h => ⟨call, h, rfl⟩) ?_
    · intro h calls hcalls
      cases hcalls
      exact ⟨rfl, 0, .zero (deeper_of_isThrows h), h⟩
    · rintro rs _ ⟨call, hdb, rfl⟩
      by_cases hdeep : deeper rs
      · have hk : (db s.next).deeper = true := by
          rw [hdb]
          exact hdeep
        have hshift : ∀ n, s.next + (n + 1) = s.next + 1 + n := fun n => by omega
        rw [if_pos hdeep]
        apply (ih _).mono
        · rintro _ s' ⟨hmsg, n, hlast, hok, htmp⟩
          refine ⟨hmsg, n + 1, hlast.succ hk, (hshift n).symm ▸ hok, ?_⟩
          simp only [List.length_append, List.length_singleton] at htmp
          omega
        · intro e he calls hcalls
          obtain ⟨hmsg, n, hlast, hthrows⟩ := he calls hcalls
          exact ⟨hmsg, n + 1, hlast.succ hk, (hshift n).symm ▸ hthrows⟩
      · rw [if_neg hdeep]
        apply ensures_pure
        have hk : (db s.next).deeper = false := by
          rw [hdb]
          simpa [Answer.deeper] using hdeep
        exact ⟨rfl, 0, .zero hk, by simp [hdb, Answer.isThrows], by simp⟩

/-- the comments of a page whose statements start at k leave room in the arrays: the filter chooser throws, or the last
level throws, or it is among the first twenty statements -/
def Fits (db : Database) (k : ℕ) : Prop :=
  (db k).isThrows = true ∨ ∃ n, LastLevel db (k + 1) n ∧ ((db (k + 1 + n)).isThrows = true ∨ k + 1 + n < max_db)

/-- a row has at most twenty calls exactly when p holds -/
def RowFits (p : Prop) (e : End) : Prop := ∀ calls, e = .row calls → (calls.length ≤ max_db ↔ p)

theorem rowFits_of_le {p : Prop} {calls : List DBCall} (h : calls.length ≤ max_db) (hp : p) : RowFits p (.row calls) := by
  intro calls' hc
  cases hc
  exact iff_of_true h hp

/-- k statements so far, with their calls in `logMessage` -/
structure Joined (k : ℕ) (s : St) : Prop where
  next : s.next = k
  message : s.logMessage.length = k
  tmp : s.logTmpMessage = []

theorem joined_start : Joined 0 ⟨0, [], []⟩ := ⟨rfl, rfl, rfl⟩

variable {k : ℕ} {p : Prop}

theorem ensures_execute (hs : Joined k s) (hk : k ≤ max_db) (hthrows : (db k).isThrows = true → p) :
    Ensures (execute db) s (fun rs s' => (∃ call, db k = .rows call rs) ∧ Joined (k + 1) s') (RowFits p) := by
  obtain ⟨rfl, hmsg, htmp⟩ := hs
  apply ensures_executeWith
  · intro h
    exact rowFits_of_le (hmsg.symm ▸ hk) (hthrows h)
  · intro call rs h
    exact ⟨⟨call, h⟩, rfl, by simp [St.addMessage, hmsg], htmp⟩

/-- the filter chooser -/
theorem ensures_chooser (hs : Joined k s) (hk : k ≤ max_db) :
    Ensures (withTmp (displayFilterChooser db)) s (fun _ s' => (db k).isThrows = false ∧ Joined (k + 1) s')
      (RowFits (Fits db k)) := by
  obtain ⟨rfl, hmsg, htmp⟩ := hs
  have hquery : Ensures (displayFilterChooser db) s (fun _ s' => (db s.next).isThrows = false ∧ s'.next = s.next + 1 ∧
      s'.logMessage = s.logMessage ∧ s'.logTmpMessage.length = 1) (RowFits (Fits db s.next)) := by
    refine ensures_bind (ensures_executeWith db ?_ ?_) fun _ _ h => ensures_pure h
    · exact fun h => rowFits_of_le (hmsg.symm ▸ hk) (.inl h)
    · intro call rs h
      simp [h, Answer.isThrows, St.addTmpMessage, htmp]
  apply ensures_bind hquery
  rintro _ s₁ ⟨hok, hnext, hmsg₁, htmp₁⟩
  exact ensures_modify ⟨hok, hnext, by simp [hmsg₁, hmsg, htmp₁], rfl⟩

/-- the levels -/
theorem ensures_levels (fuel : ℕ) (hs : Joined (k + 1) s) (hk : k + 1 ≤ max_db) :
    Ensures (withTmp (fetchComments db fuel)) s
      (fun _ s' => ∃ n, LastLevel db (k + 1) n ∧ (db (k + 1 + n)).isThrows = false ∧
        s'.logMessage.length = k + 1 + (n + 1))
      (RowFits (Fits db k)) := by
  obtain ⟨hnext, hmsg, htmp⟩ := hs
  have hfetch := ensures_fetchLowerLevels db (fuel + 1) s
  rw [hnext] at hfetch
  refine ensures_bind (hfetch.mono (fun _ _ h => h) ?_) ?_
  · intro e he calls hcalls
    obtain ⟨rfl, n, hlast, hthrows⟩ := he calls hcalls
    exact iff_of_true (hmsg.symm ▸ hk) (.inr ⟨n, hlast, .inl hthrows⟩)
  · rintro _ s₁ ⟨hmsg₁, n, hlast, hok, htmp₁⟩
    exact ensures_modify ⟨n, hlast, hok, by simp [hmsg₁, hmsg, htmp₁, htmp]⟩

/-- the comments, and the logger behind them -/
theorem ensures_comments (fuel : ℕ) (hs : Joined k s) (hk : k + 1 ≤ max_db) :
    Ensures (displayComments db fuel >>= fun _ => log : M Unit) s (fun _ _ => True) (RowFits (Fits db k)) := by
  have hcomments : Ensures (displayComments db fuel) s (fun _ s' => (db k).isThrows = false ∧
      ∃ n, LastLevel db (k + 1) n ∧ (db (k + 1 + n)).isThrows = false ∧ s'.logMessage.length = k + 1 + (n + 1))
      (RowFits (Fits db k)) := by
    apply ensures_bind (ensures_chooser db hs (by omega))
    rintro _ s₁ ⟨hok, hs₁⟩
    exact (ensures_levels db fuel hs₁ hk).mono (fun _ _ h => ⟨hok, h⟩) fun _ h => h
  apply ensures_bind hcomments
  rintro _ s' ⟨hok, n, hlast, hok', hlen⟩
  apply ensures_log
  intro calls hcalls
  cases hcalls
  rw [hlen]
  constructor
  · intro hle
    exact .inr ⟨n, hlast, .inr (by omega)⟩
  · rintro (hthrows | ⟨n', hlast', hroom⟩)
    · exact absurd hthrows (by simp [hok])
    · obtain rfl := hlast.unique hlast'
      rcases hroom with hthrows | hroom
      · exact absurd hthrows (by simp [hok'])
      · omega

end Levels

/-! ## Pages with comments -/

/-- the number in a parameter, if it is there and is one -/
def Request.intValue (request : Request) (name : Text) : Option ℤ :=
  match request.getParameter name with
  | none => none
  | some text => (parseInt text).toOption

/-- the first statement of the comments behind the story, which may be an old one -/
def storyAt : Answer → Answer → Option ℕ
  | .rows _ (_ :: _), _ => some 1
  | .rows _ [], .rows _ (_ :: _) => some 2
  | _, _ => none

/-- the first statement of the comments behind the parent of a comment; comment 0 has none -/
def parentAt (commentId : Option ℤ) (a : Answer) : Option ℕ :=
  if commentId = some 0 then some 0
  else
    match a with
    | .rows _ (_ :: _) => some 1
    | _ => none

/-- the first statement of the comments, if the page comes to them -/
def commentsAt (request : Request) (db : Database) : Servlet → Option ℕ
  | .ViewStory => storyAt (db 0) (db 1)
  | .ViewComment => parentAt (request.intValue commentIdName) (db 0)
  | _ => none

/-- the comments of the page leave room in the arrays -/
def Shallow (servlet : Servlet) (request : Request) (db : Database) : Prop :=
  ∀ k ∈ commentsAt request db servlet, Fits db k

section View

variable (request : Request) (db : Database) {s : St} {p : Prop}

theorem rowFits_silent : RowFits p .silent := fun _ h => by cases h

theorem ensures_parameter (name : Text) {Q : Text → St → Prop} (h : ∀ text, Q text s) :
    Ensures (parameter request name) s Q (RowFits p) := by
  unfold parameter
  cases request.getParameter name with
  | none => exact ensures_throw rowFits_silent
  | some text => exact ensures_pure (h text)

theorem ensures_valueOf (text : Text) {Q : ℤ → St → Prop} (h : ∀ n, (parseInt text).toOption = some n → Q n s) :
    Ensures (valueOf text) s Q (RowFits p) := by
  unfold valueOf
  cases hp : parseInt text with
  | error e => exact ensures_throw rowFits_silent
  | ok n => exact ensures_pure (h n (by rw [hp]; rfl))

theorem ensures_intParameter (name : Text) {Q : ℤ → St → Prop} (h : ∀ n, request.intValue name = some n → Q n s) :
    Ensures (intParameter request name) s Q (RowFits p) := by
  unfold intParameter parameter Request.intValue at *
  cases hg : request.getParameter name with
  | none => exact ensures_throw rowFits_silent
  | some text =>
    rw [hg] at h
    exact ensures_valueOf text h

theorem ensures_intParameterD (name : Text) (n : ℤ) {Q : ℤ → St → Prop} (h : ∀ n, Q n s) :
    Ensures (intParameterD request name n) s Q (RowFits p) := by
  unfold intParameterD
  cases request.getParameter name with
  | none => exact ensures_pure (h n)
  | some text => exact ensures_valueOf text fun n _ => h n

theorem ensures_logIf {c : Prop} [Decidable c] {Q : Unit → St → Prop} {E : End → Prop} (hlog : c → E (.row s.logMessage))
    (h : ¬ c → Q () s) : Ensures (logIf c) s Q E := by
  unfold logIf
  split_ifs with hc
  · exact ensures_log (hlog hc)
  · exact ensures_pure (h hc)

theorem shallow_of_none {servlet : Servlet} (h : commentsAt request db servlet = none) : Shallow servlet request db := by
  intro k hk
  rw [h] at hk
  cases hk

theorem shallow_iff_fits {servlet : Servlet} {k : ℕ} (h : commentsAt request db servlet = some k) :
    Shallow servlet request db ↔ Fits db k := by
  simp [Shallow, h]

/-- the story is looked for in two tables -/
theorem ensures_story (hs : Joined 0 s) :
    Ensures (executeWithOld db) s
      (fun rs s' => (rs = [] → commentsAt request db .ViewStory = none ∧ s'.logMessage.length ≤ max_db) ∧
        (rs ≠ [] → ∃ k ≤ 2, commentsAt request db .ViewStory = some k ∧ Joined k s'))
      (RowFits (Shallow .ViewStory request db)) := by
  refine ensures_bind (ensures_execute db hs (by decide) fun h => ?_) ?_
  · apply shallow_of_none
    simp [commentsAt, eq_throws h, storyAt]
  · rintro rs s₁ ⟨⟨call, h₀⟩, hs₁⟩
    cases rs with
    | cons r rs =>
      rw [if_neg (List.cons_ne_nil r rs)]
      refine ensures_pure ⟨fun h => absurd h (List.cons_ne_nil r rs), fun _ => ⟨1, by decide, ?_, hs₁⟩⟩
      simp [commentsAt, h₀, storyAt]
    | nil =>
      rw [if_pos rfl]
      refine (ensures_execute db hs₁ (by decide) fun h => ?_).mono ?_ fun _ h => h
      · apply shallow_of_none
        simp [commentsAt, h₀, eq_throws h, storyAt]
      · rintro rs s₂ ⟨⟨call', h₁⟩, hs₂⟩
        cases rs with
        | nil =>
          refine ⟨fun _ => ⟨?_, by rw [hs₂.message]; decide⟩, fun h => absurd rfl h⟩
          simp [commentsAt, h₀, h₁, storyAt]
        | cons r rs =>
          refine ⟨fun h => absurd h (List.cons_ne_nil r rs), fun _ => ⟨2, le_refl _, ?_, hs₂⟩⟩
          simp [commentsAt, h₀, h₁, storyAt]

/-- the parent of the comment -/
theorem ensures_parent {commentId : ℤ} (hid : request.intValue commentIdName = some commentId) (hs : Joined 0 s) :
    Ensures (selectParent db commentId) s
      (fun _ s' => ∃ k ≤ 1, commentsAt request db .ViewComment = some k ∧ Joined k s')
      (RowFits (Shallow .ViewComment request db)) := by
  unfold selectParent
  by_cases h : commentId = 0
  · rw [if_pos h]
    refine ensures_pure ⟨0, by decide, ?_, hs⟩
    simp [commentsAt, parentAt, hid, h]
  · rw [if_neg h]
    refine ensures_bind (ensures_execute db hs (by decide) fun hthrows => ?_) ?_
    · apply shallow_of_none
      simp [commentsAt, parentAt, hid, h, eq_throws hthrows]
    · rintro rs s₁ ⟨⟨call, h₀⟩, hs₁⟩
      cases rs with
      | nil =>
        refine ensures_log (rowFits_of_le (by rw [hs₁.message]; decide) (shallow_of_none request db ?_))
        simp [commentsAt, parentAt, hid, h, h₀]
      | cons r rs =>
        refine ensures_pure ⟨1, le_refl _, ?_, hs₁⟩
        simp [commentsAt, parentAt, hid, h, h₀]

/-- a row of ViewStory -/
theorem ensures_viewStory (fuel : ℕ) (hs : Joined 0 s) :
    Ensures (viewStory request db fuel) s (fun _ _ => True) (RowFits (Shallow .ViewStory request db)) := by
  refine ensures_bind (ensures_intParameter request _ fun _ _ => rfl) fun _ s₁ (h₁ : s = s₁) => ?_
  subst h₁
  refine ensures_bind (ensures_intParameterD request _ _ fun _ => rfl) fun _ s₁ (h₁ : s = s₁) => ?_
  subst h₁
  apply ensures_bind (ensures_story request db hs)
  rintro rs s₁ ⟨hempty, hfound⟩
  refine ensures_bind (ensures_logIf (Q := fun _ s' => s' = s₁ ∧ rs ≠ []) ?_ fun h => ⟨rfl, h⟩) ?_
  · intro h
    obtain ⟨hnone, hle⟩ := hempty h
    exact rowFits_of_le hle (shallow_of_none request db hnone)
  · rintro _ _ ⟨rfl, hne⟩
    obtain ⟨k, hk, hat, hs₁⟩ := hfound hne
    rw [shallow_iff_fits request db hat]
    exact ensures_comments db fuel hs₁ (hk.trans_lt (by decide))

/-- a row of ViewComment -/
theorem ensures_viewComment (fuel : ℕ) (hs : Joined 0 s) :
    Ensures (viewComment request db fuel) s (fun _ _ => True) (RowFits (Shallow .ViewComment request db)) := by
  refine ensures_bind (ensures_intParameterD request _ _ fun _ => rfl) fun _ s₁ (h₁ : s = s₁) => ?_
  subst h₁
  refine ensures_bind (ensures_intParameterD request _ _ fun _ => rfl) fun _ s₁ (h₁ : s = s₁) => ?_
  subst h₁
  refine ensures_bind (ensures_parameter request _ fun _ => rfl) fun _ s₁ (h₁ : s = s₁) => ?_
  subst h₁
  refine ensures_bind (ensures_intParameter request _ fun n hn => ⟨rfl, hn⟩)
    fun commentId s₁ (h₁ : s = s₁ ∧ request.intValue commentIdName = some commentId) => ?_
  obtain ⟨rfl, hid⟩ := h₁
  refine ensures_bind (ensures_parameter request _ fun _ => rfl) fun _ s₁ (h₁ : s = s₁) => ?_
  subst h₁
  apply ensures_bind (ensures_parent request db hid hs)
  rintro _ s₁ ⟨k, hk, hat, hs₁⟩
  rw [shallow_iff_fits request db hat]
  exact ensures_comments db fuel hs₁ (hk.trans_lt (by decide))

end View

/-! ## The arrays hold the calls of shallow comments -/

/-- the row of a request has at most twenty calls exactly when its comments are shallow -/
theorem length_calls_iff {servlet : Servlet} {request : Request} {db : Database} {fuel : ℕ} {calls : List DBCall}
    (h : loggedCalls servlet request db fuel = some calls) : calls.length ≤ max_db ↔ Shallow servlet request db := by
  have hrows : Ensures (doGet request db fuel servlet) ⟨0, [], []⟩ (fun _ _ => True)
      (RowFits (Shallow servlet request db)) := by
    by_cases hs : servlet = .ViewStory
    · subst hs
      exact ensures_viewStory request db fuel joined_start
    by_cases hc : servlet = .ViewComment
    · subst hc
      exact ensures_viewComment request db fuel joined_start
    have hnone : commentsAt request db servlet = none := by
      cases servlet <;> first | rfl | contradiction
    apply (adds_doGet request db fuel hc hs ⟨0, [], []⟩).mono fun _ _ _ => trivial
    intro e he calls hcalls
    have hle := he calls hcalls
    exact iff_of_true (hle.trans (by decide)) (shallow_of_none request db hnone)
  unfold loggedCalls at h
  unfold Ensures at hrows
  split at h
  · next hrun =>
    rw [hrun] at hrows
    cases h
    exact hrows calls rfl
  · cases h

theorem noCall_logger (servlet : Servlet) (line : ℕ) : NoCall [servlet.className ++ ':' :: natText line] := by
  apply noCall_of_notMem
  intro h
  rcases List.mem_append.1 h with h | h
  · cases servlet <;> exact absurd h (by decide)
  · rcases List.mem_cons.1 h with h | h
    · exact absurd h (by decide)
    · exact equals_notMem_natText line h

/-- **The rows that fit.** A row of the servlets log has at most twenty calls exactly when the comments it is about are
shallow; then `getDB` stores all of them, and else it writes behind its arrays, if the URI and the id of the request do not
hold a key of a call themselves. -/
theorem logged_calls_fit_iff {servlet : Servlet} {request : Request} {db : Database} {fuel : ℕ} {event : Event}
    {row : ServletRow} (h : loggedRow servlet request db fuel event = some row) :
    (row.calls.length ≤ max_db ↔ Shallow servlet request db) ∧
      (NoCall [idToken request.uri request.urlID] → (Stored row ↔ Shallow servlet request db)) := by
  obtain ⟨calls, hcalls, rfl⟩ := Option.map_eq_some_iff.1 h
  have hlength := length_calls_iff hcalls
  refine ⟨hlength, fun hkeys => ?_⟩
  calc Stored _ ↔ calls.length ≤ max_db := stored_iff (noCall_header (noCall_logger servlet event.line) hkeys)
    _ ↔ Shallow servlet request db := hlength

/-! ## Tables of comments -/

/-- a comment, by the columns that the statements compare and `deeper` reads -/
structure Comment where
  id : ℤ
  parent : ℤ
  childs : ℤ
  story_id : ℤ
  writer : ℤ

def Comment.row (t : Comment) : Row := fun column => if column = childsColumn then t.childs else t.id

section Tables

variable (comments : List Comment) (users : List ℤ) (storyId : ℤ)

/-- the comments t0 of the join of level 0, t1 of level 1 and so on, below parent 0 -/
def below : ℕ → List Comment
  | 0 => comments.filter fun t => t.parent = 0
  | n + 1 => (below n).flatMap fun t => comments.filter fun u => u.parent = t.id

/-- the rows of level n: only the last comment of the join must be one of the story -/
def level (n : ℕ) : List Comment := (below comments n).filter fun t => t.story_id = storyId ∧ t.writer ∈ users

/-- the answers when ViewStory shows a story of the table stories -/
def storyAnswers (call : DBCall) : Database
  | 0 => .rows call [fun _ => storyId]
  | 1 => .rows call []
  | n + 2 => .rows call ((level comments users storyId n).map Comment.row)

/-- tables as StoreComment keeps them: childs is positive when there are replies, a reply is about the same story, the
writers are users -/
structure WellKept : Prop where
  counted : ∀ t ∈ comments, 0 < t.childs ↔ ∃ u ∈ comments, u.parent = t.id
  story : ∀ t ∈ comments, ∀ u ∈ comments, u.parent = t.id → u.story_id = t.story_id
  writers : ∀ t ∈ comments, t.writer ∈ users

variable {comments users storyId}

theorem mem_of_mem_below {n : ℕ} {t : Comment} (h : t ∈ below comments n) : t ∈ comments := by
  cases n with
  | zero => exact List.mem_of_mem_filter h
  | succ n =>
    obtain ⟨_, _, h⟩ := List.mem_flatMap.1 h
    exact List.mem_of_mem_filter h

theorem mem_level {n : ℕ} {t : Comment} :
    t ∈ level comments users storyId n ↔ t ∈ below comments n ∧ t.story_id = storyId ∧ t.writer ∈ users := by
  simp [level]

/-- there is a next level exactly when it has comments -/
theorem deeper_level (h : WellKept comments users) (n : ℕ) :
    deeper ((level comments users storyId n).map Comment.row) = true ↔ level comments users storyId (n + 1) ≠ [] := by
  simp only [deeper, List.any_map, List.any_eq_true, Function.comp, Comment.row, if_true, decide_eq_true_eq]
  constructor
  · rintro ⟨t, ht, hchilds⟩
    obtain ⟨hbelow, hstory, -⟩ := mem_level.1 ht
    have hmem := mem_of_mem_below hbelow
    obtain ⟨u, hu, hparent⟩ := (h.counted t hmem).1 hchilds
    refine List.ne_nil_of_mem (mem_level.2 ⟨?_, (h.story t hmem u hu hparent).trans hstory, h.writers u hu⟩)
    exact List.mem_flatMap.2 ⟨t, hbelow, by simp [hu, hparent]⟩
  · intro hne
    obtain ⟨u, hu⟩ := List.exists_mem_of_ne_nil _ hne
    obtain ⟨hbelow, hstory, -⟩ := mem_level.1 hu
    obtain ⟨t, ht, hfilter⟩ := List.mem_flatMap.1 hbelow
    obtain ⟨hu, hparent⟩ : u ∈ comments ∧ u.parent = t.id := by simpa using hfilter
    have hmem := mem_of_mem_below ht
    refine ⟨t, mem_level.2 ⟨ht, (h.story t hmem u hu hparent).symm.trans hstory, h.writers t hmem⟩, ?_⟩
    exact (h.counted t hmem).2 ⟨u, hu, hparent⟩

theorem level_eq_nil_of_le (h : WellKept comments users) {m n : ℕ} (hmn : m ≤ n)
    (hm : level comments users storyId m = []) : level comments users storyId n = [] := by
  induction n, hmn using Nat.le_induction with
  | base => exact hm
  | succ n _ ih =>
    by_contra hne
    have hdeep := (deeper_level h n).2 hne
    rw [ih] at hdeep
    cases hdeep

variable (call : DBCall)

theorem lastLevel_storyAnswers (h : WellKept comments users) {n : ℕ} :
    LastLevel (storyAnswers comments users storyId call) 2 n ↔
      (∀ m < n, level comments users storyId (m + 1) ≠ []) ∧ level comments users storyId (n + 1) = [] := by
  have hdeep : ∀ m, (storyAnswers comments users storyId call (2 + m)).deeper = true ↔
      level comments users storyId (m + 1) ≠ [] := by
    intro m
    rw [Nat.add_comm]
    exact deeper_level h m
  constructor
  · rintro ⟨hbefore, hlast⟩
    refine ⟨fun m hm => (hdeep m).1 (hbefore m hm), ?_⟩
    by_contra hne
    simp [(hdeep n).2 hne] at hlast
  · rintro ⟨hbefore, hlast⟩
    refine ⟨fun m hm => (hdeep m).2 (hbefore m hm), ?_⟩
    by_contra hne
    exact (hdeep n).1 (by simpa using hne) hlast

/-- **Depth.** ViewStory's comments are shallow when there are none at level 18. -/
theorem shallow_iff_depth (h : WellKept comments users) (request : Request) :
    Shallow .ViewStory request (storyAnswers comments users storyId call) ↔ level comments users storyId 18 = [] := by
  have hat : commentsAt request (storyAnswers comments users storyId call) .ViewStory = some 1 := rfl
  have hrows : ∀ n, (storyAnswers comments users storyId call (2 + n)).isThrows = false := by
    intro n
    rw [Nat.add_comm]
    rfl
  rw [shallow_iff_fits request _ hat]
  constructor
  · rintro (hthrows | ⟨n, hlast, hroom⟩)
    · cases hthrows
    · have hn : 1 + 1 + n < max_db := hroom.resolve_left (by simp [hrows n])
      unfold max_db at hn
      exact level_eq_nil_of_le h (by omega) ((lastLevel_storyAnswers call h).1 hlast).2
  · intro hdepth
    -- the first level with nothing below it
    have hex : ∃ n, level comments users storyId (n + 1) = [] := ⟨17, hdepth⟩
    classical
    refine .inr ⟨Nat.find hex, (lastLevel_storyAnswers call h).2 ⟨fun m hm => Nat.find_min hex hm, Nat.find_spec hex⟩,
      .inr ?_⟩
    have hle : Nat.find hex ≤ 17 := Nat.find_min' hex hdepth
    unfold max_db
    omega

end Tables

/-! ## A thread of replies -/

/-- n comments on story 5, each a reply to the one before -/
def thread (n : ℕ) : List Comment := (List.range n).map fun i => ⟨i + 1, i, if i + 1 < n then 1 else 0, 5, 7⟩

def storyRequest : Request where
  uri := "/rubbos/servlet/edu.rice.rubbos.servlets.ViewStory".toList
  getParameter name := if name = storyIdName then some ['5'] else if name = urlIDName then some ['1'] else none

def oneCall : DBCall := ⟨⟨1, by decide⟩, ⟨2, by decide⟩, 0⟩

def oneEvent : Event := ⟨⟨"2014-02-01".toList, by decide, by decide⟩, ⟨"10:20:30".toList, by decide, by decide⟩, 3⟩

theorem noCall_storyRequest : NoCall [idToken storyRequest.uri storyRequest.urlID] :=
  noCall_idToken (noCall_of_notMem (by decide)) (noCall_of_notMem (by decide))

/-- two comments are stored with their page -/
theorem logged_calls_fit_iff_reply :
    ∃ row, loggedRow .ViewStory storyRequest (storyAnswers (thread 2) [7] 5 oneCall) 5 oneEvent = some row ∧ Stored row := by
  have hrow : (loggedRow .ViewStory storyRequest (storyAnswers (thread 2) [7] 5 oneCall) 5 oneEvent).isSome := by
    decide +kernel
  obtain ⟨row, hrow⟩ := Option.isSome_iff_exists.1 hrow
  refine ⟨row, hrow, ((logged_calls_fit_iff hrow).2 noCall_storyRequest).2 fun k hk => ?_⟩
  cases hk
  refine .inr ⟨1, ⟨?_, ?_⟩, .inr (by decide)⟩
  · decide +kernel
  · decide +kernel

/-- nineteen replies make 21 calls: the arrays overflow, whatever they hold -/
theorem deep_thread_overflows :
    ∃ row, loggedRow .ViewStory storyRequest (storyAnswers (thread 19) [7] 5 oneCall) 18 oneEvent = some row ∧
      row.calls.length = 21 ∧ ∀ s, getDB (row.text ++ ['\n']) s = none := by
  have hcalls : (loggedCalls .ViewStory storyRequest (storyAnswers (thread 19) [7] 5 oneCall) 18).map List.length = some 21 := by
    decide +kernel
  obtain ⟨calls, hcalls, hlength⟩ := Option.map_eq_some_iff.1 hcalls
  refine ⟨_, Option.map_eq_some_iff.2 ⟨calls, hcalls, rfl⟩, hlength, fun s => ?_⟩
  apply getDBLoop_overflow
  · exact noCall_header (noCall_logger .ViewStory oneEvent.line) noCall_storyRequest
  · exact Nat.zero_le _
  · rw [hlength]
    decide

end Rubbos.Servlets
