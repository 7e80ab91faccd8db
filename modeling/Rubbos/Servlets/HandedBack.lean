/-
Whether a request hands its connection back.

Every servlet releases by hand, in each catch block and before each return. `At c p` is the state of the pool on the way:
nothing the driver does changes it, and each end of a servlet but four releases once. AcceptStory has its connection before
it parses the number of the story, and returns or throws with it. StoreComment parses what `authenticate` answers, which is
the text of an exception when the query has failed. ViewComment and ViewStory catch exceptions only: when the recursion over
the comments overflows the stack, the connection is lost with the error.

- `connection_handed_back_iff`: the connection that a request has obtained is released exactly once, whatever the parameters,
  the driver and the stack, exactly when the request is not such a request of AcceptStory, StoreComment, ViewComment or
  ViewStory (`HandsBack`).
- `acceptStory_leaks`: a request of AcceptStory without a number keeps its connection.
- `ownReply_leaks`: a comment that is found below itself is printed without end, and ViewStory keeps its connection.
-/
import Rubbos.Servlets.CommentPaths

namespace Rubbos.Servlets.RequestPaths

open Rubbos.Core Method JString

variable {α : Type}

/-! ## Statement -/

/-- a connection that was obtained has been put back, once, into the pool it came from -/
def HandedBack (s : St) : Prop := ∀ k, .get k ∈ s.pool → s.pool = [.get k, .release k]

/-- what a servlet asks of a request, of the driver and of the stack to hand its connection back -/
def HandsBack (request : Request) (driver : Driver) (stack : Stack) : Servlet → Prop
  | .AcceptStory => ∃ n ≠ 0, number (request.getParameter storyIdName) = some n
  | .StoreComment => CommentMissing request ∨ (driver.statement 0).Authenticates
  | .ViewComment => ¬CommentPage request driver (CommentsOverflow driver stack)
  | .ViewStory => ¬StoryPage request driver (CommentsOverflow driver stack 1 0)
  | _ => True

/-! ## The pool on the way -/

/-- whether there is a connection, and what the request has asked of the pool -/
def At (c : Bool) (p : List PoolCall) (s : St) : Prop := s.conn = c ∧ s.pool = p

theorem handedBack_of_closed {k : Kind} {s : St} (h : s.pool = [.get k, .release k]) : HandedBack s := by
  intro k' hk
  rw [h] at hk ⊢
  simp only [List.mem_cons, PoolCall.get.injEq, reduceCtorEq, List.not_mem_nil, or_false] at hk
  rw [hk]

theorem handedBack_of_nil {s : St} (h : s.pool = []) : HandedBack s := by
  intro k hk
  rw [h] at hk
  cases hk

theorem not_handedBack {k : Kind} {s : St} (h : At true [.get k] s) : ¬HandedBack s := by
  intro hs
  have hpool := hs k (by rw [h.2]; exact List.mem_singleton_self _)
  rw [h.2] at hpool
  cases hpool

theorem pool_close {k : Kind} {s : St} (h : At true [.get k] s) : (s.close k).pool = [.get k, .release k] := by
  obtain ⟨hconn, hpool⟩ := h
  rw [St.close, if_pos hconn, hpool]
  rfl

theorem handedBack_close {k : Kind} {s : St} (h : At true [.get k] s) : HandedBack (s.close k) :=
  handedBack_of_closed (pool_close h)

theorem pool_discipline (driver : Driver) (k : Kind) :
    Discipline driver k (At false []) (At true [.get k]) HandedBack where
  atStart _ hs := handedBack_of_nil hs.2
  atLog _ hs := handedBack_of_nil hs.2
  atAcquire s hs := ⟨rfl, by rw [St.acquire, hs.2]; rfl⟩
  atPrepare _ hs := hs
  atRead _ hs := hs
  atTick _ hs := hs
  atExecute _ _ hs := hs
  atFinish s hs := handedBack_of_closed (k := k) (pool_close hs)

/-- a helper leaves the pool alone, and loses nothing of it but by an error -/
theorem pool_helperDiscipline (driver : Driver) :
    HelperDiscipline driver (At true [.get .R]) (At true [.get .R]) HandedBack False where
  start _ hs := hs
  atPrepare _ hs := hs
  atTick _ hs := hs
  atRead _ hs := hs
  atExecute _ _ hs := hs
  idle _ hs _ := hs
  join _ hs := hs
  lost _ hs _ := iff_of_true (handedBack_of_closed (k := .R) (pool_close hs)) not_false
  fatal _ hs _ := not_handedBack hs

/-! ## The name of a user -/

section Helpers

variable (driver : Driver) {c : Bool} {p : List PoolCall} {F : St → Prop}

theorem goes_withTmp {m : M Unit} (hm : Goes (At c p) F m) : Goes (At c p) F (withTmp m) :=
  Contract.bind (R := fun _ => At c p) (contract_modify fun _ hs => hs) fun _ => hm.bind fun _ =>
    contract_modify fun _ hs => hs

theorem goes_tmpQuery (stmt : ℕ) : Goes (At c p) F (executeQuery driver St.addTmpMessage stmt) :=
  (goes_execute (fun _ hs => hs) (fun _ _ hs => hs) stmt).bind fun _ => goes_pure _

theorem goes_getUserName : Goes (At c p) F (getUserName driver) :=
  (goes_prepareStatement fun _ hs => hs).bind fun stmt => (goes_tmpQuery driver stmt).bind fun rs =>
    (goes_first (fun _ hs => hs) rs).bind fun _ => (goes_getString (fun _ hs => hs) rs _).bind fun _ => goes_pure _

end Helpers

/-! ## Servlets -/

section Servlets

variable (request : Request) (driver : Driver)

theorem whole_author : Whole (At false []) HandedBack (author request driver) := by
  have hd := pool_discipline driver .R
  refine hd.whole_acquire ((contract_closeIf fun _ hs => handedBack_close hs).bind fun _ =>
    (contract_closeIf fun _ hs => handedBack_close hs).bind fun _ => hd.handles_query.whole fun rs => ?_)
  -- behind the second catch block the connection is gone, and the last close does nothing
  let Settled : St → Prop := fun s => At true [.get .R] s ∨ At false [.get .R, .release .R] s
  have htry : Contract (At true [.get .R]) (fun _ => Settled) HandedBack (fun _ => False) (catching
      (do
        let found ← first driver rs
        skipIf (found = false) (getColumns driver rs [idColumn, accessColumn]))
      (do
        closeConnection .R
        modify fun s => { s with conn := false })) := by
    have hbody : Goes (At true [.get .R]) HandedBack (do
        let found ← first driver rs
        skipIf (found = false) (getColumns driver rs [idColumn, accessColumn])) :=
      (hd.goes_first rs).bind fun _ => contract_skipIf (hd.goes_getColumns rs _)
    refine Contract.catching (hbody.mono (fun _ hs => hs) (fun _ _ hs => .inl hs) (fun _ hs => hs) fun _ hs => hs) ?_
    refine (contract_modify (R := fun _ s => s.pool = [.get .R, .release .R]) fun s hs => pool_close hs).bind fun _ => ?_
    exact contract_modify fun s hs => .inr ⟨rfl, hs⟩
  refine (htry.mono (fun _ hs => hs) (fun _ _ hs => hs) (fun _ hs => hs) fun _ hs => hs.elim).bind fun _ =>
    contract_finish fun s hs => ?_
  rcases hs with hs | hs
  · exact handedBack_of_closed (k := .R) (pool_close hs)
  · have hclose : s.close .R = s := by simp [St.close, hs.1]
    rw [hclose]
    exact handedBack_of_closed hs.2

theorem whole_browseCategories : Whole (At false []) HandedBack (browseCategories driver) := by
  have hd := pool_discipline driver .R
  refine hd.whole_acquire (hd.handles_query.whole fun rs => (handles_print ?_).whole fun _ => hd.finish_ends)
  refine (hd.goes_first rs).bind fun _ => (contract_closeIf fun _ hs => handedBack_close hs).bind fun _ =>
    goes_doWhileNext hd.atRead (fun rs => ?_) rs
  exact (goes_getInt hd.atRead rs _).bind fun _ => (goes_getString hd.atRead rs _).bind fun _ => goes_throwIf

theorem whole_moderateComment : Whole (At false []) HandedBack (moderateComment request driver) := by
  have hd := pool_discipline driver .R
  refine (hd.contract_parameter _).bind fun _ => (hd.contract_parameter _).bind fun _ => hd.whole_acquire ?_
  refine hd.handles_query.whole fun rs => (hd.handles_finish ?_).whole fun _ => (handles_print ?_).whole fun _ =>
    hd.finish_ends
  · exact (hd.goes_first rs).bind fun _ => hd.goes_finishIf
  · exact (hd.goes_getColumns rs _).bind fun _ => (goes_withTmp (goes_getUserName driver)).bind fun _ =>
      hd.goes_getColumns rs _

theorem whole_registerUser : Whole (At false []) HandedBack (registerUser request driver) := by
  have hd := pool_discipline driver .RW
  refine (hd.contract_parameter _).bind fun _ => (hd.contract_parameter _).bind fun _ =>
    (hd.contract_parameter _).bind fun _ => (hd.contract_parameter _).bind fun _ => (hd.contract_parameter _).bind fun _ =>
      hd.whole_acquire (hd.handles_query.whole fun rs => (hd.handles_finish ?_).whole fun _ => hd.finish_ends)
  exact (hd.goes_first rs).bind fun _ => (contract_closeIf fun _ hs => handedBack_close hs).bind fun _ =>
    hd.goes_prepare.bind fun stmt => (hd.goes_executeUpdate stmt).bind fun _ => hd.goes_close.bind fun _ =>
      hd.goes_prepareAndExecute.bind fun rs => (hd.goes_first rs).bind fun _ => hd.goes_getColumns rs _

theorem whole_storeStory : Whole (At false []) HandedBack (storeStory request driver) := by
  have hd := pool_discipline driver .RW
  have huser : Handles (At true [.get .RW]) HandedBack (selectUser driver) := by
    refine hd.handles_query.bind fun rs => ?_
    have hread : Goes (At true [.get .RW]) HandedBack (do
        let _ ← getIds driver rs
        read driver) := (hd.goes_getIds rs).bind fun _ => hd.goes_close
    exact hread.catching (contract_close fun _ hs => handedBack_close hs)
  refine (hd.contract_parameter _).bind fun _ => (hd.contract_parameter _).bind fun _ =>
    (hd.contract_parameter _).bind fun _ => hd.whole_acquire ?_
  refine Handles.whole (contract_skipIf huser) fun _ => (hd.handles_finish ?_).whole fun _ => hd.finish_ends
  exact hd.goes_prepare.bind fun stmt => (hd.goes_executeUpdate stmt).bind fun _ => hd.goes_finishIf

/-- with a stack that overflows, ViewComment keeps its connection -/
theorem viewComment_handedBack (stack : Stack) :
    After (viewComment request driver stack) St.init
      (fun _ s => HandedBack s ↔ HandsBack request driver stack .ViewComment)
      (Left (fun s => HandedBack s ↔ HandsBack request driver stack .ViewComment)
        fun s => HandedBack s ↔ HandsBack request driver stack .ViewComment) := by
  refine (pool_helperDiscipline driver).viewComment (pool_discipline driver .R) ⟨rfl, rfl⟩ ?_
  simp only [false_and, false_or]

/-- with a stack that overflows, ViewStory keeps its connection -/
theorem viewStory_handedBack (stack : Stack) :
    After (viewStory request driver stack) St.init
      (fun _ s => HandedBack s ↔ HandsBack request driver stack .ViewStory)
      (Left (fun s => HandedBack s ↔ HandsBack request driver stack .ViewStory)
        fun s => HandedBack s ↔ HandsBack request driver stack .ViewStory) := by
  refine (pool_helperDiscipline driver).viewStory (pool_discipline driver .R) ⟨rfl, rfl⟩ ?_
  simp only [false_and, false_or]

/-- without a number that is not 0, AcceptStory keeps its connection -/
theorem acceptStory_handedBack (stack : Stack) :
    Whole (At false []) (fun s => HandedBack s ↔ HandsBack request driver stack .AcceptStory) (acceptStory request driver) := by
  have hd := pool_discipline driver .RW
  by_cases h : HandsBack request driver stack .AcceptStory
  · obtain ⟨n, hn, hnumber⟩ := h
    have hwhole : Whole (At false []) HandedBack (acceptStory request driver) := by
      refine hd.whole_acquire ?_
      rw [valueOf_of_number hnumber, pure_bind]
      have hreturn : Contract (At true [.get .RW]) (fun _ => At true [.get .RW]) HandedBack HandedBack (returnIf (n = 0)) :=
        contract_ite (fun h0 => absurd h0 hn) fun _ => contract_pure fun _ hs => hs
      exact hreturn.bind fun _ => hd.whole_moveStory
    exact hwhole.mono (fun _ hs => hs) (fun _ _ hs => iff_of_true hs ⟨n, hn, hnumber⟩)
      (fun _ hs => iff_of_true hs ⟨n, hn, hnumber⟩) fun _ hs => iff_of_true hs ⟨n, hn, hnumber⟩
  · refine (contract_modify (R := fun _ => At true [.get .RW]) hd.atAcquire).bind fun _ => ?_
    have hleak : ∀ s, At true [.get .RW] s → (HandedBack s ↔ HandsBack request driver stack .AcceptStory) :=
      fun s hs => iff_of_false (not_handedBack hs) h
    cases hnumber : number (request.getParameter storyIdName) with
    | none =>
      rw [valueOf_of_not_number hnumber]
      exact (contract_throw (R := fun _ _ => False) hleak).bind fun _ _ hs => hs.elim
    | some n =>
      have hn : n = 0 := by
        by_contra hn
        exact h ⟨n, hn, hnumber⟩
      rw [valueOf_of_number hnumber, pure_bind]
      exact (contract_ite (R := fun _ _ => False) (fun _ => contract_return hleak) fun h0 => absurd hn h0).bind
        fun _ _ hs => hs.elim

theorem storeComment_handedBack (stack : Stack) :
    After (storeComment request driver) St.init (fun _ s => HandedBack s ↔ HandsBack request driver stack .StoreComment)
      (Left (fun s => HandedBack s ↔ HandsBack request driver stack .StoreComment)
        fun s => HandedBack s ↔ HandsBack request driver stack .StoreComment) := by
  have hopen : ∀ s, Authenticating driver (St.init.acquire .RW) s → At true [.get .RW] s.addTmp :=
    fun s hs => ⟨hs.conn, hs.pool⟩
  refine after_storeComment (P := fun s => HandedBack s ↔ HandsBack request driver stack .StoreComment) ?_ ?_ ?_
  · intro hmissing
    exact iff_of_true (handedBack_of_nil rfl) (.inl hmissing)
  · intro hthrows s hs hpresent
    exact iff_of_false (not_handedBack (hopen s hs)) fun h => h.elim hpresent hthrows
  · intro ha s hs
    have hback : ∀ s', HandedBack s' → (HandedBack s' ↔ HandsBack request driver stack .StoreComment) :=
      fun _ h => iff_of_true h (.inr ha)
    exact ((pool_discipline driver .RW).whole_insertComment s.addTmp (hopen s hs)).left (fun _ => hback) hback hback

end Servlets

/-! ## All servlets -/

section All

variable {request : Request} {driver : Driver} {stack : Stack} {servlet : Servlet}

theorem handedBack_iff_of_whole {I : St → Prop} (hwhole : Whole I HandedBack (doGet request driver stack servlet))
    (hI : I St.init) (h : HandsBack request driver stack servlet) :
    HandedBack (serve servlet request driver stack).2 ↔ HandsBack request driver stack servlet :=
  iff_of_true (hwhole.ends hI) h

theorem handedBack_iff_of_after (servlet : Servlet)
    (hafter : After (doGet request driver stack servlet) St.init
      (fun _ s => HandedBack s ↔ HandsBack request driver stack servlet)
      (Left (fun s => HandedBack s ↔ HandsBack request driver stack servlet)
        fun s => HandedBack s ↔ HandsBack request driver stack servlet)) :
    HandedBack (serve servlet request driver stack).2 ↔ HandsBack request driver stack servlet := by
  have hwhole : Contract (fun s => s = St.init) (fun _ s => HandedBack s ↔ HandsBack request driver stack servlet)
      (fun s => HandedBack s ↔ HandsBack request driver stack servlet)
      (fun s => HandedBack s ↔ HandsBack request driver stack servlet) (doGet request driver stack servlet) :=
    fun s hs => hs ▸ hafter
  exact hwhole.ends rfl

end All

/-- **A request hands its connection back**, exactly once, unless it is AcceptStory without a number, StoreComment whose
user has not been read, or ViewComment or ViewStory with comments that overflow the stack. -/
theorem connection_handed_back_iff (servlet : Servlet) (request : Request) (driver : Driver) (stack : Stack) :
    HandedBack (serve servlet request driver stack).2 ↔ HandsBack request driver stack servlet := by
  have hinit : At false [] St.init := ⟨rfl, rfl⟩
  have hR := pool_discipline driver .R
  have hRW := pool_discipline driver .RW
  cases servlet with
  | AcceptStory => exact (acceptStory_handedBack request driver stack).ends hinit
  | Author => exact handedBack_iff_of_whole (whole_author request driver) hinit trivial
  | BrowseCategories => exact handedBack_iff_of_whole (whole_browseCategories driver) hinit trivial
  | BrowseStoriesByCategory => exact handedBack_iff_of_whole (hR.whole_browseStoriesByCategory request) hinit trivial
  | ModerateComment => exact handedBack_iff_of_whole (whole_moderateComment request driver) hinit trivial
  | OlderStories => exact handedBack_iff_of_whole (hR.whole_olderStories request) hinit trivial
  | PostComment => exact handedBack_iff_of_whole (hR.whole_postComment request) hinit trivial
  | RegisterUser => exact handedBack_iff_of_whole (whole_registerUser request driver) hinit trivial
  | RejectStory => exact handedBack_iff_of_whole (hRW.whole_rejectStory request) hinit trivial
  | ReviewStories => exact handedBack_iff_of_whole hR.whole_reviewStories hinit trivial
  | Search => exact handedBack_iff_of_whole (hR.whole_search request) hinit trivial
  | StoreComment => exact handedBack_iff_of_after .StoreComment (storeComment_handedBack request driver stack)
  | StoreModeratorLog => exact handedBack_iff_of_whole (hRW.whole_storeModeratorLog request) hinit trivial
  | StoreStory => exact handedBack_iff_of_whole (whole_storeStory request driver) hinit trivial
  | StoriesOfTheDay => exact handedBack_iff_of_whole hR.whole_storiesOfTheDay hinit trivial
  | SubmitStory => exact handedBack_iff_of_whole hR.whole_submitStory hinit trivial
  | ViewComment => exact handedBack_iff_of_after .ViewComment (viewComment_handedBack request driver stack)
  | ViewStory => exact handedBack_iff_of_after .ViewStory (viewStory_handedBack request driver stack)

/-- AcceptStory without a number throws, and keeps its connection -/
theorem acceptStory_leaks :
    (serve .AcceptStory noParameters emptyTables ⟨0, 0⟩).1 = .error .thrown ∧
      ¬HandedBack (serve .AcceptStory noParameters emptyTables ⟨0, 0⟩).2 :=
  ⟨rfl, not_handedBack (k := .RW) ⟨rfl, rfl⟩⟩

/-! ## A comment below itself -/

/-- a row by its id, its parent and the number of its replies -/
def commentRow (id parent childs : ℤ) : Row where
  getInt column := if column = idColumn then id else if column = parentColumn then parent else
    if column = childsColumn then childs else 0
  getString _ := some []

section Row

variable (id parent childs : ℤ)

@[simp] theorem commentRow_id : (commentRow id parent childs).getInt idColumn = id := by simp [commentRow]

@[simp] theorem commentRow_parent : (commentRow id parent childs).getInt parentColumn = parent := by
  have hid : parentColumn ≠ idColumn := by decide
  simp [commentRow, hid]

@[simp] theorem commentRow_childs : (commentRow id parent childs).getInt childsColumn = childs := by
  have hid : childsColumn ≠ idColumn := by decide
  have hparent : childsColumn ≠ parentColumn := by decide
  simp [commentRow, hid, hparent]

end Row

/-- the comment 5 on a story, and again as a reply to itself -/
def ownReplies : List Row := [commentRow 5 0 1, commentRow 5 5 1]

/-- a story, no ratings, comment 5 on the story, comment 5 as a reply to itself, and no comment below that -/
def ownReply : Driver where
  statement n := ⟨false, false,
    if n = 0 then [commentRow 1 0 0] else if n = 2 then [commentRow 5 0 1] else if n = 3 then [commentRow 5 5 1] else [], 0,
    fun _ => false, []⟩
  nanoTime n := n

/-- a request for the story 1 -/
def storyOne : Request :=
  ⟨"/rubbos/servlet/edu.rice.rubbos.servlets.ViewStory".toList, fun name => if name = storyIdName then some ['1'] else none⟩

theorem replies_ownReply (n : ℕ) : Replies ownReplies n 5 := by
  induction n with
  | zero => exact .none 5
  | succ n ih =>
    have hreply : Replies ownReplies (n + 1) ((commentRow 5 5 1).getInt parentColumn) :=
      .reply (by simp [ownReplies]) (by simp) (by rwa [commentRow_id])
    rwa [commentRow_parent] at hreply

theorem overflow_ownReply (stack : Stack) (h : 2 ≤ stack.fetchLowerLevels) : CommentsOverflow ownReply stack 1 0 1 := by
  have hcomplete : ∀ p n, (ownReply.statement p).Complete n := fun _ _ => ⟨⟨rfl, rfl⟩, fun _ _ => rfl⟩
  have hfirst : deeper (ownReply.statement 2).rows = true := by simp [ownReply, deeper]
  have hlower : LowerEnds ownReply stack 1 3 [commentRow 5 5 1] := by
    refine ⟨1, by omega, fun i hi => ?_, hcomplete 4 _, rfl, rfl⟩
    obtain rfl : i = 0 := by omega
    exact ⟨hcomplete 3 _, by simp [ownReply, deeper]⟩
  refine ⟨hcomplete 1 _, .inr ⟨ownReplies, ⟨hcomplete 2 _, .inr ⟨hfirst, _, hlower, rfl⟩⟩, ?_⟩⟩
  refine ⟨Int.one_pos, commentRow 5 0 1, by simp [ownReplies], commentRow_parent 5 0 1, by simp, ?_⟩
  rw [commentRow_id]
  exact replies_ownReply _

/-- however large the stack is, the comment below itself overflows it, and the connection is kept -/
theorem ownReply_leaks (stack : Stack) (h : 2 ≤ stack.fetchLowerLevels) :
    ¬HandedBack (serve .ViewStory storyOne ownReply stack).2 := by
  have hend : HandedBack (serve .ViewStory storyOne ownReply stack).2 ↔ HandsBack storyOne ownReply stack .ViewStory :=
    handedBack_iff_of_after .ViewStory (viewStory_handedBack storyOne ownReply stack)
  have hstory : StoryFound ownReply 1 := .inl ⟨rfl, ⟨⟨rfl, rfl⟩, fun _ _ => rfl⟩, List.cons_ne_nil _ _⟩
  have hnumber : number (storyOne.getParameter storyIdName) = some 1 := by decide
  have hfilter : optional storyOne filterName 0 = some 0 := by decide
  rw [hend]
  refine not_not.2 ⟨?_, ?_, 1, hstory, overflow_ownReply stack h⟩
  · rw [hnumber]
    exact Option.some_ne_none 1
  · rw [hfilter]
    exact Option.some_ne_none 0

end Rubbos.Servlets.RequestPaths
