/-
An emulated user (`UserSession.java`): reading the last page and choosing the next URL.

The extractors look for keys in the last HTML reply and cut values out of it; which of several occurrences is taken is a
draw. They run in `Draw`, a program over a stream of random numbers that may throw. `computeURLFromState` runs in `M`,
over the fields of the object. It may go back in the history of the transition table, reset the table, and call itself
again, which is modelled with fuel (`Exc.outOfFuel`); so are the loops that fill a text with words and that count keys.

Everything the outside decides is data: the draws of `rand`, the values of `System.nanoTime()`, the date of today, the
dictionary and the properties. An exception ends the thread, so it ends the program here.

The model keeps two facts in its types: the dictionary has words and none is empty, and a search that is remembered
(`lastSearch`) has its word.
-/
import Rubbos.Core.Effect
import Rubbos.Client.TransitionTable
import Rubbos.Client.URLGenerator

namespace Rubbos.Client

open Rubbos.Core JString

/-! ## Draws -/

/-- a program over the draws still to come -/
abbrev Draw (α : Type) := Prog (ℕ → ℕ) Exc α

/-- `rand.nextInt(n)` -/
def nextInt (n : ℤ) : Draw ℕ := do
  if n ≤ 0 then throw .illegalArgument
  let r ← get
  set fun i => r (i + 1)
  return r 0 % n.toNat

/-- the words of `WordList.java` -/
structure WordList where
  wordarray : List Text
  nonempty : wordarray ≠ []
  no_empty_word : [] ∉ wordarray

/-- the punctuation behind a word -/
def punctuation : ℕ → Text
  | 0 => ", ".toList
  | 1 => ". ".toList
  | 2 => " ? ".toList
  | 3 => " ! ".toList
  | 4 => ": ".toList
  | 5 => " ; ".toList
  | _ => " ".toList

/-- `randomWordFromDictionary`: everything after the first blank of a word is ignored -/
def randomWordFromDictionary (dictionary : WordList) (withPunctuation : Bool) : Draw Text := do
  let pos ← nextInt dictionary.wordarray.length
  let word := (dictionary.wordarray.getD pos []).takeWhile (· ≠ ' ')
  if withPunctuation then return word ++ punctuation (← nextInt 10) else return word

/-- `do text += randomWordFromDictionary(true); while (text.length() < size)` -/
def fillText (dictionary : WordList) (size : ℕ) : (fuel : ℕ) → Text → Draw Text
  | 0, _ => throw .outOfFuel
  | fuel + 1, text => do
    let text := text ++ (← randomWordFromDictionary dictionary true)
    if text.length < size then fillText dictionary size fuel text else return text

/-! ## Reading the last reply -/

def isMin (last_index x : ℤ) : ℤ := if x = -1 then last_index else if last_index ≤ x then last_index else x

/-- the first '?', '&' or '>' at or after an index, if it comes before an index already found -/
def endOfValue (reply : Text) (lastIndex keyIndex : ℤ) : ℤ :=
  isMin (isMin (isMin lastIndex (indexOfFrom reply ['?'] keyIndex)) (indexOfFrom reply ['&'] keyIndex))
    (indexOfFrom reply ['>'] keyIndex)

def computeLastIndex (reply key : Text) (lastIndex : ℤ) : ℤ :=
  let keyIndex := indexOfFrom reply key lastIndex
  if keyIndex = -1 then lastIndex
  else endOfValue reply (indexOfFrom reply ['"'] (keyIndex + key.length)) (keyIndex + key.length)

/-- the loop that counts a key -/
def countKey (reply key : Text) : (fuel : ℕ) → (keyIndex : ℤ) → Except Exc ℕ
  | 0, _ => .error .outOfFuel
  | fuel + 1, keyIndex =>
    if keyIndex = -1 then .ok 0
    else (countKey reply key fuel (indexOfFrom reply key (keyIndex + key.length))).map (· + 1)

/-- the loop that goes to the count-th occurrence -/
def pickKey (reply key : Text) : (count : ℕ) → (keyIndex : ℤ) → ℤ
  | 0, keyIndex => keyIndex
  | count + 1, keyIndex => pickKey reply key count (indexOfFrom reply key (keyIndex + key.length))

/-- `Integer.MAX_VALUE` -/
def maxInt : ℤ := 2 ^ 31 - 1

/-- `randomComputeLastIndex`: start and end of the value of a random occurrence of the key -/
def randomComputeLastIndex (reply : Option Text) (key : Text) (skipFirst : Bool) : Draw (Option (ℤ × ℤ)) :=
  match reply with
  | none => throw .nullPointer
  | some reply => do
    let count ← StateT.lift (countKey reply key (reply.length + 2) (indexOf reply key))
    if count = 0 ∨ (skipFirst ∧ count ≤ 1) then return none
    let count := (← nextInt count) + 1
    let count := if skipFirst ∧ count = 1 then count + 1 else count
    let keyIndex := pickKey reply key count (-key.length) + key.length
    return some (keyIndex, endOfValue reply (isMin maxInt (indexOfFrom reply ['"'] keyIndex)) keyIndex)

/-- a parameter behind the position reached: its value and the new position -/
def extractParam (reply key : Text) (pos : ℤ) : Except Exc (Option Text × ℤ) :=
  let newLast := computeLastIndex reply key pos
  if newLast ≠ pos then (substring reply (pos + key.length + 1) newLast).map fun v => (some v, newLast)
  else .ok (none, newLast)

def extractIntParam (reply key : Text) (pos : ℤ) : Except Exc (Option ℤ × ℤ) := do
  match ← extractParam reply key pos with
  | (none, newLast) => return (none, newLast)
  | (some v, newLast) => return (some (← parseInt v), newLast)

structure PostCommentLink where
  comment_table : Option Text
  storyId : Option ℤ
  parent : Option ℤ
deriving DecidableEq, Repr

structure ViewCommentLink where
  comment_table : Option Text
  storyId : Option ℤ
  commentId : Option ℤ
  filter : Option ℤ
  display : Option ℤ
deriving DecidableEq, Repr

def readPostComment (reply : Text) (pos : ℤ) : Except Exc PostCommentLink := do
  let (comment_table, pos) ← extractParam reply "comment_table=".toList pos
  let (storyId, pos) ← extractIntParam reply "storyId=".toList pos
  let (parent, _) ← extractIntParam reply "parent=".toList pos
  return ⟨comment_table, storyId, parent⟩

def readViewComment (reply : Text) (pos : ℤ) : Except Exc ViewCommentLink := do
  let (comment_table, pos) ← extractParam reply "comment_table=".toList pos
  let (storyId, pos) ← extractIntParam reply "storyId=".toList pos
  let (commentId, pos) ← extractIntParam reply "commentId=".toList pos
  let (filter, pos) ← extractIntParam reply "filter=".toList pos
  let (display, _) ← extractIntParam reply "display=".toList pos
  return ⟨comment_table, storyId, commentId, filter, display⟩

def readModerateComment (reply : Text) (pos : ℤ) : Except Exc (Option Text × Option ℤ) := do
  let (comment_table, pos) ← extractParam reply "comment_table=".toList pos
  let (commentId, _) ← extractIntParam reply "commentId=".toList pos
  return (comment_table, commentId)

/-- choose a link to a script at random and read its parameters; null without a reply or without a link -/
def extractLink {α : Type} (reply : Option Text) (scriptName : Text) (skipFirst : Bool)
    (read : Text → ℤ → Except Exc α) : Draw (Option α) :=
  match reply with
  | none => return none
  | some text => do
    match ← randomComputeLastIndex (some text) scriptName skipFirst with
    | none => return none
    | some (_, pos) => return some (← StateT.lift (read text pos))

def extractPostCommentFromHTML (reply : Option Text) (scriptName : Text) : Draw (Option PostCommentLink) :=
  extractLink reply scriptName false readPostComment

def extractViewCommentFromHTML (reply : Option Text) (scriptName : Text) : Draw (Option ViewCommentLink) :=
  extractLink reply scriptName true readViewComment

def extractModerateCommentIdFromHTML (reply : Option Text) (scriptName : Text) :
    Draw (Option (Option Text × Option ℤ)) :=
  extractLink reply scriptName false readModerateComment

/-- null without a reply, a link or the parameter -/
def extractAcceptRejectStoryIdFromHTML (reply : Option Text) (scriptName : Text) : Draw (Option ℤ) := do
  let id ← extractLink reply scriptName false fun text pos =>
    (extractIntParam text "storyId=".toList pos).map fun r => r.1
  return id.join

/-- the id and the name of a category -/
def extractCategoryFromHTML (reply : Option Text) : Draw (Option (ℤ × Option Text)) :=
  match reply with
  | none => return none
  | some text => do
    match ← randomComputeLastIndex (some text) "category=".toList false with
    | none => return none
    | some (start, pos) =>
      let id ← StateT.lift (substring text start pos >>= parseInt)
      let (name, _) ← StateT.lift (extractParam text "categoryName=".toList pos)
      return some (id, name)

/-- the id of a story, if the reply has one -/
def storyIdFromHTML (text : Text) : Draw (Option ℤ) := do
  match ← randomComputeLastIndex (some text) "storyId=".toList false with
  | none => return none
  | some (start, pos) => return some (← StateT.lift (substring text start pos >>= parseInt))

def extractPageFromHTML (reply : Option Text) : Draw ℤ :=
  match reply with
  | none => return 0
  | some text => do
    let key := "&page=".toList
    let firstPageIndex := indexOf text key
    if firstPageIndex = -1 then return 0
    let secondPageIndex := indexOfFrom text key (firstPageIndex + 6)
    let mut chosenIndex := firstPageIndex
    if secondPageIndex ≠ -1 then
      if 50000 ≤ (← nextInt 100000) then chosenIndex := secondPageIndex
    let start := chosenIndex + 6
    StateT.lift (substring text start (endOfValue text (indexOfFrom text ['"'] start) start) >>= parseInt)

/-- -1 without a reply or without the key -/
def extractIntFromHTML (reply : Option Text) (key : Text) : Except Exc ℤ :=
  match reply with
  | none => .ok (-1)
  | some text =>
    let keyIndex := indexOf text key
    if keyIndex = -1 then .ok (-1)
    else
      let start := keyIndex + key.length
      substring text start (endOfValue text (indexOfFrom text ['"'] start) start) >>= parseInt

/-! ## The session -/

/-- the properties that `computeURLFromState` reads -/
structure RUBBoSProperties where
  nbOfUsers : ℤ
  nbOfStoriesPerPage : ℤ
  oldestStoryYear : ℤ
  oldestStoryMonth : ℤ
  commentMaxLength : ℤ
  storyMaximumLength : ℤ
deriving DecidableEq, Repr

structure Date where
  day : ℤ
  month : ℤ
  year : ℤ
deriving DecidableEq, Repr

def monthLength (month year : ℤ) : ℤ :=
  if month = 2 then (if year % 4 = 0 ∧ (year % 100 ≠ 0 ∨ year % 400 = 0) then 29 else 28)
  else if month ∈ [4, 6, 9, 11] then 30 else 31

/-- `roll(DAY_OF_MONTH, false)`: the month does not change -/
def Date.rollBack (d : Date) : Date := { d with day := if d.day = 1 then monthLength d.month d.year else d.day - 1 }

/-- the last search and its word -/
structure SearchMemory where
  lastSearch : ℤ
  lastRandomWord : Option Text
  word_of_search : lastSearch ≠ 0 → lastRandomWord.isSome

/-- forget the search, not its word -/
def SearchMemory.reset (m : SearchMemory) : SearchMemory := ⟨0, m.lastRandomWord, fun h => absurd rfl h⟩

/-- the fields of the object that change, and what is still to come from outside -/
structure Session where
  transition : TransitionTable.St
  lastHTMLReply : Option Text
  lastStoryId : ℤ
  lastCategoryId : ℤ
  lastCategoryName : Option Text
  search : SearchMemory
  /-- user name and password of the current session -/
  username : Text
  password : Text
  rand : ℕ → ℕ
  nanoTime : ℕ → ℤ

/-- what does not change during a session -/
structure Env where
  urlGen : URLGenerator
  rubbos : RUBBoSProperties
  dictionary : WordList
  thisYear : ℤ
  today : Date

abbrev M (α : Type) := Prog Session Exc α

/-- run a program over the draws -/
def draw {α : Type} (d : Draw α) : M α := fun s =>
  match d.run s.rand with
  | .ok (a, r) => .ok (a, { s with rand := r })
  | .error e => .error e

/-- `System.nanoTime()` -/
def nanoTime : M ℤ := do
  let s ← get
  set { s with nanoTime := fun i => s.nanoTime (i + 1) }
  return s.nanoTime 0

def backToPreviousState : M ℤ := do
  let s ← get
  let (t, r) := TransitionTable.backToPreviousState s.transition
  set { s with transition := t }
  return r.value

def resetToInitialState : M Unit := do
  let s ← get
  set { s with transition := (TransitionTable.resetToInitialState s.transition).1 }

/-! ## The next URL -/

/-- what a case of `computeURLFromState` ends in -/
inductive Next where
  /-- return the URL of a page -/
  | page (p : Page)
  /-- return null -/
  | null
  /-- `return computeURLFromState(transition.backToPreviousState())` -/
  | goBack
deriving DecidableEq, Repr

variable (e : Env)

/-- the date of case 6 -/
def olderStoriesDate : Draw Date := do
  let when_ ← nextInt 100
  let d ← (if 95 < when_ then do
      -- pick up any date
      let day ← nextInt 31
      let month ← nextInt 12
      let year ← nextInt 3
      return ⟨day + 1, month + 1, e.rubbos.oldestStoryYear + year⟩
    else
      -- some date in the past week
      return (Date.rollBack^[min 7 (max 1 (when_ / 10))] e.today) : Draw Date)
  let year := if d.year > e.thisYear then e.thisYear else d.year
  let month := if year = e.rubbos.oldestStoryYear ∧ d.month ≤ e.rubbos.oldestStoryMonth
    then e.rubbos.oldestStoryMonth else d.month
  let day := if month = 2 then min d.day 28 else if month ∈ [4, 6, 9, 11] then min d.day 30 else d.day
  return ⟨day, month, year⟩

/-- subject or title: at most 100 characters -/
def shortText : Draw Text := do
  let size ← nextInt 100
  let text ← fillText e.dictionary size (size + 1) []
  return text.take 100

/-- body of at least a random number of characters -/
def longTextOf (maxLength : ℤ) : Draw Text := do
  let size ← nextInt maxLength
  fillText e.dictionary size (size + 1) []

/-- the search cases 16, 17 and 18: keep the word if the last search was of this kind, else draw one -/
def searchPage (kind : ℤ) (hk : kind ≠ 0) (searchType : Text) (word : Draw Text) : M Next := do
  let s ← get
  let w ← (if h : s.search.lastSearch = kind then
      pure (s.search.lastRandomWord.get (s.search.word_of_search (by rw [h]; exact hk)))
    else draw word : M Text)
  modify fun s => { s with search := ⟨kind, some w, fun _ => rfl⟩ }
  let page ← draw (extractPageFromHTML s.lastHTMLReply)
  return .page (.search (some w) searchType page e.rubbos.nbOfStoriesPerPage)

/-- the cases of the switch -/
def urlOfState (state : ℤ) : M Next := do
  let s ← get
  let reply := s.lastHTMLReply
  match state with
  | -1 =>
    -- an error occurred, reset to home page
    resetToInitialState
    return .page .homePage
  | 0 => return .page .homePage
  | 1 => return .page .register
  | 2 =>
    let i := longText (wrapInt (e.rubbos.nbOfUsers + (← draw (nextInt 1000000)) + 1))
    let firstname := "Great".toList ++ i
    let lastname := "User".toList ++ i
    return .page (.registerUser firstname lastname ("user".toList ++ i)
      (firstname ++ '.' :: lastname ++ "@rubbos.com".toList) ("password".toList ++ i))
  | 3 => return .page .browse
  | 4 => return .page .browseCategories
  | 5 =>
    let c ← draw (extractCategoryFromHTML reply)
    let (categoryId, categoryName) := c.getD (s.lastCategoryId, s.lastCategoryName)
    modify fun s => { s with lastCategoryId := categoryId, lastCategoryName := categoryName }
    let page ← draw (extractPageFromHTML reply)
    match categoryName with
    | none => throw .nullPointer
    | some name => return .page (.browseStoriesByCategory categoryId name page e.rubbos.nbOfStoriesPerPage)
  | 6 =>
    let d ← draw (olderStoriesDate e)
    let page ← draw (extractPageFromHTML reply)
    return .page (.OlderStories d.day d.month d.year page e.rubbos.nbOfStoriesPerPage)
  | 7 =>
    match reply with
    | none => return .goBack
    | some text =>
      let id := (← draw (storyIdFromHTML text)).getD s.lastStoryId
      modify fun s => { s with lastStoryId := id }
      return if id = -1 then .goBack else .page (.viewStory id)
  | 8 =>
    match ← draw (extractPostCommentFromHTML reply (Script.PostComment.file e.urlGen.version)) with
    | none => return .null
    | some ⟨some comment_table, some storyId, some parent⟩ => return .page (.postComment storyId parent comment_table)
    | some _ => return .goBack
  | 9 =>
    let subject ← draw (shortText e)
    let body ← draw (longTextOf e e.rubbos.commentMaxLength)
    match ← draw (randomComputeLastIndex reply "name=comment_table value=".toList false) with
    | none => return .null
    | some (i, j) =>
      let comment_table ← StateT.lift (substring (reply.getD []) i j)
      let storyId ← StateT.lift (extractIntFromHTML reply "name=storyId value=".toList)
      let parent ← StateT.lift (extractIntFromHTML reply "name=parent value=".toList)
      return .page (.storeComment s.username s.password storyId parent subject body comment_table)
  | 10 =>
    match ← draw (extractViewCommentFromHTML reply (Script.ViewComment.file e.urlGen.version)) with
    | some ⟨some comment_table, some storyId, some commentId, some filter, some display⟩ =>
      return .page (.viewComment commentId filter display storyId comment_table)
    | _ => return .goBack
  | 11 =>
    match ← draw (extractModerateCommentIdFromHTML reply (Script.ModerateComment.file e.urlGen.version)) with
    | some (some comment_table, some commentId) => return .page (.moderateComment commentId comment_table)
    | _ => return .goBack
  | 12 =>
    let rating : ℤ := (← draw (nextInt 2)) - 1
    match ← draw (randomComputeLastIndex reply "name=comment_table value=".toList false) with
    | none => return .null
    | some (i, j) =>
      let comment_table ← StateT.lift (substring (reply.getD []) i j)
      let commentId ← StateT.lift (extractIntFromHTML reply "name=commentId value=".toList)
      return .page (.storeModerateLog s.username s.password commentId rating comment_table)
  | 13 => return .page .submitStory
  | 14 =>
    let title ← draw (shortText e)
    let body ← draw (longTextOf e e.rubbos.storyMaximumLength)
    match ← draw (randomComputeLastIndex reply "OPTION value=\"".toList false) with
    | none => return .null
    | some (i, j) =>
      let categoryId ← StateT.lift (substring (reply.getD []) i j >>= parseInt)
      return .page (.storeStory s.username s.password title body categoryId)
  | 15 => return .page (.search none [] 0 0)
  | 16 => searchPage e 17 (by decide) ['0'] (randomWordFromDictionary e.dictionary false)
  | 17 => searchPage e 18 (by decide) ['1'] (randomWordFromDictionary e.dictionary false)
  | 18 => searchPage e 19 (by decide) ['2'] (do return "user".toList ++ longText ((← nextInt e.rubbos.nbOfUsers) + 1))
  | 19 => return .page .authorLogin
  | 20 => return .page (.authorTasks s.username s.password)
  | 21 => return .page .reviewStories
  | 22 =>
    match ← draw (extractAcceptRejectStoryIdFromHTML reply (Script.AcceptStory.file e.urlGen.version)) with
    | some storyId => return .page (.acceptStory storyId)
    | none =>
      -- no more stories to process, go back to home page
      resetToInitialState
      return .page .homePage
  | 23 =>
    match ← draw (extractAcceptRejectStoryIdFromHTML reply (Script.RejectStory.file e.urlGen.version)) with
    | some storyId => return .page (.rejectStory storyId)
    | none =>
      resetToInitialState
      return .page .homePage
  | _ => return .null

/-- `computeURLFromState(state)`, for at most `fuel` calls -/
def computeURLFromState : (fuel : ℕ) → (state : ℤ) → M (Option Text)
  | 0, _ => throw .outOfFuel
  | fuel + 1, state => do
    let s ← get
    -- "Sorry": nothing matched the request, we have to go back
    let state ← (if (s.lastHTMLReply.any fun text => indexOf text "Sorry".toList ≠ -1) then backToPreviousState
      else pure state : M ℤ)
    -- reset lastSearch if we don't stay in a search state
    if state < 17 ∨ 19 < state then modify fun s => { s with search := s.search.reset }
    match ← urlOfState e state with
    | .page p => return some (e.urlGen.url p (← nanoTime))
    | .null => return none
    | .goBack => computeURLFromState fuel (← backToPreviousState)

/-- the part of the loop of `run` that decides which URL is requested, and the state that `stats.incrementCount` and the
following calls charge it to -/
def nextRequest (fuel : ℕ) (next : ℤ) : M (Text × ℤ) := do
  let lastURL ← computeURLFromState e fuel next
  let lastURL ← (match lastURL with
    | some u => pure u
    | none => do
      -- fatal error in computing the URL: restart from home page
      resetToInitialState
      return e.urlGen.url .homePage (← nanoTime) : M Text)
  let s ← get
  return (lastURL, s.transition.currentState)

end Rubbos.Client
