/-
The servlets (`edu/rice/rubbos/servlets`): which database calls a request logs.

Every servlet starts its `logMessage` with the URI and the id of the request, adds the times of each statement that the
database has answered, and hands it to the logger where it returns. `doGet` keeps what decides the calls of the row: the
parameters that are missing or no numbers, the statements in their order, the rows of a result that send the servlet one
way or the other, and the places that return with or without a row. Pages, and the texts of the statements, are left out.

What the database answers is data: any sequence of answers, so any tables, also tables that other requests change between
two statements. An exception of a statement goes to the catch block around it, and each of them ends in the logger. An
exception outside of a try block leaves `doGet`: nothing is logged.

`Comment` adds the calls of a page with comments to a text of its own (`logTmpMessage`), which joins `logMessage` when no
statement has thrown. `fetchLowerLevels` calls itself once for each level of the comments; that is modelled with fuel.

- `doGet`: the servlets.
- `loggedRow`: the row that a request appends to the servlets log.
-/
import Rubbos.Core.Effect
import Rubbos.Parsers.TomcatLogs

namespace Rubbos.Servlets

open Rubbos.Core JString
open Rubbos.Parsers.TomcatLogs (DBCall ServletRow Stamp)

/-! ## Requests and answers -/

/-- what a servlet reads of the request -/
structure Request where
  uri : Text
  getParameter : Text → Option Text

/-- a row of a result, by the integer columns -/
abbrev Row := Text → ℤ

/-- what the database does with a statement: it throws, or it takes the time of the call and returns rows. An update
returns a row for each row it has changed. -/
inductive Answer where
  | throws
  | rows (call : DBCall) (rs : List Row)

/-- the answers to the statements of a request, in order -/
abbrev Database := ℕ → Answer

/-- how `doGet` ends: it has logged a row, or it has not -/
inductive End where
  | row (calls : List DBCall)
  | silent

structure St where
  /-- the number of statements so far -/
  next : ℕ
  logMessage : List DBCall
  logTmpMessage : List DBCall

abbrev M (α : Type) := Prog St End α

variable {α : Type}

/-! ## Steps -/

/-- `responseTimeLogger.info(logMessage); return;` -/
def log : M α := do
  let s ← get
  throw (.row s.logMessage)

/-- a return without the logger, or an exception that is not caught -/
def leave : M α := throw .silent

def logIf (c : Prop) [Decidable c] : M Unit := if c then log else pure ()

def leaveIf (c : Prop) [Decidable c] : M Unit := if c then leave else pure ()

/-- the answer to the next statement -/
def nextAnswer (db : Database) : M Answer := do
  let s ← get
  set { s with next := s.next + 1 }
  return db s.next

/-- a statement in a try block, and where its times go -/
def executeWith (add : DBCall → St → St) (db : Database) : M (List Row) := do
  match ← nextAnswer db with
  | .throws => log
  | .rows call rs => do
    modify (add call)
    return rs

def St.addMessage (call : DBCall) (s : St) : St := { s with logMessage := s.logMessage ++ [call] }

def St.addTmpMessage (call : DBCall) (s : St) : St := { s with logTmpMessage := s.logTmpMessage ++ [call] }

/-- a statement of `doGet` -/
def execute : Database → M (List Row) := executeWith St.addMessage

/-- a statement of `Comment` or `ServletPrinter` -/
def executeTmp : Database → M (List Row) := executeWith St.addTmpMessage

/-- `logMessage += logTmpMessage.toString()` -/
def addTmp : M Unit := modify fun s => { s with logMessage := s.logMessage ++ s.logTmpMessage, logTmpMessage := [] }

/-- the try block around a method with a `logTmpMessage` -/
def withTmp (m : M Unit) : M Unit := do
  m
  addTmp

section Parameters

variable (request : Request)

/-- a parameter that must be there -/
def parameter (name : Text) : M Text :=
  match request.getParameter name with
  | none => leave
  | some text => pure text

/-- `Integer.valueOf(text)`, outside of a try block -/
def valueOf (text : Text) : M ℤ :=
  match parseInt text with
  | .error _ => leave
  | .ok n => pure n

/-- a number that must be there -/
def intParameter (name : Text) : M ℤ := do valueOf (← parameter request name)

/-- a number with a default -/
def intParameterD (name : Text) (n : ℤ) : M ℤ :=
  match request.getParameter name with
  | none => pure n
  | some text => valueOf text

end Parameters

def storyIdName : Text := "storyId".toList
def commentIdName : Text := "commentId".toList
def comment_tableName : Text := "comment_table".toList
def nicknameName : Text := "nickname".toList
def passwordName : Text := "password".toList
def ratingName : Text := "rating".toList
def pageName : Text := "page".toList
def nbOfStoriesName : Text := "nbOfStories".toList
def filterName : Text := "filter".toList
def displayName : Text := "display".toList
def urlIDName : Text := "urlID".toList

def idColumn : Text := "id".toList
def accessColumn : Text := "access".toList
def ratingColumn : Text := "rating".toList
def childsColumn : Text := "childs".toList

/-! ## Comments -/

/-- `ServletPrinter.authenticate`, and the number of its result: 0 is the anonymous user, the text of an exception is no
number -/
def authenticate (db : Database) : M ℤ := do
  match ← nextAnswer db with
  | .throws => leave
  | .rows call rs => do
    modify (St.addTmpMessage call)
    match rs with
    | [] => return 0
    | r :: _ => return r idColumn

/-- `ServletPrinter.getUserName`: an empty result throws when it is read -/
def getUserName (db : Database) : M Unit := do
  let rs ← executeTmp db
  logIf (rs = [])

/-- `Comment.displayFilterChooser` -/
def displayFilterChooser (db : Database) : M Unit := do
  let _ ← executeTmp db

/-- the variable deeper behind the loop over a level -/
def deeper (rs : List Row) : Bool := rs.any fun r => 0 < r childsColumn

/-- `Comment.fetchLowerLevels`, from a level on -/
def fetchLowerLevels (db : Database) : (fuel : ℕ) → M Unit
  | 0 => leave
  | fuel + 1 => do
    let follow ← executeTmp db
    if deeper follow then fetchLowerLevels db fuel

/-- `Comment.fetchComments` -/
def fetchComments (db : Database) (fuel : ℕ) : M Unit := do
  let rs ← executeTmp db
  if deeper rs then fetchLowerLevels db fuel

/-- the two try blocks of a page with comments -/
def displayComments (db : Database) (fuel : ℕ) : M Unit := do
  withTmp (displayFilterChooser db)
  withTmp (fetchComments db fuel)

/-! ## Servlets -/

/-- a query, and the same query of the old table when there are no rows -/
def executeWithOld (db : Database) : M (List Row) := do
  let rs ← execute db
  if rs = [] then execute db else pure rs

section DoGet

variable (request : Request) (db : Database)

/-- the servlets that list the rows of one query -/
def listRows : M Unit := do
  let rs ← execute db
  logIf (rs = [])
  log

def acceptStory : M Unit := do
  let storyId ← intParameter request storyIdName
  leaveIf (storyId = 0)
  let rs ← execute db
  logIf (rs = [])
  let _ ← execute db
  let _ ← execute db
  log

def author : M Unit := do
  let _ ← parameter request nicknameName
  let _ ← parameter request passwordName
  let _ ← execute db
  log

/-- an empty table of categories is not logged -/
def browseCategories : M Unit := do
  let rs ← execute db
  leaveIf (rs = [])
  log

def browseStoriesByCategory : M Unit := do
  let _ ← intParameterD request pageName 0
  let _ ← intParameterD request nbOfStoriesName 0
  let _ ← parameter request "categoryName".toList
  let _ ← parameter request "category".toList
  listRows db

def moderateComment : M Unit := do
  let _ ← parameter request comment_tableName
  let _ ← parameter request commentIdName
  let rs ← execute db
  logIf (rs = [])
  withTmp (getUserName db)
  log

/-- without a date there is no query -/
def olderStories : M Unit := do
  let _ ← intParameterD request pageName 0
  let _ ← intParameterD request nbOfStoriesName 25
  logIf (request.getParameter "day".toList = none ∨ request.getParameter "month".toList = none ∨
    request.getParameter "year".toList = none)
  let rs ← executeWithOld db
  logIf (rs = [])
  log

/-- a form without statements and without a logger -/
def postComment : M Unit := leave

def registerUser : M Unit := do
  let _ ← parameter request "firstname".toList
  let _ ← parameter request "lastname".toList
  let _ ← parameter request nicknameName
  let _ ← parameter request "email".toList
  let _ ← parameter request passwordName
  let rs ← execute db
  leaveIf (rs ≠ [])
  let _ ← execute db
  let _ ← execute db
  log

def rejectStory : M Unit := do
  let _ ← parameter request storyIdName
  let rs ← execute db
  logIf (rs = [])
  let _ ← execute db
  log

def reviewStories : M Unit := listRows db

/-- the types 0, 1 and 2 have a query each -/
def search : M Unit := do
  let type ← intParameterD request "type".toList 0
  let _ ← intParameterD request pageName 0
  logIf (request.getParameter "search".toList = none ∨ type < 0 ∨ 2 < type)
  let rs ← executeWithOld db
  logIf (rs = [])
  log

def storeComment : M Unit := do
  let _ ← parameter request storyIdName
  let _ ← parameter request "parent".toList
  let _ ← parameter request "subject".toList
  let _ ← parameter request "body".toList
  let _ ← parameter request comment_tableName
  let _ ← authenticate db
  addTmp
  let _ ← execute db
  let _ ← execute db
  log

/-- the updates of the ratings of the writer and of the comment, unless the rating stays or is at its end -/
def updateRatings (rsrating rating : ℤ) : M Unit :=
  if (rsrating = -1 ∧ rating = -1) ∨ (rsrating = 5 ∧ rating = 1) ∨ rating = 0 then pure ()
  else do
    let _ ← execute db
    let _ ← execute db

/-- the try block for a moderator with access. Without the comment the rating cannot be read. -/
def moderate (rating : ℤ) : M Unit := do
  let rs ← execute db
  match rs with
  | [] => log
  | r :: _ => do
    updateRatings db (r ratingColumn) rating
    let _ ← execute db
    let _ ← execute db
    let _ ← execute db
    log

def storeModeratorLog : M Unit := do
  let _ ← parameter request nicknameName
  let _ ← parameter request passwordName
  let _ ← parameter request comment_tableName
  let _ ← parameter request commentIdName
  let rating ← intParameter request ratingName
  let rs ← execute db
  match rs with
  | [] => log
  | r :: _ => do
    logIf (r idColumn = 0 ∨ r accessColumn = 0)
    moderate db rating

/-- the user is looked up if there is a name and a password -/
def selectUser : M (List Row) :=
  if request.getParameter nicknameName = none ∨ request.getParameter passwordName = none then pure [] else execute db

def storeStory : M Unit := do
  let _ ← parameter request "title".toList
  let _ ← parameter request "body".toList
  let _ ← parameter request "category".toList
  let _ ← selectUser request db
  let _ ← execute db
  log

def storiesOfTheDay : M Unit := listRows db

def submitStory : M Unit := listRows db

/-- the parent of the comment; 0 has none -/
def selectParent (commentId : ℤ) : M Unit :=
  if commentId = 0 then pure ()
  else do
    let rs ← execute db
    logIf (rs = [])

def viewComment (fuel : ℕ) : M Unit := do
  let _ ← intParameterD request filterName 0
  let _ ← intParameterD request displayName 0
  let _ ← parameter request storyIdName
  let commentId ← intParameter request commentIdName
  let _ ← parameter request comment_tableName
  selectParent db commentId
  displayComments db fuel
  log

def viewStory (fuel : ℕ) : M Unit := do
  let _ ← intParameter request storyIdName
  let _ ← intParameterD request filterName 0
  let rs ← executeWithOld db
  logIf (rs = [])
  displayComments db fuel
  log

end DoGet

inductive Servlet where
  | AcceptStory | Author | BrowseCategories | BrowseStoriesByCategory | ModerateComment | OlderStories | PostComment
  | RegisterUser | RejectStory | ReviewStories | Search | StoreComment | StoreModeratorLog | StoreStory
  | StoriesOfTheDay | SubmitStory | ViewComment | ViewStory
  deriving DecidableEq

/-- the class, as the logger prints it -/
def Servlet.className : Servlet → Text
  | AcceptStory => "AcceptStory".toList
  | Author => "Author".toList
  | BrowseCategories => "BrowseCategories".toList
  | BrowseStoriesByCategory => "BrowseStoriesByCategory".toList
  | ModerateComment => "ModerateComment".toList
  | OlderStories => "OlderStories".toList
  | PostComment => "PostComment".toList
  | RegisterUser => "RegisterUser".toList
  | RejectStory => "RejectStory".toList
  | ReviewStories => "ReviewStories".toList
  | Search => "Search".toList
  | StoreComment => "StoreComment".toList
  | StoreModeratorLog => "StoreModeratorLog".toList
  | StoreStory => "StoreStory".toList
  | StoriesOfTheDay => "StoriesOfTheDay".toList
  | SubmitStory => "SubmitStory".toList
  | ViewComment => "ViewComment".toList
  | ViewStory => "ViewStory".toList

def doGet (request : Request) (db : Database) (fuel : ℕ) : Servlet → M Unit
  | .AcceptStory => acceptStory request db
  | .Author => author request db
  | .BrowseCategories => browseCategories db
  | .BrowseStoriesByCategory => browseStoriesByCategory request db
  | .ModerateComment => moderateComment request db
  | .OlderStories => olderStories request db
  | .PostComment => postComment
  | .RegisterUser => registerUser request db
  | .RejectStory => rejectStory request db
  | .ReviewStories => reviewStories db
  | .Search => search request db
  | .StoreComment => storeComment request db
  | .StoreModeratorLog => storeModeratorLog request db
  | .StoreStory => storeStory request db
  | .StoriesOfTheDay => storiesOfTheDay db
  | .SubmitStory => submitStory db
  | .ViewComment => viewComment request db fuel
  | .ViewStory => viewStory request db fuel

/-- the calls of the row that the request logs, if it logs one -/
def loggedCalls (servlet : Servlet) (request : Request) (db : Database) (fuel : ℕ) : Option (List DBCall) :=
  match (doGet request db fuel servlet).run ⟨0, [], []⟩ with
  | .error (.row calls) => some calls
  | _ => none

/-- what log4j adds: when the logger is called, and in which line -/
structure Event where
  date : Stamp
  time : Stamp
  line : ℕ

/-- the id as it is printed: null if it is missing -/
def Request.urlID (request : Request) : Text := (request.getParameter urlIDName).getD "null".toList

/-- the row that the request appends to the servlets log -/
def loggedRow (servlet : Servlet) (request : Request) (db : Database) (fuel : ℕ) (event : Event) : Option ServletRow :=
  (loggedCalls servlet request db fuel).map fun calls =>
    { date := event.date
      time := event.time
      logger := servlet.className ++ ':' :: natText event.line
      uri := request.uri
      id := request.urlID
      calls := calls }

end Rubbos.Servlets
