/-
The paths of a request through a servlet: the pool, the driver and the logger.

`doGet` is written with every call that can throw or that counts: the parameters and the numbers in them, the connection
that is taken out of the pool and put back, each call of JDBC inside its try block, the catch blocks, and the returns with
and without the logger. Pages and the texts of the statements are left out; what an empty column does to a page is kept,
where it throws. The root logger takes INFO (log4j.properties), so each call of the logger is a record.

What the driver does is data. A statement has its number in the request and says whether it can be prepared (with its
parameters), whether it can be executed, what it answers, and which of the calls on its result throw. All these exceptions
are SQLExceptions. The clock is a sequence of readings.

`Pages` keeps of a request the row that it logs, with statements that throw or answer. Here the calls on a result may throw
as well, and what a request does to the pool, and on which ways it does not log, is kept. `LoggedPaths` says that both log
the same.

Two methods of `Comment` call themselves, once for each level of the comments: `fetchLowerLevels` as long as the database
counts replies, and `displayLowerLevelComments` as long as the map has them. The stack of the thread holds so many of these
calls (`Stack`); one more is a StackOverflowError. That is an error and no exception, so no `catch (Exception e)` takes it
and the request ends with it.

Premises: the logger and the pool do not throw, memory does not run out, and the stack overflows nowhere else. Log4jInit has
an empty `doGet`.

- `doGet`: the servlets.
- `serve`: a request from its start, and the state at its end.
-/
import Rubbos.Core.Methods
import Rubbos.Servlets.Pages

namespace Rubbos.Servlets.RequestPaths

open Rubbos.Core Method JString

/-! ## The driver -/

structure Row where
  getInt : Text → ℤ
  /-- none is null -/
  getString : Text → Option Text

/-- what the driver does with a statement of the request -/
structure Statement where
  /-- `prepareStatement` or a setter throws -/
  prepareThrows : Bool
  /-- `executeQuery` or `executeUpdate` throws -/
  executeThrows : Bool
  rows : List Row
  updateCount : ℤ
  /-- of the calls on results and of `close`, from the execution to the next one, those that throw -/
  readThrows : ℕ → Bool
  /-- the text of the exceptions -/
  exception : Text

structure Driver where
  /-- by the number of the statement in the request -/
  statement : ℕ → Statement
  /-- the readings of `System.nanoTime` -/
  nanoTime : ℕ → ℤ

/-- how many calls of a method that calls itself the stack of the thread holds -/
structure Stack where
  fetchLowerLevels : ℕ
  displayLowerLevelComments : ℕ

/-- DBST, DBET and DBRT of a call -/
structure Times where
  startNano : ℤ
  endNano : ℤ
  responseTime : ℤ
deriving DecidableEq

/-! ## State -/

inductive Kind where
  | R
  | RW
deriving DecidableEq

/-- `getRConnection`, `getRWConnection`, `releaseRConnection` and `releaseRWConnection` -/
inductive PoolCall where
  | get (k : Kind)
  | release (k : Kind)
deriving DecidableEq

structure St where
  /-- the variable conn is not null -/
  conn : Bool
  pool : List PoolCall
  /-- the number of statements so far -/
  prepared : ℕ
  /-- the statement that was executed last, and the calls on its result so far -/
  executed : ℕ
  reads : ℕ
  /-- the number of readings of the clock -/
  ticks : ℕ
  /-- for each statement that has completed, the number of readings before its end -/
  completed : List ℕ
  logMessage : List Times
  logTmpMessage : List Times
  /-- what the logger got -/
  records : List (List Times)

def St.init : St := ⟨false, [], 0, 0, 0, 0, [], [], [], []⟩

abbrev M (α : Type) := Method St α

variable {α : Type}

/-! ## Steps -/

def getConnection (k : Kind) : M Unit := modify fun s => { s with conn := true, pool := s.pool ++ [.get k] }

/-- `closeConnection(stmt, conn)`: exceptions of the statement are ignored -/
def closeConnection (k : Kind) : M Unit :=
  modify fun s => if s.conn then { s with pool := s.pool ++ [.release k] } else s

/-- `responseTimeLogger.info(logMessage)` -/
def log : M Unit := modify fun s => { s with records := s.records ++ [s.logMessage] }

/-- `closeConnection(stmt, conn); return;` -/
def close (k : Kind) : M α := do
  closeConnection k
  jump .returned

/-- `closeConnection(stmt, conn); responseTimeLogger.info(logMessage); return;` -/
def finish (k : Kind) : M α := do
  closeConnection k
  log
  jump .returned

def returnIf (c : Prop) [Decidable c] : M Unit := if c then jump .returned else pure ()

def throwIf (c : Prop) [Decidable c] : M Unit := if c then jump .thrown else pure ()

def skipIf (c : Prop) [Decidable c] (m : M Unit) : M Unit := if c then pure () else m

def closeIf (k : Kind) (c : Prop) [Decidable c] : M Unit := if c then close k else pure ()

def finishIf (k : Kind) (c : Prop) [Decidable c] : M Unit := if c then finish k else pure ()

section Parameters

variable (request : Request)

/-- a parameter that must be there -/
def parameter (name : Text) : M Unit := returnIf (request.getParameter name = none)

/-- `Integer.valueOf(text)`; null is no number -/
def valueOf : Option Text → M ℤ
  | none => jump .thrown
  | some text =>
    match parseInt text with
    | .error _ => jump .thrown
    | .ok n => pure n

/-- a number with a default -/
def intParameter (name : Text) (n : ℤ) : M ℤ :=
  match request.getParameter name with
  | none => pure n
  | some text => valueOf (some text)

end Parameters

section Jdbc

variable (driver : Driver)

/-- the number of the statement -/
def prepareStatement : M ℕ := do
  let s ← get
  modify fun s => { s with prepared := s.prepared + 1 }
  throwIf ((driver.statement s.prepared).prepareThrows = true)
  return s.prepared

def nanoTime : M ℤ := do
  let s ← get
  modify fun s => { s with ticks := s.ticks + 1 }
  return driver.nanoTime s.ticks

/-- `executeQuery` or `executeUpdate` -/
def run (stmt : ℕ) : M Unit := do
  throwIf ((driver.statement stmt).executeThrows = true)
  modify fun s => { s with executed := stmt, reads := 0, completed := s.completed ++ [s.ticks] }

def St.addMessage (times : Times) (s : St) : St := { s with logMessage := s.logMessage ++ [times] }

def St.addTmpMessage (times : Times) (s : St) : St := { s with logTmpMessage := s.logTmpMessage ++ [times] }

/-- a statement between two readings of the clock, and where its times go -/
def execute (add : Times → St → St) (stmt : ℕ) : M Unit := do
  let startNano ← nanoTime driver
  run driver stmt
  let endNano ← nanoTime driver
  modify (add ⟨startNano, endNano, (endNano - startNano).tdiv 1000⟩)

def executeQuery (add : Times → St → St) (stmt : ℕ) : M (List Row) := do
  execute driver add stmt
  return (driver.statement stmt).rows

def executeUpdate (stmt : ℕ) : M ℤ := do
  execute driver St.addMessage stmt
  return (driver.statement stmt).updateCount

/-- a call on the result of the last statement, or its `close` -/
def read : M Unit := do
  let s ← get
  throwIf ((driver.statement s.executed).readThrows s.reads = true)
  modify fun s => { s with reads := s.reads + 1 }

def first (rs : List Row) : M Bool := do
  read driver
  return !rs.isEmpty

/-- the row that a result stands at -/
def currentRow : List Row → M Row
  | [] => jump .thrown
  | r :: _ => pure r

def getInt (rs : List Row) (column : Text) : M ℤ := do
  read driver
  return (← currentRow rs).getInt column

def getString (rs : List Row) (column : Text) : M (Option Text) := do
  read driver
  return (← currentRow rs).getString column

/-- the columns of a row, as they are read -/
def getColumns (rs : List Row) : List Text → M Unit
  | [] => pure ()
  | column :: columns => do
    let _ ← getString driver rs column
    getColumns rs columns

/-- `do { body } while (rs.next())`, from a row on -/
def doWhileNext (body : List Row → M Unit) : List Row → M Unit
  | [] => pure ()
  | r :: rs => do
    body (r :: rs)
    read driver
    doWhileNext body rs

/-- `while (rs.next()) { body }`, in front of the rows -/
def whileNext (body : List Row → M Unit) : List Row → M Unit
  | [] => read driver
  | r :: rs => do
    read driver
    body (r :: rs)
    whileNext body rs

/-- the query of a try block -/
def prepareAndExecute : M (List Row) := do
  let stmt ← prepareStatement driver
  executeQuery driver St.addMessage stmt

/-- the first query of a servlet -/
def query (k : Kind) : M (List Row) := catching (prepareAndExecute driver) (finish k)

end Jdbc

/-! ## Helpers -/

section Helpers

variable (driver : Driver)

def authenticateError : Text := "Authenticate function error".toList

/-- `ServletPrinter.authenticate`: the text of an exception is an answer like any other -/
def authenticate : M (Option Text) := do
  let n := (← get).prepared
  catching
    (do
      let stmt ← prepareStatement driver
      let rs ← executeQuery driver St.addTmpMessage stmt
      let _ ← first driver rs
      let found ← first driver rs
      if found then getString driver rs idColumn else return some ['0'])
    (pure (some ((driver.statement n).exception ++ authenticateError)))

/-- `ServletPrinter.getUserName` -/
def getUserName : M Unit := do
  let stmt ← prepareStatement driver
  let rs ← executeQuery driver St.addTmpMessage stmt
  let _ ← first driver rs
  let _ ← getString driver rs nicknameName

/-- `Comment.displayFilterChooser` -/
def displayFilterChooser : M Unit := do
  let stmt ← prepareStatement driver
  let rs ← executeQuery driver St.addTmpMessage stmt
  let _ ← first driver rs
  doWhileNext driver (fun rs => getColumns driver rs [ratingColumn, "count".toList]) rs
  read driver

def parentColumn : Text := "parent".toList

/-- the variable deeper behind the loop over a level -/
def deeper (rs : List Row) : Bool := rs.any fun r => 0 < r.getInt childsColumn

def levelColumns : List Text :=
  [idColumn, "subject".toList, nicknameName, "date".toList, ratingColumn, parentColumn, childsColumn]

/-- the columns of a comment below the first level -/
def lowerColumns (display : ℤ) : List Text := levelColumns ++ if display = 1 then [] else ["comment".toList]

/-- the columns of a comment of the first level -/
def commentColumns : List Text :=
  [nicknameName, ratingColumn, parentColumn, idColumn, "subject".toList, "date".toList, childsColumn, "comment".toList]

/-- a query of `Comment` and the loop over its rows -/
def fetchLevel (columns : List Text) : M (List Row) := do
  let stmt ← prepareStatement driver
  let rs ← executeQuery driver St.addTmpMessage stmt
  whileNext driver (fun rs => getColumns driver rs columns) rs
  read driver
  return rs

/-- `Comment.fetchLowerLevels`, from a level on: the comments that it puts into the map -/
def fetchLowerLevels (display : ℤ) : (stack : ℕ) → M (List Row)
  | 0 => jump .fatal
  | stack + 1 => do
    let follow ← fetchLevel driver (lowerColumns display)
    if deeper follow = true then
      let lower ← fetchLowerLevels display stack
      return follow ++ lower
    else return follow

/-- `Comment.fetchComments`: the map, as the list of its comments -/
def fetchComments (display : ℤ) (stack : Stack) : M (List Row) := do
  let rs ← fetchLevel driver commentColumns
  if deeper rs = true then
    let lower ← fetchLowerLevels driver display stack.fetchLowerLevels
    return rs ++ lower
  else return rs

/-- `map.get(new Integer(cid))`: the comments with this parent -/
def children (map : List Row) (cid : ℤ) : List Row := map.filter fun r => r.getInt parentColumn = cid

/-- a loop over comments -/
def forEach (body : Row → M Unit) : List Row → M Unit
  | [] => pure ()
  | r :: rs => do
    body r
    forEach body rs

/-- `Comment.displayLowerLevelComments`, without what it prints -/
def displayLowerLevelComments (map : List Row) : (stack : ℕ) → (cid : ℤ) → M Unit
  | 0, _ => jump .fatal
  | stack + 1, cid =>
    forEach (fun r => skipIf (r.getInt childsColumn ≤ 0) (displayLowerLevelComments map stack (r.getInt idColumn)))
      (children map cid)

/-- `Comment.displayComments`, without what it prints -/
def displayComments (map : List Row) (cid display : ℤ) (stack : Stack) : M Unit :=
  forEach (fun r => skipIf (display ≤ 0 ∨ r.getInt childsColumn ≤ 0)
    (displayLowerLevelComments map stack.displayLowerLevelComments (r.getInt idColumn))) (children map cid)

/-- `Comment.fetchAndDisplay` -/
def fetchAndDisplay (display parent : ℤ) (stack : Stack) : M Unit := do
  let map ← fetchComments driver display stack
  displayComments map parent display stack

/-- `new StringBuilder()`, a method that appends to it, and `logMessage += logTmpMessage.toString()` -/
def withTmp (m : M Unit) : M Unit := do
  modify fun s => { s with logTmpMessage := [] }
  m
  modify fun s => { s with logMessage := s.logMessage ++ s.logTmpMessage }

/-- the two try blocks of a page with comments -/
def chooserAndComments (display parent : ℤ) (stack : Stack) : M Unit := do
  catching (withTmp (displayFilterChooser driver)) (finish .R)
  catching (withTmp (fetchAndDisplay driver display parent stack)) (finish .R)

end Helpers

/-! ## Servlets -/

def dateColumn : Text := "date".toList
def titleColumn : Text := "title".toList
def bodyColumn : Text := "body".toList
def writerColumn : Text := "writer".toList
def nameColumn : Text := "name".toList
def storyColumns : List Text := [idColumn, dateColumn, titleColumn, nicknameName]

section DoGet

variable (request : Request) (driver : Driver)

/-- AcceptStory with a number -/
def moveStory : M Unit := do
  let rs ← query driver .RW
  catching
    (do
      let found ← first driver rs
      finishIf .RW (found = false)
      getColumns driver rs [titleColumn, dateColumn, bodyColumn, writerColumn, "category".toList]
      let stmt ← prepareStatement driver
      let stmtdel ← prepareStatement driver
      let _ ← executeUpdate driver stmt
      let _ ← executeUpdate driver stmtdel
      read driver)
    (finish .RW)
  finish .RW

/-- the number is parsed with the connection in hand -/
def acceptStory : M Unit := do
  getConnection .RW
  let storyId ← valueOf (request.getParameter storyIdName)
  returnIf (storyId = 0)
  moveStory driver

/-- the second catch block closes and goes on without a connection -/
def author : M Unit := do
  getConnection .R
  closeIf .R (request.getParameter nicknameName = none)
  closeIf .R (request.getParameter passwordName = none)
  let rs ← query driver .R
  catching
    (do
      let found ← first driver rs
      skipIf (found = false) (getColumns driver rs [idColumn, accessColumn]))
    (do
      closeConnection .R
      modify fun s => { s with conn := false })
  finish .R

/-- an empty table is not logged; a name must not be null -/
def browseCategories : M Unit := do
  getConnection .R
  let rs ← query driver .R
  catching
    (do
      let found ← first driver rs
      closeIf .R (found = false)
      doWhileNext driver (fun rs => do
        let _ ← getInt driver rs idColumn
        let categoryName ← getString driver rs nameColumn
        throwIf (categoryName = none)) rs)
    (pure ())
  finish .R

/-- the servlets that list the rows of one query -/
def listRows (body : List Row → M Unit) : M Unit := do
  let rs ← query driver .R
  catching
    (do
      let found ← first driver rs
      finishIf .R (found = false)
      doWhileNext driver body rs)
    (pure ())
  finish .R

def browseStoriesByCategory : M Unit := do
  let _ ← intParameter request pageName 0
  let _ ← intParameter request nbOfStoriesName 0
  parameter request "categoryName".toList
  parameter request "category".toList
  getConnection .R
  listRows driver fun rs => getColumns driver rs [titleColumn, dateColumn, writerColumn, idColumn]

def moderateComment : M Unit := do
  parameter request comment_tableName
  parameter request commentIdName
  getConnection .R
  let rs ← query driver .R
  catching
    (do
      let found ← first driver rs
      finishIf .R (found = false))
    (finish .R)
  catching
    (do
      getColumns driver rs ["story_id".toList, writerColumn]
      withTmp (getUserName driver)
      getColumns driver rs [idColumn, "subject".toList, ratingColumn, dateColumn, "comment".toList])
    (pure ())
  finish .R

/-- the same query of the old table when there are no rows -/
def executeOld (rs : List Row) : M (List Row) := do
  let found ← first driver rs
  if found then return rs
  else
    read driver
    prepareAndExecute driver

def olderStories : M Unit := do
  let _ ← intParameter request pageName 0
  let _ ← intParameter request nbOfStoriesName 25
  if request.getParameter "day".toList = none ∨ request.getParameter "month".toList = none ∨
      request.getParameter "year".toList = none then do
    log
    jump .returned
  else do
    getConnection .R
    let rs ← catching
      (do
        let rs ← executeOld driver (← prepareAndExecute driver)
        let found ← first driver rs
        finishIf .R (found = false)
        return rs)
      (finish .R)
    catching
      (whileNext driver (fun rs => getColumns driver rs [idColumn, titleColumn, nicknameName, dateColumn]) rs.tail)
      (pure ())
    finish .R

/-- a form, without a connection -/
def postComment : M Unit := do
  let _ ← intParameter request storyIdName 0
  let _ ← intParameter request "parent".toList 0
  parameter request comment_tableName

/-- a nickname that is taken is not logged -/
def registerUser : M Unit := do
  parameter request "firstname".toList
  parameter request "lastname".toList
  parameter request nicknameName
  parameter request "email".toList
  parameter request passwordName
  getConnection .RW
  let rs ← query driver .RW
  catching
    (do
      let found ← first driver rs
      closeIf .RW (found = true)
      let stmt ← prepareStatement driver
      let _ ← executeUpdate driver stmt
      read driver
      let rs ← prepareAndExecute driver
      let _ ← first driver rs
      getColumns driver rs [idColumn, "creation_date".toList, ratingColumn, accessColumn])
    (finish .RW)
  finish .RW

def rejectStory : M Unit := do
  parameter request storyIdName
  getConnection .RW
  let rs ← query driver .RW
  catching
    (do
      let found ← first driver rs
      finishIf .RW (found = false)
      read driver
      let stmt ← prepareStatement driver
      let _ ← executeUpdate driver stmt)
    (finish .RW)
  finish .RW

def reviewStories : M Unit := do
  getConnection .R
  listRows driver fun rs => getColumns driver rs [titleColumn, dateColumn, idColumn, bodyColumn, writerColumn]

/-- the queries of a type of search; the first one has a try block of its own for the type 0 -/
def searchRows (type : ℤ) : M (List Row) :=
  if type = 0 then do
    let rs ← query driver .R
    catching
      (do
        let rs ← executeOld driver rs
        let found ← first driver rs
        finishIf .R (found = false)
        return rs)
      (finish .R)
  else
    catching
      (do
        let rs ← executeOld driver (← prepareAndExecute driver)
        let found ← first driver rs
        finishIf .R (found = false)
        skipIf (type ≠ 1) (doWhileNext driver (fun rs =>
          getColumns driver rs ["story_id".toList, idColumn, "subject".toList, nicknameName, dateColumn]) rs)
        return rs)
      (finish .R)

/-- with a type that has no queries the result is null -/
def searchResult (type : ℤ) : M (Option (List Row)) :=
  if type = 0 ∨ type = 1 ∨ type = 2 then do return some (← searchRows driver type) else pure none

/-- the loop over the stories; the comments have been printed before -/
def printStories (type : ℤ) (rs : Option (List Row)) : M Unit :=
  if type = 1 then pure ()
  else
    match rs with
    | none => jump .thrown
    | some rs => doWhileNext driver (fun rs => getColumns driver rs storyColumns) rs

def search : M Unit := do
  let type ← intParameter request "type".toList 0
  let _ ← intParameter request pageName 0
  if request.getParameter "search".toList = none then do
    log
    jump .returned
  else do
    getConnection .R
    let rs ← searchResult driver type
    catching (printStories driver type rs) (pure ())
    finish .R

/-- StoreComment with a user -/
def insertComment : M Unit := do
  catching
    (do
      let stmt ← prepareStatement driver
      let _ ← executeUpdate driver stmt
      read driver
      let stmt ← prepareStatement driver
      let _ ← executeUpdate driver stmt)
    (finish .RW)
  finish .RW

/-- the answer of `authenticate` is parsed with the connection in hand -/
def storeComment : M Unit := do
  parameter request storyIdName
  parameter request "parent".toList
  parameter request "subject".toList
  parameter request bodyColumn
  parameter request comment_tableName
  getConnection .RW
  modify fun s => { s with logTmpMessage := [] }
  let userIdstring ← authenticate driver
  modify fun s => { s with logMessage := s.logMessage ++ s.logTmpMessage }
  let _ ← valueOf userIdstring
  insertComment driver

/-- an update of a rating -/
def updateRating : M Unit := do
  let stmt ← prepareStatement driver
  let _ ← executeUpdate driver stmt
  read driver

/-- a rating after the updates -/
def selectRating : M Unit := do
  let rs ← prepareAndExecute driver
  let found ← first driver rs
  skipIf (found = false) (getColumns driver rs [ratingColumn])

/-- the try block for a moderator with access -/
def moderate (rating : ℤ) : M Unit := do
  let rs ← prepareAndExecute driver
  let _ ← first driver rs
  let rsrating ← getInt driver rs ratingColumn
  let _ ← getString driver rs writerColumn
  read driver
  skipIf ((rsrating = -1 ∧ rating = -1) ∨ (rsrating = 5 ∧ rating = 1) ∨ rating = 0) (do
    updateRating driver
    updateRating driver)
  selectRating driver
  read driver
  selectRating driver
  read driver
  read driver
  let stmt ← prepareStatement driver
  let _ ← executeUpdate driver stmt

/-- the id and the access of a user -/
def getIds (rs : List Row) : M (ℤ × ℤ) := do
  let found ← first driver rs
  if found then
    let userId ← getInt driver rs idColumn
    let access ← getInt driver rs accessColumn
    return (userId, access)
  else return (0, 0)

def storeModeratorLog : M Unit := do
  parameter request nicknameName
  parameter request passwordName
  parameter request comment_tableName
  parameter request commentIdName
  parameter request ratingName
  let rating ← valueOf (request.getParameter ratingName)
  getConnection .RW
  let rs ← query driver .RW
  let ids ← catching
    (do
      let ids ← getIds driver rs
      read driver
      return ids)
    (finish .RW)
  skipIf (ids.1 = 0 ∨ ids.2 = 0) (catching (moderate driver rating) (pure ()))
  finish .RW

/-- the user of a story: the second catch block does not log -/
def selectUser : M Unit := do
  let rs ← query driver .RW
  catching
    (do
      let _ ← getIds driver rs
      read driver)
    (close .RW)

def storeStory : M Unit := do
  parameter request titleColumn
  parameter request bodyColumn
  parameter request "category".toList
  getConnection .RW
  skipIf (request.getParameter nicknameName = none ∨ request.getParameter passwordName = none) (selectUser driver)
  catching
    (do
      let stmt ← prepareStatement driver
      let updateResult ← executeUpdate driver stmt
      finishIf .RW (updateResult ≠ 1))
    (finish .RW)
  finish .RW

/-- a body must not be null -/
def storiesOfTheDay : M Unit := do
  getConnection .R
  listRows driver fun rs => do
    getColumns driver rs [idColumn, titleColumn, nicknameName, dateColumn]
    let body ← getString driver rs bodyColumn
    throwIf (body = none)

def submitStory : M Unit := do
  getConnection .R
  listRows driver fun rs => getColumns driver rs [nameColumn, idColumn]

/-- the parent of a comment -/
def selectParent : M ℤ :=
  catching
    (do
      let rs ← prepareAndExecute driver
      let found ← first driver rs
      finishIf .R (found = false)
      let parent ← getInt driver rs parentColumn
      read driver
      return parent)
    (finish .R)

def viewComment (stack : Stack) : M Unit := do
  let _ ← intParameter request filterName 0
  let display ← intParameter request displayName 0
  parameter request storyIdName
  parameter request commentIdName
  let commentId ← valueOf (request.getParameter commentIdName)
  parameter request comment_tableName
  getConnection .R
  let parent ← if commentId = 0 then pure 0 else selectParent driver
  chooserAndComments driver display parent stack
  finish .R

def viewStory (stack : Stack) : M Unit := do
  parameter request storyIdName
  let _ ← valueOf (request.getParameter storyIdName)
  let _ ← intParameter request filterName 0
  getConnection .R
  let rs ← query driver .R
  catching
    (do
      let rs ← executeOld driver rs
      let found ← first driver rs
      finishIf .R (found = false)
      getColumns driver rs [nicknameName, dateColumn, titleColumn, bodyColumn])
    (finish .R)
  chooserAndComments driver 1 0 stack
  finish .R

end DoGet

def doGet (request : Request) (driver : Driver) (stack : Stack) : Servlet → M Unit
  | .AcceptStory => acceptStory request driver
  | .Author => author request driver
  | .BrowseCategories => browseCategories driver
  | .BrowseStoriesByCategory => browseStoriesByCategory request driver
  | .ModerateComment => moderateComment request driver
  | .OlderStories => olderStories request driver
  | .PostComment => postComment request
  | .RegisterUser => registerUser request driver
  | .RejectStory => rejectStory request driver
  | .ReviewStories => reviewStories driver
  | .Search => search request driver
  | .StoreComment => storeComment request driver
  | .StoreModeratorLog => storeModeratorLog request driver
  | .StoreStory => storeStory request driver
  | .StoriesOfTheDay => storiesOfTheDay driver
  | .SubmitStory => submitStory driver
  | .ViewComment => viewComment request driver stack
  | .ViewStory => viewStory request driver stack

/-- a request from its start: how it ends, and the state there -/
def serve (servlet : Servlet) (request : Request) (driver : Driver) (stack : Stack) : Except Jump Unit × St :=
  (doGet request driver stack servlet).runFrom St.init

/-- a request without parameters -/
def noParameters : Request := ⟨"/rubbos/servlet/edu.rice.rubbos.servlets.AcceptStory".toList, fun _ => none⟩

/-- empty tables, and a clock that advances by one -/
def emptyTables : Driver where
  statement _ := ⟨false, false, [], 0, fun _ => false, []⟩
  nanoTime n := n

end Rubbos.Servlets.RequestPaths
