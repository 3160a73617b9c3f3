import ReportVault.Bytes
import ReportVault.Failure
import ReportVault.Slot
import ReportVault.Tier

/-!
# ReportVault.Store.Call

What is asked of a store, and what it may answer.

A store holds the files of open sessions and one report for each finalized session.  `Call α` is a
request whose answer is an `α`, and a `Store m` performs requests in the monad `m`.  That calls are
values is what makes it easy to put something between an engine and its store: a store in which
some calls fail is `Store.failing`.
-/

namespace ReportVault

namespace Store

/-- A request to a store. -/
inductive Call : Type → Type
  /-- Write a file of an open session in one step; the session is opened if need be. -/
  | write (id : SessionId) (name : String) (contents : Bytes) : Call Unit
  /-- The contents of a file of an open session, or none without such a file. -/
  | read (id : SessionId) (name : String) : Call (Option Bytes)
  /-- Remove a file of an open session, if it is there. -/
  | delete (id : SessionId) (name : String) : Call Unit
  /-- The event files of an open session, by ascending sequence number. -/
  | slots (id : SessionId) : Call (List Slot)
  /-- The open sessions, ascending. -/
  | openIds : Call (List SessionId)
  /-- Remove all files of an open session. -/
  | deleteSession (id : SessionId) : Call Unit
  /-- The finalized sessions with the tier of the report, descending. -/
  | reportIds : Call (List (SessionId × Tier))
  /-- The report of a finalized session with its tier. -/
  | readReport (id : SessionId) : Call (Option (Tier × Bytes))
  /-- Write a report into a tier in one step, and remove it from the other tiers. -/
  | writeReport (id : SessionId) (tier : Tier) (contents : Bytes) : Call Unit
  /-- Remove the report of a session, whatever its tier. -/
  | deleteReport (id : SessionId) : Call Unit
  /-- Remove everything. -/
  | deleteAll : Call Unit

namespace Call

/-- The session that a call is about. -/
def session? : Call α → Option SessionId
  | .write id _ _ => some id
  | .read id _ => some id
  | .delete id _ => some id
  | .slots id => some id
  | .openIds => none
  | .deleteSession id => some id
  | .reportIds => none
  | .readReport id => some id
  | .writeReport id _ _ => some id
  | .deleteReport id => some id
  | .deleteAll => none

/-- Whether the call only looks. -/
def isRead : Call α → Bool
  | .read .. => true
  | .slots _ => true
  | .openIds => true
  | .reportIds => true
  | .readReport _ => true
  | _ => false

end Call

end Store

/-- Something that performs calls. -/
structure Store (m : Type → Type) where
  perform : {α : Type} → Store.Call α → ExceptT Failure m α

/-- A store in which the calls that `fails` picks fail before anything is done. -/
def Store.failing [Monad m] (store : Store m) (fails : {α : Type} → Store.Call α → Option Failure) :
    Store m where
  perform call :=
    match fails call with
    | some failure => throw failure
    | none => store.perform call

/-! ## The files of an open session -/

namespace SessionFile

/-- The header of the report. -/
def header : String := "report"

/-- The start time in decimal. -/
def startTime : String := "start-time"

/-- The latest identifier of the analytics session. -/
def correlation : String := "aqs"

/-- The latest user. -/
def user : String := "user"

/-- The mark of a session that has had an event of high priority. -/
def priority : String := "priority"

end SessionFile

end ReportVault
