import ReportVault.Codec
import ReportVault.Store.Call
import ReportVault.Text.Blank

/-!
# ReportVault.Engine.Basic

The engine: a store, a record format, and the ways to read what is stored.

An engine remembers nothing between two operations.  Its operations never fail; what fails inside
leaves the record at hand out.
-/

namespace ReportVault

/-- An engine over a store. -/
structure Engine (m : Type → Type) where
  store : Store m
  codec : Codec := .json

namespace Engine

variable [Monad m] (e : Engine m)

/-- Perform a call and go on whether it succeeds or not. -/
def attempt (call : Store.Call Unit) : m Unit := do
  let _ ← (e.store.perform call).run

/-- What a computation answers, or nothing if it fails. -/
def succeeds? (x : ExceptT Failure m α) : m (Option α) := do
  match ← x.run with
  | .ok a => return some a
  | .error _ => return none

/-- The header of an open session. -/
def readHeader (id : SessionId) : ExceptT Failure m Report := do
  match ← e.store.perform (.read id SessionFile.header) with
  | some contents => e.codec.decodeReport contents
  | none => throw (.missingHeader id)

/-- The event of a slot, or nothing if it cannot be read. -/
def readEvent (id : SessionId) (slot : Slot) : m (Option Event) :=
  succeeds? (do
    match ← e.store.perform (.read id slot.fileName) with
    | some contents => return some (← e.codec.decodeEvent contents)
    | none => return none) >>= fun event => return event.join

/-- The events of the slots that can be read, in order. -/
def readEvents (id : SessionId) (slots : List Slot) : m (List Event) := do
  return (← slots.mapM (e.readEvent id)).filterMap fun event => event

/-- The report of a finalized session, or nothing if it cannot be read. -/
def readFinalized (id : SessionId) : m (Option Report) :=
  succeeds? (do
    match ← e.store.perform (.readReport id) with
    | some (_, contents) => return some (← e.codec.decodeReport contents)
    | none => return none) >>= fun report => return report.join

/-- The text of a session file.  A file that cannot be read, holds no text or is empty counts as
absent. -/
def readText (id : SessionId) (name : String) : m (Option String) := do
  let contents ← succeeds? (e.store.perform (.read id name))
  return (contents.join.bind Bytes.toText?).filter fun s => !s.isEmpty

/-- Whether the session has ever had an event of high priority. -/
def hasPriorityMark (id : SessionId) : m Bool := do
  return ((← succeeds? (e.store.perform (.read id SessionFile.priority))).join).isSome

/-- The finalized sessions with their tiers; none if they cannot be listed. -/
def finalizedIds : m (List (SessionId × Tier)) := do
  return (← succeeds? (e.store.perform .reportIds)).getD []

/-! ## Looking -/

/-- The open sessions, oldest first. -/
def openIds : m (List SessionId) := do
  return (← succeeds? (e.store.perform .openIds)).getD []

/-- Whether any session is finalized. -/
def hasFinalized : m Bool := do return !(← e.finalizedIds).isEmpty

/-- The report of a finalized session, if it is worth an upload. -/
def loadReport (id : SessionId) : m (Option (SessionId × Report)) := do
  return ((← e.readFinalized id).filter Report.isComplete).map fun r => (id, r)

/-- The finalized reports that are worth an upload, latest session first. -/
def loadFinalized : m (List (SessionId × Report)) := do
  let reports ← (← e.finalizedIds).mapM fun (id, _) => e.loadReport id
  return (reports.filterMap fun r => r).mergeSort fun a b => a.1.descending b.1

/-- The milliseconds that a text states; blanks around them do not count. -/
def millisOfText? (s : String) : Option Int64 :=
  (Text.intOfDecimal? (Text.trim s.toList)).bind Text.int64?

/-- The start time of an open session, from its own file, or else from the header. -/
def startTime (id : SessionId) : m (Option Int64) := do
  match (← e.readText id SessionFile.startTime).bind millisOfText? with
  | some millis => return some millis
  | none => return (← succeeds? (e.readHeader id)).map (·.session.startTimeMillis)

/-! ## Deleting -/

/-- Delete the report of a finalized session. -/
def deleteReport (id : SessionId) : m Unit := e.attempt (.deleteReport id)

/-- Delete all open sessions and all reports. -/
def deleteAll : m Unit := e.attempt .deleteAll

end Engine

end ReportVault
