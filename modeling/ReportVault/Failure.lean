import ReportVault.FileSystem.Call
import ReportVault.SessionId

/-!
# ReportVault.Failure

What can go wrong with a stored record.

`Failure.isStorage` tells a failure of the storage, after which the same call may succeed later,
from one that lies in the data.
-/

namespace ReportVault

/-- What the storage was doing. -/
inductive Operation
  | createDirectory
  | writeTemporary
  | renameTemporary
  | read
  | removeFile
  | listDirectory
  | removeDirectory
  deriving DecidableEq, Repr

/-- The words for an operation. -/
def Operation.text : Operation → String
  | .createDirectory => "creating directory"
  | .writeTemporary => "writing temp file"
  | .renameTemporary => "renaming temp file"
  | .read => "reading file"
  | .removeFile => "removing file"
  | .listDirectory => "listing directory"
  | .removeDirectory => "removing directory"

/-- The kinds of record. -/
inductive RecordKind
  | report
  | event
  deriving DecidableEq, Repr

/-- The word for a kind of record. -/
def RecordKind.text : RecordKind → String
  | .report => "report"
  | .event => "event"

/-- Why a record could not be stored, read or built. -/
inductive Failure
  | storage (operation : Operation) (path : String) (cause : FileSystem.Cause)
  | encode (record : RecordKind) (reason : String)
  | decode (record : RecordKind) (reason : String)
  /-- The open session has no header. -/
  | missingHeader (id : SessionId)
  /-- The identifier cannot be the name of a file. -/
  | invalidId (name : String)
  /-- The session already has an event with the greatest sequence number. -/
  | sequenceExhausted (id : SessionId)
  deriving DecidableEq, Repr

namespace Failure

/-- Whether the failure came from the storage and not from the data. -/
def isStorage : Failure → Bool
  | .storage .. => true
  | _ => false

/-- The words for a failure. -/
def message : Failure → String
  | .storage operation path cause =>
    "I/O error while " ++ operation.text ++ " at " ++ path ++ ": " ++ cause.message
  | .encode record reason => "failed to encode " ++ record.text ++ ": " ++ reason
  | .decode record reason => "failed to decode " ++ record.text ++ ": " ++ reason
  | .missingHeader id => "no readable report header for session " ++ id.name
  | .invalidId name => "invalid session id '" ++ name ++ "': must be a plain file name"
  | .sequenceExhausted id => "event sequence exhausted for session " ++ id.name

end Failure

end ReportVault
