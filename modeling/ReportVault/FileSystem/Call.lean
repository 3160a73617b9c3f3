import ReportVault.Bytes
import ReportVault.FileSystem.Path

/-!
# ReportVault.FileSystem.Call

What is asked of a file system, and what it may answer.

`Call α` is a request whose answer is an `α`.  A `FileSystem m` performs requests in the monad
`m`: the one of the operating system in `IO`, that of `FileSystem.Tree` in a state monad.
-/

namespace ReportVault.FileSystem

/-- Why a call was refused. -/
inductive Cause
  | notFound
  | notADirectory
  | isADirectory
  | alreadyExists
  | nameTooLong
  /-- The name holds a NUL. -/
  | invalidName
  /-- The contents are no UTF-8. -/
  | notText
  | denied
  | other (message : String)
  deriving DecidableEq, Repr

namespace Cause

/-- The words for a cause. -/
def message : Cause → String
  | .notFound => "No such file or directory (os error 2)"
  | .notADirectory => "Not a directory (os error 20)"
  | .isADirectory => "Is a directory (os error 21)"
  | .alreadyExists => "File exists (os error 17)"
  | .nameTooLong => "File name too long (os error 36)"
  | .invalidName => "file name contained an unexpected NUL byte"
  | .notText => "stream did not contain valid UTF-8"
  | .denied => "Operation not permitted (os error 1)"
  | .other message => message

end Cause

/-- What an entry of a directory is. -/
inductive EntryKind
  | file
  | directory
  deriving DecidableEq, Repr

/-- A request to a file system. -/
inductive Call : Type → Type
  /-- Whether the path names anything. -/
  | isPresent (path : Path) : Call Bool
  | read (path : Path) : Call Bytes
  /-- Create the file, or replace its contents. -/
  | write (path : Path) (contents : Bytes) : Call Unit
  /-- Create the directory and those above it, as far as they are missing. -/
  | createDirectories (path : Path) : Call Unit
  /-- Move a file, in one step, over whatever file has the new name. -/
  | rename (source target : Path) : Call Unit
  | removeFile (path : Path) : Call Unit
  /-- Remove a directory with all that is in it. -/
  | removeTree (path : Path) : Call Unit
  | list (path : Path) : Call (List (String × EntryKind))
  /-- A name for a temporary file that no entry of the directory has. -/
  | spareName (directory : Path) : Call String

end FileSystem

/-- Something that performs calls. -/
structure FileSystem (m : Type → Type) where
  perform : {α : Type} → FileSystem.Call α → m (Except FileSystem.Cause α)

end ReportVault
