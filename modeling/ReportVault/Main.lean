import ReportVault.Command.Run
import Std.Time.DateTime.Timestamp

/-!
# ReportVault.Main

The command line program: the files of the operating system, its clock and its environment.
-/

namespace ReportVault

namespace OperatingSystem

open FileSystem (Call Cause EntryKind Path)

/-- The cause that an error of the operating system stands for. -/
def causeOf (e : IO.Error) : Cause :=
  match e with
  | .noFileOrDirectory .. => .notFound
  | .alreadyExists .. => .alreadyExists
  | .inappropriateType _ 20 _ => .notADirectory
  | .inappropriateType _ 21 _ => .isADirectory
  | .permissionDenied .. => .denied
  | e => .other (toString e)

/-- What an action answers, or the cause of its failure. -/
def caught (action : IO α) : IO (Except Cause α) := do
  match ← action.toBaseIO with
  | .ok a => return .ok a
  | .error e => return .error (causeOf e)

/-- The contents of a file as a list. -/
def readBytes (path : String) : IO Bytes := do return (← IO.FS.readBinFile path).data.toList

/-- The entries of a directory. -/
def listEntries (path : String) : IO (List (String × EntryKind)) := do
  let entries ← (← IO.FS.realPath path).readDir
  let known ← entries.toList.mapM fun entry => do
    let metadata ← entry.path.symlinkMetadata.toBaseIO
    match metadata with
    | .ok data =>
      match data.type with
      | .dir => return some (entry.fileName, EntryKind.directory)
      | .file => return some (entry.fileName, EntryKind.file)
      | _ => return none
    | .error _ => return none
  return known.filterMap fun entry => entry

/-- A name for a temporary file, drawn at random. -/
def randomName : IO String := do
  let random ← IO.getRandomBytes 16
  return ".tmp-" ++ String.ofList (random.data.toList.flatMap SessionId.hexDigits)

/-- Perform a call. -/
def perform : Call α → IO (Except Cause α)
  | .isPresent path => do
    match ← caught (IO.FS.realPath path.text) with
    | .ok found => return .ok (← found.pathExists)
    | .error _ => return .ok false
  | .read path => caught (readBytes path.text)
  | .write path contents => caught (IO.FS.writeBinFile path.text ⟨contents.toArray⟩)
  | .createDirectories path => caught (IO.FS.createDirAll path.text)
  | .rename source target => caught (IO.FS.rename source.text target.text)
  | .removeFile path => caught (IO.FS.removeFile path.text)
  | .removeTree path => caught (IO.FS.removeDirAll path.text)
  | .list path => caught (listEntries path.text)
  | .spareName _ => caught randomName

/-- The file system of the operating system. -/
def files : FileSystem IO := ⟨fun call => perform call⟩

/-- The environment of the process. -/
def environment : IO Command.Environment := do
  let now ← Std.Time.Timestamp.now
  return {
    home := ← IO.getEnv "HOME"
    dataHome := ← IO.getEnv "XDG_DATA_HOME"
    now := Int64.ofInt now.toMillisecondsSinceUnixEpoch.val }

end OperatingSystem

end ReportVault

/-- Run the command line, print what it answers, and give its exit code. -/
def main (args : List String) : IO UInt32 := do
  let environment ← ReportVault.OperatingSystem.environment
  match ← (ReportVault.Command.run ReportVault.OperatingSystem.files environment args).run with
  | .ok output =>
    (← IO.getStdout).putStr output
    return 0
  | .error problem =>
    (← IO.getStderr).putStr ("Error: " ++ problem.message ++ "\n")
    return UInt32.ofNat problem.code
