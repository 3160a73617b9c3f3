import ReportVault.Retention.Distinct
import ReportVault.Store.Call

/-!
# ReportVault.Store.Directory

A store in a directory of a file system:

```
open-sessions/<id>/report
open-sessions/<id>/event0000000001
reports/<id>
priority-reports/<id>
native-reports/<id>
```

A file is written under a temporary name and then renamed, so that a reader sees the old contents
or the new ones.  Listings look at the directory afresh and leave out names that begin with a dot,
as those of temporary files do.
-/

namespace ReportVault.Store

open FileSystem (Path Cause EntryKind)

/-- The directory of the open sessions. -/
def openSessions : String := "open-sessions"

/-- An identifier becomes a part of a path; refused is what could lead out of the store. -/
def isPlainName (name : String) : Bool :=
  !name.isEmpty && name.toList.head? != some '.' &&
    name.toList.all fun c => c != '/' && c != '\\' && c != '\x00'

/-- The identifier as a name. -/
def checkedName (id : SessionId) : Except Failure String :=
  if isPlainName id.name then .ok id.name else .error (.invalidId id.name)

/-- A file system and the directory of the store in it. -/
structure Directory (m : Type → Type) where
  files : FileSystem m
  root : Path

namespace Directory

variable [Monad m] (d : Directory m)

/-- The directory of an open session. -/
def sessionPath (id : SessionId) : Except Failure Path := do
  return (d.root.child openSessions).child (← checkedName id)

/-- The directory of a tier. -/
def tierPath (tier : Tier) : Path := d.root.child tier.directory

/-- The file of a report. -/
def reportPath (id : SessionId) (tier : Tier) : Except Failure Path := do
  return (d.tierPath tier).child (← checkedName id)

/-- Perform a call as part of an operation at a path, which a failure names. -/
def attempt (operation : Operation) (path : Path) (call : FileSystem.Call α) :
    ExceptT Failure m α :=
  ExceptT.mk do
    match ← d.files.perform call with
    | .ok a => return .ok a
    | .error cause => return .error (.storage operation path.text cause)

/-- The same, where nothing being there answers `absent`. -/
def attemptOr (absent : α) (operation : Operation) (path : Path) (call : FileSystem.Call α) :
    ExceptT Failure m α :=
  ExceptT.mk do
    match ← d.files.perform call with
    | .ok a => return .ok a
    | .error .notFound => return .ok absent
    | .error cause => return .error (.storage operation path.text cause)

/-- Write a file under a temporary name and rename it. -/
def writeAtomically (directory : Path) (name : String) (contents : Bytes) :
    ExceptT Failure m Unit := do
  d.attempt .createDirectory directory (.createDirectories directory)
  let temporary := directory.child (← d.attempt .writeTemporary directory (.spareName directory))
  let target := directory.child name
  d.attempt .writeTemporary temporary (.write temporary contents)
  try
    d.attempt .renameTemporary target (.rename temporary target)
  catch failure =>
    let _ ← (d.files.perform (.removeFile temporary) : m _)
    throw failure

/-- The contents of a file, if it is there. -/
def readIfPresent (path : Path) : ExceptT Failure m (Option Bytes) :=
  ExceptT.mk do
    match ← d.files.perform (.read path) with
    | .ok contents => return .ok (some contents)
    | .error .notFound => return .ok none
    | .error cause => return .error (.storage .read path.text cause)

/-- Remove a file, if it is there. -/
def removeFile (path : Path) : ExceptT Failure m Unit :=
  d.attemptOr () .removeFile path (.removeFile path)

/-- Remove a directory, if it is there. -/
def removeDirectory (path : Path) : ExceptT Failure m Unit :=
  d.attemptOr () .removeDirectory path (.removeTree path)

/-- The names of the visible entries of a kind; a directory that is not there has none. -/
def names (directory : Path) (kind : EntryKind) : ExceptT Failure m (List String) := do
  let entries ← d.attemptOr [] .listDirectory directory (.list directory)
  return entries.filterMap fun (name, k) =>
    if k = kind && name.toList.head? != some '.' then some name else none

/-- The report files of a tier. -/
def namesOfTier (tier : Tier) : ExceptT Failure m (List (SessionId × Tier)) := do
  return (← d.names (d.tierPath tier) .file).map fun name => (⟨name⟩, tier)

/-- The report of a session from the first of the tiers that has it. -/
def readFrom (id : SessionId) : List Tier → ExceptT Failure m (Option (Tier × Bytes))
  | [] => return none
  | tier :: rest => do
    match ← d.readIfPresent (← d.reportPath id tier) with
    | some contents => return some (tier, contents)
    | none => readFrom id rest

/-- Remove the report of a session from the tiers. -/
def removeFrom (id : SessionId) : List Tier → ExceptT Failure m Unit
  | [] => return ()
  | tier :: rest => do
    d.removeFile (← d.reportPath id tier)
    removeFrom id rest

/-- Remove the directories of the tiers. -/
def removeTiers : List Tier → ExceptT Failure m Unit
  | [] => return ()
  | tier :: rest => do
    d.removeDirectory (d.tierPath tier)
    removeTiers rest

/-- The answer to a call. -/
def perform : Call α → ExceptT Failure m α
  | .write id name contents => do
    d.writeAtomically (← d.sessionPath id) name contents
  | .read id name => do d.readIfPresent ((← d.sessionPath id).child name)
  | .delete id name => do d.removeFile ((← d.sessionPath id).child name)
  | .slots id => do
    let names ← d.names (← d.sessionPath id) .file
    return (names.filterMap Slot.ofFileName?).mergeSort Slot.ascending
  | .openIds => do
    let names ← d.names (d.root.child openSessions) .directory
    return (names.map SessionId.mk).mergeSort SessionId.ascending
  | .deleteSession id => do d.removeDirectory (← d.sessionPath id)
  | .reportIds => do
    let native ← d.namesOfTier .native
    let priority ← d.namesOfTier .priority
    let normal ← d.namesOfTier .normal
    return (Retention.distinctBy (·.1) (native ++ priority ++ normal)).mergeSort
      fun a b => a.1.descending b.1
  | .readReport id => d.readFrom id Tier.all
  | .writeReport id tier contents => do
    d.writeAtomically (d.tierPath tier) (← checkedName id) contents
    d.removeFrom id (Tier.all.filter (· ≠ tier))
  | .deleteReport id => d.removeFrom id Tier.all
  | .deleteAll => do
    d.removeDirectory (d.root.child openSessions)
    d.removeTiers Tier.all

end Directory

/-- The store in a directory. -/
def inDirectory [Monad m] (files : FileSystem m) (root : Path) : Store m :=
  ⟨fun call => (Directory.mk files root).perform call⟩

end ReportVault.Store
