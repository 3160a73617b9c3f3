import ReportVault.FileSystem.Call
import ReportVault.FileSystem.Entries
import ReportVault.Text.Decimal

/-!
# ReportVault.FileSystem.Tree

A file system in memory: the working directory as a tree of names.

Calls follow the rules of a POSIX file system without links or permissions.  A path is followed
part by part, each part but the last must be a directory, a name has at most 255 bytes and a path
less than 4096.  What lies outside the working directory is a directory without entries that
nobody may change.
-/

namespace ReportVault.FileSystem

/-- A file or a directory.  The entries of a directory have distinct names. -/
inductive Node
  | file (contents : Bytes)
  | directory (entries : List (String × Node))
  deriving Repr

namespace Node

/-- The empty directory. -/
def empty : Node := .directory []

/-- Whether the node is a directory. -/
def isDirectory : Node → Bool
  | .directory _ => true
  | .file _ => false

/-- What the node is. -/
def kind : Node → EntryKind
  | .directory _ => .directory
  | .file _ => .file

/-- The node at the end of a list of names. -/
def get? : Node → List String → Option Node
  | n, [] => some n
  | .directory entries, name :: rest => (entries.lookup name).bind fun n => n.get? rest
  | .file _, _ :: _ => none
termination_by structural _ names => names

/-- Put a node under a list of names.  The directory that it goes to must be there; otherwise
nothing changes. -/
def put : Node → List String → Node → Node
  | _, [], n => n
  | .directory entries, [name], n => .directory (setEntry name n entries)
  | .directory entries, name :: rest, n =>
    match entries.lookup name with
    | some child => .directory (setEntry name (child.put rest n) entries)
    | none => .directory entries
  | .file contents, _ :: _, _ => .file contents
termination_by structural _ names => names

/-- Take away the node at the end of a list of names. -/
def remove : Node → List String → Node
  | n, [] => n
  | .directory entries, [name] => .directory (dropEntry name entries)
  | .directory entries, name :: rest =>
    match entries.lookup name with
    | some child => .directory (setEntry name (child.remove rest) entries)
    | none => .directory entries
  | .file contents, _ :: _ => .file contents
termination_by structural _ names => names

/-! ## Following a path -/

/-- A place that a path leads to: the names that lead there from the top, or none outside. -/
structure Spot where
  names : Option (List String)
  node : Node
  deriving Repr

/-- What lies outside. -/
def outside : Spot := ⟨none, empty⟩

/-- The greatest length of a name, in bytes. -/
def maxNameBytes : Nat := 255

/-- A path has fewer bytes than this. -/
def pathLimit : Nat := 4096

/-- Follow one part of a path. -/
def follow (top : Node) (spot : Spot) (part : String) : Except Cause Spot :=
  match spot.node with
  | .file _ => .error .notADirectory
  | .directory entries =>
    if part = "" ∨ part = "." then .ok spot
    else if part = ".." then
      match spot.names with
      | none | some [] => .ok outside
      | some names => .ok ⟨some names.dropLast, (top.get? names.dropLast).getD empty⟩
    else if part.utf8ByteSize > maxNameBytes then .error .nameTooLong
    else match entries.lookup part with
      | none => .error .notFound
      | some n => .ok ⟨spot.names.map (· ++ [part]), n⟩

/-- Follow all parts. -/
def followAll (top : Node) (spot : Spot) : List String → Except Cause Spot
  | [] => .ok spot
  | part :: rest => do followAll top (← follow top spot part) rest

/-- Where the parts of a path are counted from. -/
def origin (top : Node) (path : Path) : Spot := if path.absolute then outside else ⟨some [], top⟩

/-- Why a path can name nothing, whatever there is: no name holds a NUL, a path is not empty, and it
is not too long. -/
def refusal? (path : Path) : Option Cause :=
  let text := path.text
  if text.toList.contains '\x00' then some .invalidName
  else if text.isEmpty then some .notFound
  else if pathLimit ≤ text.utf8ByteSize then some .nameTooLong
  else none

/-- The place that a path names. -/
def resolve (top : Node) (path : Path) : Except Cause Spot :=
  match refusal? path with
  | some cause => .error cause
  | none => followAll top (origin top path) path.parts

/-- An entry that may be made, replaced or removed: the names that lead to it and what is there. -/
structure Entry where
  names : List String
  current : Option Node
  deriving Repr

/-- The entry that a path names, in a directory that is there.  A path that ends in a slash, in `.`
or in `..` names no entry but a directory itself. -/
def resolveEntry (top : Node) (path : Path) : Except Cause Entry :=
  match refusal? path, path.parts.getLast? with
  | some cause, _ => .error cause
  | none, none => .error .isADirectory
  | none, some last => do
    let spot ← followAll top (origin top path) path.parts.dropLast
    match spot.node with
    | .file _ => .error .notADirectory
    | .directory entries =>
      if last = "" ∨ last = "." ∨ last = ".." then .error .isADirectory
      else if last.utf8ByteSize > maxNameBytes then .error .nameTooLong
      else match spot.names with
        | none => .error .denied
        | some names => .ok ⟨names ++ [last], entries.lookup last⟩

/-! ## Performing calls -/

/-- Create one directory. -/
def makeDirectory (top : Node) (path : Path) : Except Cause Node := do
  let entry ← resolveEntry top path
  match entry.current with
  | some _ => .error .alreadyExists
  | none => .ok (top.put entry.names empty)

/-- Whether the path names a directory. -/
def hasDirectory (top : Node) (path : Path) : Bool :=
  match resolve top path with
  | .ok spot => spot.node.isDirectory
  | .error _ => false

/-- Create a directory and those above it.  The parts come last one first.  Directories that were
made before a later one failed stay. -/
def makeDirectories (top : Node) (absolute : Bool) : List String → Except Cause Unit × Node
  | [] => (.ok (), top)
  | last :: above =>
    let path : Path := ⟨absolute, (last :: above).reverse⟩
    match makeDirectory top path with
    | .ok made => (.ok (), made)
    | .error .notFound =>
      match makeDirectories top absolute above with
      | (.error cause, made) => (.error cause, made)
      | (.ok (), made) =>
        match makeDirectory made path with
        | .ok done => (.ok (), done)
        | .error cause => (if hasDirectory made path then .ok () else .error cause, made)
    | .error cause => (if hasDirectory top path then .ok () else .error cause, top)

/-- Write a file. -/
def writeFile (top : Node) (path : Path) (contents : Bytes) : Except Cause Node := do
  let entry ← resolveEntry top path
  match entry.current with
  | some (.directory _) => .error .isADirectory
  | _ => .ok (top.put entry.names (.file contents))

/-- Move a file. -/
def renameFile (top : Node) (source target : Path) : Except Cause Node := do
  let old ← resolveEntry top source
  let new ← resolveEntry top target
  match old.current, new.current with
  | none, _ => .error .notFound
  | some (.directory _), _ => .error .isADirectory
  | some (.file _), some (.directory _) => .error .isADirectory
  | some (.file contents), _ =>
    if old.names = new.names then .ok top
    else .ok ((top.remove old.names).put new.names (.file contents))

/-- Remove a file. -/
def deleteFile (top : Node) (path : Path) : Except Cause Node := do
  let entry ← resolveEntry top path
  match entry.current with
  | none => .error .notFound
  | some (.directory _) => .error .isADirectory
  | some (.file _) => .ok (top.remove entry.names)

/-- Remove a directory and all that is in it.  Its path may end in a slash. -/
def deleteTree (top : Node) (path : Path) : Except Cause Node := do
  let entry ← resolveEntry top path.withoutFinalSlashes
  match entry.current with
  | none => .error .notFound
  | some (.file _) => .error .notADirectory
  | some (.directory _) => .ok (top.remove entry.names)

/-- The temporary name with number `n`, at least as long as one that is drawn at random. -/
def temporaryName (n : Nat) : String := ".tmp-" ++ Text.zeroPadded n 32

/-- The temporary name with the least number that no entry has. -/
def spareName (entries : List (String × Node)) : String :=
  temporaryName
    (((List.range (entries.length + 1)).find? fun n =>
      (entries.lookup (temporaryName n)).isNone).getD 0)

/-- The new tree if there is one, and the old one otherwise. -/
def keepOnError (top : Node) : Except Cause Node → Except Cause Unit × Node
  | .ok changed => (.ok (), changed)
  | .error cause => (.error cause, top)

/-- The answer to a call, and the tree after it. -/
def perform (top : Node) : Call α → Except Cause α × Node
  | .isPresent path => (.ok (match resolve top path with | .ok _ => true | .error _ => false), top)
  | .read path =>
    (match resolve top path with
      | .ok ⟨_, .file contents⟩ => .ok contents
      | .ok ⟨_, .directory _⟩ => .error .isADirectory
      | .error cause => .error cause, top)
  | .write path contents => keepOnError top (writeFile top path contents)
  | .createDirectories path => makeDirectories top path.absolute path.parts.reverse
  | .rename source target => keepOnError top (renameFile top source target)
  | .removeFile path => keepOnError top (deleteFile top path)
  | .removeTree path => keepOnError top (deleteTree top path)
  | .list path =>
    (match resolve top path with
      | .ok ⟨_, .directory entries⟩ => .ok (entries.map fun (name, n) => (name, n.kind))
      | .ok ⟨_, .file _⟩ => .error .notADirectory
      | .error cause => .error cause, top)
  | .spareName path =>
    (match resolve top path with
      | .ok ⟨_, .directory entries⟩ => .ok (spareName entries)
      | .ok ⟨_, .file _⟩ => .error .notADirectory
      | .error cause => .error cause, top)

end Node

/-- The file system whose state is a tree. -/
def inMemory : FileSystem (StateM Node) := ⟨fun call top => top.perform call⟩

end ReportVault.FileSystem
