import ReportVault.Toml.Statement

/-!
# ReportVault.Toml.Document

The table that a TOML document describes.
-/

namespace ReportVault.Toml

/-- A document up to some line: its table, and the path of the header that is in force. -/
structure Document where
  path : List String := []
  members : Members := []
  deriving Repr

namespace Document

/-- Change the table at the end of the path of a header. -/
def changeAt (d : Document) (path : List String)
    (change : Origin → Members → Option (Origin × Members)) : Option Members :=
  (Table.modify false change path .header d.members).map (·.2)

/-- The document with one more line. -/
def add (d : Document) : Statement → Option Document
  | .header path => do
    let name ← path.getLast?
    return ⟨path, ← d.changeAt path.dropLast (Table.openTable name)⟩
  | .arrayHeader path => do
    let name ← path.getLast?
    return ⟨path, ← d.changeAt path.dropLast (Table.appendTable name)⟩
  | .assignment path name v => do
    return { d with members := ← d.changeAt d.path (Table.assign path name v) }

/-- The document with all lines. -/
def addAll (d : Document) : List Statement → Option Document
  | [] => some d
  | s :: rest => (d.add s).bind fun d => d.addAll rest

/-- The members of the document that a text writes. -/
def parse? (s : String) : Option Members := do
  let statements ← Statement.ofText? s
  return (← Document.addAll {} statements).members

end Document

end ReportVault.Toml
