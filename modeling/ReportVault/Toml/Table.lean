import ReportVault.Toml.Value

/-!
# ReportVault.Toml.Table

Adding to a table by a path of names.

Names on the way that are not there yet become tables.  A table between braces takes no more
members, and a table with a header of its own takes none through a dotted key.
-/

namespace ReportVault.Toml.Table

/-- The members with `v` in the place of the member `name`. -/
def replace (name : String) (v : Value) (members : Members) : Members :=
  members.map fun m => if m.1 = name then (name, v) else m

/-- Whether a path may go on through a table; `dotted` is for the path of a key. -/
def isOpen (dotted : Bool) : Origin → Bool
  | .inline => false
  | .header => !dotted
  | .implied => true
  | .dotted => true

/-- Change the table at the end of a path.  A path through an array of tables goes on in its last
table. -/
def modify (dotted : Bool) (change : Origin → Members → Option (Origin × Members)) :
    List String → Origin → Members → Option (Origin × Members)
  | [], origin, members => change origin members
  | name :: path, origin, members =>
    match members.lookup name with
    | none => do
      let (o, ms) ← modify dotted change path (if dotted then .dotted else .implied) []
      return (origin, members ++ [(name, .table o ms)])
    | some (.table o ms) => do
      guard (isOpen dotted o)
      let (o, ms) ← modify dotted change path o ms
      return (origin, replace name (.table o ms) members)
    | some (.array true items) =>
      match items.getLast? with
      | some (.table o ms) => do
        let (o, ms) ← modify dotted change path o ms
        return (origin, replace name (.array true (items.dropLast ++ [.table o ms])) members)
      | _ => none
    | some _ => none

/-- Add a member that is not there yet.  The dotted part of a key leads to a table that such keys
made, and a plain key to any other. -/
def insert (isDotted : Bool) (name : String) (v : Value) (origin : Origin) (members : Members) :
    Option (Origin × Members) :=
  if (origin = .dotted) ≠ (isDotted = true) then none
  else if (members.lookup name).isSome then none
  else some (origin, members ++ [(name, v)])

/-- Assign a value to the key `path.name` of a table. -/
def assign (path : List String) (name : String) (v : Value) (origin : Origin) (members : Members) :
    Option (Origin × Members) :=
  modify true (insert (!path.isEmpty) name v) path origin members

/-- Open the table `name` by a header. -/
def openTable (name : String) (origin : Origin) (members : Members) : Option (Origin × Members) :=
  match members.lookup name with
  | none => some (origin, members ++ [(name, .table .header [])])
  | some (.table .implied ms) => some (origin, replace name (.table .header ms) members)
  | some _ => none

/-- Append a table to the array of tables `name` by a header. -/
def appendTable (name : String) (origin : Origin) (members : Members) :
    Option (Origin × Members) :=
  match members.lookup name with
  | none => some (origin, members ++ [(name, .array true [.table .header []])])
  | some (.array true items) =>
    some (origin, replace name (.array true (items ++ [.table .header []])) members)
  | some _ => none

end ReportVault.Toml.Table
