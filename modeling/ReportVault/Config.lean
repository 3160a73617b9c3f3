import ReportVault.Retention.Caps.Toml

/-!
# ReportVault.Config

The configuration file of the command line tool.
-/

namespace ReportVault

open Retention (Caps)

/-- What a configuration says. -/
structure Config where
  /-- The directory of the store. -/
  root : Option String := none
  retention : Caps := {}
  deriving DecidableEq, Repr

namespace Config

open Toml (Value Members Document)

/-- The directory, given or not. -/
def root? (members : Members) : Option (Option String) :=
  match members.lookup "root" with
  | none => some none
  | some (.string s) => some (some s)
  | some _ => none

/-- The caps, given or not. -/
def retention? (members : Members) : Option Caps :=
  match members.lookup "retention" with
  | none => some {}
  | some v => Caps.ofToml? v

/-- The configuration in the members of a document.  Other members may hold anything. -/
def ofMembers? (members : Members) : Option Config := do
  guard (Value.areMembersHeld (members.filter fun m => m.1 ≠ "retention"))
  let root ← root? members
  let retention ← retention? members
  return { root, retention }

/-- The configuration in a text. -/
def parse? (s : String) : Option Config := (Document.parse? s).bind ofMembers?

end Config

end ReportVault
