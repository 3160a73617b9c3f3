import ReportVault.Retention.Caps
import ReportVault.Toml.Document
import ReportVault.Text.Decimal

/-!
# ReportVault.Retention.Caps.Toml

The caps in a settings file.

The caps are three members of a table, or the first three items of an array.  Each must be a 64-bit
integer if it is given at all; members that are no cap may hold anything.
-/

namespace ReportVault.Retention.Caps

open Toml (Value Members Document)

/-- The names of the caps, in order. -/
def eventsName : String := "max_custom_exception_events"

/-- The name of the cap on reports. -/
def reportsName : String := "max_complete_sessions_count"

/-- The name of the cap on open sessions. -/
def openSessionsName : String := "max_open_sessions"

/-- A 64-bit integer. -/
def int? : Value → Option Int
  | .integer (some i) => (Text.int64? i).map fun _ => i
  | _ => none

/-- A cap of a table: given or not. -/
def given? (name : String) (members : Members) : Option (Option Int) :=
  match members.lookup name with
  | none => some none
  | some v => (int? v).map some

/-- The caps in the members of a table. -/
def ofMembers? (members : Members) : Option Caps := do
  guard (Value.areMembersHeld members)
  let events ← given? eventsName members
  let reports ← given? reportsName members
  let openSessions ← given? openSessionsName members
  return ofGiven events reports openSessions

/-- The caps in a value.  A date stands for a table without a cap. -/
def ofToml? : Value → Option Caps
  | .table _ members => ofMembers? members
  | .array _ (events :: reports :: openSessions :: _) => do
    return ofGiven (← int? events) (← int? reports) (← int? openSessions)
  | .dateTime => some (ofGiven none none none)
  | _ => none

/-- The caps in the text of a settings file. -/
def parse? (s : String) : Option Caps := (Document.parse? s).bind ofMembers?

end ReportVault.Retention.Caps
