import ReportVault.Json.Value

/-!
# ReportVault.Json.Fields

Reading a record from a JSON value.

A record is written as an object with a member for each field, or as an array of its fields in
order.  An object may hold other members as well, and they may hold anything.  `Fields` is what is
left of the value once its form has been checked: a value for each field that was given.
-/

namespace ReportVault.Json

/-- The values of the fields that a record was given, by name. -/
abbrev Fields := List (String × Value)

namespace Fields

/-- The members of an object, provided that every name is a text. -/
def named? : List (Option String × Value) → Option Fields
  | [] => some []
  | (none, _) :: _ => none
  | (some name, v) :: rest => (named? rest).map ((name, v) :: ·)

/-- Whether no name of `names` occurs twice. -/
def areUnique (names : List String) (fs : Fields) : Bool :=
  names.all fun name => (fs.filter (·.1 == name)).length ≤ 1

/-- The fields of a record whose field names are `names`, in order.  A known name given twice is
refused, and so is an array with more items than there are fields. -/
def ofValue? (names : List String) : Value → Option Fields
  | .object members => (named? members).filter (areUnique names)
  | .array items => if items.length ≤ names.length then some (names.zip items) else none
  | _ => none

/-- A field that must be given. -/
def required (fs : Fields) (name : String) (read : Value → Option α) : Option α :=
  (fs.lookup name).bind read

/-- A field that may be left out or `null`. -/
def optional (fs : Fields) (name : String) (read : Value → Option α) : Option (Option α) :=
  match fs.lookup name with
  | none => some none
  | some .null => some none
  | some v => (read v).map some

/-- A field that may be left out, and then has the value `d`. -/
def withDefault (fs : Fields) (name : String) (d : α) (read : Value → Option α) : Option α :=
  match fs.lookup name with
  | none => some d
  | some v => read v

end Fields

namespace Value

/-- The text of a string. -/
def asText? : Value → Option String
  | .string s => s
  | _ => none

/-- The truth value. -/
def asBool? : Value → Option Bool
  | .bool b => some b
  | _ => none

/-- The integer of a number that is written as one. -/
def asInt? : Value → Option Int
  | .number n => n.toInt?
  | _ => none

/-- Every item of an array. -/
def asList? (read : Value → Option α) : Value → Option (List α)
  | .array items => items.mapM read
  | _ => none

end Value

end ReportVault.Json
