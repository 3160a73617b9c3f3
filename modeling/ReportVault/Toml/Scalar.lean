import ReportVault.Text.Decimal
import ReportVault.Text.Runs
import ReportVault.Toml.Value

/-!
# ReportVault.Toml.Scalar

Values that are written without quotes or brackets: booleans, numbers, dates and times.

What kind of value a text is shows in what follows its sign and its first digits (`number?`).
Floats, dates and times are read strictly.  Of an integer only the shape is checked: digits, and
behind an underscore anything without a space whose runs between underscores begin with a
hexadecimal digit and, but for the last, end with one.  A text of that shape that makes no number
is an integer without a value.
-/

namespace ReportVault.Toml.Scalar

/-! ## Digits -/

/-- The value of a digit in a base of at most sixteen. -/
def digitValue? (base : Nat) (c : Char) : Option Nat :=
  let v :=
    if c.isDigit then c.toNat - '0'.toNat
    else if 'a' ≤ c ∧ c ≤ 'f' then c.toNat - 'a'.toNat + 10
    else if 'A' ≤ c ∧ c ≤ 'F' then c.toNat - 'A'.toNat + 10
    else 16
  if v < base then some v else none

/-- Whether the character is a hexadecimal digit. -/
def isHex (c : Char) : Bool := (digitValue? 16 c).isSome

/-- The digits of a run in which single underscores may stand between digits. -/
def digits? (base : Nat) : List Char → Option (List Nat)
  | [] => none
  | [c] => (digitValue? base c).map fun d => [d]
  | c :: '_' :: cs => do return (← digitValue? base c) :: (← digits? base cs)
  | c :: cs => do return (← digitValue? base c) :: (← digits? base cs)

/-- The number that digits make. -/
def natOfDigits (base : Nat) (ds : List Nat) : Nat := ds.foldl (fun n d => base * n + d) 0

/-- Whether there is a minus sign, and what follows the sign. -/
def splitSign : List Char → Bool × List Char
  | '+' :: cs => (false, cs)
  | '-' :: cs => (true, cs)
  | cs => (false, cs)

/-! ## Numbers -/

/-- The number with its sign. -/
def signed (negative : Bool) (n : Nat) : Int := if negative then -n else n

/-- An integer in another base than ten, after the letter of the base. -/
def basedInteger? (base : Nat) (cs : List Char) : Option Value :=
  if cs.isEmpty then some (.integer none)
  else (digits? base cs).map fun ds => .integer (some (natOfDigits base ds))

/-- Whether the runs behind underscores may stand there. -/
def areRuns : List (List Char) → Bool
  | [] => true
  | [last] => last.head?.any isHex
  | run :: runs => run.head?.any isHex && run.getLast?.any isHex && areRuns runs

/-- An integer in decimal: no zero in front, unless it is zero. -/
def integer? (negative : Bool) (cs : List Char) : Option Value :=
  match Text.runs '_' cs with
  | [] => none
  | first :: runs => do
    guard (!first.isEmpty && first.all Char.isDigit)
    guard (first.head? != some '0' || cs.length == 1)
    guard (areRuns runs && !cs.contains ' ')
    return .integer ((Text.natOfDigits? (cs.filter (· != '_'))).map (signed negative))

/-- The exponent after its letter; zeros in front are allowed. -/
def exponent? (cs : List Char) : Option Int :=
  let (negative, ds) := splitSign cs
  (digits? 10 ds).map fun ds => signed negative (natOfDigits 10 ds)

/-- A whole number in decimal: no zero in front, unless it is zero. -/
def wholeDigits? (cs : List Char) : Option (List Nat) :=
  (digits? 10 cs).filter fun ds => ds.length == 1 || ds.head? != some 0

/-- The characters before the first one that `p` holds of, and those after it, if there is one. -/
def cutAt (p : Char → Bool) (cs : List Char) : List Char × Option (List Char) :=
  match cs.span (fun c => !p c) with
  | (before, []) => (before, none)
  | (before, _ :: after) => (before, some after)

/-- Whether the character tells a float from an integer. -/
def isFloatMark (c : Char) : Bool := c == '.' || c == 'e' || c == 'E'

/-- A float with a fraction, an exponent or both. -/
def float? (negative : Bool) (cs : List Char) : Option Value := do
  let (mantissa, power) := cutAt (fun c => c == 'e' || c == 'E') cs
  let (whole, fraction) := cutAt (· == '.') mantissa
  let wholeDigits ← wholeDigits? whole
  let fractionDigits ← match fraction with
    | none => some []
    | some ds => digits? 10 ds
  let exponent ← match power with
    | none => some 0
    | some ds => exponent? ds
  return .float (some ⟨negative, natOfDigits 10 (wholeDigits ++ fractionDigits),
    exponent - fractionDigits.length⟩)

/-- Whether the text is `inf` or `nan`, with or without a sign. -/
def isSpecial (cs : List Char) : Bool :=
  let (_, name) := splitSign cs
  name == "inf".toList || name == "nan".toList

/-! ## Dates and times -/

/-- A number of exactly `width` digits at the beginning. -/
def fixedDigits? (width : Nat) (cs : List Char) : Option (Nat × List Char) :=
  let ds := cs.take width
  if ds.length = width then (Text.natOfDigits? ds).map fun n => (n, cs.drop width) else none

/-- What follows the character `c`. -/
def after? (c : Char) : List Char → Option (List Char)
  | [] => none
  | d :: cs => if d = c then some cs else none

/-- Whether the year has a 29th of February. -/
def isLeapYear (year : Nat) : Bool := year % 4 == 0 && (year % 100 != 0 || year % 400 == 0)

/-- The number of days of a month. -/
def daysInMonth (year month : Nat) : Nat :=
  if month = 2 then (if isLeapYear year then 29 else 28)
  else if month = 4 ∨ month = 6 ∨ month = 9 ∨ month = 11 then 30
  else 31

/-- What follows a date. -/
def date? (cs : List Char) : Option (List Char) := do
  let (year, cs) ← fixedDigits? 4 cs
  let (month, cs) ← fixedDigits? 2 (← after? '-' cs)
  let (day, cs) ← fixedDigits? 2 (← after? '-' cs)
  guard (1 ≤ month ∧ month ≤ 12 ∧ 1 ≤ day ∧ day ≤ daysInMonth year month)
  return cs

/-- What follows a time of day.  Seconds may be left out, and may have a fraction. -/
def time? (cs : List Char) : Option (List Char) := do
  let (hour, cs) ← fixedDigits? 2 cs
  let (minute, cs) ← fixedDigits? 2 (← after? ':' cs)
  guard (hour ≤ 23 ∧ minute ≤ 59)
  match after? ':' cs with
  | none => return cs
  | some cs =>
    let (second, cs) ← fixedDigits? 2 cs
    guard (second ≤ 60)
    match after? '.' cs with
    | none => return cs
    | some cs =>
      let (fraction, cs) := cs.span Char.isDigit
      guard (!fraction.isEmpty)
      return cs

/-- What follows an offset from UTC. -/
def offset? (cs : List Char) : Option (List Char) :=
  match cs with
  | 'Z' :: cs => some cs
  | 'z' :: cs => some cs
  | c :: cs => do
    guard (c = '+' ∨ c = '-')
    let (hour, cs) ← fixedDigits? 2 cs
    let (minute, cs) ← fixedDigits? 2 (← after? ':' cs)
    guard (hour ≤ 23 ∧ minute ≤ 59)
    return cs
  | [] => none

/-- Whether the text is a date, a time, or a date and a time with or without an offset. -/
def isDateTime (cs : List Char) : Bool :=
  match date? cs with
  | some [] => true
  | some (c :: rest) =>
    (c == 'T' || c == 't' || c == ' ') &&
      match time? rest with
      | some [] => true
      | some rest => offset? rest == some []
      | none => false
  | none => time? cs == some []

/-! ## All of them -/

/-- The number, date or time that a text writes. -/
def number? (cs : List Char) : Option Value :=
  match cs with
  | '0' :: 'x' :: ds => basedInteger? 16 ds
  | '0' :: 'o' :: ds => basedInteger? 8 ds
  | '0' :: 'b' :: ds => basedInteger? 2 ds
  | cs =>
    let (negative, unsigned) := splitSign cs
    let rest := unsigned.dropWhile Char.isDigit
    if rest.head? = some '-' ∨ rest.head? = some ':' then
      if isDateTime cs then some .dateTime else none
    else if rest.any isFloatMark then float? negative unsigned
    else integer? negative unsigned

/-- The value of an unquoted text. -/
def value? (cs : List Char) : Option Value :=
  if cs = "true".toList then some (.boolean true)
  else if cs = "false".toList then some (.boolean false)
  else if isSpecial cs then some (.float none)
  else number? cs

end ReportVault.Toml.Scalar
