import ReportVault.Text.Decimal

/-!
# ReportVault.Toml.Value

The data of a TOML document.

Integers and floats are kept exactly, however large; a reader decides what it can hold
(`Value.isHeld`).  An integer is known by its shape alone, and what makes no number is refused only
where it is read.
-/

namespace ReportVault.Toml

/-- A decimal number `± significand · 10 ^ exponent`. -/
structure Decimal where
  negative : Bool
  significand : Nat
  exponent : Int
  deriving DecidableEq, Repr

namespace Decimal

/-- Whether the nearest double is finite.  A number whose significand has fewer binary digits than
its exponent has decimal places is below one, and one with an exponent above 400 is too large; the
bounds keep the powers of ten small. -/
def isFinite (d : Decimal) : Bool :=
  if d.significand == 0 then true
  else if d.exponent < 0 then
    d.exponent.natAbs > d.significand.log2 ||
      decide (d.significand < Text.doubleLimit * Nat.pow 10 d.exponent.natAbs)
  else d.exponent ≤ 400 && decide (d.significand * Nat.pow 10 d.exponent.toNat < Text.doubleLimit)

end Decimal

/-- How a table came to be, which decides what may be added to it. -/
inductive Origin
  /-- Written between braces: complete. -/
  | inline
  /-- Opened by a header of its own; the document itself counts as one. -/
  | header
  /-- Named on the way by a longer header; it may still get a header of its own. -/
  | implied
  /-- Named on the way by a dotted key. -/
  | dotted
  deriving DecidableEq, Repr

/-- A TOML value.  The names of the members of a table are distinct. -/
inductive Value
  | string (s : String)
  /-- An integer; none for a text of its shape that makes no number, such as `1_f` or `0x`. -/
  | integer (i : Option Int)
  /-- A float; none for infinities and NaN. -/
  | float (d : Option Decimal)
  | boolean (b : Bool)
  | dateTime
  /-- An array; `ofTables` if it was made by headers, which may then append to it. -/
  | array (ofTables : Bool) (items : List Value)
  | table (origin : Origin) (members : List (String × Value))
  deriving Repr

/-- The members of a table. -/
abbrev Members := List (String × Value)

namespace Value

mutual

/-- Whether every number in the value is one and can be held: integers in 128 bits, with or without
a sign, and floats as finite doubles. -/
def isHeld : Value → Bool
  | .integer none => false
  | .integer (some i) => decide (-((1 <<< 127 : Nat) : Int) ≤ i ∧ i < (1 <<< 128 : Nat))
  | .float (some d) => d.isFinite
  | .array _ items => areItemsHeld items
  | .table _ members => areMembersHeld members
  | _ => true
termination_by structural v => v

/-- Whether every number in the items can be held. -/
def areItemsHeld : List Value → Bool
  | [] => true
  | v :: rest => v.isHeld && areItemsHeld rest
termination_by structural vs => vs

/-- Whether every number in the members can be held. -/
def areMembersHeld : List (String × Value) → Bool
  | [] => true
  | (_, v) :: rest => v.isHeld && areMembersHeld rest
termination_by structural ms => ms

end

end Value

end ReportVault.Toml
