import ReportVault.Text.Decimal
import ReportVault.Text.Order
import ReportVault.Text.Padding

/-!
# ReportVault.SessionId

Identifiers of sessions, one for each run of an application.

Identifiers compare by code point.  One that `SessionId.generate` makes begins with the time in
milliseconds at a fixed width, so that later sessions have greater identifiers.
-/

namespace ReportVault

/-- The name of a session. -/
structure SessionId where
  name : String
  deriving DecidableEq, Repr, Inhabited

namespace SessionId

/-- Whether the first identifier comes strictly before the second. -/
def precedes (a b : SessionId) : Bool := Text.precedes a.name b.name

/-- Ascending order, for sorting. -/
def ascending (a b : SessionId) : Bool := !b.precedes a

/-- Descending order, for sorting. -/
def descending (a b : SessionId) : Bool := !a.precedes b

/-- The identifier in a column, counted in characters; `limit` cuts it first. -/
def format (id : SessionId) (width : Nat) (alignment : Text.Alignment) (limit : Option Nat) :
    String := Text.pad id.name width alignment limit

/-! ## Fresh identifiers -/

/-- The hexadecimal digits of a byte. -/
def hexDigits (b : UInt8) : List Char :=
  [(b.toNat / 16).digitChar, (b.toNat % 16).digitChar]

/-- Sixteen random bytes with the version and the variant of a random UUID set. -/
def stampVersion (random : List UInt8) : List UInt8 :=
  (random.take 16).mapIdx fun i b =>
    if i = 6 then (b &&& 0x0f) ||| 0x40 else if i = 8 then (b &&& 0x3f) ||| 0x80 else b

/-- A fresh identifier: the time, at least thirteen digits wide, and a random UUID. -/
def generate (millis : Nat) (random : List UInt8) : SessionId :=
  ⟨Text.zeroPadded millis 13 ++ "-" ++ String.ofList ((stampVersion random).flatMap hexDigits)⟩

end SessionId

end ReportVault
