import ReportVault.Text.Decimal

/-!
# ReportVault.Json.Value

The data of a JSON text.

A `Value` holds what the text says and not how it is laid out, with one exception: a string token
may be well formed and still name no Unicode text (a surrogate without its partner, bytes that are
no UTF-8).  Such a token is `string none`.  It is harmless where a reader skips the value and an
error where it needs the text, so the choice is left to the reader; `Value.fits` says that no such
token, and no number too large to hold, is anywhere in a value, and that it is not nested too
deeply.
-/

namespace ReportVault.Json

/-- A decimal digit. -/
abbrev Digit := Fin 10

/-- A number as it is written: `-12.50e3` has the whole part `12`, the fraction `5 0` and the
exponent `3`.  The fraction is empty exactly if there is no point. -/
structure Number where
  negative : Bool
  whole : Nat
  fraction : List Digit
  exponent : Option Int
  deriving DecidableEq, Repr

namespace Number

/-- An integer, written with digits only. -/
def ofInt (i : Int) : Number := ⟨decide (i < 0), i.natAbs, [], none⟩

/-- The integer that the literal stands for.  A literal with a point or an exponent is no integer,
even if its value is one; neither is `-0`. -/
def toInt? (n : Number) : Option Int :=
  if n.fraction.isEmpty && n.exponent.isNone && !(n.negative && n.whole == 0) then
    some (if n.negative then -(n.whole : Int) else n.whole)
  else none

@[simp] theorem toInt?_ofInt (i : Int) : (ofInt i).toInt? = some i := by
  by_cases h : i < 0
  · have hw : (i.natAbs == 0) = false := beq_eq_false_iff_ne.2 (by omega)
    have hv : -(i.natAbs : Int) = i := by omega
    simp only [ofInt, toInt?, h, hw, hv, decide_true, List.isEmpty_nil, Option.isNone_none,
      Bool.and_self, Bool.and_false, Bool.not_false, if_true]
  · have hv : (i.natAbs : Int) = i := by omega
    simp only [ofInt, toInt?, h, hv, decide_false, List.isEmpty_nil, Option.isNone_none,
      Bool.and_self, Bool.false_and, Bool.not_false, if_true, Bool.false_eq_true, if_false]

/-! ## Magnitude

A number that no reader needs as an integer is still read as a double: the digits that fit a
64-bit word, times a power of ten.  Only its being finite matters. -/

/-- The leading digits of `n` that fit a 64-bit word, and the number of digits left out. -/
def leading (n : Nat) : Nat × Nat :=
  if n < UInt64.size then (n, 0) else
    let (kept, dropped) := leading (n / 10)
    (kept, dropped + 1)
  termination_by n
  decreasing_by simp only [UInt64.size] at *; omega

/-- Append the digits of a fraction to `significand · 10 ^ exponent`, as long as they fit. -/
def appendFraction (significand : Nat) (exponent : Int) : List Digit → Nat × Int
  | [] => (significand, exponent)
  | d :: ds =>
    if significand * 10 + d.val < UInt64.size then
      appendFraction (significand * 10 + d.val) (exponent - 1) ds
    else (significand, exponent)

/-- The nearest number with at most 53 significant bits; a tie goes to the even one. -/
def toDouble (n : Nat) : Nat :=
  let unit := 1 <<< (n.log2 + 1 - 53)
  let q := n / unit
  let r := n % unit
  if 2 * r < unit || (2 * r == unit && q % 2 == 0) then q * unit else (q + 1) * unit

/-- Whether `significand · 10 ^ exponent` is finite as a double. -/
def isFinite (significand : Nat) (exponent : Int) : Bool :=
  significand == 0 || exponent < 0 ||
    (exponent ≤ 308 &&
      decide (toDouble significand * toDouble (Nat.pow 10 exponent.toNat) < Text.doubleLimit))

/-- Whether the number can be held as a double. -/
def isInRange (n : Number) : Bool :=
  let (kept, dropped) := leading n.whole
  let (significand, exponent) := appendFraction kept dropped n.fraction
  isFinite significand (exponent + n.exponent.getD 0)

end Number

/-- A JSON value.  Members keep their order, and a name may occur more than once. -/
inductive Value
  | null
  | bool (b : Bool)
  | number (n : Number)
  | string (s : Option String)
  | array (items : List Value)
  | object (members : List (Option String × Value))
  deriving Repr

namespace Value

/-- A string value with a text. -/
abbrev text (s : String) : Value := .string (some s)

/-- An integer value. -/
abbrev int (i : Int) : Value := .number (.ofInt i)

mutual

/-- Whether every string of the value names a text, every number can be held, and at most `room`
arrays and objects are open at any place of it. -/
def fits (room : Nat) : Value → Bool
  | .null => true
  | .bool _ => true
  | .number n => n.isInRange
  | .string s => s.isSome
  | .array items =>
    match room with
    | 0 => false
    | r + 1 => doItemsFit r items
  | .object members =>
    match room with
    | 0 => false
    | r + 1 => doMembersFit r members
termination_by structural v => v

/-- Whether every item fits. -/
def doItemsFit (room : Nat) : List Value → Bool
  | [] => true
  | v :: rest => v.fits room && doItemsFit room rest
termination_by structural vs => vs

/-- Whether every name is a text and every value fits. -/
def doMembersFit (room : Nat) : List (Option String × Value) → Bool
  | [] => true
  | (name, v) :: rest => name.isSome && v.fits room && doMembersFit room rest
termination_by structural ms => ms

end

end Value

end ReportVault.Json
