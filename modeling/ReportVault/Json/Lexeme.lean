import ReportVault.Bytes
import ReportVault.Json.Ascii
import ReportVault.Json.Value

/-!
# ReportVault.Json.Lexeme

Strings and numbers of a JSON text, taken in byte by byte.

`TextSoFar` is the part of a string token read so far, `NumberSoFar` that of a number.  Each has a
`step` that takes in one more byte, or refuses it.
-/

namespace ReportVault.Json

open Ascii

/-! ## Strings -/

/-- What the next byte of a string token belongs to. -/
inductive EscapeState
  /-- The text itself. -/
  | plain
  /-- A backslash was read. -/
  | backslash
  /-- Of the four digits of a `\u` escape, `left` are still to come. -/
  | hex (left : Nat) (value : Nat)
  deriving DecidableEq, Repr

/-- A string token up to some byte: its contents so far, last byte first.  A leading surrogate
waits for its partner; `sound` is lost as soon as a surrogate has none. -/
structure TextSoFar where
  contents : Bytes := []
  leading : Option Nat := none
  sound : Bool := true
  escape : EscapeState := .plain
  deriving DecidableEq, Repr

namespace TextSoFar

/-- Add bytes that stand for themselves. -/
def push (t : TextSoFar) (bs : Bytes) : TextSoFar :=
  { contents := bs.reverse ++ t.contents, leading := none,
    sound := t.sound && t.leading.isNone, escape := .plain }

/-- Add the UTF-16 unit of a `\u` escape. -/
def pushUnit (t : TextSoFar) (u : Nat) : TextSoFar :=
  if 0xd800 ≤ u ∧ u < 0xdc00 then
    { t with leading := some u, sound := t.sound && t.leading.isNone, escape := .plain }
  else if 0xdc00 ≤ u ∧ u < 0xe000 then
    match t.leading with
    | some high =>
      let point := 0x10000 + (high - 0xd800) * 0x400 + (u - 0xdc00)
      { t with contents := (Bytes.ofText (String.ofList [Char.ofNat point])).reverse ++ t.contents,
               leading := none, escape := .plain }
    | none => { t with sound := false, escape := .plain }
  else t.push (Bytes.ofText (String.ofList [Char.ofNat u]))

/-- The byte that a backslash and one character stand for. -/
def shortEscape? (b : UInt8) : Option UInt8 :=
  if b == byte '"' || b == byte '\\' || b == byte '/' then some b
  else if b == byte 'b' then some 0x08
  else if b == byte 'f' then some 0x0c
  else if b == byte 'n' then some 0x0a
  else if b == byte 'r' then some 0x0d
  else if b == byte 't' then some 0x09
  else none

/-- Take in a byte that does not end the token. -/
def step (t : TextSoFar) (b : UInt8) : Option TextSoFar :=
  match t.escape with
  | .plain =>
    if b == byte '\\' then some { t with escape := .backslash }
    else if b < 0x20 then none
    else some (t.push [b])
  | .backslash =>
    if b == byte 'u' then some { t with escape := .hex 3 0 }
    else (shortEscape? b).map fun c => t.push [c]
  | .hex left value =>
    (hexDigit? b).map fun d =>
      match left with
      | 0 => t.pushUnit (16 * value + d)
      | n + 1 => { t with escape := .hex n (16 * value + d) }

/-- Whether the byte is the quote that ends the token. -/
def endsAt (t : TextSoFar) (b : UInt8) : Bool := t.escape == .plain && b == byte '"'

/-- The text that the token names, once it has ended. -/
def text (t : TextSoFar) : Option String :=
  if t.sound && t.leading.isNone then Bytes.toText? t.contents.reverse else none

end TextSoFar

/-! ## Numbers -/

/-- The part of a number that was read last. -/
inductive NumberPart
  /-- The minus sign. -/
  | sign
  /-- A whole part of a single zero, which takes no more digits. -/
  | zero
  | whole
  | point
  | fraction
  /-- The letter before the exponent. -/
  | mark
  | markSign
  | exponent
  deriving DecidableEq, Repr

/-- A number up to some byte; the digits of the fraction stand last one first. -/
structure NumberSoFar where
  part : NumberPart
  negative : Bool := false
  whole : Nat := 0
  fraction : List Digit := []
  exponentNegative : Bool := false
  exponent : Nat := 0
  deriving DecidableEq, Repr

namespace NumberSoFar

/-- The start of a number with this first byte. -/
def start? (b : UInt8) : Option NumberSoFar :=
  if b == byte '-' then some { part := .sign, negative := true }
  else (digit? b).map fun d => if d = 0 then { part := .zero } else { part := .whole, whole := d.val }

/-- Take in one more byte, if the number can go on with it. -/
def step (n : NumberSoFar) (b : UInt8) : Option NumberSoFar :=
  match n.part, digit? b with
  | .sign, some d => some (if d = 0 then { n with part := .zero }
      else { n with part := .whole, whole := d.val })
  | .whole, some d => some { n with whole := 10 * n.whole + d.val }
  | .point, some d => some { n with part := .fraction, fraction := d :: n.fraction }
  | .fraction, some d => some { n with fraction := d :: n.fraction }
  | .mark, some d => some { n with part := .exponent, exponent := d.val }
  | .markSign, some d => some { n with part := .exponent, exponent := d.val }
  | .exponent, some d => some { n with exponent := 10 * n.exponent + d.val }
  | .zero, some _ => none
  | part, none =>
    if b == byte '.' && (part == .zero || part == .whole) then some { n with part := .point }
    else if (b == byte 'e' || b == byte 'E') &&
        (part == .zero || part == .whole || part == .fraction) then some { n with part := .mark }
    else if part == .mark && b == byte '+' then some { n with part := .markSign }
    else if part == .mark && b == byte '-' then
      some { n with part := .markSign, exponentNegative := true }
    else none

/-- The number, if it may end here. -/
def number? (n : NumberSoFar) : Option Number :=
  match n.part with
  | .zero | .whole | .fraction => some ⟨n.negative, n.whole, n.fraction.reverse, none⟩
  | .exponent =>
    some ⟨n.negative, n.whole, n.fraction.reverse,
      some (if n.exponentNegative then -(n.exponent : Int) else n.exponent)⟩
  | _ => none

end NumberSoFar

end ReportVault.Json
