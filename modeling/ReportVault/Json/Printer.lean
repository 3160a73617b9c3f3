import ReportVault.Bytes
import ReportVault.Json.Ascii
import ReportVault.Json.Value

/-!
# ReportVault.Json.Printer

The compact written form of a JSON value.

There is no white space between tokens, members keep their order, and a character of a string is
escaped only where it must be: the quote, the backslash and the control characters below U+0020.
-/

namespace ReportVault.Json

open Ascii

/-- The written form of one byte of a string. -/
def escape (b : UInt8) : Bytes :=
  if b == 0x22 then bytes "\\\""
  else if b == 0x5c then bytes "\\\\"
  else if b == 0x08 then bytes "\\b"
  else if b == 0x0c then bytes "\\f"
  else if b == 0x0a then bytes "\\n"
  else if b == 0x0d then bytes "\\r"
  else if b == 0x09 then bytes "\\t"
  else if b < 0x20 then
    bytes "\\u00" ++ [ofHexDigit (b.toNat / 16), ofHexDigit (b.toNat % 16)]
  else [b]

/-- A string token.  A token without a text is written as a surrogate that has no partner. -/
def quote : Option String → Bytes
  | some s => byte '"' :: ((Bytes.ofText s).flatMap escape ++ [byte '"'])
  | none => bytes "\"\\ud800\""

/-- The digits of a natural number. -/
def digits (n : Nat) : Bytes := (Nat.toDigits 10 n).map byte

/-- A number token. -/
def Number.toBytes (n : Number) : Bytes :=
  (if n.negative then [byte '-'] else []) ++ digits n.whole ++
    (if n.fraction.isEmpty then [] else byte '.' :: n.fraction.map ofDigit) ++
    (match n.exponent with
      | none => []
      | some e => byte 'e' :: ((if e < 0 then [byte '-'] else []) ++ digits e.natAbs))

namespace Value

mutual

/-- The written form of a value. -/
def toBytes : Value → Bytes
  | .null => bytes "null"
  | .bool true => bytes "true"
  | .bool false => bytes "false"
  | .number n => n.toBytes
  | .string s => quote s
  | .array items => byte '[' :: (itemsToBytes items ++ [byte ']'])
  | .object members => 0x7b :: (membersToBytes members ++ [0x7d])
termination_by structural v => v

/-- The items of an array, with commas between them. -/
def itemsToBytes : List Value → Bytes
  | [] => []
  | v :: rest =>
    v.toBytes ++ (match rest with
      | [] => []
      | _ :: _ => byte ',' :: itemsToBytes rest)
termination_by structural vs => vs

/-- The members of an object, with commas between them. -/
def membersToBytes : List (Option String × Value) → Bytes
  | [] => []
  | (name, v) :: rest =>
    quote name ++ byte ':' :: (v.toBytes ++ (match rest with
      | [] => []
      | _ :: _ => byte ',' :: membersToBytes rest))
termination_by structural ms => ms

end

end Value

end ReportVault.Json
