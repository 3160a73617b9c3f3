/-!
# ReportVault.Json.Ascii

The bytes that the JSON grammar names.
-/

namespace ReportVault.Json.Ascii

/-- The byte of an ASCII character. -/
def byte (c : Char) : UInt8 := c.toUInt8

/-- The bytes of an ASCII text. -/
def bytes (s : String) : List UInt8 := s.toList.map byte

/-- The white space between tokens. -/
def isSpace (b : UInt8) : Bool := b == 0x20 || b == 0x09 || b == 0x0a || b == 0x0d

/-- The digit that a byte is. -/
def digit? (b : UInt8) : Option (Fin 10) :=
  if h : 0x30 ≤ b.toNat ∧ b.toNat ≤ 0x39 then some ⟨b.toNat - 0x30, by omega⟩ else none

/-- The value of a hexadecimal digit of either case. -/
def hexDigit? (b : UInt8) : Option Nat :=
  if 0x30 ≤ b.toNat ∧ b.toNat ≤ 0x39 then some (b.toNat - 0x30)
  else if 0x61 ≤ b.toNat ∧ b.toNat ≤ 0x66 then some (b.toNat - 0x61 + 10)
  else if 0x41 ≤ b.toNat ∧ b.toNat ≤ 0x46 then some (b.toNat - 0x41 + 10)
  else none

/-- The byte of a decimal digit. -/
def ofDigit (d : Fin 10) : UInt8 := UInt8.ofNat (0x30 + d.val)

/-- The byte of a hexadecimal digit, in lower case. -/
def ofHexDigit (n : Nat) : UInt8 :=
  if n < 10 then UInt8.ofNat (0x30 + n) else UInt8.ofNat (0x61 + (n - 10))

@[simp] theorem digit?_ofDigit (d : Fin 10) : digit? (ofDigit d) = some d := by
  revert d
  decide

end ReportVault.Json.Ascii
