/-!
# ReportVault.Bytes

Byte strings, and the UTF-8 text in them.

Stored files are lists of bytes, so that every statement about their contents is a statement about
lists.  `Bytes.ofText` and `Bytes.toText?` are the two directions of UTF-8, and `toText?_ofText`
says that a text reads back.
-/

namespace ReportVault

/-- The contents of a file. -/
abbrev Bytes := List UInt8

namespace Bytes

/-- The UTF-8 encoding of a text. -/
def ofText (s : String) : Bytes := s.toUTF8.data.toList

/-- The text whose UTF-8 encoding these bytes are, if there is one. -/
def toText? (bs : Bytes) : Option String := String.fromUTF8? bs.toByteArray

theorem toByteArray_ofText (s : String) : (ofText s).toByteArray = s.toUTF8 := by
  apply ByteArray.ext
  rw [List.data_toByteArray, ofText, Array.toArray_toList]

/-- Encoded text reads back. -/
@[simp] theorem toText?_ofText (s : String) : toText? (ofText s) = some s := by
  rw [toText?, toByteArray_ofText, String.fromUTF8?, String.toUTF8_eq_toByteArray,
    dif_pos s.isValidUTF8]
  rfl

end Bytes

end ReportVault
