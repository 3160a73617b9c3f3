import ReportVault.Text.Extending
import ReportVault.Text.Hidden

/-!
# ReportVault.Text.Quoted

Texts in quotes, written so that every character can be seen.

Quotes and backslashes get a backslash, the common control characters a letter after one, and a
character that would not show on its own its code.
-/

namespace ReportVault.Text

/-- The code of a character in braces. -/
def codeEscape (c : Char) : List Char :=
  '\\' :: 'u' :: '\x7b' :: (Nat.toDigits 16 c.toNat ++ ['\x7d'])

/-- The written form of a character. -/
def quotedChar (c : Char) : List Char :=
  if c = '\x00' then ['\\', '0']
  else if c = '\t' then ['\\', 't']
  else if c = '\r' then ['\\', 'r']
  else if c = '\n' then ['\\', 'n']
  else if c = '\\' then ['\\', '\\']
  else if c = '"' then ['\\', '"']
  else if isExtending c || isHidden c then codeEscape c
  else [c]

/-- A text in quotes. -/
def quoted (s : String) : String := String.ofList ('"' :: (s.toList.flatMap quotedChar ++ ['"']))

/-- A list of texts in quotes. -/
def quotedList (ss : List String) : String := "[" ++ ", ".intercalate (ss.map quoted) ++ "]"

end ReportVault.Text
