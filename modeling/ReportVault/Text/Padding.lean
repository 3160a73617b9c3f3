/-!
# ReportVault.Text.Padding

Cutting and filling a text to a column, measured in characters.
-/

namespace ReportVault.Text

/-- Where a text stands in a column that is wider than it. -/
inductive Alignment
  | left
  | right
  | center
  deriving DecidableEq, Repr

/-- The number of blanks before a text that leaves `spare` columns empty; in the center, the odd
blank goes behind the text. -/
def Alignment.lead (alignment : Alignment) (spare : Nat) : Nat :=
  match alignment with
  | .left => 0
  | .right => spare
  | .center => spare / 2

/-- At most `limit` characters of `s`, then blanks up to `width` characters. -/
def pad (s : String) (width : Nat) (alignment : Alignment) (limit : Option Nat) : String :=
  let kept := match limit with
    | none => s.toList
    | some n => s.toList.take n
  let spare := width - kept.length
  let lead := alignment.lead spare
  String.ofList (List.replicate lead ' ' ++ kept ++ List.replicate (spare - lead) ' ')

/-- `s` at the left of a column of `width` characters; a longer text is not cut. -/
def padRight (s : String) (width : Nat) : String := pad s width .left none

end ReportVault.Text
