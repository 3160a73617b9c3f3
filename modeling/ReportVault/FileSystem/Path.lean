import ReportVault.Text.Runs

/-!
# ReportVault.FileSystem.Path

File paths as lists of parts.

The parts of a path are what stands between its slashes.  A part may be empty: two slashes in a
row say no more than one, and a slash at the end asks for a directory.  Such parts are kept, since
a path is told in the spelling that it was given in.

A part that is neither empty nor `.` nor `..` names an entry, and `parts_child` says that going
from a directory to such an entry appends one part.
-/

namespace ReportVault.FileSystem

/-- A path.  The relative path without characters names nothing. -/
structure Path where
  absolute : Bool
  parts : List String
  deriving DecidableEq, Repr

namespace Path

/-- The parts of a path text without its first slash. -/
def partsOf (cs : List Char) : List String := (Text.runs '/' cs).map String.ofList

/-- The path that a list of characters writes. -/
def ofChars : List Char → Path
  | [] => ⟨false, partsOf []⟩
  | c :: cs => if c = '/' then ⟨true, partsOf cs⟩ else ⟨false, partsOf (c :: cs)⟩

/-- The path that a text writes. -/
def ofText (s : String) : Path := ofChars s.toList

/-- The text of a path. -/
def text (p : Path) : String := (if p.absolute then "/" else "") ++ "/".intercalate p.parts

/-- The path of `name`, seen from the directory `p`.  A name that begins with a slash is a path of
its own, and a slash at the end of `p` is not written twice. -/
def child (p : Path) (name : String) : Path :=
  let q := ofText name
  if q.absolute then q
  else if p.parts.getLast? = some "" then ⟨p.absolute, p.parts.dropLast ++ q.parts⟩
  else ⟨p.absolute, p.parts ++ q.parts⟩

/-- The path without slashes at its end. -/
def withoutFinalSlashes (p : Path) : Path :=
  { p with parts := (p.parts.reverse.dropWhile String.isEmpty).reverse }

/-- A name without slashes is one part. -/
theorem parts_ofText {name : String} (h : '/' ∉ name.toList) : ofText name = ⟨false, [name]⟩ := by
  have hparts : partsOf name.toList = [name] := by
    rw [partsOf, Text.runs_of_not_mem h, List.map_singleton, String.ofList_toList]
  rw [ofText]
  cases hcs : name.toList with
  | nil => rw [ofChars, ← hcs, hparts]
  | cons c cs =>
    have hc : c ≠ '/' := by
      rintro rfl
      exact h (hcs ▸ List.mem_cons_self)
    rw [ofChars, if_neg hc, ← hcs, hparts]

/-- The path of an entry has one part more than that of its directory. -/
theorem parts_child {p : Path} {name : String} (hp : p.parts.getLast? ≠ some "")
    (h : '/' ∉ name.toList) : p.child name = ⟨p.absolute, p.parts ++ [name]⟩ := by
  simp [child, parts_ofText h, hp]

end Path

end ReportVault.FileSystem
