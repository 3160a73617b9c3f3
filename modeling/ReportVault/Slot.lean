import ReportVault.Text.Decimal

/-!
# ReportVault.Slot

The names of event files.

An event file is named by a sequence number, which orders the events of a session, and a mark if
the event has high priority.  Numbers are padded to one width, so that for all but the largest the
order of the names is the order of the events; a name with fewer or more digits reads as well, and
keeps its spelling.  `ofFileName?_name` says that the name made for an event reads back.
-/

namespace ReportVault

/-- An event file of an open session. -/
structure Slot where
  sequence : UInt64
  high : Bool
  fileName : String
  deriving DecidableEq, Repr

namespace Slot

/-- What every event file name begins with. -/
def stem : List Char := "event".toList

/-- The mark of high priority, at the end of the name. -/
def mark : Char := '_'

/-- The least number of digits that are written. -/
def width : Nat := 10

/-- The file name for an event with this number. -/
def name (sequence : UInt64) (high : Bool) : String :=
  String.ofList (stem ++ (Text.zeroPaddedDigits sequence.toNat width ++
    if high then [mark] else []))

/-- The slot for an event with this number. -/
def new (sequence : UInt64) (high : Bool) : Slot := ⟨sequence, high, name sequence high⟩

/-- The digits of a name, and whether it is marked. -/
def splitMark (cs : List Char) : List Char × Bool :=
  if cs.getLast? = some mark then (cs.dropLast, true) else (cs, false)

/-- The slot that a file name belongs to: the stem, digits that make a number below 2^64, and the
mark or nothing. -/
def ofFileName? (fileName : String) : Option Slot :=
  let cs := fileName.toList
  if stem.isPrefixOf cs then
    let (digits, high) := splitMark (cs.drop stem.length)
    ((Text.natOfDigits? digits).bind Text.uint64?).map (⟨·, high, fileName⟩)
  else none

/-- A slot keeps the spelling of its name. -/
theorem fileName_of_ofFileName? {fileName : String} {slot : Slot}
    (h : ofFileName? fileName = some slot) : slot.fileName = fileName := by
  simp only [ofFileName?] at h
  split at h
  · obtain ⟨sequence, -, rfl⟩ := Option.map_eq_some_iff.1 h
    rfl
  · contradiction

/-- Ascending order, for sorting. -/
def ascending (a b : Slot) : Bool := a.sequence ≤ b.sequence

/-- Digits with or without the mark behind them are taken apart again. -/
theorem splitMark_append {digits : List Char} (h : ∀ c ∈ digits, c.isDigit = true) (high : Bool) :
    splitMark (digits ++ if high then [mark] else []) = (digits, high) := by
  cases high with
  | true => simp [splitMark]
  | false =>
    have hlast : digits.getLast? ≠ some mark := fun hl => by
      have := h mark (List.mem_of_getLast? hl)
      simp [mark, Char.isDigit] at this
    simp [splitMark, hlast]

/-- The name made for an event reads back. -/
theorem ofFileName?_name (sequence : UInt64) (high : Bool) :
    ofFileName? (name sequence high) = some (new sequence high) := by
  have hprefix : ∀ cs, stem.isPrefixOf (stem ++ cs) = true := fun cs =>
    List.isPrefixOf_iff_prefix.2 (List.prefix_append stem cs)
  have hdigits : ∀ c ∈ Text.zeroPaddedDigits sequence.toNat width, c.isDigit = true :=
    fun _ h => Text.isDigit_of_mem_zeroPaddedDigits h
  simp only [ofFileName?, name, String.toList_ofList, hprefix, if_true, List.drop_left,
    splitMark_append hdigits, Text.natOfDigits?_zeroPaddedDigits, Option.bind_some,
    Text.uint64?_toNat, Option.map_some, new]

end Slot

end ReportVault
