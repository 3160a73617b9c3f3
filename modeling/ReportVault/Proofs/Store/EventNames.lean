import Mathlib.Data.List.Induction
import Mathlib.Data.Nat.Digits.Defs
import ReportVault.Proofs.Store.WellFormed

/-!
# ReportVault.Proofs.Store.EventNames

The names of event files as a grammar.

`Slot.Spells` says which names are read: the stem, one ASCII digit or more, and the mark or nothing.
Zeros in front do not count, so a number has many names, but a name is spelled in one way only
(`Spells.unique`).  `ofFileName?_eq_some_iff` is the only result that readers of names need: what is
read of a name is the number of its digits, the mark, and the name itself.
-/

namespace ReportVault

/-! ## Digits -/

namespace Text

variable {cs : List Char} {n : Nat}

/-- The number that digits stand for in decimal, the last one being worth its own value. -/
def decimalValue (digits : List Char) : Nat :=
  Nat.ofDigits 10 (digits.reverse.map fun c => c.toNat - '0'.toNat)

/-- A number is read digit by digit from the first one on. -/
theorem ofDigitChars_eq_decimalValue (cs : List Char) :
    Nat.ofDigitChars 10 cs 0 = decimalValue cs := by
  induction cs using List.reverseRecOn with
  | nil => rfl
  | append_singleton cs c ih =>
    have hlast : decimalValue (cs ++ [c]) = c.toNat - '0'.toNat + 10 * decimalValue cs := by
      rw [decimalValue, List.reverse_append, List.reverse_singleton, List.singleton_append,
        List.map_cons, Nat.ofDigits_cons, decimalValue]
    rw [hlast, Nat.ofDigitChars_append, ih, Nat.ofDigitChars_cons, Nat.ofDigitChars_nil,
      Nat.add_comm]

/-- Digits are read, and nothing else is. -/
theorem natOfDigits?_eq_some_iff :
    natOfDigits? cs = some n ↔
      cs ≠ [] ∧ (∀ c ∈ cs, c.isDigit = true) ∧ decimalValue cs = n := by
  rw [natOfDigits?, Option.ite_none_left_eq_some, Option.some.injEq, ofDigitChars_eq_decimalValue,
    Bool.or_eq_true, not_or, List.isEmpty_iff, Bool.not_eq_true', Bool.not_eq_false,
    List.all_eq_true, and_assoc]

/-- A number is in range if it is that of a word. -/
theorem uint64?_eq_some_iff {x : UInt64} : uint64? n = some x ↔ n = x.toNat := by
  constructor
  · intro h
    obtain ⟨hn, hx⟩ := Option.ite_none_right_eq_some.1 h
    rw [← Option.some.inj hx]
    exact (UInt64.toNat_ofNat_of_lt hn).symm
  · rintro rfl
    exact uint64?_toNat x

theorem isDigit_iff {c : Char} : c.isDigit = true ↔ '0' ≤ c ∧ c ≤ '9' := by
  rw [Char.isDigit, Bool.and_eq_true, decide_eq_true_eq, decide_eq_true_eq]
  rfl

end Text

/-! ## Names -/

namespace Slot

/-- The name is that of an event file with these digits, and with the mark of high priority or
without it. -/
structure Spells (fileName : String) (digits : List Char) (high : Bool) : Prop where
  fileName_eq : fileName = "event" ++ String.ofList digits ++ if high then "_" else ""
  ne_nil : digits ≠ []
  areDigits : ∀ c ∈ digits, '0' ≤ c ∧ c ≤ '9'

variable {fileName : String} {digits others : List Char} {high marked : Bool} {slot : Slot}

theorem toList_eq_iff :
    fileName = "event" ++ String.ofList digits ++ (if high then "_" else "") ↔
      fileName.toList = stem ++ (digits ++ if high then [mark] else []) := by
  have hmark : (if high then "_" else "").toList = if high then [mark] else [] := by
    cases high <;> rfl
  rw [← String.toList_inj, String.toList_append, String.toList_append,
    @String.toList_ofList digits, hmark, List.append_assoc]
  exact Iff.rfl

/-- What is split off is put together again. -/
theorem append_splitMark (cs : List Char) :
    (splitMark cs).1 ++ (if (splitMark cs).2 then [mark] else []) = cs := by
  rw [splitMark]
  split
  · next hlast =>
    obtain ⟨digits, rfl⟩ := List.getLast?_eq_some_iff.1 hlast
    simp
  · simp

namespace Spells

theorem toList_eq (h : Spells fileName digits high) :
    fileName.toList = stem ++ (digits ++ if high then [mark] else []) :=
  toList_eq_iff.1 h.fileName_eq

theorem isDigit (h : Spells fileName digits high) : ∀ c ∈ digits, c.isDigit = true :=
  fun c hc => Text.isDigit_iff.2 (h.areDigits c hc)

theorem splitMark_eq (h : Spells fileName digits high) :
    splitMark (digits ++ if high then [mark] else []) = (digits, high) :=
  splitMark_append h.isDigit high

/-- A name is spelled in one way. -/
theorem unique (h : Spells fileName digits high) (hother : Spells fileName others marked) :
    digits = others ∧ high = marked := by
  have hrest := List.append_cancel_left (h.toList_eq.symm.trans hother.toList_eq)
  have hsplit := h.splitMark_eq
  rw [hrest, hother.splitMark_eq, Prod.mk.injEq] at hsplit
  exact ⟨hsplit.1.symm, hsplit.2.symm⟩

/-- The characters of a name are those of the stem, the digits and the mark. -/
theorem not_mem (h : Spells fileName digits high) {c : Char} (hstem : c ∉ stem)
    (hdigit : c.isDigit = false) (hmark : c ≠ mark) : c ∉ fileName.toList := by
  rw [h.toList_eq, List.mem_append, List.mem_append]
  rintro (hc | hc | hc)
  · exact hstem hc
  · rw [h.isDigit c hc] at hdigit
    exact absurd hdigit (by decide)
  · cases high with
    | true => exact hmark (List.mem_singleton.1 hc)
    | false => exact absurd hc List.not_mem_nil

theorem length_toList (h : Spells fileName digits high) :
    fileName.toList.length = 5 + (digits.length + if high then 1 else 0) := by
  rw [h.toList_eq, List.length_append, List.length_append]
  cases high <;> rfl

theorem two_lt_length (h : Spells fileName digits high) : 2 < fileName.toList.length := by
  rw [h.length_toList]
  omega

end Spells

/-- The name for an event is spelled with as many digits as it needs. -/
theorem spells_name (sequence : UInt64) (high : Bool) :
    Spells (name sequence high) (Text.zeroPaddedDigits sequence.toNat width) high :=
  ⟨toList_eq_iff.2 String.toList_ofList, Text.zeroPaddedDigits_ne_nil _ _,
    fun _ hc => Text.isDigit_iff.1 (Text.isDigit_of_mem_zeroPaddedDigits hc)⟩

/-- A file can have the name for an event, and it is not hidden. -/
theorem isEntryName_name (sequence : UInt64) (high : Bool) :
    FileSystem.IsEntryName (name sequence high) ∧ IsVisible (name sequence high) := by
  have hspells := spells_name sequence high
  have hdigits : (Text.zeroPaddedDigits sequence.toNat width).length ≤ 20 :=
    Text.length_zeroPaddedDigits_le (by decide) (by decide)
      (Nat.lt_trans sequence.toNat_lt (by decide : 2 ^ 64 < Nat.pow 10 20))
  refine ⟨(FileSystem.isPart_of_length hspells.two_lt_length
    (hspells.not_mem (by decide) (by decide) (by decide))).isEntryName_of_length
    (hspells.not_mem (by decide) (by decide) (by decide)) ?_, ?_⟩
  · rw [hspells.length_toList, FileSystem.Node.maxNameBytes]
    split <;> omega
  · rw [IsVisible, hspells.toList_eq]
    simp [stem]

/-- What stands behind the stem decides. -/
theorem ofFileName?_of_toList {rest : List Char} (h : fileName.toList = stem ++ rest) :
    ofFileName? fileName = ((Text.natOfDigits? (splitMark rest).1).bind Text.uint64?).map
      (⟨·, (splitMark rest).2, fileName⟩) := by
  have hstem : stem.isPrefixOf (stem ++ rest) = true :=
    List.isPrefixOf_iff_prefix.2 (List.prefix_append stem rest)
  rw [ofFileName?]
  simp only [h, hstem, if_true, List.drop_left]

/-- What is read of a name: the name is spelled, its number is that of a word, and the slot has the
number, the mark and the name. -/
theorem ofFileName?_eq_some_iff :
    ofFileName? fileName = some slot ↔
      ∃ digits, Spells fileName digits slot.high ∧
        Text.decimalValue digits = slot.sequence.toNat ∧ slot.fileName = fileName := by
  constructor
  · intro h
    have hname := fileName_of_ofFileName? h
    obtain ⟨rest, hrest⟩ := List.isPrefixOf_iff_prefix.1 (Option.ite_none_right_eq_some.1 h).1
    rw [ofFileName?_of_toList hrest.symm] at h
    obtain ⟨sequence, hsequence, rfl⟩ := Option.map_eq_some_iff.1 h
    obtain ⟨n, hdigits, hrange⟩ := Option.bind_eq_some_iff.1 hsequence
    obtain ⟨hne, hall, hvalue⟩ := Text.natOfDigits?_eq_some_iff.1 hdigits
    refine ⟨(splitMark rest).1, ⟨toList_eq_iff.2 ?_, hne, fun c hc => ?_⟩, ?_, hname⟩
    · rw [append_splitMark, hrest]
    · exact Text.isDigit_iff.1 (hall c hc)
    · rw [hvalue, Text.uint64?_eq_some_iff.1 hrange]
  · rintro ⟨digits, hspells, hvalue, rfl⟩
    have hread : Text.natOfDigits? digits = some slot.sequence.toNat :=
      Text.natOfDigits?_eq_some_iff.2 ⟨hspells.ne_nil, hspells.isDigit, hvalue⟩
    rw [ofFileName?_of_toList hspells.toList_eq, hspells.splitMark_eq, hread, Option.bind_some,
      Text.uint64?_toNat, Option.map_some]

/-- The name of an event file is one part of a path. -/
theorem isPart_of_ofFileName? (h : ofFileName? fileName = some slot) :
    FileSystem.IsPart fileName := by
  obtain ⟨digits, hspells, -, -⟩ := ofFileName?_eq_some_iff.1 h
  exact FileSystem.isPart_of_length hspells.two_lt_length
    (hspells.not_mem (by decide) (by decide) (by decide))

/-- What is read of a name that is spelled in this way. -/
theorem Spells.eq_of_ofFileName? (h : Spells fileName digits high)
    (hread : ofFileName? fileName = some slot) :
    slot.sequence.toNat = Text.decimalValue digits ∧ slot.high = high ∧
      slot.fileName = fileName := by
  obtain ⟨others, hother, hvalue, hname⟩ := ofFileName?_eq_some_iff.1 hread
  obtain ⟨rfl, rfl⟩ := h.unique hother
  exact ⟨hvalue.symm, rfl, hname⟩

/-- A name is read if it is spelled with a number below 2^64, and otherwise it is not. -/
theorem isSome_ofFileName?_iff (fileName : String) :
    (ofFileName? fileName).isSome = true ↔
      ∃ digits high, Spells fileName digits high ∧ Text.decimalValue digits < 2 ^ 64 := by
  rw [Option.isSome_iff_exists]
  constructor
  · rintro ⟨slot, hslot⟩
    obtain ⟨digits, hspells, hvalue, -⟩ := ofFileName?_eq_some_iff.1 hslot
    exact ⟨digits, slot.high, hspells, hvalue ▸ slot.sequence.toNat_lt⟩
  · rintro ⟨digits, high, hspells, hlt⟩
    exact ⟨⟨UInt64.ofNat (Text.decimalValue digits), high, fileName⟩,
      ofFileName?_eq_some_iff.2 ⟨digits, hspells, (UInt64.toNat_ofNat_of_lt hlt).symm, rfl⟩⟩

/-- Different numbers or marks have different names. -/
theorem name_injective :
    Function.Injective fun event : UInt64 × Bool => (new event.1 event.2).fileName := by
  rintro ⟨sequence, high⟩ ⟨other, marked⟩ h
  have hread := ofFileName?_name sequence high
  rw [show name sequence high = name other marked from h, ofFileName?_name, Option.some.injEq] at hread
  injection hread with hsequence hhigh
  rw [hsequence, hhigh]

end Slot

end ReportVault
