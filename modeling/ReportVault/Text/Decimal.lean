/-!
# ReportVault.Text.Decimal

Whole numbers in decimal digits, and the ranges that numbers are held in.

`natOfDigits?_zeroPaddedDigits` says that a number written at some width reads back as that number:
zeros in front are allowed and change nothing.  `intOfDecimal?_ofInt` says the same of an integer.
`uint64?_toNat`, `int64?_toInt` and `int32?_toInt` say that no word is out of its own range.
-/

namespace ReportVault.Text

/-- The number that a non-empty run of ASCII digits stands for. -/
def natOfDigits? (cs : List Char) : Option Nat :=
  if cs.isEmpty || !cs.all Char.isDigit then none else some (Nat.ofDigitChars 10 cs 0)

/-- The number that digits after an optional sign stand for. -/
def intOfDecimal? : List Char → Option Int
  | '-' :: cs => (natOfDigits? cs).map fun n => -(n : Int)
  | '+' :: cs => (natOfDigits? cs).map fun n => (n : Int)
  | cs => (natOfDigits? cs).map fun n => (n : Int)

/-- The decimal text of an integer. -/
def ofInt (i : Int) : String :=
  let digits := Nat.toDigits 10 i.natAbs
  String.ofList (if i < 0 then '-' :: digits else digits)

/-- The number as a 64-bit word without a sign, if it is one. -/
def uint64? (n : Nat) : Option UInt64 :=
  if n < UInt64.size then some (UInt64.ofNat n) else none

/-- The digits of `n`, with zeros in front up to `width` digits. -/
def zeroPaddedDigits (n width : Nat) : List Char :=
  List.replicate (width - (Nat.toDigits 10 n).length) '0' ++ Nat.toDigits 10 n

/-- The decimal text of `n`, with zeros in front up to `width` digits. -/
def zeroPadded (n width : Nat) : String := String.ofList (zeroPaddedDigits n width)

/-- The integer as a 64-bit word, if it is one. -/
def int64? (i : Int) : Option Int64 :=
  if Int64.minValue.toInt ≤ i ∧ i ≤ Int64.maxValue.toInt then some (Int64.ofInt i) else none

/-- The integer as a 32-bit word, if it is one. -/
def int32? (i : Int) : Option Int32 :=
  if Int32.minValue.toInt ≤ i ∧ i ≤ Int32.maxValue.toInt then some (Int32.ofInt i) else none

/-- From here on a number is rounded to infinity as a double: half a unit above the greatest
one. -/
def doubleLimit : Nat := (1 <<< 1024) - (1 <<< 970)

/-! ## Writing and reading back -/

theorem zeroPaddedDigits_ne_nil (n width : Nat) : zeroPaddedDigits n width ≠ [] := by
  intro h
  have hlen := Nat.length_toDigits_pos (b := 10) (n := n)
  simp only [zeroPaddedDigits, List.append_eq_nil_iff] at h
  simp [h.2] at hlen

/-- Only digits are written. -/
theorem isDigit_of_mem_zeroPaddedDigits {n width : Nat} {c : Char}
    (h : c ∈ zeroPaddedDigits n width) : c.isDigit = true := by
  rcases List.mem_append.1 h with h | h
  · rw [List.eq_of_mem_replicate h]
    decide
  · exact Nat.isDigit_of_mem_toDigits (by omega) (by omega) h

/-- A number below a power of ten is written in no more digits than that, or in the least width. -/
theorem length_zeroPaddedDigits_le {n width k : Nat} (hwidth : width ≤ k) (hpos : 0 < k)
    (h : n < Nat.pow 10 k) : (zeroPaddedDigits n width).length ≤ k := by
  have hdigits := (Nat.length_toDigits_le_iff (b := 10) (k := k) (by omega) hpos).2 h
  rw [zeroPaddedDigits, List.length_append, List.length_replicate]
  omega

/-- Zeros in front do not change the number. -/
theorem ofDigitChars_replicate_zero (k : Nat) (cs : List Char) :
    Nat.ofDigitChars 10 (List.replicate k '0' ++ cs) 0 = Nat.ofDigitChars 10 cs 0 := by
  induction k with
  | zero => rfl
  | succ k ih => rw [List.replicate_succ, List.cons_append, Nat.ofDigitChars_cons]; exact ih

/-- A number written at some width reads back. -/
theorem natOfDigits?_zeroPaddedDigits (n width : Nat) :
    natOfDigits? (zeroPaddedDigits n width) = some n := by
  have hall : (zeroPaddedDigits n width).all Char.isDigit = true :=
    List.all_eq_true.2 fun _ h => isDigit_of_mem_zeroPaddedDigits h
  have hval : Nat.ofDigitChars 10 (zeroPaddedDigits n width) 0 = n := by
    rw [zeroPaddedDigits, ofDigitChars_replicate_zero, Nat.ofDigitChars_toDigits] <;> omega
  simp only [natOfDigits?, hall, hval, Bool.not_true, Bool.or_false, List.isEmpty_iff,
    zeroPaddedDigits_ne_nil, if_false]

theorem natOfDigits?_toDigits (n : Nat) : natOfDigits? (Nat.toDigits 10 n) = some n := by
  have h := natOfDigits?_zeroPaddedDigits n 0
  rwa [zeroPaddedDigits, Nat.zero_sub, List.replicate_zero, List.nil_append] at h

/-- An integer is written in digits, behind a sign if it has one. -/
theorem eq_or_isDigit_of_mem_ofInt {i : Int} {c : Char} (h : c ∈ (ofInt i).toList) :
    c = '-' ∨ c.isDigit = true := by
  have hdigit : ∀ c ∈ Nat.toDigits 10 i.natAbs, c.isDigit = true :=
    fun _ h => Nat.isDigit_of_mem_toDigits (by omega) (by omega) h
  rw [ofInt, String.toList_ofList] at h
  split at h
  · exact (List.mem_cons.1 h).imp_right (hdigit c)
  · exact Or.inr (hdigit c h)

/-- An integer that is written reads back. -/
theorem intOfDecimal?_ofInt (i : Int) : intOfDecimal? (ofInt i).toList = some i := by
  have hread := natOfDigits?_toDigits i.natAbs
  rw [ofInt, String.toList_ofList]
  by_cases hneg : i < 0
  · rw [if_pos hneg]
    simp only [intOfDecimal?, hread, Option.bind_eq_bind, Option.bind_some, Option.pure_def,
      Option.map_some, Option.some.injEq]
    omega
  · rw [if_neg hneg]
    have hdigit : ∀ c ∈ Nat.toDigits 10 i.natAbs, c.isDigit = true :=
      fun _ h => Nat.isDigit_of_mem_toDigits (by omega) (by omega) h
    unfold intOfDecimal?
    split
    · next he => exact absurd (hdigit '-' (he ▸ List.mem_cons_self)) (by decide)
    · next he => exact absurd (hdigit '+' (he ▸ List.mem_cons_self)) (by decide)
    · simp only [hread, Option.bind_eq_bind, Option.bind_some, Option.pure_def, Option.map_some,
        Option.some.injEq]
      omega

/-! ## Ranges -/

/-- Every 64-bit word is in range. -/
@[simp] theorem uint64?_toNat (x : UInt64) : uint64? x.toNat = some x := by
  rw [uint64?, if_pos x.toNat_lt_size, UInt64.ofNat_toNat]

/-- Every 64-bit integer is in range. -/
@[simp] theorem int64?_toInt (x : Int64) : int64? x.toInt = some x := by
  have h1 := Int64.minValue_le_toInt x
  have h2 := Int64.toInt_le x
  rw [int64?, if_pos ⟨h1, h2⟩, Int64.ofInt_toInt]

/-- Every 32-bit integer is in range. -/
@[simp] theorem int32?_toInt (x : Int32) : int32? x.toInt = some x := by
  have h1 := Int32.minValue_le_toInt x
  have h2 := Int32.toInt_le x
  rw [int32?, if_pos ⟨h1, h2⟩, Int32.ofInt_toInt]

end ReportVault.Text
