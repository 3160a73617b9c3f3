import Mathlib.Data.Option.Basic
import ReportVault.Toml.Scalar

/-!
# ReportVault.Proofs.Toml.Integer

The integers of a TOML text.

`Spells` says which characters write which integer: decimal digits with a sign or without, and the
digits of three other bases behind their prefix, with single underscores between digits.
`Spells.value?_eq` is the only result that readers of values need: each spelling is read as its
integer.
-/

namespace ReportVault.Toml

open Scalar

/-! ## Digits -/

/-- The digits that characters write, with single underscores between them. -/
inductive Digits (base : Nat) : List Char → List Nat → Prop
  | one {c : Char} {d : Nat} (h : digitValue? base c = some d) : Digits base [c] [d]
  | next {c : Char} {d : Nat} {cs : List Char} {ds : List Nat} (h : digitValue? base c = some d)
      (hrest : Digits base cs ds) : Digits base (c :: cs) (d :: ds)
  | spaced {c : Char} {d : Nat} {cs : List Char} {ds : List Nat} (h : digitValue? base c = some d)
      (hrest : Digits base cs ds) : Digits base (c :: '_' :: cs) (d :: ds)

/-- A sign, or none. -/
inductive IsSign : List Char → Bool → Prop
  | none : IsSign [] false
  | plus : IsSign ['+'] false
  | minus : IsSign ['-'] true

/-- The integer that characters write.  In decimal there may be a sign, and there is no zero in
front, but for zero itself. -/
inductive Spells : List Char → Int → Prop
  | decimal {sign : List Char} {negative : Bool} {cs : List Char} {ds : List Nat}
      (hsign : IsSign sign negative) (h : Digits 10 cs ds)
      (hzero : cs.head? = some '0' → cs.length = 1) :
      Spells (sign ++ cs) (signed negative (natOfDigits 10 ds))
  | based {letter : Char} {base : Nat} {cs : List Char} {ds : List Nat}
      (hbase : (letter, base) ∈ [('x', 16), ('o', 8), ('b', 2)]) (h : Digits base cs ds) :
      Spells ('0' :: letter :: cs) (natOfDigits base ds)

variable {base : Nat} {cs : List Char} {ds : List Nat} {c : Char} {d : Nat} {i : Int}

theorem isDigit_of_digitValue? (h : digitValue? 10 c = some d) :
    c.isDigit = true ∧ d = c.toNat - '0'.toNat := by
  simp only [digitValue?] at h
  cases hdigit : c.isDigit with
  | true =>
    rw [hdigit, if_pos rfl] at h
    exact ⟨rfl, (Option.some.inj (Option.ite_none_right_eq_some.1 h).2).symm⟩
  | false =>
    -- a letter is worth ten at least
    rw [hdigit, if_neg Bool.false_ne_true] at h
    have hsmall := (Option.ite_none_right_eq_some.1 h).1
    split at hsmall
    · omega
    · split at hsmall <;> omega

/-- The digits of a base up to sixteen are decimal digits and letters. -/
theorem isAlphanum_of_digitValue? (h : digitValue? base c = some d) (hbase : base ≤ 16) :
    c.isAlphanum = true := by
  simp only [digitValue?] at h
  have hsmall := (Option.ite_none_right_eq_some.1 h).1
  have hkinds : c.isAlphanum = (c.isUpper || c.isLower || c.isDigit) := rfl
  rw [hkinds, Bool.or_eq_true, Bool.or_eq_true]
  split at hsmall
  · next hdigit => exact Or.inr hdigit
  split at hsmall
  · next hlower =>
    have hz : c.val ≤ 'z'.val := UInt32.le_trans hlower.2 (by decide)
    exact Or.inl (Or.inr (Bool.and_eq_true_iff.2 ⟨decide_eq_true hlower.1, decide_eq_true hz⟩))
  split at hsmall
  · next hupper =>
    have hz : c.val ≤ 'Z'.val := UInt32.le_trans hupper.2 (by decide)
    exact Or.inl (Or.inl (decide_eq_true ⟨hupper.1, hz⟩))
  · omega

/-- A digit is no underscore. -/
theorem ne_underscore_of_digitValue? (h : digitValue? base c = some d) (hbase : base ≤ 16) :
    c ≠ '_' := by
  rintro rfl
  exact absurd (isAlphanum_of_digitValue? h hbase) (by decide)

theorem isHex_of_isDigit (h : c.isDigit = true) : isHex c = true := by
  have hle : c.toNat ≤ 57 := (Char.isDigit_iff_toNat.1 h).2
  simp only [isHex, digitValue?, h, if_true]
  rw [if_pos (by simp; omega)]
  rfl

namespace Digits

theorem ne_nil (h : Digits base cs ds) : cs ≠ [] := by cases h <;> simp

/-- Digits begin with a digit. -/
theorem exists_head (h : Digits base cs ds) :
    ∃ c rest d, cs = c :: rest ∧ digitValue? base c = some d := by
  cases h with
  | one h => exact ⟨_, _, _, rfl, h⟩
  | next h => exact ⟨_, _, _, rfl, h⟩
  | spaced h => exact ⟨_, _, _, rfl, h⟩

/-- Digits are read as what they are. -/
theorem digits?_eq (h : Digits base cs ds) (hbase : base ≤ 16) : digits? base cs = some ds := by
  induction h with
  | one h => simp [digits?, h]
  | next h hrest ih =>
    obtain ⟨first, rest, d, rfl, hfirst⟩ := hrest.exists_head
    have hne := ne_underscore_of_digitValue? hfirst hbase
    rw [digits?]
    · simp [h, ih]
    · simp
    · rintro rest heq
      exact hne (List.cons.inj heq).1
  | spaced h hrest ih => simp [digits?, h, ih]

/-- Between digits there are underscores. -/
theorem isAlphanum_or_eq (h : Digits base cs ds) (hbase : base ≤ 16) (hc : c ∈ cs) :
    c.isAlphanum = true ∨ c = '_' := by
  induction h with
  | one h => exact Or.inl (List.mem_singleton.1 hc ▸ isAlphanum_of_digitValue? h hbase)
  | next h hrest ih =>
    rcases List.mem_cons.1 hc with rfl | hc
    · exact Or.inl (isAlphanum_of_digitValue? h hbase)
    · exact ih hc
  | spaced h hrest ih =>
    rcases List.mem_cons.1 hc with rfl | hc
    · exact Or.inl (isAlphanum_of_digitValue? h hbase)
    rcases List.mem_cons.1 hc with rfl | hc
    · exact Or.inr rfl
    · exact ih hc

/-! ## Decimal digits -/

/-- What stands between decimal digits are underscores. -/
theorem isDigit_or_eq (h : Digits 10 cs ds) : ∀ c ∈ cs, c.isDigit = true ∨ c = '_' := by
  induction h with
  | one h => simpa using Or.inl (isDigit_of_digitValue? h).1
  | next h hrest ih =>
    exact List.forall_mem_cons.2 ⟨Or.inl (isDigit_of_digitValue? h).1, ih⟩
  | spaced h hrest ih =>
    exact List.forall_mem_cons.2 ⟨Or.inl (isDigit_of_digitValue? h).1,
      List.forall_mem_cons.2 ⟨Or.inr rfl, ih⟩⟩

/-- The digits without the underscores make the number. -/
theorem ofDigitChars_filter (h : Digits 10 cs ds) (n : Nat) :
    Nat.ofDigitChars 10 (cs.filter (· != '_')) n = ds.foldl (fun n d => 10 * n + d) n := by
  induction h generalizing n with
  | one h =>
    obtain ⟨-, rfl⟩ := isDigit_of_digitValue? h
    have hne := ne_underscore_of_digitValue? h (by decide)
    simp [hne, Nat.ofDigitChars]
  | next h hrest ih =>
    obtain ⟨-, rfl⟩ := isDigit_of_digitValue? h
    have hne := ne_underscore_of_digitValue? h (by decide)
    rw [List.filter_cons_of_pos (by simpa using hne), Nat.ofDigitChars_cons, ih]
    rfl
  | spaced h hrest ih =>
    obtain ⟨-, rfl⟩ := isDigit_of_digitValue? h
    have hne := ne_underscore_of_digitValue? h (by decide)
    rw [List.filter_cons_of_pos (by simpa using hne), List.filter_cons_of_neg (by simp),
      Nat.ofDigitChars_cons, ih]
    rfl

/-- Every run of digits begins and ends with a digit. -/
theorem exists_runs (h : Digits 10 cs ds) :
    ∃ first runs, Text.runs '_' cs = first :: runs ∧ first ≠ [] ∧ first.head? = cs.head? ∧
      first.all Char.isDigit = true ∧ areRuns runs = true := by
  induction h with
  | @one c d h =>
    have hne := ne_underscore_of_digitValue? h (by decide)
    exact ⟨[c], [], by simp [Text.runs, hne], by simp, rfl, by simp [(isDigit_of_digitValue? h).1],
      rfl⟩
  | @next c d cs ds h hrest ih =>
    obtain ⟨first, runs, hruns, -, -, hall, hareRuns⟩ := ih
    have hne := ne_underscore_of_digitValue? h (by decide)
    refine ⟨c :: first, runs, by simp [Text.runs, hne, hruns], by simp, rfl, ?_, hareRuns⟩
    simp [(isDigit_of_digitValue? h).1, hall]
  | @spaced c d cs ds h hrest ih =>
    obtain ⟨first, runs, hruns, hfirst, -, hall, hareRuns⟩ := ih
    have hne := ne_underscore_of_digitValue? h (by decide)
    refine ⟨[c], first :: runs, by simp [Text.runs, hne, hruns], by simp, rfl,
      by simp [(isDigit_of_digitValue? h).1], ?_⟩
    have hhex : ∀ c ∈ first, isHex c = true := fun c hc =>
      isHex_of_isDigit (List.all_eq_true.1 hall c hc)
    have hhead : first.head?.any isHex = true := by
      rw [List.head?_eq_some_head hfirst]
      exact hhex _ (List.head_mem hfirst)
    have hlast : first.getLast?.any isHex = true := by
      rw [List.getLast?_eq_some_getLast hfirst]
      exact hhex _ (List.getLast_mem hfirst)
    cases runs with
    | nil => exact hhead
    | cons second rest => simp [areRuns, hhead, hlast, hareRuns]

/-- Digits without a zero in front are a decimal integer. -/
theorem integer?_eq (h : Digits 10 cs ds) (hzero : cs.head? = some '0' → cs.length = 1)
    (negative : Bool) :
    integer? negative cs = some (.integer (some (signed negative (natOfDigits 10 ds)))) := by
  obtain ⟨first, runs, hruns, hfirst, hsame, hall, hareRuns⟩ := h.exists_runs
  have hspace : ' ' ∉ cs := fun hmem => by
    rcases h.isDigit_or_eq ' ' hmem with hdigit | heq
    · exact absurd hdigit (by decide)
    · exact absurd heq (by decide)
  have hhead : (first.head? != some '0' || cs.length == 1) = true := by
    rw [hsame]
    by_cases he : cs.head? = some '0'
    · simp [hzero he]
    · simp [he]
  have hnumber : Text.natOfDigits? (cs.filter (· != '_')) = some (natOfDigits 10 ds) := by
    have hdigits : (cs.filter (· != '_')).all Char.isDigit = true := by
      refine List.all_eq_true.2 fun c hc => ?_
      obtain ⟨hmem, hne⟩ := List.mem_filter.1 hc
      exact (h.isDigit_or_eq c hmem).resolve_right (by simpa using hne)
    have hne : cs.filter (· != '_') ≠ [] := by
      obtain ⟨c, rest, d, rfl, hc⟩ := h.exists_head
      rw [List.filter_cons_of_pos (by simpa using ne_underscore_of_digitValue? hc (by decide))]
      exact List.cons_ne_nil _ _
    rw [Text.natOfDigits?, if_neg (by simpa [hdigits] using hne), h.ofDigitChars_filter]
    rfl
  rw [integer?, hruns]
  simp [guard, hfirst, hall, hhead, hareRuns, hspace, hnumber]

/-- Behind the first digits there is nothing that a value of another kind would have there. -/
theorem dropWhile_isDigit (h : Digits 10 cs ds) :
    ¬ ((cs.dropWhile Char.isDigit).head? = some '-' ∨
        (cs.dropWhile Char.isDigit).head? = some ':') ∧
      (cs.dropWhile Char.isDigit).any isFloatMark = false := by
  have hmem : ∀ c ∈ cs.dropWhile Char.isDigit, c.isDigit = true ∨ c = '_' := fun c hc =>
    h.isDigit_or_eq c ((List.dropWhile_suffix _).subset hc)
  refine ⟨fun hhead => ?_, List.any_eq_false.2 fun c hc hmark => ?_⟩
  · rcases hhead with hhead | hhead
    · exact absurd (hmem _ (List.mem_of_mem_head? hhead)) (by decide)
    · exact absurd (hmem _ (List.mem_of_mem_head? hhead)) (by decide)
  · simp only [isFloatMark, Bool.or_eq_true, beq_iff_eq] at hmark
    rcases hmark with (rfl | rfl) | rfl <;> exact absurd (hmem _ hc) (by decide)

end Digits

/-! ## Spellings -/

section Sign

variable {sign rest : List Char} {negative : Bool} (hsign : IsSign sign negative)

include hsign

theorem splitSign_append (hc : c.isDigit = true) :
    splitSign (sign ++ c :: rest) = (negative, c :: rest) := by
  cases hsign with
  | none =>
    rw [List.nil_append, splitSign]
    · rintro _ ⟨⟩
      exact absurd hc (by decide)
    · rintro _ ⟨⟩
      exact absurd hc (by decide)
  | plus => rfl
  | minus => rfl

/-- What begins with a digit, or with a sign and a digit, is no name. -/
theorem value?_eq_number? (hc : c.isDigit = true) :
    value? (sign ++ c :: rest) = number? (sign ++ c :: rest) := by
  have hname : ∀ {d : Char} {name : List Char}, d.isDigit = false → c :: rest ≠ d :: name := by
    rintro d name hd he
    rw [(List.cons.inj he).1, hd] at hc
    cases hc
  have hwhole : ∀ {d : Char} {name : List Char}, d ≠ '+' → d ≠ '-' → d.isDigit = false →
      sign ++ c :: rest ≠ d :: name := by
    intro d name hplus hminus hd he
    cases hsign with
    | none => exact hname hd he
    | plus => exact hplus (List.cons.inj he).1.symm
    | minus => exact hminus (List.cons.inj he).1.symm
  have hspecial : isSpecial (sign ++ c :: rest) = false := by
    rw [isSpecial, splitSign_append hsign hc]
    have hinf : c :: rest ≠ "inf".toList := hname (by decide)
    have hnan : c :: rest ≠ "nan".toList := hname (by decide)
    simp only [beq_false_of_ne hinf, beq_false_of_ne hnan, Bool.or_self]
  have htrue : sign ++ c :: rest ≠ "true".toList := hwhole (by decide) (by decide) (by decide)
  have hfalse : sign ++ c :: rest ≠ "false".toList := hwhole (by decide) (by decide) (by decide)
  rw [value?, if_neg htrue, if_neg hfalse, hspecial, if_neg Bool.false_ne_true]

/-- Decimal digits are read as their number, behind a sign and without one. -/
theorem number?_of_digits (h : Digits 10 cs ds) (hzero : cs.head? = some '0' → cs.length = 1) :
    number? (sign ++ cs) = some (.integer (some (signed negative (natOfDigits 10 ds)))) := by
  obtain ⟨c, rest, d, rfl, hc⟩ := h.exists_head
  have hdigit := (isDigit_of_digitValue? hc).1
  have hbase : ∀ {letter : Char} {more : List Char}, sign ++ c :: rest ≠ '0' :: letter :: more := by
    intro letter more he
    cases hsign with
    | none =>
      obtain ⟨rfl, rfl⟩ := List.cons.inj he
      exact absurd (hzero rfl) (by simp)
    | plus => exact absurd (List.cons.inj he).1 (by decide)
    | minus => exact absurd (List.cons.inj he).1 (by decide)
  obtain ⟨hkind, hfloat⟩ := h.dropWhile_isDigit
  rw [number?]
  · simp only [splitSign_append hsign hdigit]
    rw [if_neg hkind, hfloat, if_neg Bool.false_ne_true, h.integer?_eq hzero]
  · exact fun _ he => hbase he
  · exact fun _ he => hbase he
  · exact fun _ he => hbase he

end Sign

/-- Digits of another base are read as their number, behind the letter of the base. -/
theorem basedInteger?_of_digits (h : Digits base cs ds) (hbase : base ≤ 16) :
    basedInteger? base cs = some (.integer (some (natOfDigits base ds))) := by
  rw [basedInteger?, if_neg (by simpa using h.ne_nil), h.digits?_eq hbase]
  rfl

/-- Each spelling is read as its integer. -/
theorem Spells.value?_eq (h : Spells cs i) : value? cs = some (.integer (some i)) := by
  cases h with
  | decimal hsign h hzero =>
    obtain ⟨c, rest, d, rfl, hc⟩ := h.exists_head
    rw [value?_eq_number? hsign (isDigit_of_digitValue? hc).1, number?_of_digits hsign h hzero]
  | @based letter base cs ds hbase h =>
    have hnumber : value? ('0' :: letter :: cs) = number? ('0' :: letter :: cs) :=
      value?_eq_number? .none (by decide)
    rw [hnumber]
    simp only [List.mem_cons, Prod.mk.injEq, List.not_mem_nil, or_false] at hbase
    rcases hbase with ⟨rfl, rfl⟩ | ⟨rfl, rfl⟩ | ⟨rfl, rfl⟩ <;>
      exact basedInteger?_of_digits h (by decide)

/-! ## The printed form -/

theorem digitValue?_of_isDigit (h : c.isDigit = true) :
    digitValue? 10 c = some (c.toNat - '0'.toNat) := by
  have hle : c.toNat ≤ 57 := (Char.isDigit_iff_toNat.1 h).2
  simp only [digitValue?, h, if_true]
  exact if_pos (by simp; omega)

/-- Decimal digits may stand without underscores. -/
theorem Digits.of_isDigit (hne : cs ≠ []) (h : ∀ c ∈ cs, c.isDigit = true) :
    Digits 10 cs (cs.map fun c => c.toNat - '0'.toNat) := by
  induction cs with
  | nil => exact absurd rfl hne
  | cons c cs ih =>
    have hc := digitValue?_of_isDigit (h c List.mem_cons_self)
    cases cs with
    | nil => exact .one hc
    | cons d cs =>
      exact .next hc (ih (List.cons_ne_nil _ _) fun d hd => h d (List.mem_cons_of_mem _ hd))

/-- A number is printed without a zero in front. -/
theorem eq_zero_of_head?_toDigits (n : Nat) (h : (Nat.toDigits 10 n).head? = some '0') : n = 0 := by
  have hdigit : ∀ k < 10, k.digitChar = '0' → k = 0 := by decide
  induction n using Nat.strongRecOn with
  | ind n ih =>
    by_cases hsmall : n < 10
    · rw [Nat.toDigits_of_lt_base hsmall] at h
      exact hdigit n hsmall (Option.some.inj h)
    · have hlarge := Nat.not_lt.1 hsmall
      rw [Nat.toDigits_of_base_le (by decide) hlarge, List.head?_append,
        List.head?_eq_some_head Nat.toDigits_ne_nil, Option.some_or,
        ← List.head?_eq_some_head] at h
      have hfront := ih (n / 10) (by omega) h
      omega

theorem digits_toDigits (n : Nat) :
    ∃ ds, Digits 10 (Nat.toDigits 10 n) ds ∧ natOfDigits 10 ds = n := by
  have h := Digits.of_isDigit Nat.toDigits_ne_nil fun c (hc : c ∈ Nat.toDigits 10 n) =>
    Nat.isDigit_of_mem_toDigits (by decide) (by decide) hc
  refine ⟨_, h, ?_⟩
  rw [natOfDigits, List.foldl_map]
  exact Nat.ofDigitChars_toDigits (by decide) (by decide)

/-- Every integer can be written, in decimal with a minus sign if it is negative. -/
theorem spells_ofInt (i : Int) : Spells (Text.ofInt i).toList i := by
  obtain ⟨ds, hdigits, hvalue⟩ := digits_toDigits i.natAbs
  have hzero : (Nat.toDigits 10 i.natAbs).head? = some '0' →
      (Nat.toDigits 10 i.natAbs).length = 1 := fun h => by
    rw [eq_zero_of_head?_toDigits _ h]
    rfl
  rw [Text.ofInt, String.toList_ofList]
  by_cases hneg : i < 0
  · have hi : i = signed true (natOfDigits 10 ds) := by
      rw [hvalue, signed, if_pos rfl]
      omega
    rw [if_pos hneg]
    have h := Spells.decimal .minus hdigits hzero
    rwa [← hi] at h
  · have hi : i = signed false (natOfDigits 10 ds) := by
      rw [hvalue, signed, if_neg Bool.false_ne_true]
      omega
    rw [if_neg hneg]
    have h := Spells.decimal .none hdigits hzero
    rwa [← hi] at h

/-! ## The characters of a spelling -/

/-- A spelling begins with a sign or a digit. -/
theorem Spells.exists_head (h : Spells cs i) :
    ∃ c rest, cs = c :: rest ∧ (c = '+' ∨ c = '-' ∨ c.isDigit = true) := by
  cases h with
  | decimal hsign h hzero =>
    obtain ⟨c, rest, d, rfl, hc⟩ := h.exists_head
    have hdigit := (isDigit_of_digitValue? hc).1
    cases hsign with
    | none => exact ⟨c, rest, rfl, Or.inr (Or.inr hdigit)⟩
    | plus => exact ⟨'+', c :: rest, rfl, Or.inl rfl⟩
    | minus => exact ⟨'-', c :: rest, rfl, Or.inr (Or.inl rfl)⟩
  | based hbase h => exact ⟨'0', _, rfl, Or.inr (Or.inr (by decide))⟩

/-- A spelling has no characters but letters, digits, underscores and signs. -/
theorem Spells.isAlphanum_or_eq (h : Spells cs i) (hc : c ∈ cs) :
    c.isAlphanum = true ∨ c = '_' ∨ c = '+' ∨ c = '-' := by
  cases h with
  | @decimal sign negative cs ds hsign h hzero =>
    rcases List.mem_append.1 hc with hc | hc
    · cases hsign with
      | none => cases hc
      | plus => exact Or.inr (Or.inr (Or.inl (List.mem_singleton.1 hc)))
      | minus => exact Or.inr (Or.inr (Or.inr (List.mem_singleton.1 hc)))
    · exact (h.isAlphanum_or_eq (by decide) hc).imp_right Or.inl
  | @based letter base cs ds hbase h =>
    simp only [List.mem_cons, Prod.mk.injEq, List.not_mem_nil, or_false] at hbase
    rcases List.mem_cons.1 hc with rfl | hc
    · exact Or.inl (by decide)
    rcases hbase with ⟨rfl, rfl⟩ | ⟨rfl, rfl⟩ | ⟨rfl, rfl⟩ <;>
      rcases List.mem_cons.1 hc with rfl | hc
    all_goals first
      | exact Or.inl (by decide)
      | exact (h.isAlphanum_or_eq (by decide) hc).imp_right Or.inl

end ReportVault.Toml
