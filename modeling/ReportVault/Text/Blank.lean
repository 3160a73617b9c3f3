/-!
# ReportVault.Text.Blank

The Unicode property `White_Space`, and trimming by it.

`trim_of_forall` says that trimming takes blanks only; digits are none (`isBlank_of_isDigit`).
-/

namespace ReportVault.Text

/-- Whether a character has the property `White_Space`. -/
def isBlank (c : Char) : Bool :=
  (0x09 ≤ c.toNat && c.toNat ≤ 0x0d) || c.toNat == 0x20 || c.toNat == 0x85 || c.toNat == 0xa0 ||
    c.toNat == 0x1680 || (0x2000 ≤ c.toNat && c.toNat ≤ 0x200a) || c.toNat == 0x2028 ||
    c.toNat == 0x2029 || c.toNat == 0x202f || c.toNat == 0x205f || c.toNat == 0x3000

/-- The characters without the blanks at both ends. -/
def trim (cs : List Char) : List Char :=
  (((cs.dropWhile isBlank).reverse).dropWhile isBlank).reverse

/-- Nothing is trimmed where nothing is blank. -/
theorem trim_of_forall {cs : List Char} (h : ∀ c ∈ cs, isBlank c = false) : trim cs = cs := by
  have hkeep : ∀ {ds : List Char}, (∀ c ∈ ds, isBlank c = false) → ds.dropWhile isBlank = ds := by
    intro ds hds
    cases ds with
    | nil => rfl
    | cons c ds => exact List.dropWhile_cons_of_neg (by simp [hds c List.mem_cons_self])
  rw [trim, hkeep h, hkeep fun c hc => h c (List.mem_reverse.1 hc), List.reverse_reverse]

theorem isBlank_of_isDigit {c : Char} (h : c.isDigit = true) : isBlank c = false := by
  simp only [Char.isDigit, Bool.and_eq_true, decide_eq_true_eq] at h
  have hlow : 48 ≤ c.toNat := h.1
  have hhigh : c.toNat ≤ 57 := h.2
  simp only [isBlank, Bool.or_eq_false_iff, Bool.and_eq_false_iff, decide_eq_false_iff_not,
    beq_eq_false_iff_ne]
  omega

end ReportVault.Text
