/-!
# ReportVault.Text.Order

The order of texts by code point.

It is the order in which the UTF-8 encodings compare byte by byte, and it does not depend on a
locale.  `precedes_irrefl`, `precedes_trans` and `precedes_trichotomy` say that it is a strict
total order.
-/

namespace ReportVault.Text

/-- Whether the first list of characters comes strictly before the second: a proper beginning
comes first, and otherwise the first difference decides. -/
def charsPrecede : List Char → List Char → Bool
  | _, [] => false
  | [], _ :: _ => true
  | a :: l, b :: r => if a = b then charsPrecede l r else decide (a.toNat < b.toNat)

/-- Whether the first text comes strictly before the second. -/
def precedes (s t : String) : Bool := charsPrecede s.toList t.toList

theorem charsPrecede_irrefl (l : List Char) : charsPrecede l l = false := by
  induction l with
  | nil => rfl
  | cons a l ih => simp [charsPrecede, ih]

theorem toNat_char_ne {a b : Char} (h : a ≠ b) : a.toNat ≠ b.toNat := by
  intro hn
  exact h (Char.ext (UInt32.toNat_inj.1 hn))

theorem charsPrecede_trans {l r t : List Char} (h : charsPrecede l r = true)
    (h' : charsPrecede r t = true) : charsPrecede l t = true := by
  induction l generalizing r t with
  | nil =>
    cases t with
    | nil => cases r <;> simp [charsPrecede] at h'
    | cons c t => rfl
  | cons a l ih =>
    cases r with
    | nil => simp [charsPrecede] at h
    | cons b r =>
      cases t with
      | nil => simp [charsPrecede] at h'
      | cons c t =>
        by_cases hab : a = b
        · subst hab
          by_cases hac : a = c
          · subst hac
            simp only [charsPrecede, if_true] at h h' ⊢
            exact ih h h'
          · simpa [charsPrecede, hac] using h'
        · by_cases hbc : b = c
          · subst hbc
            simpa [charsPrecede, hab] using h
          · simp only [charsPrecede, hab, hbc, if_false, decide_eq_true_eq] at h h'
            have hac : a ≠ c := by
              rintro rfl
              omega
            simp only [charsPrecede, hac, if_false, decide_eq_true_eq]
            omega

theorem charsPrecede_trichotomy (l r : List Char) :
    charsPrecede l r = true ∨ l = r ∨ charsPrecede r l = true := by
  induction l generalizing r with
  | nil => cases r <;> simp [charsPrecede]
  | cons a l ih =>
    cases r with
    | nil => simp [charsPrecede]
    | cons b r =>
      by_cases hab : a = b
      · subst hab
        rcases ih r with h | h | h <;> simp [charsPrecede, h]
      · have hne := toNat_char_ne hab
        have hba : b ≠ a := fun h => hab h.symm
        simp only [charsPrecede, hab, hba, if_false, decide_eq_true_eq]
        omega

theorem precedes_irrefl (s : String) : precedes s s = false := charsPrecede_irrefl _

theorem precedes_trans {s t u : String} (h : precedes s t = true) (h' : precedes t u = true) :
    precedes s u = true := charsPrecede_trans h h'

theorem precedes_trichotomy (s t : String) :
    precedes s t = true ∨ s = t ∨ precedes t s = true := by
  rcases charsPrecede_trichotomy s.toList t.toList with h | h | h
  · exact Or.inl h
  · exact Or.inr (Or.inl (String.toList_inj.1 h))
  · exact Or.inr (Or.inr h)

theorem precedes_asymm {s t : String} (h : precedes s t = true) : precedes t s = false := by
  cases h' : precedes t s with
  | false => rfl
  | true => rw [← precedes_irrefl s, precedes_trans h h']

end ReportVault.Text
