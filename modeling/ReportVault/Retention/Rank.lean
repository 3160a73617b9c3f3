import ReportVault.SessionId

/-!
# ReportVault.Retention.Rank

The rank of a session that competes for a place.

Every session of high priority outranks every other one; among equals the later session wins, that
is the one with the greater identifier.
-/

namespace ReportVault.Retention

/-- What the rank of a session depends on. -/
structure Rank where
  high : Bool
  id : SessionId
  deriving DecidableEq, Repr

namespace Rank

/-- Whether the first rank is strictly below the second. -/
def below (a b : Rank) : Bool :=
  if a.high = b.high then a.id.precedes b.id else b.high

/-- Ascending order, for sorting. -/
def ascending (a b : Rank) : Bool := !b.below a

/-- Descending order, for sorting. -/
def descending (a b : Rank) : Bool := !a.below b

/-- The rank as it is shown. -/
def text (r : Rank) : String := r.id.name ++ (if r.high then " (high)" else " (normal)")

theorem below_irrefl (a : Rank) : a.below a = false := by
  simp [below, SessionId.precedes, Text.precedes_irrefl]

theorem below_trans {a b c : Rank} (h : a.below b = true) (h' : b.below c = true) :
    a.below c = true := by
  obtain ⟨ah, ai⟩ := a
  obtain ⟨bh, bi⟩ := b
  obtain ⟨ch, ci⟩ := c
  simp only [below, SessionId.precedes] at h h' ⊢
  cases ah <;> cases bh <;> cases ch <;> simp_all
  all_goals exact Text.precedes_trans h h'

theorem below_trichotomy (a b : Rank) : a.below b = true ∨ a = b ∨ b.below a = true := by
  obtain ⟨ah, ai⟩ := a
  obtain ⟨bh, bi⟩ := b
  simp only [below, SessionId.precedes]
  cases ah <;> cases bh <;> simp
  all_goals
    rcases Text.precedes_trichotomy ai.name bi.name with h | h | h
    · exact Or.inl h
    · exact Or.inr (Or.inl (by cases ai; cases bi; simp_all))
    · exact Or.inr (Or.inr h)

end Rank

end ReportVault.Retention
