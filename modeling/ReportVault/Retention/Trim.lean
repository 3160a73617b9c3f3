/-!
# ReportVault.Retention.Trim

Keeping the most recent items of a list that runs from the oldest to the newest.

`splitOldest_append` says that nothing is lost or moved, and `length_splitOldest_snd` how much is
kept.
-/

namespace ReportVault.Retention

/-- The oldest items beyond the cap, and the rest. -/
def splitOldest (items : List α) (cap : Nat) : List α × List α :=
  items.splitAt (items.length - cap)

/-- The last `cap` items. -/
def keepNewest (items : List α) (cap : Nat) : List α := (splitOldest items cap).2

theorem splitOldest_fst (items : List α) (cap : Nat) :
    (splitOldest items cap).1 = items.take (items.length - cap) := by
  simp [splitOldest, List.splitAt_eq]

theorem splitOldest_snd (items : List α) (cap : Nat) :
    (splitOldest items cap).2 = items.drop (items.length - cap) := by
  simp [splitOldest, List.splitAt_eq]

/-- The two halves in order are the items. -/
theorem splitOldest_append (items : List α) (cap : Nat) :
    (splitOldest items cap).1 ++ (splitOldest items cap).2 = items := by
  simp [splitOldest_fst, splitOldest_snd]

theorem keepNewest_eq_drop (items : List α) (cap : Nat) :
    keepNewest items cap = items.drop (items.length - cap) := splitOldest_snd items cap

/-- As many items are kept as there are and as the cap allows. -/
theorem length_splitOldest_snd (items : List α) (cap : Nat) :
    (splitOldest items cap).2.length = min items.length cap := by
  rw [splitOldest_snd, List.length_drop]
  omega

end ReportVault.Retention
