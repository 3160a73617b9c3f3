import ReportVault.Retention.Distinct
import ReportVault.Retention.Rank

/-!
# ReportVault.Retention.Survivors

Who keeps a place when there are more sessions than places.
-/

namespace ReportVault.Retention

/-- The outcome of a competition, best first on both lists. -/
structure Verdict where
  keep : List Rank
  evict : List Rank
  deriving DecidableEq, Repr

namespace Verdict

/-- Whether the session keeps a place. -/
def isKept (v : Verdict) (id : SessionId) : Bool := v.keep.any fun r => r.id = id

/-- Whether the session lost its place. -/
def isEvicted (v : Verdict) (id : SessionId) : Bool := v.evict.any fun r => r.id = id

end Verdict

/-- The candidates, best first; a session that is there twice has its better rank. -/
def ranked (candidates : List Rank) : List Rank :=
  distinctBy Rank.id (candidates.mergeSort Rank.descending)

/-- The best `places` candidates keep a place. -/
def selectSurvivors (candidates : List Rank) (places : Nat) : Verdict :=
  ⟨(ranked candidates).take places, (ranked candidates).drop places⟩

end ReportVault.Retention
