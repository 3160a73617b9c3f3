/-!
# ReportVault.Tier

The shelves for finalized reports.
-/

namespace ReportVault

/-- How strongly a finalized report is held. -/
inductive Tier
  | normal
  | priority
  | native
  deriving DecidableEq, Repr

namespace Tier

/-- Every tier, the strongest first. -/
def all : List Tier := [.native, .priority, .normal]

/-- Whether reports of the tier rank as high priority. -/
def isHigh : Tier → Bool
  | .normal => false
  | .priority => true
  | .native => true

/-- The directory of the tier. -/
def directory : Tier → String
  | .normal => "reports"
  | .priority => "priority-reports"
  | .native => "native-reports"

theorem mem_all (t : Tier) : t ∈ all := by cases t <;> decide

end Tier

end ReportVault
