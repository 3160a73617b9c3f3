/-!
# ReportVault.Retention.Caps

The caps that bound what is kept.
-/

namespace ReportVault.Retention

/-- How much is kept. -/
structure Caps where
  /-- Events of one open session. -/
  events : Nat := 8
  /-- Finalized reports in all. -/
  reports : Nat := 4
  /-- Open sessions that one pass finalizes. -/
  openSessions : Nat := 8
  deriving DecidableEq, Repr

namespace Caps

/-- The cap that a settings file gives: a negative value counts as none, and without a value the
cap is `fallback`. -/
def orDefault (given : Option Int) (fallback : Nat) : Nat :=
  match given with
  | some i => if 0 ≤ i then i.toNat else fallback
  | none => fallback

/-- The caps that a settings file gives, each one on its own. -/
def ofGiven (events reports openSessions : Option Int) : Caps :=
  let d : Caps := {}
  { events := orDefault events d.events
    reports := orDefault reports d.reports
    openSessions := orDefault openSessions d.openSessions }

end Caps

end ReportVault.Retention
