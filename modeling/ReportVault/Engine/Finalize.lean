import ReportVault.Engine.Basic
import ReportVault.Retention.Caps
import ReportVault.Retention.Survivors
import ReportVault.Retention.Trim

/-!
# ReportVault.Engine.Finalize

Turning open sessions into finalized reports.

A pass first assembles every open session in memory.  Only sessions that make a complete report
compete with the reports that are already there; a session that loses is deleted without having
been written, and a report that loses is deleted once the winners are written.
-/

namespace ReportVault.Engine

open Retention

variable [Monad m] (e : Engine m)

/-- What a pass did. -/
structure Summary where
  /-- Open sessions that became finalized reports. -/
  finalized : Nat := 0
  /-- Open sessions that were deleted because there was nothing to report. -/
  empty : Nat := 0
  /-- Open sessions that were deleted because there were too many. -/
  overOpenCap : Nat := 0
  /-- Sessions and reports that lost to better ones. -/
  evicted : Nat := 0
  /-- Sessions that could not be finalized. -/
  failed : Nat := 0
  deriving DecidableEq, Repr

namespace Summary

/-- Both counts together. -/
def add (a b : Summary) : Summary :=
  ⟨a.finalized + b.finalized, a.empty + b.empty, a.overOpenCap + b.overOpenCap,
    a.evicted + b.evicted, a.failed + b.failed⟩

/-- All counts together. -/
def total (ss : List Summary) : Summary := ss.foldr add {}

end Summary

/-- A report that was made from an open session and is not written yet. -/
structure Assembled where
  id : SessionId
  report : Report
  tier : Tier
  deriving DecidableEq, Repr

/-- The rank of a finalized session. -/
def rankOf (id : SessionId) (tier : Tier) : Rank := ⟨tier.isHigh, id⟩

/-- The report of a session that ends: `recorded` is the report that it was finalized with before,
if it was.  A native crash that was recorded for the session keeps its payload and its tier. -/
def Assembled.ofParts (id : SessionId) (time : Int64) (marked : Bool) (header : Report)
    (events : List Event) (user correlation : Option String) (recorded : Option Report) :
    Assembled :=
  let report := ((header.ended time false user).correlated correlation).withEvents events
  match recorded.filter fun r => r.nativePayload.isSome with
  | none =>
    { id, report := { report with session := { report.session with highPriority := marked } },
      tier := if marked then .priority else .normal }
  | some native =>
    { id, tier := .native,
      report := { report with
        nativePayload := native.nativePayload, exitInfo := native.exitInfo,
        session := { report.session with crashed := true, highPriority := true } } }

/-- Whether a session with these events is of high priority. -/
def isMarked (id : SessionId) (slots : List Slot) : m Bool :=
  if slots.any (·.high) then pure true else e.hasPriorityMark id

/-- Make the report of an open session, if there is anything to report. -/
def assemble (id : SessionId) (time : Int64) (cap : Nat) :
    ExceptT Failure m (Option Assembled) := do
  let slots ← e.store.perform (.slots id)
  if slots.isEmpty then return none
  let marked ← (e.isMarked id slots : m Bool)
  let header ← e.readHeader id
  let events ← (e.readEvents id (keepNewest slots cap) : m _)
  let user ← (e.readText id SessionFile.user : m _)
  let correlation ← (e.readText id SessionFile.correlation : m _)
  let recorded ← (e.readFinalized id : m _)
  let assembled := Assembled.ofParts id time marked header events user correlation recorded
  return if assembled.report.isComplete then some assembled else none

/-- Assemble an open session.  One without anything to report is deleted, and so is one whose data
are unusable; one that the storage did not let read stays. -/
def assembleOrDelete (id : SessionId) (time : Int64) (cap : Nat) :
    m (Option Assembled × Summary) := do
  match ← (e.assemble id time cap).run with
  | .ok (some assembled) => return (some assembled, {})
  | .ok none =>
    e.attempt (.deleteSession id)
    return (none, { empty := 1 })
  | .error failure =>
    if !failure.isStorage then e.attempt (.deleteSession id)
    return (none, { failed := 1 })

/-- Write a report that was assembled. -/
def write (a : Assembled) : ExceptT Failure m Unit := do
  let contents ← e.codec.encodeReport a.report
  e.store.perform (.writeReport a.id a.tier contents)

/-- Write a report that has a place, and delete the open session; one that the storage did not let
write stays open. -/
def place (verdict : Verdict) (a : Assembled) : m Summary := do
  if verdict.isEvicted a.id then
    e.attempt (.deleteSession a.id)
    return { evicted := 1 }
  match ← (e.write a).run with
  | .ok () =>
    e.attempt (.deleteSession a.id)
    return { finalized := 1 }
  | .error failure =>
    if !failure.isStorage then e.attempt (.deleteSession a.id)
    return { failed := 1 }

/-- Delete the reports of the lowest ranks beyond the cap. -/
def trimReports (cap : Nat) : m Summary := do
  let finalized ← e.finalizedIds
  if finalized.length ≤ cap then return {}
  let verdict := selectSurvivors (finalized.map fun (id, tier) => rankOf id tier) cap
  let losers := finalized.filter fun (id, _) => !verdict.isKept id
  losers.forM fun (id, _) => e.deleteReport id
  return { evicted := losers.length }

/-- Finalize every open session but the current one. -/
def finalize (caps : Caps) (current : Option SessionId) (time : Int64) : m Summary := do
  let candidates := (← e.openIds).filter fun id => some id ≠ current
  let (surplus, kept) := splitOldest candidates caps.openSessions
  surplus.forM fun id => e.attempt (.deleteSession id)
  let results ← kept.mapM fun id => e.assembleOrDelete id time caps.events
  let assembled := results.filterMap (·.1)
  let finalized ← e.finalizedIds
  let verdict := selectSurvivors
    (assembled.map (fun a => rankOf a.id a.tier) ++ finalized.map fun (id, tier) => rankOf id tier)
    caps.reports
  let placed ← assembled.mapM (e.place verdict)
  let trimmed ← e.trimReports caps.reports
  return .total ({ overOpenCap := surplus.length } :: trimmed :: results.map (·.2) ++ placed)

end ReportVault.Engine
