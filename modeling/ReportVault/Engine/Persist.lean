import ReportVault.Engine.Basic
import ReportVault.Retention.Caps
import ReportVault.Retention.Trim

/-!
# ReportVault.Engine.Persist

Storing what an open session reports.
-/

namespace ReportVault.Engine

open Retention

variable [Monad m] (e : Engine m)

/-- Write the header of a session and its start time. -/
def tryPersistReport (report : Report) : ExceptT Failure m Unit := do
  let contents ← e.codec.encodeReport report
  e.store.perform (.write report.id SessionFile.header contents)
  let start := Text.ofInt report.session.startTimeMillis.toInt
  e.store.perform (.write report.id SessionFile.startTime (Bytes.ofText start))

/-- Store the header of a session that starts. -/
def persistReport (report : Report) : m Unit := do
  let _ ← succeeds? (e.tryPersistReport report)

/-- The sequence number after those of the slots. -/
def nextSequence (id : SessionId) (slots : List Slot) : Except Failure UInt64 :=
  match slots.getLast? with
  | none => .ok 1
  | some last =>
    if last.sequence.toNat + 1 < UInt64.size then .ok (last.sequence + 1)
    else .error (.sequenceExhausted id)

/-- Write an event under the next number, and remove the oldest events beyond the cap.

An event of high priority marks the session for good.  `correlation` is the analytics session at
this moment, if there is one. -/
def tryPersistEvent (caps : Caps) (correlation : Option String) (event : Event) (id : SessionId)
    (high : Bool) : ExceptT Failure m Unit := do
  let contents ← e.codec.encodeEvent event
  let slots ← e.store.perform (.slots id)
  let slot := Slot.new (← nextSequence id slots) high
  e.store.perform (.write id slot.fileName contents)
  if high then
    e.store.perform (.write id SessionFile.priority [])
  if let some value := correlation then
    e.store.perform (.write id SessionFile.correlation (Bytes.ofText value))
  let dropped := (splitOldest (slots ++ [slot]) caps.events).1
  dropped.forM fun old => (e.attempt (.delete id old.fileName) : m Unit)

/-- Store an event. -/
def persistEvent (caps : Caps) (correlation : Option String) (event : Event) (id : SessionId)
    (high : Bool) : m Unit := do
  let _ ← succeeds? (e.tryPersistEvent caps correlation event id high)

/-- Store the user of a session. -/
def persistUser (id : SessionId) (user : String) : m Unit :=
  e.attempt (.write id SessionFile.user (Bytes.ofText user))

end ReportVault.Engine
