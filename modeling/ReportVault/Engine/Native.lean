import ReportVault.Engine.Basic
import ReportVault.Retention.Caps
import ReportVault.Retention.Trim

/-!
# ReportVault.Engine.Native

Attaching a native crash to the report of its session.
-/

namespace ReportVault.Engine

open Retention

variable [Monad m] (e : Engine m)

/-- The report that a native crash is attached to, and whether it was made from an open session.
A session without a readable header has the report it was finalized with, if it was. -/
def nativeBase (id : SessionId) : ExceptT Failure m (Report × Bool) := do
  match ← ExceptT.lift (e.readHeader id).run with
  | .ok header =>
    let slots ← e.store.perform (.slots id)
    let events ← (e.readEvents id slots : m _)
    let correlation ← (e.readText id SessionFile.correlation : m _)
    return ((header.correlated correlation).withEvents events, true)
  | .error failure =>
    match ← (e.readFinalized id : m _) with
    | some report => return (report, false)
    | none => throw failure

/-- A report with a native crash in it.  An exit record ends the session and adds an event. -/
def withNativeCrash (report : Report) (payload : NativePayload) (user : Option String)
    (info : Option ExitInfo) (cap : Nat) : Report :=
  let base := report.withNativePayload payload
  let base := { base with session := { base.session with userId := user.or base.session.userId } }
  let base := match info with
    | none => base
    | some info =>
      ({ base with
        session := { base.session with endTimeMillis := some info.timestampMillis },
        events := base.events ++ [Event.nativeExit info] }).withExitInfo info
  { base with
    events := keepNewest base.events cap,
    session := { base.session with crashed := true, highPriority := true } }

/-- Attach a native crash to the report of a session and write it into the native tier.  An open
session is finalized by that. -/
def tryFinalizeNative (caps : Caps) (id : SessionId) (payload : NativePayload)
    (info : Option ExitInfo) : ExceptT Failure m Unit := do
  let (base, fromOpen) ← e.nativeBase id
  let user ← (e.readText id SessionFile.user : m _)
  let contents ← e.codec.encodeReport (withNativeCrash base payload user info caps.events)
  e.store.perform (.writeReport id .native contents)
  if fromOpen then (e.attempt (.deleteSession id) : m Unit)

/-- Finalize a session with a native crash. -/
def finalizeNative (caps : Caps) (id : SessionId) (payload : NativePayload)
    (info : Option ExitInfo) : m Unit := do
  let _ ← succeeds? (e.tryFinalizeNative caps id payload info)

end ReportVault.Engine
