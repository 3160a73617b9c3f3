import ReportVault.Event
import ReportVault.SessionId

/-!
# ReportVault.Report

Crash reports: the header that is written when a session starts, and the complete record that it
becomes.
-/

namespace ReportVault

/-- What a report says of its session. -/
structure Session where
  id : SessionId
  generator : String := ""
  startTimeMillis : Int64
  endTimeMillis : Option Int64 := none
  crashed : Bool := false
  userId : Option String := none
  highPriority : Bool := false
  /-- The analytics session that the session belongs to. -/
  correlationId : Option String := none
  deriving DecidableEq, Repr

/-- The application of a session. -/
structure Application where
  identifier : String
  version : String
  displayVersion : String
  deriving DecidableEq, Repr

/-- A file of a native crash bundle. -/
structure NativeFile where
  fileName : String
  contents : List UInt8
  deriving DecidableEq, Repr

/-- The files that the handler of native crashes left. -/
structure NativePayload where
  organizationId : Option String := none
  files : List NativeFile
  deriving DecidableEq, Repr

/-- A crash report. -/
structure Report where
  sdkVersion : String
  app : Application
  installationId : Option String := none
  session : Session
  events : List Event := []
  nativePayload : Option NativePayload := none
  exitInfo : Option ExitInfo := none
  deriving DecidableEq, Repr

namespace Report

/-- The header of a session that starts. -/
def header (sdkVersion : String) (app : Application) (id : SessionId) (startTimeMillis : Int64) :
    Report :=
  { sdkVersion, app, session := { id, startTimeMillis } }

/-- The session of the report. -/
def id (r : Report) : SessionId := r.session.id

/-- The session is over; a user that is not given leaves the one of the header. -/
def ended (r : Report) (endTimeMillis : Int64) (crashed : Bool) (userId : Option String) : Report :=
  { r with session :=
    { r.session with
      endTimeMillis := some endTimeMillis, crashed, userId := userId.or r.session.userId } }

/-- The analytics session is the given one, or none. -/
def correlated (r : Report) (correlationId : Option String) : Report :=
  { r with session := { r.session with correlationId } }

/-- The events are the given ones. -/
def withEvents (r : Report) (events : List Event) : Report := { r with events }

/-- The files of a native crash are attached. -/
def withNativePayload (r : Report) (payload : NativePayload) : Report :=
  { r with nativePayload := some payload }

/-- The exit record is attached. -/
def withExitInfo (r : Report) (info : ExitInfo) : Report := { r with exitInfo := some info }

/-- Whether there is anything to upload: an event or a native payload. -/
def isComplete (r : Report) : Bool := !r.events.isEmpty || r.nativePayload.isSome

end Report

end ReportVault
