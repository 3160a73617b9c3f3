/-!
# ReportVault.Event

What happens during a session.
-/

namespace ReportVault

/-- A stack frame. -/
structure Frame where
  pc : UInt64
  symbol : String
  file : Option String := none
  offset : UInt64 := 0
  deriving DecidableEq, Repr

/-- A captured exception. -/
structure ExceptionInfo where
  type : String
  reason : String
  frames : List Frame := []
  deriving DecidableEq, Repr

/-- What the operating system says afterwards about the end of a process. -/
structure ExitInfo where
  pid : Int32
  processName : String
  reasonCode : Int32
  importance : Int32
  timestampMillis : Int64
  pss : Int64
  rss : Int64
  trace : Option String := none
  deriving DecidableEq, Repr

/-- The kinds of event. -/
inductive EventKind
  /-- An exception that nobody caught ended the application. -/
  | crash (exception : ExceptionInfo)
  /-- A caught exception that the application reports. -/
  | nonFatal (exception : ExceptionInfo)
  /-- The application stopped responding. -/
  | notResponding (reason : String)
  | log (message : String)
  /-- Made from the exit record of a native crash. -/
  | nativeExit (info : ExitInfo)
  deriving DecidableEq, Repr

/-- An event of a session. -/
structure Event where
  timestampMillis : Int64
  kind : EventKind
  deriving DecidableEq, Repr

namespace Event

/-- A crash, without frames. -/
def crash (timestampMillis : Int64) (type reason : String) : Event :=
  ⟨timestampMillis, .crash { type, reason }⟩

/-- A caught exception, without frames. -/
def nonFatal (timestampMillis : Int64) (type reason : String) : Event :=
  ⟨timestampMillis, .nonFatal { type, reason }⟩

/-- The application does not respond. -/
def notResponding (timestampMillis : Int64) (reason : String) : Event :=
  ⟨timestampMillis, .notResponding reason⟩

/-- A log line. -/
def log (timestampMillis : Int64) (message : String) : Event := ⟨timestampMillis, .log message⟩

/-- The event of a process exit, at the time of the exit. -/
def nativeExit (info : ExitInfo) : Event := ⟨info.timestampMillis, .nativeExit info⟩

end Event

end ReportVault
