import ReportVault.CivilTime
import ReportVault.Engine.Finalize
import ReportVault.Text.Padding

/-!
# ReportVault.Command.View

What the commands print.
-/

namespace ReportVault.Command.View

/-- Lines, each with its end. -/
def lines (ls : List String) : String := String.join (ls.map (· ++ "\n"))

/-- A rule of dashes. -/
def rule (n : Nat) : String := String.ofList (List.replicate n '-')

/-- The width of the column of identifiers. -/
def idWidth : Nat := 48

/-- The table of open sessions with their start times. -/
def sessions (rows : List (SessionId × Option Int64)) : String :=
  if rows.isEmpty then lines ["No open sessions."]
  else
    lines <|
      [Text.padRight "SESSION ID" idWidth ++ "  STARTED", rule 72] ++
      rows.map fun (id, started) =>
        Text.padRight id.name idWidth ++ "  " ++
          (match started with
            | some t => CivilTime.formatMillis t CivilTime.dateToMinute
            | none => "unknown")

/-- How strongly a report is held, as its record says. -/
def priority (r : Report) : String :=
  if r.nativePayload.isSome then "native"
  else if r.session.highPriority then "high"
  else "normal"

/-- A row of the table of reports. -/
def reportRow (id ended events priority : String) : String :=
  Text.padRight id idWidth ++ "  " ++ Text.padRight ended 20 ++ "  " ++ Text.padRight events 6 ++
    "  " ++ priority

/-- The table of finalized reports, at most `limit` of them. -/
def reports (rows : List (SessionId × Report)) (limit : Nat) : String :=
  if rows.isEmpty then lines ["No finalized reports."]
  else
    lines <|
      [reportRow "SESSION ID" "ENDED" "EVENTS" "PRIORITY", rule 96] ++
      (rows.take limit).map fun (id, r) =>
        reportRow id.name
          (match r.session.endTimeMillis with
            | some t => CivilTime.formatMillis t CivilTime.dateToMinute
            | none => "-")
          (Text.ofInt r.events.length) (priority r)

/-- The word for a truth value. -/
def truth (b : Bool) : String := if b then "true" else "false"

/-- An address in hexadecimal, sixteen digits wide. -/
def address (a : UInt64) : String :=
  let digits := Nat.toDigits 16 a.toNat
  "0x" ++ String.ofList (List.replicate (16 - digits.length) '0' ++ digits)

/-- The greatest number of characters of a log line that is shown. -/
def logWidth : Nat := 200

/-- A log line, cut if it is long. -/
def cut (message : String) : String :=
  let cs := message.toList
  if cs.length > logWidth then String.ofList (cs.take logWidth) ++ "..." else message

/-- The lines of an event. -/
def event (e : Event) : List String :=
  let time := "[" ++ CivilTime.formatMillis e.timestampMillis CivilTime.toMillisecond ++ "] "
  match e.kind with
  | .crash x =>
    (time ++ "CRASH: " ++ x.type ++ ": " ++ x.reason) ::
      x.frames.map fun f =>
        "    " ++ address f.pc ++ " " ++ f.symbol ++ "+" ++ Text.ofInt f.offset.toNat
  | .nonFatal x => [time ++ "NON-FATAL: " ++ x.type ++ ": " ++ x.reason]
  | .notResponding reason => [time ++ "ANR: " ++ reason]
  | .log message => [time ++ "LOG: " ++ cut message]
  | .nativeExit info =>
    [time ++ "NATIVE EXIT: pid " ++ Text.ofInt info.pid.toInt ++ " (" ++ info.processName ++
      ") reason " ++ Text.ofInt info.reasonCode.toInt]

/-- A line for a value that may be missing. -/
def optionalLine (label : String) : Option String → List String
  | none => []
  | some s => [label ++ s]

/-- A report with its events. -/
def report (r : Report) : String :=
  let s := r.session
  lines <|
    ["Session: " ++ s.id.name,
     "App: " ++ r.app.identifier ++ " " ++ r.app.displayVersion ++ " (" ++ r.app.version ++ ")",
     "Started: " ++ CivilTime.formatMillis s.startTimeMillis CivilTime.dateToSecond] ++
    optionalLine "Ended: "
      (s.endTimeMillis.map fun t => CivilTime.formatMillis t CivilTime.dateToSecond) ++
    optionalLine "User: " s.userId ++
    optionalLine "Correlation: " s.correlationId ++
    ["Crashed: " ++ truth s.crashed ++ "  High priority: " ++ truth s.highPriority] ++
    optionalLine "Native files: " (r.nativePayload.map fun p => Text.ofInt p.files.length) ++
    [""] ++
    (if r.events.isEmpty then ["No events."] else []) ++
    r.events.flatMap event

/-- What a pass did. -/
def summary (s : Engine.Summary) : String :=
  lines
    ["Finalized " ++ Text.ofInt s.finalized ++ " session(s); evicted " ++ Text.ofInt s.evicted ++
      ", empty " ++ Text.ofInt s.empty ++ ", over open cap " ++ Text.ofInt s.overOpenCap ++
      ", failed " ++ Text.ofInt s.failed ++ "."]

end ReportVault.Command.View
