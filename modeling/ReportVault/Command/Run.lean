import ReportVault.Command.Arguments
import ReportVault.Command.View
import ReportVault.Config
import ReportVault.Engine.Finalize
import ReportVault.Store.Directory
import ReportVault.Text.Quoted

/-!
# ReportVault.Command.Run

Performing the commands.

Everything that can fail is read before a command begins to change anything.
-/

namespace ReportVault.Command

open FileSystem (Path Cause)
open Retention (Caps)

/-- Why a command failed. -/
inductive Problem
  /-- The arguments are no command line. -/
  | usage
  | rootNotFound (path : String)
  | noRoot
  | reportNotFound (session : String)
  | ambiguous (session : String) (found : List SessionId)
  | nothingToPurge
  | configUnreadable (cause : Cause)
  | configInvalid (reason : String)
  | settingsUnreadable (cause : Cause)
  | settingsInvalid (reason : String)
  deriving DecidableEq, Repr

namespace Problem

/-- The words for a problem. -/
def message : Problem → String
  | .usage => "unexpected arguments"
  | .rootNotFound path => "no crash data found at " ++ path
  | .noRoot => "no report directory configured: pass --root or set root in crashstore.toml"
  | .reportNotFound session => "no report found matching '" ++ session ++ "'"
  | .ambiguous session found =>
    "multiple reports match '" ++ session ++ "': " ++ Text.quotedList (found.map (·.name))
  | .nothingToPurge => "nothing to purge: pass a session id or --all"
  | .configUnreadable cause => "failed to read config: " ++ cause.message
  | .configInvalid reason => "failed to parse config: " ++ reason
  | .settingsUnreadable cause => "IO error: " ++ cause.message
  | .settingsInvalid reason => "failed to parse retention settings: " ++ reason

/-- The exit code. -/
def code : Problem → Nat
  | .usage => 2
  | _ => 1

end Problem

/-- What a command depends on besides its arguments and the files. -/
structure Environment where
  /-- The home directory. -/
  home : Option String := none
  /-- The directory for the data of applications. -/
  dataHome : Option String := none
  /-- The time in milliseconds. -/
  now : Int64
  deriving Repr

/-- The path text of an entry of a directory. -/
def joinText (directory name : String) : String :=
  if directory.isEmpty || directory.toList.getLast? == some '/' then directory ++ name
  else directory ++ "/" ++ name

/-- The directory of the store if none is given. -/
def Environment.defaultRoot (env : Environment) : Option String :=
  (env.dataHome.or (env.home.map fun home => joinText home ".local/share")).map fun base =>
    joinText base "crashstore"

/-- The configuration file if none is given. -/
def defaultConfig : String := "crashstore.toml"

section

variable {m : Type → Type} [Monad m] (files : FileSystem m)

/-- The text of a file. -/
def readText (path : String) : m (Except Cause String) := do
  match ← files.perform (.read (Path.ofText path)) with
  | .error cause => return .error cause
  | .ok contents =>
    match Bytes.toText? contents with
    | some s => return .ok s
    | none => return .error .notText

/-- Whether there is anything at a path. -/
def isPresent (path : String) : m Bool := do
  match ← files.perform (.isPresent (Path.ofText path)) with
  | .ok b => return b
  | .error _ => return false

/-- The configuration; without a file it is empty. -/
def loadConfig (path : String) : ExceptT Problem m Config := do
  if !(← (isPresent files path : m Bool)) then return {}
  match ← (readText files path : m (Except Cause String)) with
  | .error cause => throw (.configUnreadable cause)
  | .ok s =>
    match Config.parse? s with
    | some config => return config
    | none => throw (.configInvalid "")

/-- The caps in a settings file. -/
def loadCaps (path : String) : ExceptT Problem m Caps := do
  match ← (readText files path : m (Except Cause String)) with
  | .error cause => throw (.settingsUnreadable cause)
  | .ok s =>
    match Caps.parse? s with
    | some caps => return caps
    | none => throw (.settingsInvalid "")

/-- The directory of the store and the caps. -/
def resolve (env : Environment) (options : Options) : ExceptT Problem m (String × Caps) := do
  let config ← loadConfig files (options.config.getD defaultConfig)
  let some root := (options.root.or config.root).or env.defaultRoot | throw .noRoot
  if !(← (isPresent files root : m Bool)) then throw (.rootNotFound root)
  match options.settings with
  | some path => return (root, ← loadCaps files path)
  | none => return (root, config.retention)

end

section

variable {m : Type → Type} [Monad m] (e : Engine m)

/-- Whether an argument is how an identifier begins. -/
def matchesId (session : String) (id : SessionId) : Bool :=
  session.toList.isPrefixOf id.name.toList

/-- The one report whose session begins like the argument. -/
def findReport (session : String) : ExceptT Problem m Report := do
  let loaded ← (e.loadFinalized : m _)
  match loaded.filter fun (id, _) => matchesId session id with
  | [] => throw (.reportNotFound session)
  | [(_, report)] => return report
  | found => throw (.ambiguous session (found.map (·.1)))

/-- Perform a command and answer what it prints. -/
def performTask (caps : Caps) (now : Int64) : Task → ExceptT Problem m String
  | .sessions => do
    let ids ← (e.openIds : m _)
    let rows ← (ids.mapM (fun id => do return (id, ← e.startTime id)) : m _)
    return View.sessions rows
  | .reports limit => do
    let loaded ← (e.loadFinalized : m _)
    return View.reports loaded limit
  | .showReport session => do return View.report (← findReport e session)
  | .finalize current => do
    let summary ← (e.finalize caps (current.map SessionId.mk) now : m _)
    return View.summary summary
  | .purgeAll => do
    (e.deleteAll : m Unit)
    return View.lines ["Deleted all reports."]
  | .purge none => throw .nothingToPurge
  | .purge (some session) => do
    let report ← findReport e session
    (e.deleteReport report.id : m Unit)
    return View.lines ["Deleted report " ++ report.id.name ++ "."]

end

/-- The version of the program. -/
def versionLine : String := View.lines ["crashstore 0.1.0"]

/-- The forms of the command line. -/
def helpText : String :=
  View.lines
    ["Inspect and maintain an on-device crash report store",
     "",
     "Usage: crashstore [OPTIONS] [COMMAND]",
     "",
     "Commands:",
     "  sessions  List open sessions, oldest first",
     "  reports   List finalized reports, most recent first",
     "  show      Show the events of a finalized report",
     "  finalize  Finalize every open session except the current one",
     "  purge     Delete one finalized report, or everything",
     "  help      Print this message or the help of the given subcommand(s)",
     "",
     "Options:",
     "      --root <ROOT>          Report directory (overrides config file)",
     "      --config <CONFIG>      Config file [default: crashstore.toml]",
     "      --settings <SETTINGS>  Retention settings file (overrides [retention] in the config)",
     "  -h, --help                 Print help",
     "  -V, --version              Print version"]

/-- Run a command line over a file system and answer what it prints. -/
def run [Monad m] (files : FileSystem m) (env : Environment) (args : List String) :
    ExceptT Problem m String := do
  match Arguments.parse? args with
  | none => throw .usage
  | some .version => return versionLine
  | some .help => return helpText
  | some (.perform options task) =>
    let (root, caps) ← resolve files env options
    performTask { store := Store.inDirectory files (Path.ofText root) } caps env.now task

end ReportVault.Command
