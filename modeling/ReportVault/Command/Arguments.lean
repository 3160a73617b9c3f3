import ReportVault.Text.Decimal

/-!
# ReportVault.Command.Arguments

The arguments of the command line.

```
[--root DIR] [--config FILE] [--settings FILE] [COMMAND]
sessions | reports [-l N] | show ID | finalize [-c ID] | purge [ID | --all] | help [COMMAND]
```

The three options may stand before or after the command; where one stands on both sides, the one
behind counts.  On one side no option may be given twice.  `Arguments.parse?` takes in one argument
after the other.
-/

namespace ReportVault.Command

/-- What is to be done. -/
inductive Task
  | sessions
  | reports (limit : Nat)
  | showReport (session : String)
  | finalize (current : Option String)
  | purge (session : Option String)
  | purgeAll
  deriving DecidableEq, Repr

/-- The options that go with every command. -/
structure Options where
  root : Option String := none
  config : Option String := none
  settings : Option String := none
  deriving DecidableEq, Repr

/-- Options on the right of others: what is given there counts. -/
def Options.over (back front : Options) : Options :=
  ⟨back.root.or front.root, back.config.or front.config, back.settings.or front.settings⟩

/-- What a command line asks for. -/
inductive Invocation
  | perform (options : Options) (task : Task)
  | version
  | help
  deriving DecidableEq, Repr

namespace Arguments

/-- The names of the commands. -/
inductive Verb
  | sessions
  | reports
  | showReport
  | finalize
  | purge
  deriving DecidableEq, Repr

/-- The command that an argument names. -/
def Verb.ofText? (s : String) : Option Verb :=
  if s = "sessions" then some .sessions
  else if s = "reports" then some .reports
  else if s = "show" then some .showReport
  else if s = "finalize" then some .finalize
  else if s = "purge" then some .purge
  else none

/-- Whether the command takes a session behind its name. -/
def Verb.takesSession : Verb → Bool
  | .showReport => true
  | .purge => true
  | _ => false

/-- The options with a value. -/
inductive Setting
  | root
  | config
  | settings
  | limit
  | current
  deriving DecidableEq, Repr

/-- An argument that begins with a dash. -/
inductive Switch
  | setting (s : Setting)
  | all
  | version
  | help
  deriving DecidableEq, Repr

/-- The switch with a long name, as far as the command allows it. -/
def longSwitch? (verb : Option Verb) (name : String) : Option Switch :=
  if name = "root" then some (.setting .root)
  else if name = "config" then some (.setting .config)
  else if name = "settings" then some (.setting .settings)
  else if name = "limit" ∧ verb = some .reports then some (.setting .limit)
  else if name = "current" ∧ verb = some .finalize then some (.setting .current)
  else if name = "all" ∧ verb = some .purge then some .all
  else if name = "version" ∧ verb = none then some .version
  else if name = "help" then some .help
  else none

/-- The switch with a letter, as far as the command allows it. -/
def shortSwitch? (verb : Option Verb) (letter : Char) : Option Switch :=
  if letter = 'l' ∧ verb = some .reports then some (.setting .limit)
  else if letter = 'c' ∧ verb = some .finalize then some (.setting .current)
  else if letter = 'V' ∧ verb = none then some .version
  else if letter = 'h' then some .help
  else none

/-- What has been given so far. -/
structure Draft where
  front : Options := {}
  back : Options := {}
  verb : Option Verb := none
  limit : Option Nat := none
  current : Option String := none
  all : Bool := false
  session : Option String := none
  /-- The option whose value the next argument is. -/
  pending : Option Setting := none
  /-- Whether all that follows stands for itself, dashes or not. -/
  literal : Bool := false
  deriving DecidableEq, Repr

/-- A count: digits after an optional plus sign, below 2^64. -/
def count? (s : String) : Option Nat :=
  let digits := match s.toList with
    | '+' :: ds => ds
    | ds => ds
  (Text.natOfDigits? digits).filter fun n => n < UInt64.size

/-- One of the options that go with every command is given. -/
def giveOption (o : Options) (s : Setting) (value : String) : Option Options :=
  if value.isEmpty then none
  else match s with
    | .root => if o.root.isSome then none else some { o with root := some value }
    | .config => if o.config.isSome then none else some { o with config := some value }
    | .settings => if o.settings.isSome then none else some { o with settings := some value }
    | _ => none

/-- An option is given a value.  No option may be given twice. -/
def give (d : Draft) (s : Setting) (value : String) : Option Draft :=
  match s with
  | .limit =>
    if d.limit.isSome then none
    else (count? value).map fun n => { d with limit := some n, pending := none }
  | .current =>
    if d.current.isSome then none else some { d with current := some value, pending := none }
  | _ =>
    if d.verb.isNone then
      (giveOption d.front s value).map fun o => { d with front := o, pending := none }
    else (giveOption d.back s value).map fun o => { d with back := o, pending := none }

/-- An argument that stands for itself: the session of a command. -/
def place (d : Draft) (arg : String) : Option Draft :=
  match d.verb with
  | some verb =>
    if verb.takesSession ∧ d.session.isNone then some { d with session := some arg } else none
  | none => none

/-- The arguments so far ask for something, or more may follow. -/
inductive Progress
  | more (d : Draft)
  | done (i : Invocation)
  deriving DecidableEq, Repr

/-- A switch with the value that is attached to it, if there is one. -/
def switch (d : Draft) (s : Switch) (attached : Option String) : Option Progress :=
  match s, attached with
  | .setting s, some value => (give d s value).map .more
  | .setting s, none => some (.more { d with pending := some s })
  | .all, none => if d.all then none else some (.more { d with all := true })
  | .version, none => some (.done .version)
  | .help, none => some (.done .help)
  | _, some _ => none

/-- The characters before the first equals sign, and those after it, if there is one. -/
def splitAtEquals (cs : List Char) : List Char × Option (List Char) :=
  match cs.span (· != '=') with
  | (name, []) => (name, none)
  | (name, _ :: value) => (name, some value)

/-- A short switch: a letter, and a value right behind it or behind an equals sign. -/
def short (d : Draft) (letter : Char) (rest : List Char) : Option Progress := do
  let s ← shortSwitch? d.verb letter
  match s, rest with
  | .setting s, '=' :: value => switch d (.setting s) (some (String.ofList value))
  | .setting s, c :: value => switch d (.setting s) (some (String.ofList (c :: value)))
  | s, _ => switch d s none

/-- Take in one argument. -/
def step (d : Draft) (arg : String) : Option Progress :=
  if d.literal then (place d arg).map .more
  else match d.pending, arg.toList with
    | none, ['-', '-'] => some (.more { d with literal := true })
    | none, '-' :: '-' :: cs =>
      let (name, value) := splitAtEquals cs
      (longSwitch? d.verb (String.ofList name)).bind fun s =>
        switch d s (value.map String.ofList)
    | none, '-' :: letter :: rest => short d letter rest
    | some _, '-' :: _ :: _ => none
    | some s, _ => (give d s arg).map .more
    | none, _ =>
      if d.verb.isSome then (place d arg).map .more
      else (Verb.ofText? arg).map fun verb => .more { d with verb := some verb }

/-- What the arguments ask for, once all are taken in. -/
def finish (d : Draft) : Option Invocation :=
  let options := d.back.over d.front
  if d.pending.isSome then none
  else match d.verb with
    | none => some (.perform options .sessions)
    | some .sessions => some (.perform options .sessions)
    | some .reports => some (.perform options (.reports (d.limit.getD 10)))
    | some .showReport => d.session.map fun s => .perform options (.showReport s)
    | some .finalize => some (.perform options (.finalize d.current))
    | some .purge =>
      if d.all then (if d.session.isSome then none else some (.perform options .purgeAll))
      else some (.perform options (.purge d.session))

/-- Whether `help` may stand before the arguments: there is one at most, and it names a command. -/
def asksForHelp : List String → Bool
  | [] => true
  | [arg] => (Verb.ofText? arg).isSome || arg == "help"
  | _ => false

/-- Take in all arguments. -/
def parseFrom (d : Draft) : List String → Option Invocation
  | [] => finish d
  | arg :: rest =>
    if d.verb.isNone && d.pending.isNone && !d.literal && arg == "help" then
      if asksForHelp rest then some .help else none
    else match step d arg with
      | none => none
      | some (.done invocation) => some invocation
      | some (.more d) => parseFrom d rest

/-- What a command line asks for, or none if it is not a command line. -/
def parse? (args : List String) : Option Invocation := parseFrom {} args

end Arguments

end ReportVault.Command
