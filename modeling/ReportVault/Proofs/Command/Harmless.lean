import ReportVault.Proofs.Command.FindReport

/-!
# ReportVault.Proofs.Command.Harmless

When a command line changes nothing.

All that can fail is read before a command begins to change anything (`exists_run_resolve`), and
the commands that change something cannot fail once they do (`performTask_of_error`).  The caps of a
command are those that `capsAt?` finds in the files that the options name; there is no other way to
get any (`run_of_exitCode_eq_zero`).
-/

namespace ReportVault.Command

open FileSystem
open Retention (Caps)

/-! ## Arguments -/

/-- The commands that only look.  Without a session to purge nothing is purged. -/
def Task.looks : Task → Bool
  | .sessions => true
  | .reports _ => true
  | .showReport _ => true
  | .purge none => true
  | _ => false

namespace Arguments

variable {d next : Draft} {arg value : String} {options : Options} {task : Task}

theorem verb_of_place (h : place d arg = some next) : next.verb = d.verb := by
  rw [place] at h
  split at h
  · split at h
    · cases h
      rfl
    · cases h
  · cases h

theorem verb_of_map {β : Type} {o : Option β} {f : β → Draft} (h : o.map f = some next)
    (hf : ∀ b, (f b).verb = d.verb) : next.verb = d.verb := by
  obtain ⟨b, -, rfl⟩ := Option.map_eq_some_iff.1 h
  exact hf b

theorem verb_of_give {s : Setting} (h : give d s value = some next) : next.verb = d.verb := by
  cases s <;> simp only [give] at h <;> split at h
  case limit.isTrue => cases h
  case limit.isFalse => exact verb_of_map h fun _ => rfl
  case current.isTrue => cases h
  case current.isFalse =>
    cases h
    rfl
  all_goals exact verb_of_map h fun _ => rfl

theorem verb_of_switch {s : Switch} {attached : Option String}
    (h : switch d s attached = some (.more next)) : next.verb = d.verb := by
  cases s <;> cases attached <;> simp only [switch] at h
  case setting.none s =>
    cases h
    rfl
  case setting.some s value =>
    obtain ⟨given, hgive, hmore⟩ := Option.map_eq_some_iff.1 h
    cases hmore
    exact verb_of_give hgive
  case all.none =>
    split at h
    · cases h
    · cases h
      rfl
  all_goals cases h

theorem verb_of_short {letter : Char} {rest : List Char}
    (h : short d letter rest = some (.more next)) : next.verb = d.verb := by
  obtain ⟨s, -, hswitch⟩ := Option.bind_eq_some_iff.1 h
  split at hswitch <;> exact verb_of_switch hswitch

/-- An argument names the command, or the command stays the same. -/
theorem verb_of_step (h : step d arg = some (.more next)) :
    next.verb = d.verb ∨ next.verb = Verb.ofText? arg := by
  have hplace : ∀ {o : Option Draft}, o.map Progress.more = some (.more next) → o = some next := by
    intro o ho
    obtain ⟨given, rfl, hmore⟩ := Option.map_eq_some_iff.1 ho
    cases hmore
    rfl
  rw [step] at h
  split at h
  · exact Or.inl (verb_of_place (hplace h))
  split at h
  · cases h
    exact Or.inl rfl
  · obtain ⟨s, -, hswitch⟩ := Option.bind_eq_some_iff.1 h
    exact Or.inl (verb_of_switch hswitch)
  · exact Or.inl (verb_of_short h)
  · cases h
  · exact Or.inl (verb_of_give (hplace h))
  · split at h
    · exact Or.inl (verb_of_place (hplace h))
    · obtain ⟨verb, hverb, hmore⟩ := Option.map_eq_some_iff.1 h
      cases hmore
      exact Or.inr hverb.symm

/-- A switch that ends the arguments asks for no command. -/
theorem ne_perform_of_switch {s : Switch} {attached : Option String} {i : Invocation}
    (h : switch d s attached = some (.done i)) : i ≠ .perform options task := by
  cases s <;> cases attached <;> simp only [switch] at h
  case version.none | help.none =>
    cases h
    exact Invocation.noConfusion
  case all.none => split at h <;> cases h
  case setting.some =>
    obtain ⟨given, -, hmore⟩ := Option.map_eq_some_iff.1 h
    cases hmore
  all_goals cases h

/-- What ends the arguments early asks for no command. -/
theorem ne_perform_of_step {i : Invocation} (h : step d arg = some (.done i)) :
    i ≠ .perform options task := by
  have hmap : ∀ {o : Option Draft}, o.map Progress.more ≠ some (.done i) := by
    intro o ho
    obtain ⟨given, -, hmore⟩ := Option.map_eq_some_iff.1 ho
    cases hmore
  rw [step] at h
  split at h
  · exact absurd h hmap
  split at h
  · cases h
  · obtain ⟨s, -, hswitch⟩ := Option.bind_eq_some_iff.1 h
    exact ne_perform_of_switch hswitch
  · obtain ⟨s, -, hswitch⟩ := Option.bind_eq_some_iff.1 h
    split at hswitch <;> exact ne_perform_of_switch hswitch
  · cases h
  · exact absurd h hmap
  · split at h
    · exact absurd h hmap
    · obtain ⟨verb, -, hmore⟩ := Option.map_eq_some_iff.1 h
      cases hmore

/-- A command that changes something is one of two. -/
theorem verb_of_finish (h : finish d = some (.perform options task)) (htask : task.looks = false) :
    d.verb = some .finalize ∨ d.verb = some .purge := by
  simp only [finish] at h
  split at h
  · cases h
  split at h
  case h_5 hverb => exact Or.inl hverb
  case h_6 hverb => exact Or.inr hverb
  case h_4 =>
    obtain ⟨session, -, hperform⟩ := Option.map_eq_some_iff.1 h
    cases hperform
    cases htask
  all_goals
    cases h
    cases htask

/-- A command that changes something is named by one of the arguments, or has been. -/
theorem verb_of_parseFrom {args : List String}
    (h : parseFrom d args = some (.perform options task)) (htask : task.looks = false) :
    ∃ verb, (verb = .finalize ∨ verb = .purge) ∧
      (d.verb = some verb ∨ ∃ arg ∈ args, Verb.ofText? arg = some verb) := by
  induction args generalizing d with
  | nil =>
    rcases verb_of_finish h htask with hverb | hverb
    · exact ⟨.finalize, Or.inl rfl, Or.inl hverb⟩
    · exact ⟨.purge, Or.inr rfl, Or.inl hverb⟩
  | cons arg rest ih =>
    rw [parseFrom] at h
    split at h
    · split at h <;> cases h
    split at h
    · cases h
    · next i hstep => exact absurd (Option.some.inj h) (ne_perform_of_step hstep)
    · next next hstep =>
      obtain ⟨verb, hverb, hgiven⟩ := ih h
      refine ⟨verb, hverb, ?_⟩
      rcases hgiven with hnext | ⟨other, hother, hnamed⟩
      · rcases verb_of_step hstep with hsame | hnamed
        · exact Or.inl (hsame.symm.trans hnext)
        · exact Or.inr ⟨arg, List.mem_cons_self, hnamed.symm.trans hnext⟩
      · exact Or.inr ⟨other, List.mem_cons_of_mem _ hother, hnamed⟩

theorem Verb.eq_of_ofText? {s : String} {verb : Verb} (h : Verb.ofText? s = some verb) :
    (verb = .finalize → s = "finalize") ∧ (verb = .purge → s = "purge") := by
  simp only [Verb.ofText?] at h
  split_ifs at h with h1 h2 h3 h4 h5 <;> cases h <;> simp [*]

/-- A command line changes something only if one of its arguments says so. -/
theorem mem_of_parse? {args : List String} (h : parse? args = some (.perform options task))
    (htask : task.looks = false) : "finalize" ∈ args ∨ "purge" ∈ args := by
  obtain ⟨verb, hverb, hnone | ⟨arg, harg, hnamed⟩⟩ := verb_of_parseFrom h htask
  · cases hnone
  · rcases hverb with rfl | rfl
    · exact Or.inl ((Verb.eq_of_ofText? hnamed).1 rfl ▸ harg)
    · exact Or.inr ((Verb.eq_of_ofText? hnamed).2 rfl ▸ harg)

end Arguments

/-! ## Commands -/

section Performing

variable {σ : Type} {e : Engine (StateM σ)} (h : e.store.QuietReads)

include h

theorem quiet_findReport (session : String) : Quiet (findReport e session).run := fun s => by
  rw [run_findReport h]

/-- The commands that only look are quiet. -/
theorem quiet_performTask (caps : Caps) (now : Int64) {task : Task} (htask : task.looks = true) :
    Quiet (performTask e caps now task).run := by
  cases task with
  | sessions =>
    refine .bindExcept (.lift (Engine.quiet_openIds h)) fun ids => ?_
    refine .bindExcept (.lift (.mapM (fun id => ?_) ids)) fun _ => .pureExcept _
    exact .bind (Engine.quiet_startTime h id) fun _ => .pure _
  | reports limit =>
    exact .bindExcept (.lift (Engine.quiet_loadFinalized h)) fun _ => .pureExcept _
  | showReport session => exact .bindExcept (quiet_findReport h session) fun _ => .pureExcept _
  | purge session =>
    cases session with
    | none => exact .throw _
    | some session => cases htask
  | finalize current => cases htask
  | purgeAll => cases htask

/-- A command that fails has changed nothing. -/
theorem performTask_of_error {caps : Caps} {now : Int64} {task : Task} {s t : σ} {problem : Problem}
    (hrun : (performTask e caps now task).run s = (.error problem, t)) : t = s := by
  by_cases htask : task.looks = true
  · have hquiet := quiet_performTask h caps now htask s
    exact (congrArg Prod.snd hrun).symm.trans hquiet
  cases task with
  | finalize current => cases congrArg Prod.fst hrun
  | purgeAll => cases congrArg Prod.fst hrun
  | purge session =>
    cases session with
    | none => exact absurd rfl htask
    | some session =>
      have hfind := run_findReport h session s
      rw [performTask] at hrun
      cases hfound : resolveIn (e.loadFinalized s).1 session with
      | error problem =>
        rw [hfound] at hfind
        rw [run_bind_of_error hfind] at hrun
        exact (congrArg Prod.snd hrun).symm
      | ok r =>
        rw [hfound] at hfind
        rw [run_bind_of_ok hfind] at hrun
        cases congrArg Prod.fst hrun
  | _ => exact absurd rfl htask

end Performing

/-! ## Settings -/

section Settings

variable (top : Node)

/-- The text of the file at a path, or why it cannot be read. -/
def textAt (path : String) : Except Cause String :=
  match (top.perform (.read (Path.ofText path))).1 with
  | .error cause => .error cause
  | .ok contents => (Bytes.toText? contents).elim (.error .notText) .ok

/-- Whether there is anything at a path. -/
def isAt (path : String) : Bool := (isPresent inMemory path top).1

/-- The configuration at a path, empty without a file; none if the file cannot be read or is no
configuration. -/
def configAt? (path : String) : Option Config :=
  if isAt top path then (textAt top path).toOption.bind Config.parse? else some {}

/-- The caps at a path; none if the file cannot be read or gives no caps. -/
def settingsAt? (path : String) : Option Caps := (textAt top path).toOption.bind Caps.parse?

/-- The caps that the options lead to; none if a file that they name cannot be read or does not hold
what it should. -/
def capsAt? (options : Options) : Option Caps :=
  (configAt? top (options.config.getD defaultConfig)).bind fun config =>
    match options.settings with
    | some path => settingsAt? top path
    | none => some config.retention

theorem run_readText (path : String) : readText inMemory path top = (textAt top path, top) := by
  rw [textAt]
  show (match (top.perform (.read (Path.ofText path))).1 with
    | .error cause => (pure (.error cause) : StateM Node (Except Cause String))
    | .ok contents => match Bytes.toText? contents with
      | some s => pure (.ok s)
      | none => pure (.error .notText)) top = _
  cases (top.perform (.read (Path.ofText path))).1 with
  | error cause => rfl
  | ok contents =>
    show (match Bytes.toText? contents with
      | some s => (pure (.ok s) : StateM Node (Except Cause String))
      | none => pure (.error .notText)) top =
        ((Bytes.toText? contents).elim (.error .notText) .ok, top)
    cases Bytes.toText? contents <;> rfl

theorem run_isPresent (path : String) : isPresent inMemory path top = (isAt top path, top) := rfl

variable {top} in
/-- A file is read and its text is parsed; it fails if either fails. -/
theorem exists_run_parsed {α : Type} {path : String} {parse : String → Option α}
    {f : Except Cause String → ExceptT Problem (StateM Node) α}
    (hunreadable : ∀ cause, ∃ problem, f (.error cause) = throw problem)
    (hinvalid : ∀ s, parse s = none → ∃ problem, f (.ok s) = throw problem)
    (hparsed : ∀ s a, parse s = some a → f (.ok s) = pure a) :
    ∃ r, (liftM (readText inMemory path) >>= f).run top = (r, top) ∧
      r.toOption = (textAt top path).toOption.bind parse := by
  rw [run_bind_lift (run_readText top path)]
  cases textAt top path with
  | error cause =>
    obtain ⟨problem, hf⟩ := hunreadable cause
    exact ⟨.error problem, by rw [hf]; rfl, rfl⟩
  | ok s =>
    show ∃ r : Except Problem α, _ ∧ r.toOption = parse s
    cases hparse : parse s with
    | none =>
      obtain ⟨problem, hf⟩ := hinvalid s hparse
      exact ⟨.error problem, by rw [hf]; rfl, rfl⟩
    | some a => exact ⟨.ok a, by rw [hparsed s a hparse]; rfl, rfl⟩

theorem exists_run_loadConfig (path : String) :
    ∃ r, (loadConfig inMemory path).run top = (r, top) ∧ r.toOption = configAt? top path := by
  rw [loadConfig, run_bind_lift (run_isPresent top path), configAt?]
  cases isAt top path with
  | false => exact ⟨_, rfl, rfl⟩
  | true =>
    exact exists_run_parsed (fun _ => ⟨_, rfl⟩) (fun s hs => ⟨_, by simp only [hs]; rfl⟩)
      fun s config hs => by simp only [hs]

theorem exists_run_loadCaps (path : String) :
    ∃ r, (loadCaps inMemory path).run top = (r, top) ∧ r.toOption = settingsAt? top path :=
  exists_run_parsed (fun _ => ⟨_, rfl⟩) (fun s hs => ⟨_, by simp only [hs]; rfl⟩)
    fun s caps hs => by simp only [hs]

/-- The directory and the caps are read, and if there are any the caps are those of the files. -/
theorem exists_run_resolve (env : Environment) (options : Options) :
    ∃ r, (resolve inMemory env options).run top = (r, top) ∧
      ∀ target, r = .ok target → capsAt? top options = some target.2 := by
  obtain ⟨config?, hconfig, hat⟩ := exists_run_loadConfig top (options.config.getD defaultConfig)
  rw [resolve, capsAt?, ← hat]
  cases config? with
  | error problem => exact ⟨_, run_bind_of_error hconfig, fun _ he => by cases he⟩
  | ok config =>
    rw [run_bind_of_ok hconfig]
    cases (options.root.or config.root).or env.defaultRoot with
    | none => exact ⟨.error .noRoot, rfl, fun _ he => by cases he⟩
    | some root =>
      dsimp only
      rw [run_bind_lift (run_isPresent top root)]
      cases isAt top root with
      | false => exact ⟨.error (.rootNotFound root), rfl, fun _ he => by cases he⟩
      | true =>
        cases options.settings with
        | none =>
          exact ⟨.ok (root, config.retention), rfl, fun _ he => by cases he; rfl⟩
        | some path =>
          obtain ⟨caps?, hcaps, hsettings⟩ := exists_run_loadCaps top path
          cases caps? with
          | error problem =>
            exact ⟨.error problem, run_bind_of_error hcaps, fun _ he => by cases he⟩
          | ok caps =>
            refine ⟨.ok (root, caps), run_bind_of_ok hcaps, fun _ he => ?_⟩
            cases he
            exact hsettings.symm

end Settings

/-! ## Command lines -/

/-- The exit code of a run. -/
def exitCode : Except Problem String → Nat
  | .ok _ => 0
  | .error problem => problem.code

theorem exitCode_eq_zero_iff {answer : Except Problem String} :
    exitCode answer = 0 ↔ ∃ text, answer = .ok text := by
  cases answer with
  | ok text => exact iff_of_true rfl ⟨text, rfl⟩
  | error problem => cases problem <;> simp [exitCode, Problem.code]

section Running

variable (env : Environment) {args : List String} (top : Node)

/-- A command is performed with the caps of the files, or the command line fails and changes
nothing. -/
theorem run_perform {options : Options} {task : Task}
    (h : Arguments.parse? args = some (.perform options task)) :
    (∃ root caps, capsAt? top options = some caps ∧ (run inMemory env args).run top =
      (performTask (Engine.ofDirectory (Path.ofText root)) caps env.now task).run top) ∨
    ∃ problem, (run inMemory env args).run top = (.error problem, top) := by
  rw [run, h]
  dsimp only
  obtain ⟨target, hresolve, hcaps⟩ := exists_run_resolve top env options
  cases target with
  | error problem => exact Or.inr ⟨problem, run_bind_of_error hresolve⟩
  | ok target =>
    obtain ⟨root, caps⟩ := target
    refine Or.inl ⟨root, caps, hcaps _ rfl, ?_⟩
    rw [run_bind_of_ok hresolve]

/-- Without a command nothing is changed. -/
theorem run_snd_of_no_perform
    (h : ∀ options task, Arguments.parse? args ≠ some (.perform options task)) :
    ((run inMemory env args).run top).2 = top := by
  rw [run]
  rcases hparse : Arguments.parse? args with _ | _ | _ | _
  · rfl
  · exact absurd hparse (h _ _)
  · rfl
  · rfl

/-- A command that only looks changes nothing. -/
theorem run_snd_of_looks {options : Options} {task : Task}
    (h : Arguments.parse? args = some (.perform options task)) (htask : task.looks = true) :
    ((run inMemory env args).run top).2 = top := by
  rcases run_perform env top h with ⟨root, caps, -, hrun⟩ | ⟨problem, hrun⟩
  · rw [hrun]
    exact quiet_performTask (Store.quietReads_inDirectory _) caps env.now htask top
  · rw [hrun]

/-- A command line that fails changes nothing. -/
theorem run_snd_of_error {problem : Problem}
    (h : ((run inMemory env args).run top).1 = .error problem) :
    ((run inMemory env args).run top).2 = top := by
  by_cases hcommand : ∃ options task, Arguments.parse? args = some (.perform options task)
  · obtain ⟨options, task, hparse⟩ := hcommand
    rcases run_perform env top hparse with ⟨root, caps, -, hrun⟩ | ⟨problem, hrun⟩
    · rw [hrun] at h ⊢
      exact performTask_of_error (Store.quietReads_inDirectory _) (Prod.ext h rfl)
    · rw [hrun]
  · exact run_snd_of_no_perform env top fun options task hparse => hcommand ⟨options, task, hparse⟩

/-- A command line that names no command that changes something changes nothing. -/
theorem run_snd_of_not_mem (hfinalize : "finalize" ∉ args) (hpurge : "purge" ∉ args) :
    ((run inMemory env args).run top).2 = top := by
  by_cases hcommand : ∃ options task, Arguments.parse? args = some (.perform options task)
  · obtain ⟨options, task, hparse⟩ := hcommand
    cases htask : task.looks with
    | true => exact run_snd_of_looks env top hparse htask
    | false =>
      rcases Arguments.mem_of_parse? hparse htask with hnamed | hnamed
      · exact absurd hnamed hfinalize
      · exact absurd hnamed hpurge
  · exact run_snd_of_no_perform env top fun options task hparse => hcommand ⟨options, task, hparse⟩

/-- A command that succeeds has the caps of the files. -/
theorem run_of_exitCode_eq_zero {options : Options} {task : Task}
    (h : Arguments.parse? args = some (.perform options task))
    (hzero : exitCode ((run inMemory env args).run top).1 = 0) :
    ∃ root caps, capsAt? top options = some caps ∧ (run inMemory env args).run top =
      (performTask (Engine.ofDirectory (Path.ofText root)) caps env.now task).run top := by
  rcases run_perform env top h with hrun | ⟨problem, hrun⟩
  · exact hrun
  · obtain ⟨text, htext⟩ := exitCode_eq_zero_iff.1 hzero
    cases (congrArg Prod.fst hrun).symm.trans htext

/-- What a command line leaves as it is, whatever the tree and the environment are.  A run with an
exit code other than 0 changes nothing, and neither does one of a command that only looks, or one
without an argument that names another command.  A command that succeeds has the caps that the files
give which its options name; where one of them cannot be read or parsed it does not succeed. -/
theorem run_changes_nothing_unless (args : List String) :
    let outcome := (run inMemory env args).run top
    (exitCode outcome.1 ≠ 0 → outcome.2 = top) ∧
    (∀ options task, Arguments.parse? args = some (.perform options task) → task.looks = true →
      outcome.2 = top) ∧
    ("finalize" ∉ args → "purge" ∉ args → outcome.2 = top) ∧
    (∀ options task, Arguments.parse? args = some (.perform options task) →
      (capsAt? top options = none → exitCode outcome.1 ≠ 0) ∧
      (exitCode outcome.1 = 0 → ∃ root caps, capsAt? top options = some caps ∧ outcome =
        (performTask (Engine.ofDirectory (Path.ofText root)) caps env.now task).run top)) := by
  intro outcome
  refine ⟨fun hcode => ?_, fun options task hparse htask => run_snd_of_looks env top hparse htask,
    run_snd_of_not_mem env top, fun options task hparse => ⟨fun hnone hzero => ?_,
      run_of_exitCode_eq_zero env top hparse⟩⟩
  · cases hanswer : outcome.1 with
    | ok text => exact absurd (exitCode_eq_zero_iff.2 ⟨text, hanswer⟩) hcode
    | error problem => exact run_snd_of_error env top hanswer
  · obtain ⟨root, caps, hsome, -⟩ := run_of_exitCode_eq_zero env top hparse hzero
    rw [hnone] at hsome
    cases hsome

end Running

/-- `finalize` with a settings file that is not there, and without one. -/
theorem run_changes_nothing_unless_finalize :
    let top := Filed.tree Filed.nested
    let refused := (run inMemory { now := 0 }
      ["--root", "data", "--settings", "caps.toml", "finalize"]).run top
    let done := (run inMemory { now := 0 } ["--root", "data", "finalize"]).run top
    refused.2 = top ∧ exitCode done.1 = 0 ∧
      ∃ root caps, capsAt? top { root := "data" } = some caps ∧ done =
        (performTask (Engine.ofDirectory (Path.ofText root)) caps 0 (.finalize none)).run top := by
  intro top refused done
  have hrefused := run_changes_nothing_unless { now := 0 } top
    ["--root", "data", "--settings", "caps.toml", "finalize"]
  have hdone := run_changes_nothing_unless { now := 0 } top ["--root", "data", "finalize"]
  let options : Options := { root := "data", settings := "caps.toml" }
  have hnone : capsAt? top options = none := by decide +kernel
  have hcode : exitCode refused.1 ≠ 0 :=
    (hrefused.2.2.2 options (.finalize none) (by decide)).1 hnone
  have hzero : exitCode done.1 = 0 := rfl
  exact ⟨hrefused.1 hcode, hzero,
    (hdone.2.2.2 { root := "data" } (.finalize none) (by decide)).2 hzero⟩

end ReportVault.Command
