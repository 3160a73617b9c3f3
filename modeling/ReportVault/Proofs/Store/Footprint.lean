import ReportVault.Proofs.Engine.Simulation
import ReportVault.Proofs.FileSystem.Footprint
import ReportVault.Proofs.Store.Shelves

/-!
# ReportVault.Proofs.Store.Footprint

What a store in a directory asks of its file system.

`Call.Asks` says for every call of the store which files and directories it may change, and
`Call.DrawsIn` in which directory it draws the name of a temporary file.  A call asks for nothing
else: over file systems that agree on such effects, the stores agree on the call (`agree_perform`).
One file system agrees with itself where an invariant holds that such effects keep
(`FileSystem.Keeps.agrees`), and the file system that notes the effects agrees with the plain one
(`FileSystem.agrees_tracing`).
-/

namespace ReportVault

open FileSystem

/-! ## File systems that agree -/

/-- The file systems agree on calls with such effects. -/
def FileSystem.Agrees (S : σ → τ → Prop) (F : Effect → Prop) (files : FileSystem (StateM σ))
    (others : FileSystem (StateM τ)) : Prop :=
  ∀ {α : Type} (call : FileSystem.Call α), (∀ effect ∈ call.effects, F effect) →
    Agree S Whatever (files.perform call) (others.perform call)

theorem FileSystem.Keeps.agrees {files : FileSystem (StateM σ)} {I : σ → Prop} {F : Effect → Prop}
    (h : files.Keeps I F) : files.Agrees (fun y z => y = z ∧ I y) F files := by
  rintro α call hcall s _ ⟨rfl, hs⟩
  exact ⟨rfl, trivial, rfl, h call hcall s hs⟩

/-- Noting the effects makes no difference. -/
theorem FileSystem.agrees_tracing (files : FileSystem (StateM σ)) :
    files.tracing.Agrees (fun s t => s.1 = t) (fun _ => True) files := by
  rintro α call - s _ rfl
  exact ⟨rfl, trivial, rfl⟩

namespace Store

/-! ## What is asked for -/

/-- The files and directories that a call may change, but for temporary files. -/
def Call.Asks (root : Path) (effect : Effect) : Call α → Prop
  | .write id name _ => isPlainName id.name = true ∧
      (effect = .makes ((root.child openSessions).child id.name) ∨
        effect = .writes (((root.child openSessions).child id.name).child name))
  | .delete id name => isPlainName id.name = true ∧
      effect = .drops (((root.child openSessions).child id.name).child name)
  | .deleteSession id => isPlainName id.name = true ∧
      effect = .clears ((root.child openSessions).child id.name)
  | .writeReport id tier _ => isPlainName id.name = true ∧
      (effect = .makes (root.child tier.directory) ∨
        effect = .writes ((root.child tier.directory).child id.name) ∨
        ∃ other : Tier, effect = .drops ((root.child other.directory).child id.name))
  | .deleteReport id => isPlainName id.name = true ∧
      ∃ tier : Tier, effect = .drops ((root.child tier.directory).child id.name)
  | .deleteAll => effect = .clears (root.child openSessions) ∨
      ∃ tier : Tier, effect = .clears (root.child tier.directory)
  | _ => False

/-- The directory in which a call writes a temporary file. -/
def Call.DrawsIn (root directory : Path) : Call α → Prop
  | .write id _ _ => isPlainName id.name = true ∧
      directory = (root.child openSessions).child id.name
  | .writeReport id tier _ => isPlainName id.name = true ∧ directory = root.child tier.directory
  | _ => False

/-! ## One file -/

variable {σ τ : Type} {S : σ → τ → Prop} {files : FileSystem (StateM σ)}
  {others : FileSystem (StateM τ)} {F : Effect → Prop} {root : Path}

/-- In the directory names of temporary files are drawn that may be used. -/
def MayDrawIn (S : σ → τ → Prop) (files : FileSystem (StateM σ)) (F : Effect → Prop)
    (directory : Path) : Prop :=
  ∀ s t name, S s t → (files.perform (.spareName directory) s).1 = .ok name →
    F (.writes (directory.child name)) ∧ F (.drops (directory.child name))

namespace Directory

variable {path : Path} {operation : Operation} {Q : α → Prop} (h : files.Agrees S F others)

include h

theorem agree_answer {call : FileSystem.Call α} (hcall : ∀ effect ∈ call.effects, F effect) :
    Agree S (fun r => ∃ s t, S s t ∧ (files.perform call s).1 = r)
      (files.perform call) (others.perform call) := by
  intro s t hs
  obtain ⟨heq, -, hafter⟩ := h call hcall s t hs
  exact ⟨heq, ⟨s, t, hs, rfl⟩, hafter⟩

theorem agree_attempt {call : FileSystem.Call α} (hcall : ∀ effect ∈ call.effects, F effect)
    (hQ : ∀ s t a, S s t → (files.perform call s).1 = .ok a → Q a) :
    AgreeExcept S Q ((Directory.mk files root).attempt operation path call)
      ((Directory.mk others root).attempt operation path call) := by
  refine Agree.bind (agree_answer h hcall) fun r hr => ?_
  obtain ⟨s, t, hs, hrun⟩ := hr
  cases r with
  | ok a => exact Agree.pure fun _ ha => Except.ok.inj ha ▸ hQ s t a hs hrun
  | error cause => exact Agree.pure (by simp)

/-- The same where nothing is said of the answer. -/
theorem agree_attempt_any {call : FileSystem.Call α}
    (hcall : ∀ effect ∈ call.effects, F effect) :
    AgreeExcept S Whatever ((Directory.mk files root).attempt operation path call)
      ((Directory.mk others root).attempt operation path call) :=
  agree_attempt h hcall fun _ _ _ _ _ => trivial

theorem agree_attemptOr (absent : α) {call : FileSystem.Call α}
    (hcall : ∀ effect ∈ call.effects, F effect) :
    AgreeExcept S Whatever ((Directory.mk files root).attemptOr absent operation path call)
      ((Directory.mk others root).attemptOr absent operation path call) := by
  refine Agree.bind (agree_answer h hcall) fun r _ => ?_
  split <;> exact Agree.pure fun _ _ => trivial

theorem agree_removeFile (hpath : F (.drops path)) :
    AgreeExcept S Whatever ((Directory.mk files root).removeFile path)
      ((Directory.mk others root).removeFile path) :=
  agree_attemptOr h () (by simpa [Call.effects] using hpath)

theorem agree_removeDirectory (hpath : F (.clears path)) :
    AgreeExcept S Whatever ((Directory.mk files root).removeDirectory path)
      ((Directory.mk others root).removeDirectory path) :=
  agree_attemptOr h () (by simpa [Call.effects] using hpath)

theorem agree_readIfPresent :
    AgreeExcept S Whatever ((Directory.mk files root).readIfPresent path)
      ((Directory.mk others root).readIfPresent path) := by
  refine Agree.bind (agree_answer h (by simp [Call.effects])) fun r _ => ?_
  split <;> exact Agree.pure fun _ _ => trivial

theorem agree_names (kind : EntryKind) :
    AgreeExcept S Whatever ((Directory.mk files root).names path kind)
      ((Directory.mk others root).names path kind) :=
  AgreeExcept.bind (agree_attemptOr h _ (by simp [Call.effects])) fun _ _ =>
    AgreeExcept.pure trivial

theorem agree_namesOfTier (tier : Tier) :
    AgreeExcept S Whatever ((Directory.mk files root).namesOfTier tier)
      ((Directory.mk others root).namesOfTier tier) :=
  AgreeExcept.bind (agree_names h _) fun _ _ => AgreeExcept.pure trivial

theorem agree_readFrom (id : SessionId) (tiers : List Tier) :
    AgreeExcept S Whatever ((Directory.mk files root).readFrom id tiers)
      ((Directory.mk others root).readFrom id tiers) := by
  induction tiers with
  | nil => exact AgreeExcept.pure trivial
  | cons tier rest ih =>
    refine AgreeExcept.bind (AgreeExcept.liftExcept _) fun path _ => ?_
    refine AgreeExcept.bind (agree_readIfPresent h) fun found _ => ?_
    cases found with
    | some contents => exact AgreeExcept.pure trivial
    | none => exact ih

theorem agree_removeFrom {id : SessionId} (tiers : List Tier)
    (hreport : isPlainName id.name = true → ∀ tier : Tier,
      F (.drops ((root.child tier.directory).child id.name))) :
    AgreeExcept S Whatever ((Directory.mk files root).removeFrom id tiers)
      ((Directory.mk others root).removeFrom id tiers) := by
  induction tiers with
  | nil => exact AgreeExcept.pure trivial
  | cons tier rest ih =>
    refine AgreeExcept.bind (AgreeExcept.liftExcept_eq _) fun path hpath => ?_
    obtain ⟨hid, rfl⟩ := (reportPath_eq_ok_iff _).1 hpath
    exact AgreeExcept.bind (agree_removeFile h (hreport hid tier)) fun _ _ => ih

theorem agree_removeTiers (tiers : List Tier)
    (htier : ∀ tier : Tier, F (.clears (root.child tier.directory))) :
    AgreeExcept S Whatever ((Directory.mk files root).removeTiers tiers)
      ((Directory.mk others root).removeTiers tiers) := by
  induction tiers with
  | nil => exact AgreeExcept.pure trivial
  | cons tier rest ih =>
    exact AgreeExcept.bind (agree_removeDirectory h (htier tier)) fun _ _ => ih

/-- A file is written at its own path, after a temporary one beside it. -/
theorem agree_writeAtomically {name : String} (hmake : F (.makes path))
    (hdraw : MayDrawIn S files F path) (hname : F (.writes (path.child name)))
    (contents : Bytes) :
    AgreeExcept S Whatever ((Directory.mk files root).writeAtomically path name contents)
      ((Directory.mk others root).writeAtomically path name contents) := by
  refine AgreeExcept.bind (agree_attempt_any h (by simpa [Call.effects] using hmake))
    fun _ _ => ?_
  refine AgreeExcept.bind (agree_attempt h (by simp [Call.effects])
    fun s t spare hs hspare => hdraw s t spare hs hspare) fun spare hspare => ?_
  refine AgreeExcept.bind (agree_attempt_any h (by simpa [Call.effects] using hspare.1))
    fun _ _ => ?_
  refine AgreeExcept.tryCatch (agree_attempt_any h (by
    simpa [Call.effects] using ⟨hspare.2, hname⟩)) fun failure => ?_
  exact AgreeExcept.bind (AgreeExcept.lift (agree_answer h (by
    simpa [Call.effects] using hspare.2))) fun _ _ => AgreeExcept.throw failure

end Directory

/-! ## Calls -/

/-- The event files that are listed have the names of event files. -/
theorem agree_slots (h : files.Agrees S F others) (id : SessionId) :
    AgreeExcept S (fun found => ∀ slot ∈ found, Slot.ofFileName? slot.fileName = some slot)
      ((inDirectory files root).perform (.slots id))
      ((inDirectory others root).perform (.slots id)) := by
  refine AgreeExcept.bind (AgreeExcept.liftExcept _) fun path _ => ?_
  refine AgreeExcept.bind (Directory.agree_names h _) fun names _ => AgreeExcept.pure ?_
  intro slot hslot
  obtain ⟨name, -, hname⟩ := List.mem_filterMap.1 (List.mem_mergeSort.1 hslot)
  rw [Slot.fileName_of_ofFileName? hname, hname]

/-- The call asks for nothing but such effects. -/
structure Call.IsPermitted (S : σ → τ → Prop) (files : FileSystem (StateM σ)) (F : Effect → Prop)
    (root : Path) (call : Call α) : Prop where
  asks : ∀ effect, call.Asks root effect → F effect
  draws : ∀ directory, call.DrawsIn root directory → MayDrawIn S files F directory

/-- A call keeps an invariant that is kept by what it asks for. -/
theorem agree_perform (h : files.Agrees S F others) {call : Call α}
    (hcall : call.IsPermitted S files F root) :
    AgreeExcept S Whatever ((inDirectory files root).perform call)
      ((inDirectory others root).perform call) := by
  obtain ⟨hasks, hdraws⟩ := hcall
  cases call with
  | write id name contents =>
    refine AgreeExcept.bind (AgreeExcept.liftExcept_eq _) fun directory hdirectory => ?_
    obtain ⟨hid, rfl⟩ := (Directory.sessionPath_eq_ok_iff _).1 hdirectory
    exact Directory.agree_writeAtomically h (hasks _ ⟨hid, Or.inl rfl⟩)
      (hdraws _ ⟨hid, rfl⟩) (hasks _ ⟨hid, Or.inr rfl⟩) contents
  | read id name =>
    exact AgreeExcept.bind (AgreeExcept.liftExcept _) fun _ _ =>
      Directory.agree_readIfPresent h
  | delete id name =>
    refine AgreeExcept.bind (AgreeExcept.liftExcept_eq _) fun directory hdirectory => ?_
    obtain ⟨hid, rfl⟩ := (Directory.sessionPath_eq_ok_iff _).1 hdirectory
    exact Directory.agree_removeFile h (hasks _ ⟨hid, rfl⟩)
  | slots id => exact (agree_slots h id).mono fun _ _ => trivial
  | openIds =>
    exact AgreeExcept.bind (Directory.agree_names h _) fun _ _ => AgreeExcept.pure trivial
  | deleteSession id =>
    refine AgreeExcept.bind (AgreeExcept.liftExcept_eq _) fun directory hdirectory => ?_
    obtain ⟨hid, rfl⟩ := (Directory.sessionPath_eq_ok_iff _).1 hdirectory
    exact Directory.agree_removeDirectory h (hasks _ ⟨hid, rfl⟩)
  | reportIds =>
    refine AgreeExcept.bind (Directory.agree_namesOfTier h _) fun _ _ => ?_
    refine AgreeExcept.bind (Directory.agree_namesOfTier h _) fun _ _ => ?_
    exact AgreeExcept.bind (Directory.agree_namesOfTier h _) fun _ _ =>
      AgreeExcept.pure trivial
  | readReport id => exact Directory.agree_readFrom h id _
  | writeReport id tier contents =>
    refine AgreeExcept.bind (AgreeExcept.liftExcept_eq _) fun checked hchecked => ?_
    obtain ⟨hid, rfl⟩ := checkedName_eq_ok_iff.1 hchecked
    refine AgreeExcept.bind (Directory.agree_writeAtomically h
      (hasks _ ⟨hid, Or.inl rfl⟩) (hdraws _ ⟨hid, rfl⟩)
      (hasks _ ⟨hid, Or.inr (Or.inl rfl)⟩) contents) fun _ _ => ?_
    exact Directory.agree_removeFrom h _ fun _ other =>
      hasks _ ⟨hid, Or.inr (Or.inr ⟨other, rfl⟩)⟩
  | deleteReport id =>
    exact Directory.agree_removeFrom h _ fun hid tier => hasks _ ⟨hid, tier, rfl⟩
  | deleteAll =>
    refine AgreeExcept.bind (Directory.agree_removeDirectory h (hasks _ (Or.inl rfl)))
      fun _ _ => ?_
    exact Directory.agree_removeTiers h _ fun tier => hasks _ (Or.inr ⟨tier, rfl⟩)

/-- What only looks leaves any tree as it is. -/
theorem run_perform_of_isRead (root : Path) (top : Node) {call : Call α}
    (hread : call.isRead = true) : (((inDirectory inMemory root).perform call).run top).2 = top := by
  have hcall : call.IsPermitted (fun y z => y = z ∧ y = top) inMemory (fun _ => False) root := by
    constructor <;> cases call <;> simp_all [Call.isRead, Call.Asks, Call.DrawsIn]
  exact (agree_perform (FileSystem.Keeps.agrees (keeps_eq top)) hcall top top ⟨rfl, rfl⟩).2.2.2

end Store

end ReportVault
