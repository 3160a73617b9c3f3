import ReportVault.Proofs.Store.Change
import ReportVault.Proofs.Store.Footprint

/-!
# ReportVault.Proofs.Store.WrittenFiles

The files that a store in a directory writes, temporary ones included.

`FileSystem.recording` notes the path of every file that a file system is asked for.  A call of the
store asks for a file in the directory of a session only if it writes a file of that session: for the
file itself and for a temporary one, whose name is hidden.  So whatever is asked of the names of the
files that are not hidden need only be asked of those in the calls (`Store.agree_written`).
-/

namespace ReportVault

open FileSystem

/-! ## Recording -/

/-- The path of the file that a call makes or replaces. -/
def FileSystem.Call.written? : FileSystem.Call α → Option Path
  | .write path _ => some path
  | .rename _ target => some target
  | _ => none

theorem FileSystem.Call.writes_mem_effects {call : FileSystem.Call α} {path : Path}
    (h : call.written? = some path) : .writes path ∈ call.effects := by
  cases call <;> simp only [written?, Option.some.injEq, reduceCtorEq] at h <;> subst h <;>
    simp [effects]

/-- A file system that notes the paths of the files that it is asked for, whether they can be written
or not. -/
def FileSystem.recording (files : FileSystem (StateM σ)) : FileSystem (StateM (σ × List Path)) :=
  ⟨fun call (s, written) =>
    ((files.perform call s).1, (files.perform call s).2, written ++ call.written?.toList)⟩

/-- A file system in which the calls that `fails` picks fail before anything is done. -/
def FileSystem.failing (files : FileSystem (StateM σ))
    (fails : {α : Type} → FileSystem.Call α → σ → Option Cause) : FileSystem (StateM σ) :=
  ⟨fun call s =>
    match fails call s with
    | some cause => (.error cause, s)
    | none => files.perform call s⟩

/-- What a call answers was answered by the file system in which it does not fail. -/
theorem FileSystem.answer_of_failing {files : FileSystem (StateM σ)}
    {fails : {α : Type} → FileSystem.Call α → σ → Option Cause} {call : FileSystem.Call α} {s : σ}
    {a : α} (h : ((files.failing fails).perform call s).1 = .ok a) :
    (files.perform call s).1 = .ok a := by
  simp only [FileSystem.failing] at h
  cases hfails : fails call s with
  | some cause =>
    rw [hfails] at h
    cases h
  | none => rwa [hfails] at h

/-- Calls that fail keep everything. -/
theorem FileSystem.Keeps.failing {files : FileSystem (StateM σ)} {I : σ → Prop}
    {F : Effect → Prop} (h : files.Keeps I F)
    (fails : {α : Type} → FileSystem.Call α → σ → Option Cause) :
    (files.failing fails).Keeps I F := by
  intro α call hcall s hs
  simp only [FileSystem.failing]
  cases fails call s with
  | some cause => exact hs
  | none => exact h call hcall s hs

/-- The names of temporary files are hidden. -/
def FileSystem.HidesTemporary (files : FileSystem (StateM σ)) : Prop :=
  ∀ directory s name, (files.perform (.spareName directory) s).1 = .ok name →
    IsPart name ∧ ¬ IsVisible name

theorem hidesTemporary_inMemory : inMemory.HidesTemporary := by
  intro directory top name h
  obtain ⟨es, rfl, -⟩ := Node.exists_of_spareName h
  obtain ⟨n, hname, -, -⟩ := Node.spareName_eq es
  rw [hname]
  exact ⟨Node.isPart_temporaryName n, fun hvisible => hvisible (Node.temporaryName_hidden n)⟩

theorem FileSystem.HidesTemporary.failing {files : FileSystem (StateM σ)}
    (h : files.HidesTemporary) (fails : {α : Type} → FileSystem.Call α → σ → Option Cause) :
    (files.failing fails).HidesTemporary := fun directory s name hname =>
  h directory s name (FileSystem.answer_of_failing hname)

theorem FileSystem.HidesTemporary.tracing {files : FileSystem (StateM σ)}
    (h : files.HidesTemporary) : files.tracing.HidesTemporary := fun directory s name hname =>
  h directory s.1 name hname

/-! ## Files of sessions -/

namespace Store

variable {root path : Path} {id other : SessionId} {name file : String}

/-- The path is that of a file in the directory of an open session. -/
def IsFileOf (root : Path) (id : SessionId) (name : String) (path : Path) : Prop :=
  ∃ directory, (Directory.mk inMemory root).sessionPath id = .ok directory ∧
    path = directory.child name

theorem isFileOf_iff :
    IsFileOf root id name path ↔
      isPlainName id.name = true ∧ path = ((root.child openSessions).child id.name).child name := by
  constructor
  · rintro ⟨directory, hdirectory, rfl⟩
    obtain ⟨hid, rfl⟩ := (Directory.sessionPath_eq_ok_iff _).1 hdirectory
    exact ⟨hid, rfl⟩
  · rintro ⟨hid, rfl⟩
    exact ⟨_, Directory.sessionPath_of_isPlainName _ hid, rfl⟩

/-- The parts of the path of a file of a session. -/
theorem IsFileOf.parts_eq (h : IsFileOf root id name path) (hname : IsPart name) :
    path.parts = root.stem ++ [openSessions, id.name, name] := by
  obtain ⟨hid, rfl⟩ := isFileOf_iff.1 h
  rw [Path.child_child _ (isPart_of_isPlainName hid) hname,
    Path.stem_child _ isEntryName_openSessions.isPart, List.append_assoc, List.singleton_append]

/-- A file of a session is that of no other session and has no other name. -/
theorem IsFileOf.unique (h : IsFileOf root id name path) (hname : IsPart name)
    (hother : IsFileOf root other file path) (hfile : IsPart file) : other = id ∧ file = name := by
  have hparts := (hother.parts_eq hfile).symm.trans (h.parts_eq hname)
  rw [List.append_cancel_left_eq, List.cons.injEq, List.cons.injEq, List.cons.injEq] at hparts
  obtain ⟨-, hid, hfile, -⟩ := hparts
  exact ⟨congrArg SessionId.mk hid, hfile⟩

/-- A report is no file of an open session. -/
theorem not_isFileOf_tier (tier : Tier) (hname : IsPart name) (hfile : IsPart file) :
    ¬ IsFileOf root id name ((root.child tier.directory).child file) := by
  intro h
  have hparts := h.parts_eq hname
  rw [Path.child_child _ (isEntryName_tier tier).isPart hfile, List.append_cancel_left_eq] at hparts
  cases congrArg List.length hparts

/-! ## Calls -/

/-- What is noted is of the kind that is written. -/
theorem keeps_recording {σ : Type} (files : FileSystem (StateM σ)) (F : Path → Prop) :
    files.recording.Keeps (fun s => ∀ path ∈ s.2, F path)
      (fun effect => ∀ path, effect = .writes path → F path) := by
  rintro α call hcall ⟨s, written⟩ hwritten path hpath
  rcases List.mem_append.1 hpath with hold | hnew
  · exact hwritten path hold
  · exact hcall _ (FileSystem.Call.writes_mem_effects (Option.mem_toList.1 hnew)) path rfl

/-- The paths of the files of sessions have names like these, but for hidden ones. -/
abbrev AreNotedIn (root : Path) (G : SessionId → String → Prop) (y z : σ × List Path) : Prop :=
  y = z ∧ ∀ path ∈ y.2, ∀ id name, IsPart name → IsVisible name → IsFileOf root id name path →
    G id name

/-- What a call writes in the directories of sessions: nothing, or a file with a name like these and
a temporary one. -/
theorem agree_written {σ : Type} {files : FileSystem (StateM σ)}
    (hfiles : files.HidesTemporary) {G : SessionId → String → Prop} {call : Call α}
    (hcall : ∀ id name contents, call.change? = some (.write id name contents) →
      IsPart name ∧ G id name) :
    AgreeExcept (AreNotedIn root G) Whatever ((inDirectory files.recording root).perform call)
      ((inDirectory files.recording root).perform call) := by
  refine agree_perform (FileSystem.Keeps.agrees (keeps_recording files _)) ⟨?_, ?_⟩
  · rintro _ hasks path rfl other file hfile _ hof
    cases call with
    | write id name contents =>
      obtain ⟨hpart, hG⟩ := hcall id name contents rfl
      obtain ⟨hid, hpath | hpath⟩ := hasks
      · cases hpath
      · cases hpath
        obtain ⟨rfl, rfl⟩ := hof.unique hfile (isFileOf_iff.2 ⟨hid, rfl⟩) hpart
        exact hG
    | writeReport id tier contents =>
      obtain ⟨hid, hpath | hpath | ⟨_, hpath⟩⟩ := hasks
      · cases hpath
      · cases hpath
        exact absurd hof (not_isFileOf_tier tier hfile (isPart_of_isPlainName hid))
      · cases hpath
    | _ => simp [Call.Asks] at hasks
  · intro directory hdirectory s _ spare _ hspare
    obtain ⟨hpart, hhidden⟩ := hfiles directory s.1 spare hspare
    refine ⟨?_, fun _ he => (by cases he)⟩
    rintro _ ⟨rfl⟩ other file hfile hvisible hof
    cases call with
    | write id name contents =>
      obtain ⟨hid, rfl⟩ := hdirectory
      obtain ⟨-, rfl⟩ := hof.unique hfile (isFileOf_iff.2 ⟨hid, rfl⟩) hpart
      exact absurd hvisible hhidden
    | writeReport id tier contents =>
      obtain ⟨-, rfl⟩ := hdirectory
      exact absurd hof (not_isFileOf_tier tier hfile hpart)
    | _ => exact absurd hdirectory (by simp [Call.DrawsIn])

end Store

end ReportVault
