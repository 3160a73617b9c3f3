import ReportVault.Proofs.FileSystem.Effects

/-!
# ReportVault.Proofs.FileSystem.Footprint

What calls are asked to do to files and directories.

The effects of a call are the files that it may make, replace or take away, and the directories that
it may make or remove.  They are known from the call alone; whatever it answers, a tree changes at
its effects and nowhere else (`Node.staysIn_perform`).  `FileSystem.tracing` notes the effects of
all calls, so that files are seen that are there for a moment only.
-/

namespace ReportVault.FileSystem

/-- What a call may do to a file or a directory. -/
inductive Effect
  /-- The file is made or replaced. -/
  | writes (path : Path)
  /-- The file is taken away. -/
  | drops (path : Path)
  /-- The directory is made, with those above it that are missing. -/
  | makes (path : Path)
  /-- The directory is removed with all that is in it. -/
  | clears (path : Path)
  deriving DecidableEq, Repr

/-- What the call may do, whether it succeeds or not. -/
def Call.effects : Call α → List Effect
  | .write path _ => [.writes path]
  | .createDirectories path => [.makes path]
  | .rename source target => [.drops source, .writes target]
  | .removeFile path => [.drops path]
  | .removeTree path => [.clears path]
  | _ => []

/-- A file system that notes what its calls may do. -/
def tracing (files : FileSystem (StateM σ)) : FileSystem (StateM (σ × List Effect)) :=
  ⟨fun call (s, noted) =>
    ((files.perform call s).1, (files.perform call s).2, noted ++ call.effects)⟩

/-- Calls with such effects keep the invariant. -/
def Keeps (files : FileSystem (StateM σ)) (I : σ → Prop) (F : Effect → Prop) : Prop :=
  ∀ {α : Type} (call : Call α), (∀ effect ∈ call.effects, F effect) → ∀ s, I s →
    I (files.perform call s).2

/-- What is noted is of the kind that the calls are of. -/
theorem Keeps.tracing {files : FileSystem (StateM σ)} {I : σ → Prop} {F : Effect → Prop}
    (h : files.Keeps I F) :
    files.tracing.Keeps (fun s => I s.1 ∧ ∀ effect ∈ s.2, F effect) F := by
  rintro α call hcall ⟨s, noted⟩ ⟨hs, hnoted⟩
  refine ⟨h call hcall s hs, fun effect heffect => ?_⟩
  exact (List.mem_append.1 heffect).elim (hnoted effect) (hcall effect)

/-! ## Trees -/

/-- Where a tree may change by an effect. -/
def Effect.region : Effect → Node.Region
  | .writes path => { own := fun names => path.names? = some names }
  | .drops path => { own := fun names => path.names? = some names }
  | .makes path => { way := path.LeadsThrough }
  | .clears path =>
    { own := fun names => ∃ directory, path.withoutFinalSlashes.names? = some directory ∧
        directory <+: names ∧ names ≠ directory,
      gone := fun names => path.withoutFinalSlashes.names? = some names }

namespace Node

variable {top after : Node} {source target path : Path} {r q : Region}

/-- One region is a part of the other one. -/
structure Region.IsPartOf (r q : Region) : Prop where
  own : ∀ names, r.own names → q.own names
  way : ∀ names, r.way names → q.way names
  gone : ∀ names, r.gone names → q.gone names

theorem Region.IsPartOf.of_own {own : List String → Prop} (h : ∀ names, own names → q.own names) :
    Region.IsPartOf { own := own } q :=
  ⟨h, fun _ hno => hno.elim, fun _ hno => hno.elim⟩

theorem StaysIn.of_isPartOf (h : StaysIn r top after) (hr : r.IsPartOf q) : StaysIn q top after :=
  h.mono hr.own hr.way hr.gone

theorem staysIn_writeFile {contents : Bytes} (h : writeFile top path contents = .ok after) :
    StaysIn (Effect.writes path).region top after := by
  obtain ⟨dir, name, es, hnames, hdir, hfile, -, rfl⟩ := exists_of_writeFile h
  exact (staysIn_setFile hdir hfile contents).mono (fun names he => he ▸ hnames)
    (fun _ hno => hno) (fun _ hno => hno)

theorem staysIn_deleteFile (h : deleteFile top path = .ok after) :
    StaysIn (Effect.drops path).region top after := by
  obtain ⟨names, contents, hnames, -, -, hstays⟩ := of_deleteFile h
  exact hstays.mono (fun others he => he ▸ hnames) (fun _ hno => hno) (fun _ hno => hno)

theorem staysIn_deleteTree (h : deleteTree top path = .ok after) :
    StaysIn (Effect.clears path).region top after := by
  obtain ⟨dir, name, es, fs, hnames, hdir, hdirectory, rfl⟩ := exists_of_deleteTree h
  exact (staysIn_dropDirectory hdir hdirectory).mono (fun names hown => ⟨_, hnames, hown⟩)
    (fun _ hno => hno) (fun names he => he ▸ hnames)

/-- A file that is moved is taken away where it was, and written where no directory is. -/
theorem exists_of_renameFile (h : renameFile top source target = .ok after) :
    ∃ dir name es contents dir' name' fs, source.names? = some (dir ++ [name]) ∧
      top.get? dir = some (.directory es) ∧ es.lookup name = some (.file contents) ∧
      target.names? = some (dir' ++ [name']) ∧ top.get? dir' = some (.directory fs) ∧
      (∀ gs, fs.lookup name' ≠ some (.directory gs)) ∧
      (after = top ∨ dir ++ [name] ≠ dir' ++ [name'] ∧
        after = (top.setEntries dir (dropEntry name es)).put (dir' ++ [name'])
          (.file contents)) := by
  obtain ⟨old, hold, h⟩ := exists_of_bind_eq_ok h
  obtain ⟨dir, name, es, hnames, hdir, rfl⟩ := exists_of_resolveEntry hold
  obtain ⟨new, hnew, h⟩ := exists_of_bind_eq_ok h
  obtain ⟨dir', name', fs, hnames', hdir', rfl⟩ := exists_of_resolveEntry hnew
  simp only at h
  have hfile : ∃ contents, es.lookup name = some (.file contents) := by
    cases hlookup : es.lookup name with
    | none => simp [hlookup] at h
    | some n =>
      cases n with
      | directory gs => simp [hlookup] at h
      | file contents => exact ⟨contents, rfl⟩
  obtain ⟨contents, hfile⟩ := hfile
  have hfree : ∀ gs, fs.lookup name' ≠ some (.directory gs) := by
    intro gs hlookup
    simp [hfile, hlookup] at h
  refine ⟨dir, name, es, contents, dir', name', fs, hnames, hdir, hfile, hnames', hdir', hfree, ?_⟩
  rw [hfile] at h
  rw [remove_concat hdir, entriesAt_of_get? hdir] at h
  -- What had the name before, a file or nothing, makes no difference.
  have hmoved : (if dir ++ [name] = dir' ++ [name'] then Except.ok top else
      .ok ((top.setEntries dir (dropEntry name es)).put (dir' ++ [name']) (.file contents))) =
      (.ok after : Except Cause Node) := by
    cases hlookup : fs.lookup name' with
    | none => simpa only [hlookup] using h
    | some n =>
      cases n with
      | directory gs => exact absurd hlookup (hfree gs)
      | file old => simpa only [hlookup] using h
  split at hmoved
  · exact Or.inl (Except.ok.inj hmoved).symm
  · next hne => exact Or.inr ⟨hne, (Except.ok.inj hmoved).symm⟩

theorem staysIn_renameFile (h : renameFile top source target = .ok after)
    (hsource : (Effect.drops source).region.IsPartOf r)
    (htarget : (Effect.writes target).region.IsPartOf r) : StaysIn r top after := by
  obtain ⟨dir, name, es, contents, dir', name', fs, hnames, hdir, hfile, hnames', hdir', hfree,
    rfl | ⟨hne, rfl⟩⟩ := exists_of_renameFile h
  · exact .refl r after
  have hdrop := staysIn_dropFile hdir hfile
  generalize top.setEntries dir (dropEntry name es) = made at hdrop ⊢
  -- The directory that the file goes to is still there.
  have hkeeps : KeepsDirectories top made := hdrop.keepsDirectories (by
    rintro _ rfl
    rw [at?, get?_concat, hdir]
    simp [hfile, shown, empty]) (fun _ hno => hno)
  obtain ⟨gs, hgs⟩ := hkeeps.get? hdir'
  have hstill : ∀ inner, gs.lookup name' ≠ some (.directory inner) := by
    intro inner hinner
    have hmade : made.at? (dir' ++ [name']) = some empty :=
      at?_eq_some_empty.2 ⟨inner, by rw [get?_concat, hgs]; exact hinner⟩
    rcases hdrop.own_or_eq (dir' ++ [name']) with he | hsame
    · exact hne he.symm
    · rw [hmade] at hsame
      obtain ⟨found, hfound⟩ := at?_eq_some_empty.1 hsame.symm
      rw [get?_concat, hdir'] at hfound
      exact hfree found hfound
  rw [put_concat hgs, entriesAt_of_get? hgs]
  refine (hdrop.mono (fun names he => hsource.own _ (he ▸ hnames)) (fun _ hno => hno.elim)
    (fun _ hno => hno.elim)).trans ?_
  exact (staysIn_setFile hgs hstill contents).mono (fun names he => htarget.own _ (he ▸ hnames'))
    (fun _ hno => hno.elim) (fun _ hno => hno.elim)

/-- Where nothing is done. -/
theorem staysIn_keepOnError {result : Except Cause Node}
    (h : ∀ after, result = .ok after → StaysIn r top after) :
    StaysIn r top (keepOnError top result).2 := by
  cases result with
  | ok after => exact h after rfl
  | error cause => exact .refl r top

/-- A call changes a tree at its effects and nowhere else. -/
theorem staysIn_perform {call : Call α} (h : ∀ effect ∈ call.effects, effect.region.IsPartOf r)
    (top : Node) : StaysIn r top (top.perform call).2 := by
  cases call with
  | write path contents =>
    exact staysIn_keepOnError fun after hafter =>
      (staysIn_writeFile hafter).of_isPartOf (h _ (by simp [Call.effects]))
  | createDirectories path =>
    have hmade := staysIn_makeDirectories top path.absolute path.parts.reverse
    rw [List.reverse_reverse] at hmade
    exact StaysIn.of_isPartOf hmade (h (.makes path) (by simp [Call.effects]))
  | rename source target =>
    exact staysIn_keepOnError fun after hafter =>
      staysIn_renameFile hafter (h _ (by simp [Call.effects])) (h _ (by simp [Call.effects]))
  | removeFile path =>
    exact staysIn_keepOnError fun after hafter =>
      (staysIn_deleteFile hafter).of_isPartOf (h _ (by simp [Call.effects]))
  | removeTree path =>
    exact staysIn_keepOnError fun after hafter =>
      (staysIn_deleteTree hafter).of_isPartOf (h _ (by simp [Call.effects]))
  | isPresent path => exact .refl r top
  | read path => exact .refl r top
  | list path => exact .refl r top
  | spareName path => exact .refl r top

/-- A call without effects leaves a tree as it is. -/
theorem perform_of_no_effects {call : Call α} (h : call.effects = []) (top : Node) :
    (top.perform call).2 = top := by
  cases call <;> first | rfl | cases h

end Node

/-- What is asked for stays in a region. -/
theorem keeps_staysIn {F : Effect → Prop} {r : Node.Region}
    (hF : ∀ effect, F effect → effect.region.IsPartOf r) (top : Node) :
    inMemory.Keeps (Node.StaysIn r top) F := fun _ hcall made hmade =>
  hmade.trans (Node.staysIn_perform (fun effect heffect => hF effect (hcall effect heffect)) made)

/-- Where nothing is asked for, all stays as it is. -/
theorem keeps_eq (top : Node) : inMemory.Keeps (· = top) fun _ => False := by
  rintro α call hcall made rfl
  exact Node.perform_of_no_effects (List.eq_nil_iff_forall_not_mem.2 hcall) made

end ReportVault.FileSystem
