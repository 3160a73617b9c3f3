import ReportVault.Proofs.FileSystem.Address
import ReportVault.Proofs.FileSystem.SpareName

/-!
# ReportVault.Proofs.FileSystem.Effects

What calls change in any tree.

A call that succeeds sets or drops one entry, which is at the address of its path
(`exists_of_writeFile` and its counterparts), or makes directories on the way to it.  `StaysIn` says
of two trees that they differ in a region only, to the last file.
-/

namespace ReportVault.FileSystem.Node

variable {top after made : Node} {path : Path} {names dir : List String} {name : String}
  {es fs : List (String × Node)} {contents : Bytes}

/-! ## Regions -/

/-- Where a tree may change. -/
structure Region where
  /-- Where anything may change. -/
  own : List String → Prop := fun _ => False
  /-- Where directories may be made. -/
  way : List String → Prop := fun _ => False
  /-- Where directories may be removed. -/
  gone : List String → Prop := fun _ => False

/-- Outside of the region everything is as it was. -/
def StaysIn (r : Region) (top after : Node) : Prop :=
  ∀ names, r.own names ∨ after.at? names = top.at? names ∨
    r.way names ∧ top.at? names = none ∧ after.at? names = some empty ∨
    r.gone names ∧ top.at? names = some empty ∧ after.at? names = none

namespace StaysIn

variable {r : Region}

theorem refl (r : Region) (top : Node) : StaysIn r top top := fun _ => Or.inr (Or.inl rfl)

theorem trans (h : StaysIn r top made) (hnext : StaysIn r made after) : StaysIn r top after := by
  intro names
  rcases h names with hown | hfirst
  · exact Or.inl hown
  rcases hnext names with hown | hnext
  · exact Or.inl hown
  refine Or.inr ?_
  -- what was made may be removed, and what was removed may be made
  rcases hfirst with hsame | ⟨hway, hbefore, hmade⟩ | ⟨hgone, hbefore, hmade⟩
  · rwa [hsame] at hnext
  · rcases hnext with hsame | ⟨-, hnone, -⟩ | ⟨-, -, hafter⟩
    · exact Or.inr (Or.inl ⟨hway, hbefore, hsame.trans hmade⟩)
    · rw [hmade] at hnone
      cases hnone
    · exact Or.inl (hafter.trans hbefore.symm)
  · rcases hnext with hsame | ⟨-, -, hafter⟩ | ⟨-, hsome, -⟩
    · exact Or.inr (Or.inr ⟨hgone, hbefore, hsame.trans hmade⟩)
    · exact Or.inl (hafter.trans hbefore.symm)
    · rw [hmade] at hsome
      cases hsome

theorem mono {q : Region} (h : StaysIn r top after) (hown : ∀ names, r.own names → q.own names)
    (hway : ∀ names, r.way names → q.way names) (hgone : ∀ names, r.gone names → q.gone names) :
    StaysIn q top after := fun names =>
  (h names).imp (hown names) (Or.imp_right (Or.imp (And.imp_left (hway names))
    (And.imp_left (hgone names))))

variable {own way : List String → Prop}

/-- Where directories are neither made nor removed. -/
theorem own_or_eq (h : StaysIn { own := own } top after) (names : List String) :
    own names ∨ after.at? names = top.at? names := by
  rcases h names with hown | hsame | ⟨hno, -⟩ | ⟨hno, -⟩
  · exact Or.inl hown
  · exact Or.inr hsame
  · exact hno.elim
  · exact hno.elim

/-- Where nothing is done but that directories are made. -/
theorem eq_or_made (h : StaysIn { way := way } top after) (names : List String) :
    after.at? names = top.at? names ∨
      way names ∧ top.at? names = none ∧ after.at? names = some empty := by
  rcases h names with hno | hsame | hmade | ⟨hno, -⟩
  · exact hno.elim
  · exact Or.inl hsame
  · exact Or.inr hmade
  · exact hno.elim

/-- Every file that is not in the region stays as it is. -/
theorem at?_eq_file_iff (h : StaysIn r top after) {names : List String} (hown : ¬ r.own names) :
    after.at? names = some (.file contents) ↔ top.at? names = some (.file contents) := by
  rcases h names with hno | hsame | ⟨-, hnone, hmade⟩ | ⟨-, hsome, hgone⟩
  · exact absurd hno hown
  · rw [hsame]
  · rw [hnone, hmade]
    exact ⟨fun he => (by cases he), fun he => (by cases he)⟩
  · rw [hsome, hgone]
    exact ⟨fun he => (by cases he), fun he => (by cases he)⟩

end StaysIn

/-! ## Entries -/

section Entries

variable (hdir : top.get? dir = some (.directory es))

include hdir

/-- A file is set where no directory is. -/
theorem staysIn_setFile (hfile : ∀ gs, es.lookup name ≠ some (.directory gs)) (contents : Bytes) :
    StaysIn { own := (· = dir ++ [name]) } top
      (top.setEntries dir (setEntry name (.file contents) es)) := by
  intro names
  by_cases hne : names = dir ++ [name]
  · exact Or.inl hne
  refine Or.inr (Or.inl (at?_setEntries_of_ne hdir
    (fun other hother => lookup_setEntry_of_ne _ es hother) (fun first more => ?_) hne))
  rw [lookup_setEntry_self]
  cases hentry : es.lookup name with
  | none => rfl
  | some n =>
    cases n with
    | file old => rfl
    | directory gs => exact absurd hentry (hfile gs)

/-- A file is dropped. -/
theorem staysIn_dropFile (hfile : es.lookup name = some (.file contents)) :
    StaysIn { own := (· = dir ++ [name]) } top (top.setEntries dir (dropEntry name es)) := by
  intro names
  by_cases hne : names = dir ++ [name]
  · exact Or.inl hne
  refine Or.inr (Or.inl (at?_setEntries_of_ne hdir
    (fun other hother => lookup_dropEntry_of_ne es hother) (fun first more => ?_) hne))
  rw [lookup_dropEntry_self, hfile]
  rfl

/-- A directory is dropped, with all that is in it. -/
theorem staysIn_dropDirectory (hdirectory : es.lookup name = some (.directory fs)) :
    StaysIn { own := fun names => dir ++ [name] <+: names ∧ names ≠ dir ++ [name],
              gone := (· = dir ++ [name]) } top
      (top.setEntries dir (dropEntry name es)) := by
  intro names
  by_cases hbelow : dir ++ [name] <+: names
  · by_cases he : names = dir ++ [name]
    · subst he
      refine Or.inr (Or.inr (Or.inr ⟨rfl, ?_, ?_⟩))
      · rw [at?_eq_some_empty, get?_concat, hdir]
        exact ⟨fs, hdirectory⟩
      · rw [at?_eq_none, get?_concat, get?_setEntries]
        exact lookup_dropEntry_self name es
    · exact Or.inl ⟨hbelow, he⟩
  · exact Or.inr (Or.inl (at?_setEntries_of_not_below hdir
      (fun other hother => lookup_dropEntry_of_ne es hother) hbelow))

/-- A directory is made. -/
theorem staysIn_make (hnone : es.lookup name = none) :
    StaysIn { way := (· = dir ++ [name]) } top
      (top.setEntries dir (setEntry name empty es)) := by
  intro names
  by_cases hne : names = dir ++ [name]
  · subst hne
    refine Or.inr (Or.inr (Or.inl ⟨rfl, ?_, ?_⟩))
    · rw [at?_eq_none, get?_concat, hdir]
      exact hnone
    · rw [at?_eq_some_empty, get?_concat, get?_setEntries]
      exact ⟨[], lookup_setEntry_self name empty es⟩
  · refine Or.inr (Or.inl (at?_setEntries_of_ne hdir
      (fun other hother => lookup_setEntry_of_ne _ es hother) (fun first more => ?_) hne))
    rw [lookup_setEntry_self, hnone]
    rfl

end Entries

/-- Directories stay where nothing is removed. -/
theorem StaysIn.keepsDirectories {r : Region} (h : StaysIn r top after)
    (hown : ∀ names, r.own names → top.at? names ≠ some empty) (hgone : ∀ names, ¬ r.gone names) :
    KeepsDirectories top after := by
  intro names hdir
  rcases h names with hname | hsame | ⟨-, hnone, -⟩ | ⟨hname, -, -⟩
  · exact absurd hdir (hown names hname)
  · exact hsame.trans hdir
  · rw [hdir] at hnone
    cases hnone
  · exact absurd hname (hgone names)

/-! ## Calls -/

/-- One directory is made at the address of the path. -/
theorem staysIn_makeDirectory (h : makeDirectory top path = .ok after) :
    StaysIn { way := fun names => path.names? = some names } top after := by
  obtain ⟨entry, hentry, h⟩ := exists_of_bind_eq_ok h
  obtain ⟨dir, name, es, hnames, hdir, rfl⟩ := exists_of_resolveEntry hentry
  cases hlookup : es.lookup name with
  | some n =>
    simp only [hlookup] at h
    cases h
  | none =>
    simp only [hlookup] at h
    cases h
    rw [put_concat hdir, entriesAt_of_get? hdir]
    exact (staysIn_make hdir hlookup).mono (fun _ hno => hno)
      (fun names he => he ▸ hnames) (fun _ hno => hno)

/-- Directories are made on the way, whether the last one can be made or not. -/
theorem staysIn_makeDirectories (top : Node) (absolute : Bool) (above : List String) :
    StaysIn { way := (Path.mk absolute above.reverse).LeadsThrough } top
      (makeDirectories top absolute above).2 := by
  induction above generalizing top with
  | nil => exact .refl _ top
  | cons last above ih =>
    have hlast : ∀ {top after : Node},
        makeDirectory top ⟨absolute, (last :: above).reverse⟩ = .ok after →
          StaysIn { way := (Path.mk absolute (last :: above).reverse).LeadsThrough } top after :=
      fun h => (staysIn_makeDirectory h).mono (fun _ hno => hno)
        (fun names hnames => ⟨_, List.prefix_rfl, hnames⟩) (fun _ hno => hno)
    have habove : StaysIn { way := (Path.mk absolute (last :: above).reverse).LeadsThrough } top
        (makeDirectories top absolute above).2 := by
      refine (ih top).mono (fun _ hno => hno) (fun names hway => ?_) (fun _ hno => hno)
      obtain ⟨parts, hprefix, hnames⟩ := hway
      refine ⟨parts, hprefix.trans ?_, hnames⟩
      rw [List.reverse_cons]
      exact List.prefix_append _ _
    rw [makeDirectories]
    split
    · next made hmade => exact hlast hmade
    · split
      · next cause made hmade =>
        rw [hmade] at habove
        exact habove
      · next made hmade =>
        rw [hmade] at habove
        split
        · next done hdone => exact habove.trans (hlast hdone)
        · exact habove
    · exact .refl _ top

theorem exists_of_writeFile (h : writeFile top path contents = .ok after) :
    ∃ dir name es, path.names? = some (dir ++ [name]) ∧ top.get? dir = some (.directory es) ∧
      (∀ gs, es.lookup name ≠ some (.directory gs)) ∧
      resolveEntry top path = .ok ⟨dir ++ [name], es.lookup name⟩ ∧
      after = top.setEntries dir (setEntry name (.file contents) es) := by
  obtain ⟨entry, hentry, h⟩ := exists_of_bind_eq_ok h
  obtain ⟨dir, name, es, hnames, hdir, rfl⟩ := exists_of_resolveEntry hentry
  refine ⟨dir, name, es, hnames, hdir, ?_, hentry, ?_⟩
  · intro gs hlookup
    simp only [hlookup] at h
    cases h
  · simp only at h
    split at h
    · cases h
    · cases h
      rw [put_concat hdir, entriesAt_of_get? hdir]

theorem exists_of_deleteFile (h : deleteFile top path = .ok after) :
    ∃ dir name es contents, path.names? = some (dir ++ [name]) ∧
      top.get? dir = some (.directory es) ∧ es.lookup name = some (.file contents) ∧
      after = top.setEntries dir (dropEntry name es) := by
  obtain ⟨entry, hentry, h⟩ := exists_of_bind_eq_ok h
  obtain ⟨dir, name, es, hnames, hdir, rfl⟩ := exists_of_resolveEntry hentry
  simp only at h
  split at h
  · cases h
  · cases h
  · next contents hlookup =>
    cases h
    exact ⟨dir, name, es, contents, hnames, hdir, hlookup,
      by rw [remove_concat hdir, entriesAt_of_get? hdir]⟩

/-- A file that is removed is gone, and nothing else is. -/
theorem of_deleteFile (h : deleteFile top path = .ok after) :
    ∃ names contents, path.names? = some names ∧ top.at? names = some (.file contents) ∧
      after.at? names = none ∧ StaysIn { own := (· = names) } top after := by
  obtain ⟨dir, name, es, contents, hnames, hdir, hfile, rfl⟩ := exists_of_deleteFile h
  refine ⟨_, contents, hnames, ?_, ?_, staysIn_dropFile hdir hfile⟩
  · rw [at?_eq_some_file, get?_concat, hdir]
    exact hfile
  · rw [at?_eq_none, get?_concat, get?_setEntries]
    exact lookup_dropEntry_self name es

theorem exists_of_deleteTree (h : deleteTree top path = .ok after) :
    ∃ dir name es fs, path.withoutFinalSlashes.names? = some (dir ++ [name]) ∧
      top.get? dir = some (.directory es) ∧ es.lookup name = some (.directory fs) ∧
      after = top.setEntries dir (dropEntry name es) := by
  obtain ⟨entry, hentry, h⟩ := exists_of_bind_eq_ok h
  obtain ⟨dir, name, es, hnames, hdir, rfl⟩ := exists_of_resolveEntry hentry
  simp only at h
  split at h
  · cases h
  · cases h
  · next fs hlookup =>
    cases h
    exact ⟨dir, name, es, fs, hnames, hdir, hlookup,
      by rw [remove_concat hdir, entriesAt_of_get? hdir]⟩

/-! ## Temporary files -/

/-- A spare name is drawn from the entries of a directory that is there; outside there are none. -/
theorem exists_of_spareName {spare : String} (h : (top.perform (.spareName path)).1 = .ok spare) :
    ∃ es, spare = spareName es ∧
      ∀ dir, path.names? = some dir → top.get? dir = some (.directory es) := by
  simp only [perform] at h
  split at h
  · next names? es hresolve =>
    obtain ⟨hin, hnames⟩ := resolve_eq_ok hresolve
    refine ⟨es, (Except.ok.inj h).symm, fun dir hdir => ?_⟩
    obtain rfl : names? = some dir := hnames.trans hdir
    exact hin
  · cases h
  · cases h

/-- A temporary file is written into the directory that its name was drawn from. -/
theorem exists_of_writeTemporary {spare : String}
    (hspare : (top.perform (.spareName path)).1 = .ok spare)
    (h : writeFile top (path.child spare) contents = .ok after) :
    ∃ dir es, path.names? = some dir ∧ top.get? dir = some (.directory es) ∧
      es.lookup spare = none ∧
      resolveEntry top (path.child spare) = .ok ⟨dir ++ [spare], es.lookup spare⟩ ∧
      after = top.setEntries dir (setEntry spare (.file contents) es) := by
  obtain ⟨es, rfl, hdirectory⟩ := exists_of_spareName hspare
  obtain ⟨dir, name, fs, hnames, hdir, -, hentry, hafter⟩ := exists_of_writeFile h
  rw [Path.names?_child path (isPart_spareName es), Option.map_eq_some_iff] at hnames
  obtain ⟨names, hpath, hnames⟩ := hnames
  obtain ⟨rfl, hlast⟩ := List.append_inj' hnames rfl
  obtain rfl := List.singleton_inj.1 hlast
  obtain rfl := Node.directory.inj (Option.some.inj (hdir.symm.trans (hdirectory _ hpath)))
  exact ⟨_, _, hpath, hdir, lookup_spareName _, hentry, hafter⟩

section Temporary

variable {temporary : Path} {spare : String} (hdir : top.get? dir = some (.directory es))
  (hspare : es.lookup spare = none)
  (hentry : resolveEntry top temporary = .ok ⟨dir ++ [spare], es.lookup spare⟩)

include hdir hspare hentry

/-- The path of a temporary file names it once it is there. -/
theorem resolveEntry_temporary (contents : Bytes) :
    resolveEntry (top.setEntries dir (setEntry spare (.file contents) es)) temporary =
      .ok ⟨dir ++ [spare], some (.file contents)⟩ := by
  have hkeeps : KeepsDirectories top (top.setEntries dir (setEntry spare (.file contents) es)) :=
    (staysIn_setFile hdir (by simp [hspare]) contents).keepsDirectories (by
      rintro _ rfl
      rw [at?, get?_concat, hdir]
      simp [hspare]) (fun _ hno => hno)
  obtain ⟨fs, hfs, hresolve⟩ := hkeeps.resolveEntry hentry
  obtain rfl : _ = fs :=
    Node.directory.inj (Option.some.inj ((get?_setEntries _ _ _).symm.trans hfs))
  rw [hresolve, lookup_setEntry_self]

/-- Removing a temporary file leaves no trace of it. -/
theorem deleteFile_temporary (contents : Bytes) :
    deleteFile (top.setEntries dir (setEntry spare (.file contents) es)) temporary = .ok top := by
  have hremove : (top.setEntries dir (setEntry spare (.file contents) es)).remove
      (dir ++ [spare]) = top := by
    rw [remove_concat (get?_setEntries _ _ _), entriesAt_setEntries, setEntries_setEntries,
      dropEntry_setEntry_of_lookup_eq_none hspare, ← entriesAt_of_get? hdir,
      setEntries_entriesAt hdir]
  rw [deleteFile, resolveEntry_temporary hdir hspare hentry]
  exact congrArg Except.ok hremove

/-- A temporary file that takes its name is the file of that name, and there is no other one. -/
theorem eq_of_renameFile_temporary {target : Path} (hname : target.names? = some (dir ++ [name]))
    (h : renameFile (top.setEntries dir (setEntry spare (.file contents) es)) temporary target =
      .ok after) :
    (∀ gs, es.lookup name ≠ some (.directory gs)) ∧
      after = top.setEntries dir (setEntry name (.file contents) es) := by
  obtain ⟨old, hold, h⟩ := exists_of_bind_eq_ok h
  obtain rfl := Except.ok.inj
    (hold.symm.trans (resolveEntry_temporary hdir hspare hentry contents))
  obtain ⟨new, hnew, h⟩ := exists_of_bind_eq_ok h
  obtain ⟨dir', name', fs, hnames, hfs, rfl⟩ := exists_of_resolveEntry hnew
  obtain ⟨rfl, hlast⟩ := List.append_inj' (Option.some.inj (hnames.symm.trans hname)) rfl
  obtain rfl := List.singleton_inj.1 hlast
  obtain rfl : _ = fs :=
    Node.directory.inj (Option.some.inj ((get?_setEntries _ _ _).symm.trans hfs))
  simp only at h
  by_cases he : name' = spare
  · subst he
    simp only [lookup_setEntry_self, if_true] at h
    exact ⟨by simp [hspare], (Except.ok.inj h).symm⟩
  · rw [lookup_setEntry_of_ne _ es he] at h
    have hput : ((top.setEntries dir' (setEntry spare (.file contents) es)).remove
        (dir' ++ [spare])).put (dir' ++ [name']) (.file contents) =
          top.setEntries dir' (setEntry name' (.file contents) es) := by
      rw [remove_concat (get?_setEntries _ _ _), entriesAt_setEntries, setEntries_setEntries,
        dropEntry_setEntry_of_lookup_eq_none hspare, put_concat (get?_setEntries _ _ _),
        entriesAt_setEntries, setEntries_setEntries]
    have hother : ¬ dir' ++ [spare] = dir' ++ [name'] := by simp [Ne.symm he]
    cases hlookup : es.lookup name' with
    | none =>
      simp only [hlookup, if_neg hother, hput] at h
      exact ⟨by simp, (Except.ok.inj h).symm⟩
    | some n =>
      cases n with
      | directory gs =>
        simp only [hlookup] at h
        cases h
      | file old =>
        simp only [hlookup, if_neg hother, hput] at h
        exact ⟨by simp, (Except.ok.inj h).symm⟩

end Temporary

end ReportVault.FileSystem.Node
