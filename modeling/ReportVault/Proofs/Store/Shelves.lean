import ReportVault.Proofs.Run
import ReportVault.Proofs.Store.Held

/-!
# ReportVault.Proofs.Store.Shelves

The directory of a store: its paths, what is done in one directory, and replacing a shelf.

`run_writeAtomically` and its counterparts say what the operations of a store do to the entries of
one directory.  `Vault.IsHeldIn.setSessions` and `Vault.IsHeldIn.setTier` replace one shelf, and
`Vault.IsHeldIn.setFiles` the files of one session.
-/

namespace ReportVault

open FileSystem
open FileSystem.Node (entriesAt setEntries HasSpareName)

/-- The store in a directory of a file system in memory. -/
abbrev Location.store (place : Location) : Store (StateM Node) :=
  Store.inDirectory inMemory place.path

/-- The directory of the store. -/
abbrev Location.directory (place : Location) : Store.Directory (StateM Node) :=
  ⟨inMemory, place.path⟩

/-! ## Paths -/

theorem child_ofNames {names : List String} {name : String} (hnames : ∀ n ∈ names, IsEntryName n)
    (hname : '/' ∉ name.toList) :
    (Path.ofNames names).child name = Path.ofNames (names ++ [name]) := by
  have hlast : (Path.ofNames names).parts.getLast? ≠ some "" := by
    intro h
    exact (hnames "" (List.mem_of_getLast? h)).ne_empty rfl
  exact Path.parts_child hlast hname

theorem isEntryName_openSessions : IsEntryName Store.openSessions := by
  constructor <;> decide

theorem isEntryName_tier (tier : Tier) : IsEntryName tier.directory := by
  cases tier <;> constructor <;> decide

theorem openSessions_ne_tier (tier : Tier) : Store.openSessions ≠ tier.directory := by
  cases tier <;> decide

theorem Tier.directory_inj {a b : Tier} (h : a.directory = b.directory) : a = b := by
  cases a <;> cases b <;> first | rfl | exact absurd h (by decide)

namespace Store.Directory

variable {m : Type → Type} (d : Directory m) {id : SessionId}

theorem sessionPath_of_isPlainName (hid : isPlainName id.name = true) :
    d.sessionPath id = .ok ((d.root.child openSessions).child id.name) := by
  simp only [sessionPath, checkedName_of_isPlainName hid, bind, Except.bind, pure, Except.pure]

theorem sessionPath_eq_ok_iff {path : Path} :
    d.sessionPath id = .ok path ↔
      isPlainName id.name = true ∧ path = (d.root.child openSessions).child id.name := by
  constructor
  · intro h
    obtain ⟨name, hname, hpath⟩ := exists_of_bind_eq_ok h
    obtain ⟨hid, rfl⟩ := checkedName_eq_ok_iff.1 hname
    exact ⟨hid, (Except.ok.inj hpath).symm⟩
  · rintro ⟨hid, rfl⟩
    exact d.sessionPath_of_isPlainName hid

theorem reportPath_of_isPlainName (hid : isPlainName id.name = true) (tier : Tier) :
    d.reportPath id tier = .ok ((d.tierPath tier).child id.name) := by
  simp only [reportPath, checkedName_of_isPlainName hid, bind, Except.bind, pure, Except.pure]

theorem reportPath_eq_ok_iff {tier : Tier} {path : Path} :
    d.reportPath id tier = .ok path ↔
      isPlainName id.name = true ∧ path = (d.tierPath tier).child id.name := by
  constructor
  · intro h
    obtain ⟨name, hname, hpath⟩ := exists_of_bind_eq_ok h
    obtain ⟨hid, rfl⟩ := checkedName_eq_ok_iff.1 hname
    exact ⟨hid, (Except.ok.inj hpath).symm⟩
  · rintro ⟨hid, rfl⟩
    exact d.reportPath_of_isPlainName hid tier

end Store.Directory

namespace Location

variable (place : Location)

/-- A store has room for three more names. -/
theorem isPlace {more : List String} (hmore : ∀ name ∈ more, IsEntryName name)
    (hlength : more.length ≤ 3) : IsPlace (place.names ++ more) := by
  refine ⟨?_, ?_⟩
  · intro name hname
    rcases List.mem_append.1 hname with h | h
    · exact place.isName name h
    · exact hmore name h
  · have hbytes : pathBytes more ≤ more.length * (Node.maxNameBytes + 1) := by
      clear hlength
      induction more with
      | nil => simp [pathBytes]
      | cons name rest ih =>
        have hname := (hmore name List.mem_cons_self).isShort
        have hrest := ih fun other hmem => hmore other (List.mem_cons_of_mem _ hmem)
        simp only [pathBytes, List.length_cons, Nat.succ_mul]
          at hrest ⊢
        omega
    have hroom := place.isShort
    have hmul : more.length * (Node.maxNameBytes + 1) ≤ 3 * (Node.maxNameBytes + 1) :=
      Nat.mul_le_mul_right _ hlength
    rw [pathBytes_append]
    omega

theorem isPlace_shelf {name : String} (hname : IsEntryName name) :
    IsPlace (place.names ++ [name]) :=
  place.isPlace (by simpa using hname) (by simp)

theorem isPlace_entry {shelf name : String} (hshelf : IsEntryName shelf)
    (hname : IsEntryName name) : IsPlace (place.names ++ [shelf] ++ [name]) := by
  rw [List.append_assoc]
  exact place.isPlace (by simp [hshelf, hname]) (by simp)

theorem isPlace_file {id : SessionId} {name : String} (hid : id.IsStorable)
    (hname : IsEntryName name) : IsPlace (place.session id ++ [name]) := by
  rw [session, List.append_assoc, List.append_assoc]
  exact place.isPlace (by simp [isEntryName_openSessions, hid.isEntryName, hname]) (by simp)

theorem tierPath_eq (tier : Tier) :
    place.directory.tierPath tier = Path.ofNames (place.names ++ [tier.directory]) :=
  child_ofNames place.isName (isEntryName_tier tier).no_slash

theorem openSessions_eq :
    place.path.child Store.openSessions = Path.ofNames (place.names ++ [Store.openSessions]) :=
  child_ofNames place.isName isEntryName_openSessions.no_slash

theorem sessionPath_eq {id : SessionId} (hid : Store.isPlainName id.name = true) :
    place.directory.sessionPath id = .ok (Path.ofNames (place.session id)) := by
  have hchild := child_ofNames (place.isPlace_shelf isEntryName_openSessions).isName
    (Store.no_slash_of_isPlainName hid)
  rw [Store.Directory.sessionPath_of_isPlainName _ hid, openSessions_eq, hchild, session]

theorem reportPath_eq {id : SessionId} (hid : Store.isPlainName id.name = true) (tier : Tier) :
    place.directory.reportPath id tier =
      .ok (Path.ofNames (place.names ++ [tier.directory] ++ [id.name])) := by
  have hchild := child_ofNames (place.isPlace_shelf (isEntryName_tier tier)).isName
    (Store.no_slash_of_isPlainName hid)
  rw [Store.Directory.reportPath_of_isPlainName _ hid, tierPath_eq, hchild]

theorem run_sessionPath {id : SessionId} (hid : Store.isPlainName id.name = true) (top : Node) :
    (liftM (place.directory.sessionPath id) : ExceptT Failure (StateM Node) Path).run top =
      (.ok (Path.ofNames (place.session id)), top) := by
  rw [run_liftM_except, place.sessionPath_eq hid]

theorem run_reportPath {id : SessionId} (hid : Store.isPlainName id.name = true) (tier : Tier)
    (top : Node) :
    (liftM (place.directory.reportPath id tier) : ExceptT Failure (StateM Node) Path).run top =
      (.ok (Path.ofNames (place.names ++ [tier.directory] ++ [id.name])), top) := by
  rw [run_liftM_except, place.reportPath_eq hid]

end Location

/-! ## Directories -/

namespace Store.Directory

variable (place : Location) {top : Node} {names : List String} {name : String}

theorem run_attempt (root : Path) (top : Node) (operation : Operation) (path : Path)
    (call : FileSystem.Call α) :
    ((Directory.mk inMemory root).attempt operation path call).run top =
      (match (top.perform call).1 with
        | .ok a => .ok a
        | .error cause => .error (.storage operation path.text cause), (top.perform call).2) := by
  show (match (top.perform call).1 with
    | .ok a => (pure (.ok a) : StateM Node (Except Failure α))
    | .error cause => pure (.error (.storage operation path.text cause))) (top.perform call).2 = _
  cases (top.perform call).1 <;> rfl

theorem run_attemptOr (root : Path) (top : Node) (absent : α) (operation : Operation) (path : Path)
    (call : FileSystem.Call α) :
    ((Directory.mk inMemory root).attemptOr absent operation path call).run top =
      (match (top.perform call).1 with
        | .ok a => .ok a
        | .error .notFound => .ok absent
        | .error cause => .error (.storage operation path.text cause), (top.perform call).2) := by
  show (match (top.perform call).1 with
    | .ok a => (pure (.ok a) : StateM Node (Except Failure α))
    | .error .notFound => pure (.ok absent)
    | .error cause => pure (.error (.storage operation path.text cause))) (top.perform call).2 = _
  cases (top.perform call).1 with
  | ok a => rfl
  | error cause => cases cause <;> rfl

/-- A call about a session whose identifier is refused does nothing. -/
theorem perform_of_not_plain (root : Path) (top : Node) {id : SessionId}
    (hid : isPlainName id.name = false) {call : Store.Call α} (hcall : call.session? = some id) :
    ((inDirectory inMemory root).perform call).run top = (.error (.invalidId id.name), top) := by
  have hname : checkedName id = .error (.invalidId id.name) := by
    rw [checkedName, hid]
    rfl
  have hsession : (Directory.mk inMemory root).sessionPath id = .error (.invalidId id.name) := by
    simp only [sessionPath, hname, bind, Except.bind]
  have hreport : ∀ tier,
      (Directory.mk inMemory root).reportPath id tier = .error (.invalidId id.name) := by
    intro tier
    simp only [reportPath, hname, bind, Except.bind]
  cases call <;> simp only [Store.Call.session?, Option.some.injEq, reduceCtorEq] at hcall <;>
    subst hcall
  case write => exact run_bind_error hsession _ top
  case read => exact run_bind_error hsession _ top
  case delete => exact run_bind_error hsession _ top
  case slots => exact run_bind_error hsession _ top
  case deleteSession => exact run_bind_error hsession _ top
  case readReport => exact run_bind_error (hreport .native) _ top
  case writeReport => exact run_bind_error hname _ top
  case deleteReport => exact run_bind_error (hreport .native) _ top

/-- A directory that is not there is listed as an empty one. -/
theorem run_list (hne : names ≠ []) (hplace : IsPlace names) (hlead : top.leadsOn names = true) :
    (place.directory.attemptOr [] .listDirectory (Path.ofNames names)
      (.list (Path.ofNames names))).run top =
      (.ok ((top.entriesAt names).map fun (name, n) => (name, n.kind)), top) := by
  rw [run_attemptOr, Node.perform_list hne hplace hlead]
  rcases Node.get?_of_leadsOn hlead with ⟨hnone, hempty⟩ | hsome
  · simp only [hnone, hempty, List.map_nil]
  · simp only [hsome]

/-- A listing shows the visible entries. -/
theorem run_names (hne : names ≠ []) (hplace : IsPlace names) (hlead : top.leadsOn names = true)
    (kind : EntryKind) :
    (place.directory.names (Path.ofNames names) kind).run top =
      (.ok (IsShelf.visibleNames kind (top.entriesAt names)), top) :=
  run_bind_of_ok (run_list place hne hplace hlead)

theorem run_readIfPresent_eq (root : Path) (top : Node) (path : Path) :
    ((Directory.mk inMemory root).readIfPresent path).run top =
      (match (top.perform (.read path)).1 with
        | .ok contents => .ok (some contents)
        | .error .notFound => .ok none
        | .error cause => .error (.storage .read path.text cause),
        (top.perform (.read path)).2) := by
  show (match (top.perform (.read path)).1 with
    | .ok contents => (pure (.ok (some contents)) : StateM Node (Except Failure (Option Bytes)))
    | .error .notFound => pure (.ok none)
    | .error cause => pure (.error (.storage .read path.text cause)))
      (top.perform (.read path)).2 = _
  cases (top.perform (.read path)).1 with
  | ok contents => rfl
  | error cause => cases cause <;> rfl

/-- Reading a file. -/
theorem run_readIfPresent (hplace : IsPlace (names ++ [name])) (hlead : top.leadsOn names = true) :
    (place.directory.readIfPresent (Path.ofNames (names ++ [name]))).run top =
      (match (top.entriesAt names).lookup name with
        | none => .ok none
        | some (.file contents) => .ok (some contents)
        | some (.directory _) =>
          .error (.storage .read (Path.ofNames (names ++ [name])).text .isADirectory), top) := by
  rw [run_readIfPresent_eq, Node.perform_read hplace hlead]
  cases (top.entriesAt names).lookup name with
  | none => rfl
  | some n => cases n <;> rfl

/-- Removing a file. -/
theorem run_removeFile (hplace : IsPlace (names ++ [name])) (hlead : top.leadsOn names = true) :
    (place.directory.removeFile (Path.ofNames (names ++ [name]))).run top =
      match (top.entriesAt names).lookup name with
      | none => (.ok (), top)
      | some (.directory _) =>
        (.error (.storage .removeFile (Path.ofNames (names ++ [name])).text .isADirectory), top)
      | some (.file _) => (.ok (), top.setEntries names (dropEntry name (top.entriesAt names))) := by
  rw [removeFile, run_attemptOr, Node.perform_removeFile hplace hlead]
  cases (top.entriesAt names).lookup name with
  | none => rfl
  | some n => cases n <;> rfl

/-- Removing a directory. -/
theorem run_removeDirectory (hplace : IsPlace (names ++ [name]))
    (hlead : top.leadsOn (names ++ [name]) = true) :
    (place.directory.removeDirectory (Path.ofNames (names ++ [name]))).run top =
      match (top.entriesAt names).lookup name with
      | none => (.ok (), top)
      | some _ => (.ok (), top.setEntries names (dropEntry name (top.entriesAt names))) := by
  obtain ⟨habove, hfile⟩ := Node.leadsOn_concat.1 hlead
  rw [removeDirectory, run_attemptOr, Node.perform_removeTree hplace habove]
  cases hentry : (top.entriesAt names).lookup name with
  | none => rfl
  | some n =>
    cases n with
    | file contents => exact absurd hentry (hfile contents)
    | directory es => rfl

/-- A file is written under a spare name before it is renamed. -/
theorem run_writeAtomically_eq (hplace : ∀ n, IsEntryName n → IsPlace (names ++ [n]))
    (hlead : top.leadsOn names = true) (hne : names ≠ [])
    (hspare : HasSpareName (top.entriesAt names)) (hname : '/' ∉ name.toList) (contents : Bytes) :
    let temporary := Path.ofNames (names ++ [Node.spareName (top.entriesAt names)])
    let target := Path.ofNames (names ++ [name])
    (place.directory.writeAtomically (Path.ofNames names) name contents).run top =
      (tryCatch (place.directory.attempt .renameTemporary target (.rename temporary target))
        fun failure => do
          let _ ← (place.directory.files.perform (.removeFile temporary) : StateM Node _)
          throw failure).run
        (top.setEntries names (setEntry (Node.spareName (top.entriesAt names)) (.file contents)
          (top.entriesAt names))) := by
  have hget := Node.get?_setEntries top names (top.entriesAt names)
  have hmade := Node.leadsOn_setEntries top names (top.entriesAt names)
  have htemporary := Node.isEntryName_spareName hspare
  have hfree := Node.lookup_spareName (top.entriesAt names)
  -- The directory is made, and a name for the temporary file is drawn.
  have hcreate : (place.directory.attempt .createDirectory (Path.ofNames names)
      (.createDirectories (Path.ofNames names))).run top =
      (.ok (), top.setEntries names (top.entriesAt names)) := by
    rw [run_attempt, Node.perform_createDirectories (hplace _ htemporary).of_concat hlead]
  have hdraw : (place.directory.attempt .writeTemporary (Path.ofNames names)
      (.spareName (Path.ofNames names))).run (top.setEntries names (top.entriesAt names)) =
      (.ok (Node.spareName (top.entriesAt names)),
        top.setEntries names (top.entriesAt names)) := by
    rw [run_attempt, Node.perform_spareName hne (hplace _ htemporary).of_concat hget hmade]
  rw [writeAtomically, run_bind_of_ok hcreate, run_bind_of_ok hdraw,
    child_ofNames (hplace _ htemporary).of_concat.isName htemporary.no_slash,
    child_ofNames (hplace _ htemporary).of_concat.isName hname]
  generalize Node.spareName (top.entriesAt names) = temporary at *
  generalize top.entriesAt names = es at *
  -- The temporary file is written.
  have hwrite : (place.directory.attempt .writeTemporary (Path.ofNames (names ++ [temporary]))
      (.write (Path.ofNames (names ++ [temporary])) contents)).run (top.setEntries names es) =
      (.ok (), top.setEntries names (setEntry temporary (.file contents) es)) := by
    rw [run_attempt, Node.perform_write (hplace _ htemporary) hmade hget, hfree]
    simp only [Node.setEntries_setEntries]
  rw [run_bind_of_ok hwrite]

/-- When the name cannot be given, what was written is removed again. -/
theorem run_writeAtomically_of_error (hplace : ∀ n, IsEntryName n → IsPlace (names ++ [n]))
    (hlead : top.leadsOn names = true) (hne : names ≠ [])
    (hspare : HasSpareName (top.entriesAt names)) (hname : '/' ∉ name.toList) (contents : Bytes)
    {cause : Cause} :
    let temporary := Node.spareName (top.entriesAt names)
    let written := top.setEntries names
      (setEntry temporary (.file contents) (top.entriesAt names))
    written.perform (.rename (Path.ofNames (names ++ [temporary]))
        (Path.ofNames (names ++ [name]))) = (.error cause, written) →
      (place.directory.writeAtomically (Path.ofNames names) name contents).run top =
        (.error (.storage .renameTemporary (Path.ofNames (names ++ [name])).text cause),
          top.setEntries names (top.entriesAt names)) := by
  intro temporary written hrename
  have hfree := Node.lookup_spareName (top.entriesAt names)
  have hattempt := run_attempt place.path written .renameTemporary (Path.ofNames (names ++ [name]))
    (.rename (Path.ofNames (names ++ [temporary])) (Path.ofNames (names ++ [name])))
  rw [hrename] at hattempt
  have hremove := Node.perform_removeFile (hplace _ (Node.isEntryName_spareName hspare))
    (Node.leadsOn_setEntries top names (setEntry temporary (.file contents)
      (top.entriesAt names)))
  rw [Node.entriesAt_setEntries, lookup_setEntry_self,
    dropEntry_setEntry_of_lookup_eq_none hfree, Node.setEntries_setEntries] at hremove
  rw [run_writeAtomically_eq place hplace hlead hne hspare hname contents,
    run_tryCatch_of_error hattempt]
  have hlift := run_liftM_state (ε := Failure)
    (place.directory.files.perform (.removeFile (Path.ofNames (names ++ [temporary])))) written
  rw [run_bind_of_ok hlift]
  show (_, (Node.perform _ _).2) = _
  rw [hremove]

/-- A file is written in one step: it replaces what was there, unless that is a directory.  The name
may be the temporary one that is drawn, which no entry has. -/
theorem run_writeAtomically (hplace : ∀ n, IsEntryName n → IsPlace (names ++ [n]))
    (hlead : top.leadsOn names = true) (hne : names ≠ [])
    (hspare : HasSpareName (top.entriesAt names)) (hname : IsEntryName name) (contents : Bytes) :
    (place.directory.writeAtomically (Path.ofNames names) name contents).run top =
      match (top.entriesAt names).lookup name with
      | some (.directory _) =>
        (.error (.storage .renameTemporary (Path.ofNames (names ++ [name])).text .isADirectory),
          top)
      | _ =>
        (.ok (), top.setEntries names (setEntry name (.file contents) (top.entriesAt names))) := by
  have hfree := Node.lookup_spareName (top.entriesAt names)
  have hwrite :=
    run_writeAtomically_eq place hplace hlead hne hspare hname.no_slash contents
  by_cases hother : Node.spareName (top.entriesAt names) = name
  · rw [hother] at hfree hwrite
    have hrename := Node.perform_rename_self (hplace _ hname) (Node.leadsOn_setEntries top names _)
      (Node.get?_setEntries top names _)
      (lookup_setEntry_self name (.file contents) (top.entriesAt names))
    rw [hfree, hwrite]
    exact run_tryCatch_of_ok (by rw [run_attempt, hrename])
  · have hrename := Node.perform_rename (hplace _ (Node.isEntryName_spareName hspare))
      (hplace _ hname) (Node.leadsOn_setEntries top names _) (Node.get?_setEntries top names _)
      (lookup_setEntry_self _ (.file contents) (top.entriesAt names)) hother
    rw [lookup_setEntry_of_ne _ _ (Ne.symm hother), dropEntry_setEntry_of_lookup_eq_none hfree,
      Node.setEntries_setEntries] at hrename
    cases hentry : (top.entriesAt names).lookup name with
    | none =>
      rw [hentry] at hrename
      rw [hwrite]
      exact run_tryCatch_of_ok (by rw [run_attempt, hrename])
    | some n =>
      rw [hentry] at hrename
      cases n with
      | file old =>
        rw [hwrite]
        exact run_tryCatch_of_ok (by rw [run_attempt, hrename])
      | directory fs =>
        have hsame : top.setEntries names (top.entriesAt names) = top := by
          rcases Node.get?_of_leadsOn hlead with ⟨-, hempty⟩ | hsome
          · simp [hempty] at hentry
          · exact Node.setEntries_entriesAt hsome
        rw [run_writeAtomically_of_error place hplace hlead hne hspare hname.no_slash contents
          hrename, hsame]

end Store.Directory

/-! ## Replacing a shelf -/

namespace HoldsFiles

variable {es : List (String × Node)} {files : Files}

theorem lookup (h : HoldsFiles (.directory es) files) (name : String) :
    files.lookup name = (es.lookup name).map Item.ofNode := by
  rw [h.files_eq]
  exact lookup_map Item.ofNode name es

theorem setEntry (h : HoldsFiles (.directory es) files) {name : String} (hname : IsEntryName name)
    (contents : Bytes) (hspare : HasSpareName (setEntry name (.file contents) es)) :
    HoldsFiles (.directory (setEntry name (.file contents) es))
      (setEntry name (.file contents) files) where
  isDirectory := rfl
  files_eq := by
    rw [h.files_eq]
    exact (map_setEntry Item.ofNode name (.file contents) es).symm
  nodup := nodup_setEntry h.nodup
  isName other hother := by
    rcases mem_names_setEntry.1 hother with he | hmem
    · exact he ▸ hname
    · exact h.isName other hmem
  hasSpareName := hspare

theorem dropEntry (h : HoldsFiles (.directory es) files) (name : String) :
    HoldsFiles (.directory (dropEntry name es)) (dropEntry name files) where
  isDirectory := rfl
  files_eq := by
    rw [h.files_eq]
    exact (map_dropEntry Item.ofNode name es).symm
  nodup := nodup_dropEntry h.nodup
  isName other hother := by
    obtain ⟨e, he, rfl⟩ := List.mem_map.1 hother
    exact h.isName _ (List.mem_map.2 ⟨e, List.mem_of_mem_filter he, rfl⟩)
  hasSpareName := h.hasSpareName.dropEntry name

end HoldsFiles

namespace Vault.IsHeldIn

variable {v : Vault} {place : Location} {top : Node} {id : SessionId}

/-- Another shelf does not change. -/
theorem entriesAt_setEntries_of_ne {shelf other : String} (hne : other ≠ shelf)
    (es : List (String × Node)) :
    (top.setEntries (place.names ++ [shelf]) es).entriesAt (place.names ++ [other]) =
      top.entriesAt (place.names ++ [other]) := by
  rw [Node.setEntries_concat, Node.entriesAt_concat, Node.entriesAt_setEntries,
    lookup_setEntry_of_ne _ _ hne, ← Node.entriesAt_concat]

theorem leadsOn_setEntries {shelf other : String} (es : List (String × Node))
    (h : top.leadsOn (place.names ++ [other]) = true) :
    (top.setEntries (place.names ++ [shelf]) es).leadsOn (place.names ++ [other]) = true := by
  by_cases hne : other = shelf
  · rw [hne]
    exact Node.leadsOn_setEntries _ _ _
  · rw [Node.setEntries_concat, Node.leadsOn_concat, Node.entriesAt_setEntries,
      lookup_setEntry_of_ne _ _ hne]
    exact ⟨Node.leadsOn_setEntries _ _ _, (Node.leadsOn_concat.1 h).2⟩

/-- Other sessions are open. -/
theorem setSessions (h : v.IsHeldIn place top) {es : List (String × Node)}
    {sessions : Finmap fun _ : SessionId => Files} (hes : IsShelf HoldsFiles es sessions) :
    ({ v with sessions } : Vault).IsHeldIn place
      (top.setEntries (place.names ++ [Store.openSessions]) es) where
  leadsOn_sessions := Node.leadsOn_setEntries _ _ _
  leadsOn_tier tier := leadsOn_setEntries es (h.leadsOn_tier tier)
  sessions := by
    rw [Node.entriesAt_setEntries]
    exact hes
  reports tier := by
    rw [entriesAt_setEntries_of_ne (openSessions_ne_tier tier).symm]
    exact h.reports tier

/-- Other reports are in a tier. -/
theorem setTier (h : v.IsHeldIn place top) (tier : Tier) {es : List (String × Node)}
    {reports : Finmap fun _ : SessionId => Bytes} (hes : IsShelf HoldsReport es reports) :
    ({ v with reports := Function.update v.reports tier reports } : Vault).IsHeldIn place
      (top.setEntries (place.names ++ [tier.directory]) es) where
  leadsOn_sessions := leadsOn_setEntries es h.leadsOn_sessions
  leadsOn_tier other := leadsOn_setEntries es (h.leadsOn_tier other)
  sessions := by
    rw [entriesAt_setEntries_of_ne (openSessions_ne_tier tier)]
    exact h.sessions
  reports other := by
    show IsShelf HoldsReport _ (Function.update v.reports tier reports other)
    by_cases hother : other = tier
    · rw [hother, Function.update_self, Node.entriesAt_setEntries]
      exact hes
    · have hname : other.directory ≠ tier.directory := fun hd => hother (Tier.directory_inj hd)
      rw [Function.update_of_ne hother, entriesAt_setEntries_of_ne hname]
      exact h.reports other

/-- The directory of a session holds its files; of one that is not open, none. -/
theorem session (h : v.IsHeldIn place top) (hid : id.IsStorable) :
    HoldsFiles (.directory (top.entriesAt (place.session id))) (v.files id) := by
  have hentries := Node.entriesAt_concat top (place.names ++ [Store.openSessions]) id.name
  rw [Location.session, hentries, Vault.files]
  cases hfiles : v.sessions.lookup id with
  | none =>
    rw [h.sessions.shows.lookup_eq_none hid.isVisible hfiles]
    exact ⟨rfl, rfl, List.nodup_nil, by simp, Node.hasSpareName_nil⟩
  | some files =>
    obtain ⟨n, hn, hholds⟩ := h.sessions.shows.lookup_eq_some hid.isVisible hfiles
    rw [hn]
    have hdirectory := hholds.isDirectory
    rw [Option.getD_some, Option.getD_some, ← hdirectory]
    exact hholds

theorem leadsOn_session (h : v.IsHeldIn place top) (hid : id.IsStorable) :
    top.leadsOn (place.session id) = true := by
  rw [Location.session, Node.leadsOn_concat]
  refine ⟨h.leadsOn_sessions, ?_⟩
  intro contents hfile
  have hrel := h.sessions.lookup id hid.isVisible
  rw [hfile] at hrel
  cases hfiles : v.sessions.lookup id with
  | none => rw [hfiles] at hrel; cases hrel
  | some files =>
    rw [hfiles] at hrel
    cases hrel with
    | some hholds => exact absurd hholds.isDirectory (by simp)

/-- A session has other files. -/
theorem setFiles (h : v.IsHeldIn place top) (hid : id.IsStorable) {es : List (String × Node)}
    {files : Files} (hes : HoldsFiles (.directory es) files) :
    (v.setFiles id files).IsHeldIn place (top.setEntries (place.session id) es) := by
  rw [Location.session, Node.setEntries_concat]
  exact h.setSessions (h.sessions.setEntry hid hes)

end Vault.IsHeldIn

end ReportVault
