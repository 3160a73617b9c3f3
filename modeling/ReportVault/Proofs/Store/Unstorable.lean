import ReportVault.Proofs.Store.Refinement

/-!
# ReportVault.Proofs.Store.Unstorable

Calls about sessions that cannot be stored, as their identifiers are no names or are too long.

The directory of a store holds what it held before such a call; `Vault.IsHeldIn.exists_after` says
of any call that its directory holds the vault of before or the changed one.
-/

namespace ReportVault

open FileSystem

namespace Store.Directory

variable (place : Location) {top : Node} {id : SessionId} {long : String}

/-- What cannot be done counts as absent, or it fails. -/
theorem run_attemptOr_of_error {call : FileSystem.Call α} (absent : α) (operation : Operation)
    (path : Path) (h : ∃ cause, top.perform call = (.error cause, top)) :
    (place.directory.attemptOr absent operation path call).run top = (.ok absent, top) ∨
      ∃ failure, (place.directory.attemptOr absent operation path call).run top =
        (.error failure, top) := by
  obtain ⟨cause, h⟩ := h
  rw [run_attemptOr, h]
  cases cause with
  | notFound => exact Or.inl rfl
  | _ => exact Or.inr ⟨_, rfl⟩

theorem run_readIfPresent_of_error (path : Path)
    (h : ∃ cause, top.perform (.read path) = (.error cause, top)) :
    (place.directory.readIfPresent path).run top = (.ok none, top) ∨
      ∃ failure, (place.directory.readIfPresent path).run top = (.error failure, top) := by
  obtain ⟨cause, hread⟩ := h
  rw [run_readIfPresent_eq, hread]
  cases cause with
  | notFound => exact Or.inl rfl
  | _ => exact Or.inr ⟨_, rfl⟩

/-- No tier has a report of such a session. -/
theorem run_readFrom_of_long (hplain : isPlainName id.name = true)
    (hlong : Node.maxNameBytes < id.name.utf8ByteSize) (tiers : List Tier) (top : Node) :
    (place.directory.readFrom id tiers).run top = (.ok none, top) ∨
      ∃ failure, (place.directory.readFrom id tiers).run top = (.error failure, top) := by
  induction tiers with
  | nil => exact Or.inl rfl
  | cons tier rest ih =>
    rw [readFrom, run_bind_of_ok (place.run_reportPath hplain tier top)]
    rcases run_readIfPresent_of_error place
      (Path.ofNames (place.names ++ [tier.directory] ++ [id.name]))
      (Node.perform_read_of_long top hlong (place.names ++ [tier.directory]) [])
      with hread | ⟨failure, hread⟩
    · rw [run_bind_of_ok hread]
      exact ih
    · exact Or.inr ⟨failure, run_bind_of_error hread⟩

theorem run_removeFrom_of_long (hplain : isPlainName id.name = true)
    (hlong : Node.maxNameBytes < id.name.utf8ByteSize) (tiers : List Tier) :
    ((place.directory.removeFrom id tiers).run top).2 = top := by
  induction tiers with
  | nil => rfl
  | cons tier rest ih =>
    have hremove := run_attemptOr_of_error place () .removeFile
      (Path.ofNames (place.names ++ [tier.directory] ++ [id.name]))
      (Node.perform_removeFile_of_long top hlong (place.names ++ [tier.directory]) [])
    rw [removeFrom, run_bind_of_ok (place.run_reportPath hplain tier top), removeFile]
    rcases hremove with hremove | ⟨failure, hremove⟩
    · rw [run_bind_of_ok hremove]
      exact ih
    · rw [run_bind_of_error hremove]

end Store.Directory

namespace Vault.IsHeldIn

variable {v : Vault} {place : Location} {top : Node} {id : SessionId}

/-- The directory of the open sessions may be made at any time. -/
theorem make_sessions (h : v.IsHeldIn place top) :
    v.IsHeldIn place (top.setEntries (place.names ++ [Store.openSessions])
      (top.entriesAt (place.names ++ [Store.openSessions]))) :=
  h.setSessions h.sessions

/-- And so may that of a tier. -/
theorem make_tier (h : v.IsHeldIn place top) (tier : Tier) :
    v.IsHeldIn place (top.setEntries (place.names ++ [tier.directory])
      (top.entriesAt (place.names ++ [tier.directory]))) := by
  have hset := h.setTier tier (h.reports tier)
  rw [Function.update_eq_self] at hset
  exact hset

theorem child_session_of_long (hlong : Node.maxNameBytes < id.name.utf8ByteSize) {name : String}
    (hname : IsEntryName name) :
    (Path.ofNames (place.session id)).child name =
      Path.ofNames ((place.names ++ [Store.openSessions]) ++ id.name :: [name]) := by
  have hlast : (Path.ofNames (place.session id)).parts.getLast? ≠ some "" := by
    rw [Location.session, Path.ofNames, List.getLast?_concat, ne_eq, Option.some.injEq]
    exact (Node.ne_of_long hlong).1
  rw [Path.parts_child hlast hname.no_slash, Location.session, Path.ofNames, Path.ofNames,
    List.append_assoc _ [id.name]]
  rfl

section TooLong

variable (hplain : Store.isPlainName id.name = true)
  (hlong : Node.maxNameBytes < id.name.utf8ByteSize)

include hplain hlong

theorem write_of_long (h : v.IsHeldIn place top) (name : String) (contents : Bytes) :
    v.IsHeldIn place ((place.store.perform (.write id name contents)).run top).2 := by
  obtain ⟨cause, after, hcreate, hafter⟩ := Node.perform_createDirectories_of_long
    hlong (place.isPlace_shelf isEntryName_openSessions) h.leadsOn_sessions
  have hattempt := Store.Directory.run_attempt place.path top .createDirectory
    (Path.ofNames (place.session id)) (.createDirectories (Path.ofNames (place.session id)))
  have hsession : Path.ofNames (place.session id) =
      Path.ofNames (place.names ++ [Store.openSessions] ++ [id.name]) := rfl
  rw [← hsession] at hcreate
  rw [hcreate] at hattempt
  have hrun : (place.store.perform (.write id name contents)).run top =
      (place.directory.writeAtomically (Path.ofNames (place.session id)) name contents).run top :=
    run_bind_of_ok (place.run_sessionPath hplain top)
  rw [hrun, Store.Directory.writeAtomically, run_bind_of_error hattempt]
  rcases hafter with rfl | rfl
  · exact h
  · exact h.make_sessions

/-- No file of such a session is found. -/
theorem run_read_of_long {name : String} (hname : IsEntryName name) (place : Location)
    (top : Node) :
    (place.store.perform (.read id name)).run top = (.ok none, top) ∨
      ∃ failure, (place.store.perform (.read id name)).run top = (.error failure, top) := by
  have hrun : (place.store.perform (.read id name)).run top =
      (place.directory.readIfPresent ((Path.ofNames (place.session id)).child name)).run top :=
    run_bind_of_ok (place.run_sessionPath hplain top)
  rw [hrun, child_session_of_long hlong hname]
  exact Store.Directory.run_readIfPresent_of_error place _
    (Node.perform_read_of_long top hlong _ [name])

theorem delete_of_long (h : v.IsHeldIn place top) {name : String} (hname : IsEntryName name) :
    v.IsHeldIn place ((place.store.perform (.delete id name)).run top).2 := by
  have hrun : (place.store.perform (.delete id name)).run top =
      (place.directory.removeFile ((Path.ofNames (place.session id)).child name)).run top :=
    run_bind_of_ok (place.run_sessionPath hplain top)
  obtain ⟨cause, hremove⟩ := Node.perform_removeFile_of_long top hlong
    (place.names ++ [Store.openSessions]) [name]
  rw [hrun, child_session_of_long hlong hname, Store.Directory.removeFile,
    Store.Directory.run_attemptOr, hremove]
  exact h

/-- Such a session has no event files. -/
theorem run_slots_of_long (place : Location) (top : Node) :
    (place.store.perform (.slots id)).run top = (.ok [], top) ∨
      ∃ failure, (place.store.perform (.slots id)).run top = (.error failure, top) := by
  have hrun : (place.store.perform (.slots id)).run top =
      ((place.directory.names (Path.ofNames (place.session id)) .file) >>= fun names =>
        pure ((names.filterMap Slot.ofFileName?).mergeSort Slot.ascending)).run top :=
    run_bind_of_ok (place.run_sessionPath hplain top)
  rw [hrun]
  refine (Store.Directory.run_attemptOr_of_error place [] .listDirectory
    (Path.ofNames (place.session id))
    (Node.perform_list_of_long top hlong (place.names ++ [Store.openSessions]) [])).imp
      (fun hlist => ?_) ?_
  · have hnames : (place.directory.names (Path.ofNames (place.session id)) .file).run top =
        (.ok [], top) := run_bind_of_ok hlist
    rw [run_bind_of_ok hnames, List.filterMap_nil, List.mergeSort_nil]
    rfl
  · rintro ⟨failure, hlist⟩
    have hnames : (place.directory.names (Path.ofNames (place.session id)) .file).run top =
        (.error failure, top) := run_bind_of_error hlist
    exact ⟨failure, run_bind_of_error hnames⟩

theorem deleteSession_of_long (h : v.IsHeldIn place top) :
    v.IsHeldIn place ((place.store.perform (.deleteSession id)).run top).2 := by
  have hrun : (place.store.perform (.deleteSession id)).run top =
      (place.directory.removeDirectory (Path.ofNames (place.session id))).run top :=
    run_bind_of_ok (place.run_sessionPath hplain top)
  obtain ⟨cause, hremove⟩ := Node.perform_removeTree_of_long top hlong
    (place.names ++ [Store.openSessions])
  rw [hrun, Location.session, Store.Directory.removeDirectory, Store.Directory.run_attemptOr,
    hremove]
  exact h

/-- The directory of the tier is made, but no file is left in it. -/
theorem writeReport_of_long (h : v.IsHeldIn place top) (tier : Tier) (contents : Bytes) :
    v.IsHeldIn place ((place.store.perform (.writeReport id tier contents)).run top).2 := by
  have hname : (liftM (Store.checkedName id) : ExceptT Failure (StateM Node) String).run top =
      (.ok id.name, top) := by
    rw [run_liftM_except, Store.checkedName_of_isPlainName hplain]
  obtain ⟨cause, hrename⟩ := Node.perform_rename_of_long
    (top.setEntries (place.names ++ [tier.directory]) (setEntry
      (Node.spareName (top.entriesAt (place.names ++ [tier.directory]))) (.file contents)
      (top.entriesAt (place.names ++ [tier.directory])))) hlong
    (Path.ofNames (place.names ++ [tier.directory] ++
      [Node.spareName (top.entriesAt (place.names ++ [tier.directory]))]))
    (place.names ++ [tier.directory])
  have hwrite := Store.Directory.run_writeAtomically_of_error place
    (fun n hn => place.isPlace_entry (isEntryName_tier tier) hn) (h.leadsOn_tier tier) (by simp)
    (h.reports tier).hasSpareName (Store.no_slash_of_isPlainName hplain) contents hrename
  rw [← place.tierPath_eq] at hwrite
  show v.IsHeldIn place (((liftM (Store.checkedName id) : ExceptT Failure (StateM Node) String) >>=
    _).run top).2
  rw [run_bind_of_ok hname, run_bind_of_error hwrite]
  exact h.make_tier tier

/-- A call about a session whose identifier is too long for a name changes nothing. -/
theorem perform_of_long (h : v.IsHeldIn place top) (call : Store.Call α)
    (hcall : call.session? = some id) (hnames : call.NamesEntries) :
    v.IsHeldIn place ((place.store.perform call).run top).2 ∧
      ∀ a, ((place.store.perform call).run top).1 = .ok a → call.IsProperAnswer a := by
  cases call <;> simp only [Store.Call.session?, Option.some.injEq, reduceCtorEq] at hcall <;>
    subst hcall
  case write name contents => exact ⟨write_of_long hplain hlong h name contents, fun _ _ => trivial⟩
  case read name =>
    refine ⟨?_, fun _ _ => trivial⟩
    rcases run_read_of_long hplain hlong hnames place top with hread | ⟨failure, hread⟩
    · rwa [hread]
    · rwa [hread]
  case delete name => exact ⟨delete_of_long hplain hlong h hnames, fun _ _ => trivial⟩
  case slots =>
    rcases run_slots_of_long hplain hlong place top with hslots | ⟨failure, hslots⟩
    · rw [hslots]
      refine ⟨h, fun slots hanswer slot hslot => ?_⟩
      rw [← Except.ok.inj hanswer] at hslot
      exact absurd hslot List.not_mem_nil
    · rw [hslots]
      exact ⟨h, fun slots hanswer => absurd hanswer (by simp)⟩
  case deleteSession => exact ⟨deleteSession_of_long hplain hlong h, fun _ _ => trivial⟩
  case readReport =>
    refine ⟨?_, fun _ _ => trivial⟩
    show v.IsHeldIn place ((place.directory.readFrom _ Tier.all).run top).2
    rcases Store.Directory.run_readFrom_of_long place hplain hlong Tier.all top
      with hread | ⟨failure, hread⟩
    · rwa [hread]
    · rwa [hread]
  case writeReport tier contents =>
    exact ⟨writeReport_of_long hplain hlong h tier contents, fun _ _ => trivial⟩
  case deleteReport =>
    refine ⟨?_, fun _ _ => trivial⟩
    show v.IsHeldIn place ((place.directory.removeFrom _ Tier.all).run top).2
    rw [Store.Directory.run_removeFrom_of_long place hplain hlong Tier.all]
    exact h

end TooLong

/-- A call is proper, or it is about a session that cannot be stored: it is refused, or the
identifier is too long. -/
theorem isProper_or_unstorable (place : Location) (top : Node) {call : Store.Call α}
    (hnames : call.NamesEntries) :
    call.IsProper ∨ (∃ failure, (place.store.perform call).run top = (.error failure, top)) ∨
      ∃ id, call.session? = some id ∧ Store.isPlainName id.name = true ∧
        Node.maxNameBytes < id.name.utf8ByteSize := by
  cases hsession : call.session? with
  | none => exact Or.inl (hnames.isProper (by simp [hsession]))
  | some id =>
    by_cases hshort : id.IsShort
    · refine Or.inl (hnames.isProper fun other hother => ?_)
      rw [hsession, Option.some.injEq] at hother
      exact hother ▸ hshort
    · refine Or.inr ?_
      cases hplain : Store.isPlainName id.name with
      | true => exact Or.inr ⟨id, rfl, hplain, Nat.not_le.1 hshort⟩
      | false => exact Or.inl ⟨_, (perform_of_not_plain Vault.empty place top hplain hsession).1⟩

/-- After any call the directory holds the vault of before or the changed one, and what is listed
can be named. -/
theorem exists_after (h : v.IsHeldIn place top) (call : Store.Call α)
    (hnames : call.NamesEntries) :
    (∃ w : Vault, (w = v ∨ ∃ c, call.change? = some c ∧ w = c.apply v) ∧
      w.IsHeldIn place ((place.store.perform call).run top).2) ∧
    ∀ a, ((place.store.perform call).run top).1 = .ok a → call.IsProperAnswer a := by
  rcases isProper_or_unstorable place top hnames with hproper | ⟨failure, hrun⟩ |
    ⟨id, hsession, hplain, hlong⟩
  · obtain ⟨hanswer, hafter⟩ := h.perform call hproper
    exact ⟨⟨_, v.perform_snd place call, hafter⟩, fun a ha =>
      h.isWellFormed.isProperAnswer place call (hanswer ▸ ha)⟩
  · rw [hrun]
    exact ⟨⟨v, Or.inl rfl, h⟩, fun a ha => absurd ha (by simp)⟩
  · obtain ⟨hafter, hanswer⟩ := perform_of_long hplain hlong h call hsession hnames
    exact ⟨⟨v, Or.inl rfl, hafter⟩, hanswer⟩

/-- A call that only looks leaves the directory as it is, whatever session it is about. -/
theorem perform_looking (h : v.IsHeldIn place top) {call : Store.Call α}
    (hnames : call.NamesEntries) (hread : call.isRead = true) :
    ((place.store.perform call).run top).2 = top := by
  have hsame : ∀ {answer : α}, (place.store.perform call).run top = (.ok answer, top) ∨
      (∃ failure, (place.store.perform call).run top = (.error failure, top)) →
        ((place.store.perform call).run top).2 = top := by
    rintro answer (hrun | ⟨failure, hrun⟩)
    · rw [hrun]
    · rw [hrun]
  rcases isProper_or_unstorable place top hnames with hproper | ⟨failure, hrun⟩ |
    ⟨id, hsession, hplain, hlong⟩
  · exact h.perform_of_isRead hproper hread
  · rw [hrun]
  · cases call <;> simp only [Store.Call.isRead, Bool.false_eq_true] at hread <;>
      simp only [Store.Call.session?, Option.some.injEq, reduceCtorEq] at hsession <;>
      subst hsession
    case read name => exact hsame (run_read_of_long hplain hlong hnames place top)
    case slots => exact hsame (run_slots_of_long hplain hlong place top)
    case readReport =>
      exact hsame (Store.Directory.run_readFrom_of_long place hplain hlong Tier.all top)

/-- What is read of a session is in the vault. -/
theorem item?_of_read (h : v.IsHeldIn place top) {name : String} (hname : IsEntryName name)
    {contents : Bytes}
    (hread : ((place.store.perform (.read id name)).run top).1 = .ok (some contents)) :
    v.item? id name = some (.file contents) := by
  cases hplain : Store.isPlainName id.name with
  | false =>
    rw [(perform_of_not_plain v place top hplain rfl).1] at hread
    cases hread
  | true =>
    by_cases hshort : id.IsShort
    · rw [h.perform_read ⟨hplain, hshort⟩ hname, v.perform_read place ⟨hplain, hshort⟩,
        Vault.readAnswer] at hread
      split at hread <;> simp_all
    · rcases run_read_of_long hplain (Nat.not_le.1 hshort) hname place top
        with hrun | ⟨failure, hrun⟩
      · simp [hrun] at hread
      · simp [hrun] at hread

/-- A report that is read is in the vault. -/
theorem report?_of_readReport (h : v.IsHeldIn place top) {found : Tier × Bytes}
    (hread : ((place.store.perform (.readReport id)).run top).1 = .ok (some found)) :
    v.report? id = some found := by
  cases hplain : Store.isPlainName id.name with
  | false =>
    rw [(perform_of_not_plain v place top hplain rfl).1] at hread
    cases hread
  | true =>
    by_cases hshort : id.IsShort
    · rw [h.perform_readReport ⟨hplain, hshort⟩] at hread
      simpa using hread
    · have hrun : (place.store.perform (.readReport id)).run top =
          (place.directory.readFrom id Tier.all).run top := rfl
      rcases Store.Directory.run_readFrom_of_long place hplain (Nat.not_le.1 hshort) Tier.all top
        with hnone | ⟨failure, hnone⟩
      · simp [hrun, hnone] at hread
      · simp [hrun, hnone] at hread

end Vault.IsHeldIn

end ReportVault
