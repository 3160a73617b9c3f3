import ReportVault.Proofs.Store.Change
import ReportVault.Proofs.Store.Tiers

/-!
# ReportVault.Proofs.Store.Refinement

The directory of a store answers as the vault that it holds.

`Vault.IsHeldIn.perform` is the refinement: each call gives the same answer, and the directory
holds the changed vault afterwards.
-/

namespace ReportVault

open FileSystem
open FileSystem.Node (HasSpareName)

namespace Vault.IsHeldIn

variable {v : Vault} {place : Location} {top : Node} {id : SessionId}

/-! ## Calls about files -/

theorem session_ne_nil (place : Location) (id : SessionId) : place.session id ≠ [] := by
  simp [Location.session]

/-- A file is written unless a directory has its name. -/
theorem run_write (h : v.IsHeldIn place top) (hid : id.IsStorable) {name : String}
    (hname : IsEntryName name) (contents : Bytes) :
    (place.store.perform (.write id name contents)).run top =
      match v.item? id name with
      | some .directory =>
        (.error (.storage .renameTemporary (place.filePath id name).text .isADirectory), top)
      | _ =>
        (.ok (), top.setEntries (place.session id)
          (setEntry name (.file contents) (top.entriesAt (place.session id)))) := by
  have hfiles := h.session hid
  have hwrite := Store.Directory.run_writeAtomically place
    (fun n hn => place.isPlace_file hid hn) (h.leadsOn_session hid) (session_ne_nil place id)
    hfiles.hasSpareName hname contents
  have hrun : (place.store.perform (.write id name contents)).run top =
      (place.directory.writeAtomically (Path.ofNames (place.session id)) name contents).run top :=
    run_bind_of_ok (place.run_sessionPath hid.isPlain top)
  rw [hrun, hwrite, Vault.item?, hfiles.lookup]
  cases (top.entriesAt (place.session id)).lookup name with
  | none => rfl
  | some n => cases n <;> rfl

theorem perform_write (h : v.IsHeldIn place top) (hid : id.IsStorable) {name : String}
    (hname : IsEntryName name) (contents : Bytes)
    (hspare : HasSpareName (setEntry name (.file contents) (top.entriesAt (place.session id)))) :
    ((place.store.perform (.write id name contents)).run top).1 =
        (v.perform place (.write id name contents)).1 ∧
      (v.perform place (.write id name contents)).2.IsHeldIn place
        ((place.store.perform (.write id name contents)).run top).2 := by
  have hnew := h.setFiles hid ((h.session hid).setEntry hname contents hspare)
  rw [h.run_write hid hname, Vault.perform, Vault.ifPlain, hid.checkedName]
  cases v.item? id name with
  | none => exact ⟨rfl, hnew⟩
  | some item =>
    cases item with
    | file old => exact ⟨rfl, hnew⟩
    | directory => exact ⟨rfl, h⟩

theorem perform_read (h : v.IsHeldIn place top) (hid : id.IsStorable) {name : String}
    (hname : IsEntryName name) :
    (place.store.perform (.read id name)).run top = ((v.perform place (.read id name)).1, top) := by
  have hread := Store.Directory.run_readIfPresent place
    (place.isPlace_file hid hname) (h.leadsOn_session hid)
  have hchild := child_ofNames (place.isPlace_file hid hname).of_concat.isName hname.no_slash
  have hrun : (place.store.perform (.read id name)).run top =
      (place.directory.readIfPresent (Path.ofNames (place.session id ++ [name]))).run top := by
    rw [← hchild]
    exact run_bind_of_ok (place.run_sessionPath hid.isPlain top)
  rw [hrun, hread, Vault.perform, Vault.ifPlain, hid.checkedName, Vault.readAnswer, Vault.item?,
    (h.session hid).lookup]
  cases (top.entriesAt (place.session id)).lookup name with
  | none => rfl
  | some n => cases n <;> rfl

theorem perform_delete (h : v.IsHeldIn place top) (hid : id.IsStorable) {name : String}
    (hname : IsEntryName name) :
    ((place.store.perform (.delete id name)).run top).1 = (v.perform place (.delete id name)).1 ∧
      (v.perform place (.delete id name)).2.IsHeldIn place
        ((place.store.perform (.delete id name)).run top).2 := by
  have hfiles := h.session hid
  have hremove := Store.Directory.run_removeFile place
    (place.isPlace_file hid hname) (h.leadsOn_session hid)
  have hchild := child_ofNames (place.isPlace_file hid hname).of_concat.isName hname.no_slash
  have hrun : (place.store.perform (.delete id name)).run top =
      (place.directory.removeFile (Path.ofNames (place.session id ++ [name]))).run top := by
    rw [← hchild]
    exact run_bind_of_ok (place.run_sessionPath hid.isPlain top)
  have hnew := h.setFiles hid (hfiles.dropEntry name)
  have hitem : v.item? id name =
      ((top.entriesAt (place.session id)).lookup name).map Item.ofNode := hfiles.lookup name
  rw [hrun, hremove, Vault.perform, Vault.ifPlain, hid.checkedName, hitem]
  cases hentry : (top.entriesAt (place.session id)).lookup name with
  | none =>
    rw [hentry] at hitem
    refine ⟨rfl, ?_⟩
    show (v.dropFile id name).IsHeldIn place top
    rw [Vault.dropFile_of_item?_eq_none hitem]
    exact h
  | some n =>
    rw [hentry] at hitem
    cases n with
    | directory fs => exact ⟨rfl, h⟩
    | file old =>
      refine ⟨rfl, ?_⟩
      show (v.dropFile id name).IsHeldIn place _
      rw [Vault.dropFile_of_item?_eq_some hitem]
      exact hnew

/-- The files of a session that a listing shows. -/
theorem visibleNames_session (h : v.IsHeldIn place top) (hid : id.IsStorable) :
    IsShelf.visibleNames .file (top.entriesAt (place.session id)) =
      (v.files id).filterMap fun (name, item) =>
        if item.isFile && name.toList.head? != some '.' then some name else none := by
  rw [(h.session hid).files_eq, IsShelf.visibleNames, Files.ofEntries, List.filterMap_map,
    List.filterMap_map]
  refine List.filterMap_congr fun e _ => ?_
  obtain ⟨name, n⟩ := e
  cases n <;> rfl

theorem perform_slots (h : v.IsHeldIn place top) (hid : id.IsStorable) :
    (place.store.perform (.slots id)).run top = (.ok (v.files id).slots, top) := by
  have hplace := (place.isPlace_file hid isEntryName_openSessions).of_concat
  have hnames := Store.Directory.run_names place (session_ne_nil place id) hplace
    (h.leadsOn_session hid) .file
  show ((liftM (place.directory.sessionPath id) : ExceptT Failure (StateM Node) Path) >>= _).run
    top = _
  rw [run_bind_of_ok (place.run_sessionPath hid.isPlain top), run_bind_of_ok hnames,
    h.visibleNames_session hid]
  rfl

/-! ## Calls about open sessions -/

theorem perform_openIds (h : v.IsHeldIn place top) :
    (place.store.perform .openIds).run top = (.ok v.sessions.keys.sort, top) := by
  have hnames := Store.Directory.run_names place (by simp)
    (place.isPlace_shelf isEntryName_openSessions) h.leadsOn_sessions .directory
  have hkind : ∀ n files, HoldsFiles n files → n.kind = .directory := by
    intro n files hn
    rw [hn.isDirectory]
    rfl
  obtain ⟨hnodup, hmem⟩ := h.sessions.shows.visibleNames_spec hkind
  have hkeys : ((IsShelf.visibleNames .directory
      (top.entriesAt (place.names ++ [Store.openSessions]))).map SessionId.mk).toFinset =
      v.sessions.keys := by
    ext id
    rw [List.mem_toFinset, hmem, Finmap.mem_keys]
  rw [← hkeys, ← SessionId.mergeSort_ascending hnodup]
  rw [← place.openSessions_eq] at hnames
  exact run_bind_of_ok hnames

theorem perform_deleteSession (h : v.IsHeldIn place top) (hid : id.IsStorable) :
    ∃ after, (place.store.perform (.deleteSession id)).run top = (.ok (), after) ∧
      (v.close id).IsHeldIn place after := by
  have hplace := (place.isPlace_file hid isEntryName_openSessions).of_concat
  have hremove := Store.Directory.run_removeDirectory place hplace
    (h.leadsOn_session hid)
  have hrun : (place.store.perform (.deleteSession id)).run top =
      (place.directory.removeDirectory (Path.ofNames (place.session id))).run top :=
    run_bind_of_ok (place.run_sessionPath hid.isPlain top)
  have hdrop := h.setSessions (h.sessions.dropEntry id)
  cases hentry : (top.entriesAt (place.names ++ [Store.openSessions])).lookup id.name with
  | some n =>
    rw [hentry] at hremove
    exact ⟨_, hrun.trans hremove, hdrop⟩
  | none =>
    rw [hentry] at hremove
    refine ⟨_, hrun.trans hremove, ?_⟩
    have hrel := h.sessions.lookup id hid.isVisible
    rw [hentry] at hrel
    have hnone : v.sessions.lookup id = none := by
      cases hfiles : v.sessions.lookup id with
      | none => rfl
      | some files => rw [hfiles] at hrel; cases hrel
    rw [Vault.close_of_lookup_eq_none hnone]
    exact h

/-! ## Calls about reports -/

/-- The report of a session is removed from one tier. -/
theorem run_removeReport (h : v.IsHeldIn place top) (hid : id.IsStorable) (tier : Tier) :
    ∃ after, (place.directory.removeFile
        (Path.ofNames (place.names ++ [tier.directory] ++ [id.name]))).run top = (.ok (), after) ∧
      ({ v with reports := Function.update v.reports tier ((v.reports tier).erase id) } :
        Vault).IsHeldIn place after := by
  have hremove := Store.Directory.run_removeFile place
    (place.isPlace_entry (isEntryName_tier tier) hid.isEntryName) (h.leadsOn_tier tier)
  cases hreport : (v.reports tier).lookup id with
  | none =>
    rw [(h.reports tier).shows.lookup_eq_none hid.isVisible hreport] at hremove
    refine ⟨top, hremove, ?_⟩
    rw [erase_of_lookup_eq_none hreport, Function.update_eq_self]
    exact h
  | some contents =>
    obtain ⟨n, hn, rfl⟩ := (h.reports tier).shows.lookup_eq_some hid.isVisible hreport
    rw [hn] at hremove
    exact ⟨_, hremove, h.setTier tier ((h.reports tier).dropEntry id)⟩

/-- What is done to the first tier and then to the rest is done to all of them. -/
theorem ite_mem_update (f : β → β) (hf : ∀ b, f (f b) = f b) (shelves : Tier → β) (tier : Tier)
    (rest : List Tier) :
    (fun t => if t ∈ rest then f (Function.update shelves tier (f (shelves tier)) t)
      else Function.update shelves tier (f (shelves tier)) t) =
      fun t => if t ∈ tier :: rest then f (shelves t) else shelves t := by
  funext t
  by_cases ht : t = tier
  · subst ht
    by_cases hrest : t ∈ rest <;> simp [hrest, hf]
  · simp [ht]

/-- The report of a session is removed from the tiers. -/
theorem run_removeFrom (h : v.IsHeldIn place top) (hid : id.IsStorable) (tiers : List Tier) :
    ∃ after, (place.directory.removeFrom id tiers).run top = (.ok (), after) ∧
      ({ v with reports := fun tier =>
        if tier ∈ tiers then (v.reports tier).erase id else v.reports tier } : Vault).IsHeldIn
          place after := by
  induction tiers generalizing v top with
  | nil => exact ⟨top, rfl, by simpa using h⟩
  | cons tier rest ih =>
    obtain ⟨middle, hrun, hmiddle⟩ := h.run_removeReport hid tier
    obtain ⟨after, hrest, hafter⟩ := ih hmiddle
    refine ⟨after, ?_, ?_⟩
    · rw [Store.Directory.removeFrom, run_bind_of_ok (place.run_reportPath hid.isPlain tier top),
        run_bind_of_ok hrun]
      exact hrest
    · rw [← ite_mem_update (fun shelf => shelf.erase id)
        (fun _ => erase_of_lookup_eq_none (Finmap.lookup_erase _ _)) v.reports tier rest]
      exact hafter

theorem perform_readReport (h : v.IsHeldIn place top) (hid : id.IsStorable) :
    (place.store.perform (.readReport id)).run top = (.ok (v.report? id), top) :=
  h.tiersHold.perform_readReport hid

theorem perform_deleteReport (h : v.IsHeldIn place top) (hid : id.IsStorable) :
    ∃ after, (place.store.perform (.deleteReport id)).run top = (.ok (), after) ∧
      (v.dropReport id).IsHeldIn place after := by
  obtain ⟨after, hrun, hafter⟩ := h.run_removeFrom hid Tier.all
  refine ⟨after, hrun, ?_⟩
  have hall : (fun tier => if tier ∈ Tier.all then (v.reports tier).erase id else
      v.reports tier) = fun tier => (v.reports tier).erase id := by
    funext tier
    rw [if_pos tier.mem_all]
  rw [Vault.dropReport, ← hall]
  exact hafter

/-- A report is written into its tier before it is removed from the others. -/
theorem run_writeReport (h : v.IsHeldIn place top) (hid : id.IsStorable) (tier : Tier)
    (contents : Bytes) :
    let written := top.setEntries (place.names ++ [tier.directory])
      (FileSystem.setEntry id.name (.file contents)
        (top.entriesAt (place.names ++ [tier.directory])))
    (place.store.perform (.writeReport id tier contents)).run top =
        (place.directory.removeFrom id (Tier.all.filter (· ≠ tier))).run written ∧
      ({ v with reports := Function.update v.reports tier ((v.reports tier).insert id contents) } :
        Vault).IsHeldIn place written := by
  have hwrite := Store.Directory.run_writeAtomically place
    (fun n hn => place.isPlace_entry (isEntryName_tier tier) hn) (h.leadsOn_tier tier) (by simp)
    (h.reports tier).hasSpareName hid.isEntryName contents
  -- No directory stands in the way.
  have hdone : (place.directory.writeAtomically (Path.ofNames (place.names ++ [tier.directory]))
      id.name contents).run top = (.ok (), top.setEntries (place.names ++ [tier.directory])
        (FileSystem.setEntry id.name (.file contents)
          (top.entriesAt (place.names ++ [tier.directory])))) := by
    rw [hwrite]
    cases hreport : (v.reports tier).lookup id with
    | none => rw [(h.reports tier).shows.lookup_eq_none hid.isVisible hreport]
    | some old =>
      obtain ⟨n, hn, rfl⟩ := (h.reports tier).shows.lookup_eq_some hid.isVisible hreport
      rw [hn]
  have hname : (liftM (Store.checkedName id) : ExceptT Failure (StateM Node) String).run top =
      (.ok id.name, top) := by
    rw [run_liftM_except, hid.checkedName]
  rw [← place.tierPath_eq] at hdone
  refine ⟨?_, h.setTier tier
    ((h.reports tier).setEntry hid (rfl : HoldsReport (.file contents) contents))⟩
  show ((liftM (Store.checkedName id) : ExceptT Failure (StateM Node) String) >>= _).run top = _
  rw [run_bind_of_ok hname, run_bind_of_ok hdone]

/-- A report is written into its tier and removed from the others. -/
theorem perform_writeReport (h : v.IsHeldIn place top) (hid : id.IsStorable) (tier : Tier)
    (contents : Bytes) :
    ∃ after, (place.store.perform (.writeReport id tier contents)).run top = (.ok (), after) ∧
      (v.setReport id tier contents).IsHeldIn place after := by
  obtain ⟨hrun, hset⟩ := h.run_writeReport hid tier contents
  obtain ⟨after, hremove, hafter⟩ := hset.run_removeFrom hid (Tier.all.filter (· ≠ tier))
  refine ⟨after, hrun.trans hremove, ?_⟩
  have hsame : (fun t => if t ∈ Tier.all.filter (· ≠ tier) then
      (Function.update v.reports tier ((v.reports tier).insert id contents) t).erase id else
      Function.update v.reports tier ((v.reports tier).insert id contents) t) =
      fun t => if t = tier then (v.reports t).insert id contents else (v.reports t).erase id := by
    funext t
    have hmem := t.mem_all
    by_cases ht : t = tier
    · subst ht
      simp
    · simp [ht, hmem]
  rw [Vault.setReport, ← hsame]
  exact hafter

theorem perform_reportIds (h : v.IsHeldIn place top) :
    (place.store.perform .reportIds).run top = (.ok v.reportIds, top) :=
  h.tiersHold.perform_reportIds

/-! ## Removing everything -/

/-- The directory of a shelf is removed, and the other shelves stay. -/
theorem run_removeShelf {shelf : String} (hshelf : IsEntryName shelf)
    (hlead : top.leadsOn (place.names ++ [shelf]) = true) :
    ∃ after, (place.directory.removeDirectory (Path.ofNames (place.names ++ [shelf]))).run top =
        (.ok (), after) ∧
      after.leadsOn (place.names ++ [shelf]) = true ∧
      after.entriesAt (place.names ++ [shelf]) = [] ∧
      ∀ other ≠ shelf, top.leadsOn (place.names ++ [other]) = true →
        after.leadsOn (place.names ++ [other]) = true ∧
          after.entriesAt (place.names ++ [other]) = top.entriesAt (place.names ++ [other]) := by
  have hremove := Store.Directory.run_removeDirectory place
    (place.isPlace_shelf hshelf) hlead
  cases hentry : (top.entriesAt place.names).lookup shelf with
  | none =>
    rw [hentry] at hremove
    refine ⟨top, hremove, hlead, ?_, fun other _ hother => ⟨hother, rfl⟩⟩
    rw [Node.entriesAt_concat, hentry]
    rfl
  | some n =>
    rw [hentry] at hremove
    refine ⟨_, hremove, ?_, ?_, ?_⟩
    · rw [Node.leadsOn_concat, Node.entriesAt_setEntries, lookup_dropEntry_self]
      exact ⟨Node.leadsOn_setEntries _ _ _, by simp⟩
    · rw [Node.entriesAt_concat, Node.entriesAt_setEntries, lookup_dropEntry_self]
      rfl
    · intro other hne hother
      rw [Node.leadsOn_concat, Node.entriesAt_concat, Node.entriesAt_setEntries,
        lookup_dropEntry_of_ne _ hne, ← Node.entriesAt_concat]
      exact ⟨⟨Node.leadsOn_setEntries _ _ _, (Node.leadsOn_concat.1 hother).2⟩, rfl⟩

/-- The directory of a tier is removed. -/
theorem run_removeTier (h : v.IsHeldIn place top) (tier : Tier) :
    ∃ after, (place.directory.removeDirectory
        (Path.ofNames (place.names ++ [tier.directory]))).run top = (.ok (), after) ∧
      ({ v with reports := Function.update v.reports tier ∅ } : Vault).IsHeldIn place after := by
  obtain ⟨after, hrun, hlead, hempty, hothers⟩ :=
    run_removeShelf (isEntryName_tier tier) (h.leadsOn_tier tier)
  have hsessions := hothers _ (openSessions_ne_tier tier) h.leadsOn_sessions
  have htier : ∀ t ≠ tier, after.leadsOn (place.names ++ [t.directory]) = true ∧
      after.entriesAt (place.names ++ [t.directory]) =
        top.entriesAt (place.names ++ [t.directory]) :=
    fun t ht => hothers _ (fun hd => ht (Tier.directory_inj hd)) (h.leadsOn_tier t)
  refine ⟨after, hrun, hsessions.1, fun t => ?_, hsessions.2 ▸ h.sessions, fun t => ?_⟩
  · by_cases ht : t = tier
    · exact ht ▸ hlead
    · exact (htier t ht).1
  · show IsShelf HoldsReport _ (Function.update v.reports tier ∅ t)
    by_cases ht : t = tier
    · rw [ht, Function.update_self, hempty]
      exact IsShelf.nil
    · rw [Function.update_of_ne ht, (htier t ht).2]
      exact h.reports t

/-- The directories of tiers are removed. -/
theorem run_removeTiers (h : v.IsHeldIn place top) (tiers : List Tier) :
    ∃ after, (place.directory.removeTiers tiers).run top = (.ok (), after) ∧
      ({ v with reports := fun tier => if tier ∈ tiers then ∅ else v.reports tier } :
        Vault).IsHeldIn place after := by
  induction tiers generalizing v top with
  | nil => exact ⟨top, rfl, by simpa using h⟩
  | cons tier rest ih =>
    obtain ⟨middle, hrun, hmiddle⟩ := h.run_removeTier tier
    obtain ⟨after, hrest, hafter⟩ := ih hmiddle
    refine ⟨after, ?_, ?_⟩
    · rw [← place.tierPath_eq] at hrun
      rw [Store.Directory.removeTiers, run_bind_of_ok hrun]
      exact hrest
    · rw [← ite_mem_update (fun _ => ∅) (fun _ => rfl) v.reports tier rest]
      exact hafter

theorem perform_deleteAll (h : v.IsHeldIn place top) :
    ∃ after, (place.store.perform .deleteAll).run top = (.ok (), after) ∧
      Vault.empty.IsHeldIn place after := by
  obtain ⟨middle, hrun, hlead, hempty, hothers⟩ :=
    run_removeShelf isEntryName_openSessions h.leadsOn_sessions
  have hmiddle : ({ v with sessions := ∅ } : Vault).IsHeldIn place middle := by
    refine ⟨hlead, ?_, ?_, ?_⟩
    · exact fun tier => (hothers _ (openSessions_ne_tier tier).symm (h.leadsOn_tier tier)).1
    · rw [hempty]
      exact IsShelf.nil
    · intro tier
      rw [(hothers _ (openSessions_ne_tier tier).symm (h.leadsOn_tier tier)).2]
      exact h.reports tier
  obtain ⟨after, hrest, hafter⟩ := hmiddle.run_removeTiers Tier.all
  refine ⟨after, ?_, ?_⟩
  · rw [← place.openSessions_eq] at hrun
    show (place.directory.removeDirectory (place.path.child Store.openSessions) >>= _).run top = _
    rw [run_bind_of_ok hrun]
    exact hrest
  · have hall : (fun tier => if tier ∈ Tier.all then ∅ else v.reports tier) =
        fun _ => (∅ : Finmap fun _ : SessionId => Bytes) := by
      funext tier
      rw [if_pos tier.mem_all]
    rw [Vault.empty, ← hall]
    exact hafter

/-! ## All calls -/

theorem perform_of_not_plain (v : Vault) (place : Location) (top : Node)
    (hid : Store.isPlainName id.name = false) {call : Store.Call α}
    (hcall : call.session? = some id) :
    (place.store.perform call).run top = (.error (.invalidId id.name), top) ∧
      v.perform place call = (.error (.invalidId id.name), v) := by
  refine ⟨Store.Directory.perform_of_not_plain place.path top hid hcall, ?_⟩
  have hname : Store.checkedName id = .error (.invalidId id.name) := by
    rw [Store.checkedName, hid]
    rfl
  cases call <;> simp only [Store.Call.session?, Option.some.injEq, reduceCtorEq] at hcall <;>
    subst hcall <;> simp only [Vault.perform, Vault.ifPlain, hname]

/-- A session can be stored, or all calls about it are refused and do nothing. -/
theorem isStorable_or_refused (v : Vault) (place : Location) (top : Node) {call : Store.Call α}
    (hcall : call.session? = some id) (hshort : id.IsShort) :
    id.IsStorable ∨
      (place.store.perform call).run top = (.error (.invalidId id.name), top) ∧
        v.perform place call = (.error (.invalidId id.name), v) := by
  cases hname : Store.isPlainName id.name with
  | true => exact Or.inl ⟨hname, hshort⟩
  | false => exact Or.inr (perform_of_not_plain v place top hname hcall)

/-- The session of a call can be stored, or the call is refused and does nothing. -/
theorem areStorable_or_refused (v : Vault) (place : Location) (top : Node) {call : Store.Call α}
    (hcall : call.IsProper) :
    (∀ id, call.session? = some id → id.IsStorable) ∨
      ∃ failure, (place.store.perform call).run top = (.error failure, top) ∧
        v.perform place call = (.error failure, v) := by
  cases hsession : call.session? with
  | none => exact Or.inl fun id hid => by cases hid
  | some id =>
    refine (isStorable_or_refused v place top hsession (hcall.isShort hsession)).imp
      (fun hid other hother => ?_) fun hrefused => ⟨_, hrefused⟩
    exact Option.some.inj hother ▸ hid

/-- The directory gives the same answer as the vault that it holds, and holds the changed vault
afterwards. -/
theorem perform (h : v.IsHeldIn place top) (call : Store.Call α) (hcall : call.IsProper) :
    ((place.store.perform call).run top).1 = (v.perform place call).1 ∧
      (v.perform place call).2.IsHeldIn place ((place.store.perform call).run top).2 := by
  obtain hstorable | ⟨failure, hrun, hperform⟩ := areStorable_or_refused v place top hcall
  swap
  · -- What is refused is refused on both sides, and changes nothing.
    rw [hrun, hperform]
    exact ⟨rfl, h⟩
  cases call with
  | write id name contents =>
    have hid := hstorable id rfl
    exact h.perform_write hid hcall.2.1 contents
      ((h.session hid).hasSpareName.setEntry hcall.2.2 _)
  | read id name =>
    rw [h.perform_read (hstorable id rfl) hcall.2, v.perform_of_isRead place _ rfl]
    exact ⟨rfl, h⟩
  | delete id name => exact h.perform_delete (hstorable id rfl) hcall.2
  | slots id =>
    have hid := hstorable id rfl
    rw [h.perform_slots hid, Vault.perform, Vault.ifPlain, hid.checkedName]
    exact ⟨rfl, h⟩
  | openIds =>
    rw [h.perform_openIds]
    exact ⟨rfl, h⟩
  | deleteSession id =>
    have hid := hstorable id rfl
    obtain ⟨after, hrun, hafter⟩ := h.perform_deleteSession hid
    rw [hrun, Vault.perform, Vault.ifPlain, hid.checkedName]
    exact ⟨rfl, hafter⟩
  | reportIds =>
    rw [h.perform_reportIds]
    exact ⟨rfl, h⟩
  | readReport id =>
    have hid := hstorable id rfl
    rw [h.perform_readReport hid, Vault.perform, Vault.ifPlain, hid.checkedName]
    exact ⟨rfl, h⟩
  | writeReport id tier contents =>
    have hid := hstorable id rfl
    obtain ⟨after, hrun, hafter⟩ := h.perform_writeReport hid tier contents
    rw [hrun, Vault.perform, Vault.ifPlain, hid.checkedName]
    exact ⟨rfl, hafter⟩
  | deleteReport id =>
    have hid := hstorable id rfl
    obtain ⟨after, hrun, hafter⟩ := h.perform_deleteReport hid
    rw [hrun, Vault.perform, Vault.ifPlain, hid.checkedName]
    exact ⟨rfl, hafter⟩
  | deleteAll =>
    obtain ⟨after, hrun, hafter⟩ := h.perform_deleteAll
    rw [hrun]
    exact ⟨rfl, hafter⟩

/-- A call that only looks leaves the directory as it is. -/
theorem perform_of_isRead (h : v.IsHeldIn place top) {call : Store.Call α} (hcall : call.IsProper)
    (hread : call.isRead = true) : ((place.store.perform call).run top).2 = top := by
  obtain hstorable | ⟨failure, hrun, -⟩ := areStorable_or_refused v place top hcall
  swap
  · rw [hrun]
  cases call <;> simp only [Store.Call.isRead, Bool.false_eq_true] at hread
  case read id name => rw [h.perform_read (hstorable id rfl) hcall.2]
  case slots id => rw [h.perform_slots (hstorable id rfl)]
  case openIds => rw [h.perform_openIds]
  case reportIds => rw [h.perform_reportIds]
  case readReport id => rw [h.perform_readReport (hstorable id rfl)]

/-- A change by which sessions are finalized is made, or it is refused and nothing is done. -/
theorem perform_finalizes (h : v.IsHeldIn place top) {c : Change} (hc : c.Finalizes)
    (hcall : c.call.IsProper) :
    (∃ after, (place.store.perform c.call).run top = (.ok (), after)) ∨
      ∃ failure, (place.store.perform c.call).run top = (.error failure, top) := by
  refine (areStorable_or_refused v place top hcall).imp (fun hstorable => ?_)
    fun ⟨failure, hrun, _⟩ => ⟨failure, hrun⟩
  cases c with
  | write id name contents => exact hc.elim
  | delete id name => exact hc.elim
  | deleteSession id =>
    obtain ⟨after, hrun, -⟩ := h.perform_deleteSession (hstorable id rfl)
    exact ⟨after, hrun⟩
  | writeReport id tier contents =>
    obtain ⟨after, hrun, -⟩ := h.perform_writeReport (hstorable id rfl) tier contents
    exact ⟨after, hrun⟩
  | deleteReport id =>
    obtain ⟨after, hrun, -⟩ := h.perform_deleteReport (hstorable id rfl)
    exact ⟨after, hrun⟩
  | deleteAll => exact hc.elim

/-- What a directory holds is well formed. -/
theorem isWellFormed (h : v.IsHeldIn place top) : v.IsWellFormed where
  isStorable_open := h.sessions.isStorable
  files id files hopen := by
    have hid := h.sessions.isStorable id (Finmap.mem_iff.2 ⟨files, hopen⟩)
    obtain ⟨n, -, hholds⟩ := h.sessions.shows.lookup_eq_some hid.isVisible hopen
    have hnames : files.map Prod.fst = n.entries.map Prod.fst := by
      rw [hholds.files_eq, Files.ofEntries, List.map_map]
      rfl
    exact ⟨hnames ▸ hholds.nodup, hnames ▸ hholds.isName⟩
  isStorable_report tier := (h.reports tier).isStorable

/-- A store whose directory is not there is empty. -/
theorem empty_of_get?_eq_none (hlead : top.leadsOn place.names = true)
    (hnone : top.get? place.names = none) : Vault.empty.IsHeldIn place top := by
  have hentries : top.entriesAt place.names = [] := by
    rcases Node.get?_of_leadsOn hlead with ⟨-, hempty⟩ | hsome
    · exact hempty
    · rw [hnone] at hsome
      exact absurd hsome (by simp)
  have hshelf : ∀ shelf, top.leadsOn (place.names ++ [shelf]) = true ∧
      top.entriesAt (place.names ++ [shelf]) = [] := by
    intro shelf
    rw [Node.leadsOn_concat, Node.entriesAt_concat, hentries]
    exact ⟨⟨hlead, by simp⟩, rfl⟩
  refine ⟨(hshelf _).1, fun tier => (hshelf _).1, ?_, fun tier => ?_⟩
  · rw [(hshelf _).2]
    exact IsShelf.nil
  · rw [(hshelf _).2]
    exact IsShelf.nil

/-- A file can be put into a vault that a directory holds. -/
theorem exists_setFile (h : v.IsHeldIn place top) (hid : id.IsStorable) {name : String}
    (hname : IsEntryName name ∧ IsVisible name) (hitem : v.item? id name ≠ some .directory)
    (contents : Bytes) : ∃ after, (v.setFile id name contents).IsHeldIn place after := by
  have hwrite := (h.perform (.write id name contents) ⟨hid.isShort, hname⟩).2
  rw [v.perform_write place hid hitem] at hwrite
  exact ⟨_, hwrite⟩

theorem exists_setReport (h : v.IsHeldIn place top) (hid : id.IsStorable) (tier : Tier)
    (contents : Bytes) : ∃ after, (v.setReport id tier contents).IsHeldIn place after := by
  have hwrite := (h.perform (.writeReport id tier contents) hid.isShort).2
  rw [v.perform_writeReport place hid] at hwrite
  exact ⟨_, hwrite⟩

/-- Nothing is stored in an empty working directory. -/
theorem empty_named {name : String} (h : IsEntryName name) :
    Vault.empty.IsHeldIn (.named name h) (.directory []) :=
  empty_of_get?_eq_none rfl rfl

end Vault.IsHeldIn

end ReportVault
