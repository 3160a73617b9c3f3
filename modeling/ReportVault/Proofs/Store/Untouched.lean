import ReportVault.Proofs.Store.Refinement

/-!
# ReportVault.Proofs.Store.Untouched

What the finalization of other sessions leaves as it is in the directory of a store.

A vault says which entries the directory of an open session has, and not what is inside of those
that are directories themselves.  `Vault.IsHeldIn.get?_session_perform` is about all of it: by a
change that spares the files of a session, its directory stays the same to the last byte.
-/

namespace ReportVault

open FileSystem

namespace Vault.IsHeldIn

variable {v : Vault} {place : Location} {top : Node} {id : SessionId}

/-- The directory of a session is an entry of the directory of the open sessions. -/
theorem get?_session (h : v.IsHeldIn place top) (id : SessionId) :
    top.get? (place.session id) =
      (top.entriesAt (place.names ++ [Store.openSessions])).lookup id.name :=
  Node.get?_concat_of_leadsOn h.leadsOn_sessions id.name

/-! ## Reports are no part of open sessions -/

/-- Removing the report of a session from a tier does not touch the open sessions. -/
theorem entriesAt_removeReport (h : v.IsHeldIn place top) (hid : id.IsStorable) (tier : Tier) :
    ((place.directory.removeFile
        (Path.ofNames (place.names ++ [tier.directory] ++ [id.name]))).run top).2.entriesAt
          (place.names ++ [Store.openSessions]) =
      top.entriesAt (place.names ++ [Store.openSessions]) := by
  rw [Store.Directory.run_removeFile place
    (place.isPlace_entry (isEntryName_tier tier) hid.isEntryName) (h.leadsOn_tier tier)]
  split
  · rfl
  · rfl
  · exact entriesAt_setEntries_of_ne (openSessions_ne_tier tier) _

/-- And neither does removing it from several tiers. -/
theorem entriesAt_removeFrom (h : v.IsHeldIn place top) (hid : id.IsStorable)
    (tiers : List Tier) :
    ((place.directory.removeFrom id tiers).run top).2.entriesAt
        (place.names ++ [Store.openSessions]) =
      top.entriesAt (place.names ++ [Store.openSessions]) := by
  induction tiers generalizing v top with
  | nil => rfl
  | cons tier rest ih =>
    obtain ⟨after, hrun, hafter⟩ := h.run_removeReport hid tier
    have hfirst := h.entriesAt_removeReport hid tier
    rw [hrun] at hfirst
    rw [Store.Directory.removeFrom, run_bind_of_ok (place.run_reportPath hid.isPlain tier top),
      run_bind_of_ok hrun, ih hafter, hfirst]

/-- A report is written beside the open sessions. -/
theorem entriesAt_writeReport (h : v.IsHeldIn place top) (hid : id.IsStorable) (tier : Tier)
    (contents : Bytes) :
    ((place.store.perform (.writeReport id tier contents)).run top).2.entriesAt
        (place.names ++ [Store.openSessions]) =
      top.entriesAt (place.names ++ [Store.openSessions]) := by
  obtain ⟨hrun, hwritten⟩ := h.run_writeReport hid tier contents
  rw [hrun, hwritten.entriesAt_removeFrom hid,
    entriesAt_setEntries_of_ne (openSessions_ne_tier tier)]

/-! ## Other sessions -/

/-- Closing a session does not touch another one. -/
theorem lookup_deleteSession (h : v.IsHeldIn place top) (hid : id.IsStorable)
    {other : SessionId} (hne : id ≠ other) :
    (((place.store.perform (.deleteSession id)).run top).2.entriesAt
        (place.names ++ [Store.openSessions])).lookup other.name =
      (top.entriesAt (place.names ++ [Store.openSessions])).lookup other.name := by
  have hname : other.name ≠ id.name := fun he => hne (by cases id; cases other; simp_all)
  have hrun : (place.store.perform (.deleteSession id)).run top =
      (place.directory.removeDirectory (Path.ofNames (place.session id))).run top :=
    run_bind_of_ok (place.run_sessionPath hid.isPlain top)
  rw [hrun, Location.session, Store.Directory.run_removeDirectory place
    (place.isPlace_file hid isEntryName_openSessions).of_concat (h.leadsOn_session hid)]
  split
  · rfl
  · rw [Node.entriesAt_setEntries, lookup_dropEntry_of_ne _ hname]

/-- A change by which another session is finalized leaves the whole directory of the session. -/
theorem get?_session_perform (h : v.IsHeldIn place top) {c : Change} (hc : c.Finalizes)
    (hcall : c.call.IsProper) (hspares : c.SparesFiles id) :
    ((place.store.perform c.call).run top).2.get? (place.session id) =
      top.get? (place.session id) := by
  rw [h.get?_session, (h.perform c.call hcall).2.get?_session]
  obtain hstorable | ⟨failure, hrun, -⟩ := areStorable_or_refused v place top hcall
  swap
  · rw [hrun]
  cases c with
  | write | delete | deleteAll => exact hc.elim
  | deleteSession other => exact h.lookup_deleteSession (hstorable other rfl) hspares
  | writeReport other tier contents => rw [Change.call, h.entriesAt_writeReport (hstorable other rfl)]
  | deleteReport other =>
    exact congrArg (List.lookup id.name) (h.entriesAt_removeFrom (hstorable other rfl) Tier.all)

end Vault.IsHeldIn

end ReportVault
