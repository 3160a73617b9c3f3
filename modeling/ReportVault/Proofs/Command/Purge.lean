import ReportVault.Proofs.Command.FindReport
import ReportVault.Proofs.Store.Removal

/-!
# ReportVault.Proofs.Command.Purge

What the removal of one report leaves behind.

An argument stands for a report by the identifier that its file is named by, and the report is
removed by the identifier in its record.  The removal is exact (`purged_of_run_deleteReport`), so
that it is the report of the argument that is gone iff its record names the session of its file
(`purge_removes_session_of_record`).  Records that this store wrote do; a file that was put there by
other means need not, and then another session loses its report (`purge_removes_other_report`).
-/

namespace ReportVault.Command

open FileSystem Store

variable {root : Path} {top after : Node} {id : SessionId} {r : Report}

/-- The reports of the session are gone, everything else is as it was, and nothing of the session is
loaded any more. -/
structure Purged (root : Path) (id : SessionId) (top after : Node) : Prop where
  gone : ∀ tier names, reportNames? root id tier = some names → after.at? names = none
  others : ∀ names, (∀ tier, reportNames? root id tier ≠ some names) →
    after.at? names = top.at? names
  notLoaded : ∀ r, (id, r) ∉ ((Engine.ofDirectory root).loadFinalized after).1

/-- Of a session whose report is loaded there is a file in a tier. -/
theorem exists_of_mem_loadFinalized
    (h : (id, r) ∈ ((Engine.ofDirectory root).loadFinalized top).1) :
    ∃ dir tier contents, top.Reaches root dir ∧ reportNames? root id tier =
      some (dir ++ [tier.directory, id.name]) ∧
        top.at? (dir ++ [tier.directory, id.name]) = some (.file contents) := by
  have hquiet : (Engine.ofDirectory root).store.QuietReads := quietReads_inDirectory root
  obtain ⟨-, hread, -⟩ := (Engine.mem_loadFinalized_iff hquiet).1 h
  obtain ⟨tier, contents, hfile, -⟩ := Engine.exists_of_readFinalized hquiet hread
  obtain ⟨-, dir, hreach, hat⟩ := exists_of_run_readReport hfile
  exact ⟨dir, tier, contents, hreach, reportNames?_of_reaches hreach id tier, hat⟩

/-- Where the path of the store can be followed, the removal of a report is exact. -/
theorem purged_of_run_deleteReport {dir : List String} (hreach : top.Reaches root dir)
    (h : ((inDirectory inMemory root).perform (.deleteReport id)).run top = (.ok (), after)) :
    Purged root id top after := by
  have hgone : ∀ tier names, reportNames? root id tier = some names → after.at? names = none := by
    intro tier names hnames
    obtain rfl := Option.some.inj ((reportNames?_of_reaches hreach id tier).symm.trans hnames)
    exact at?_of_run_deleteReport hreach h tier
  refine ⟨hgone, fun names hothers => ?_, fun r hloaded => ?_⟩
  · cases hid : isPlainName id.name with
    | true =>
      have hafter : ((Directory.mk inMemory root).removeFrom id Tier.all).run top =
        (.ok (), after) := h
      rcases Directory.at?_run_removeFrom root hid top Tier.all names with hsame | ⟨hreport, -⟩
      · rwa [hafter] at hsame
      · obtain ⟨tier, -, hnames⟩ := hreport
        exact absurd hnames (hothers tier)
    | false =>
      rw [Directory.perform_of_not_plain root top hid rfl] at h
      cases h
  · obtain ⟨dir, tier, contents, -, hnames, hat⟩ := exists_of_mem_loadFinalized hloaded
    rw [hgone tier _ hnames] at hat
    cases hat

section Found

variable (caps : Retention.Caps) (now : Int64) {session : String}
  (hloaded : (id, r) ∈ ((Engine.ofDirectory root).loadFinalized top).1)
  (hbegins : session.toList <+: id.name.toList)
  (honly : ∀ other ∈ ((Engine.ofDirectory root).loadFinalized top).1,
    session.toList <+: other.1.name.toList → other.1 = id)
  (hdelete : ((inDirectory inMemory root).perform (.deleteReport r.id)).run top = (.ok (), after))

include hloaded hbegins honly hdelete

/-- The report is deleted by the identifier in its record. -/
theorem run_purge :
    (performTask (Engine.ofDirectory root) caps now (.purge (some session))).run top =
      (.ok (View.lines ["Deleted report " ++ r.id.name ++ "."]), after) := by
  have hfound : (findReport (Engine.ofDirectory root) session).run top = (.ok r, top) := by
    rw [run_findReport (quietReads_inDirectory root),
      (resolveIn_eq_ok_iff (pairwise_loadFinalized root top)).2 ⟨id, hloaded, hbegins, honly⟩]
  have hremoved : (Engine.ofDirectory root).deleteReport r.id top = ((), after) :=
    (run_bind hdelete _).trans rfl
  rw [performTask, run_bind_of_ok hfound]
  exact run_bind_lift hremoved _

/-- What `purge` with an argument does in any tree, if exactly one session that is loaded begins
like the argument and no file resists removal.  The reports are gone of the session that the record
names, which is the session that is told; everything else is as it was.  So exactly the session of
the argument is purged iff the record names it. -/
theorem purge_removes_session_of_record :
    (performTask (Engine.ofDirectory root) caps now (.purge (some session))).run top =
      (.ok (View.lines ["Deleted report " ++ r.id.name ++ "."]), after) ∧
    Purged root r.id top after ∧ (Purged root id top after ↔ r.id = id) := by
  obtain ⟨dir, tier, contents, hreach, hnames, hat⟩ := exists_of_mem_loadFinalized hloaded
  have hpurged := purged_of_run_deleteReport hreach hdelete
  refine ⟨run_purge caps now hloaded hbegins honly hdelete, hpurged, fun h => ?_,
    fun he => he ▸ hpurged⟩
  -- the file of the argument would still be there
  by_contra hne
  have hkept := hpurged.others _ fun t ht => hne (id_eq_of_reportNames? hnames ht)
  rw [h.gone tier _ hnames, hat] at hkept
  cases hkept

end Found

namespace Filed

/-- Reports under two identifiers, of which both records name the first. -/
def misfiled : List (SessionId × Report) := [(second, report first), (first, report first)]

theorem isFiled_misfiled : ∀ entry ∈ misfiled, entry.1.IsStorable ∧ entry.2.events ≠ [] := by
  simp [misfiled, isStorable_first, isStorable_second, report, Report.withEvents]

end Filed

open Filed in
/-- An argument stands for one report, the removal succeeds, and it is another session that loses
its report: that of the argument is loaded as before. -/
theorem purge_removes_other_report :
    (second, report first) ∈ (place.engine.loadFinalized (tree misfiled)).1 ∧
      (∀ other ∈ (place.engine.loadFinalized (tree misfiled)).1,
        second.name.toList <+: other.1.name.toList → other.1 = second) ∧
      (first, report first) ∈ (place.engine.loadFinalized (tree misfiled)).1 ∧
      ∃ after, (place.store.perform (.deleteReport first)).run (tree misfiled) = (.ok (), after) ∧
        (performTask place.engine {} 0 (.purge (some second.name))).run (tree misfiled) =
          (.ok (View.lines ["Deleted report a."]), after) ∧
        (∀ r, (first, r) ∉ (place.engine.loadFinalized after).1) ∧
        (second, report first) ∈ (place.engine.loadFinalized after).1 := by
  have hsecond : (second, report first) ∈ (place.engine.loadFinalized (tree misfiled)).1 :=
    (mem_loaded_iff isFiled_misfiled).2 rfl
  have honly : ∀ other ∈ (place.engine.loadFinalized (tree misfiled)).1,
      second.name.toList <+: other.1.name.toList → other.1 = second := by
    rintro ⟨id, r⟩ hloaded
    have hmem := mem_of_lookup ((mem_loaded_iff isFiled_misfiled).1 hloaded)
    simp only [misfiled, List.mem_cons, Prod.mk.injEq, List.not_mem_nil, or_false] at hmem
    exact eq_second_of_begins (hmem.symm.imp And.left And.left)
  have hdelete : (place.store.perform (.deleteReport first)).run (tree misfiled) =
      (.ok (), tree [(second, report first)]) := rfl
  have hafter : ∀ entry ∈ [(second, report first)], entry.1.IsStorable ∧ entry.2.events ≠ [] :=
    fun entry hentry => isFiled_misfiled entry (by simp [misfiled, List.mem_singleton.1 hentry])
  refine ⟨hsecond, honly, (mem_loaded_iff isFiled_misfiled).2 rfl, _, hdelete,
    run_purge {} 0 hsecond List.prefix_rfl honly hdelete, fun r hloaded => ?_,
    (mem_loaded_iff hafter).2 rfl⟩
  have hnone : [(second, report first)].lookup first = none := rfl
  exact absurd (hnone.symm.trans ((mem_loaded_iff hafter).1 hloaded)) (Option.some_ne_none r).symm

open Filed in
/-- The report of a record that names its session is purged. -/
theorem purge_removes_session_of_record_nested :
    (second, report second) ∈ (place.engine.loadFinalized (tree nested)).1 ∧
      ∃ after, (performTask place.engine {} 0 (.purge (some second.name))).run (tree nested) =
        (.ok (View.lines ["Deleted report ab."]), after) ∧
          Purged place.path second (tree nested) after := by
  have hsecond : (second, report second) ∈ (place.engine.loadFinalized (tree nested)).1 :=
    (mem_loaded_iff isFiled_nested).2 rfl
  have honly : ∀ other ∈ (place.engine.loadFinalized (tree nested)).1,
      second.name.toList <+: other.1.name.toList → other.1 = second := fun _ hloaded =>
    eq_second_of_begins (eq_of_lookup_nested ((mem_loaded_iff isFiled_nested).1 hloaded)).1
  have hdelete : (place.store.perform (.deleteReport second)).run (tree nested) =
      (.ok (), tree [(first, report first)]) := rfl
  obtain ⟨hrun, -, hexact⟩ :=
    purge_removes_session_of_record {} 0 hsecond List.prefix_rfl honly hdelete
  exact ⟨hsecond, _, hrun, hexact.2 rfl⟩

end ReportVault.Command
