import ReportVault.Proofs.Engine.Accounting
import ReportVault.Proofs.Engine.Current

/-!
# ReportVault.Proofs.Engine.NothingToReport

Sessions of which there is nothing to report, and what they are to the others.

A pass over a store in which such sessions are open, and a pass over one in which their directories
are gone, assemble the same reports in the same order (`Pass.assembled_without`).  The ranks, the
verdict and the writes go by these alone, so that both passes end with the same vault.
-/

namespace ReportVault

open FileSystem Retention
open Engine (Assembled Summary)

/-! ## Vaults -/

namespace Vault

/-- There is nothing to report of the session: it has no event file, or no header that can be
decoded, or none of its newest events can be decoded and no native crash is in the header or in the
report that the session was finalized with. -/
inductive HasNothingToReport (v : Vault) (id : SessionId) (cap : Nat) : Prop
  | noSlots (h : (v.files id).slots = [])
  | noHeader (h : v.item? id SessionFile.header = none)
  | badHeader (contents : Bytes)
      (hcontents : v.item? id SessionFile.header = some (.file contents))
      (h : Report.decode? contents = none)
  | noEvents (header : Report) (hheader : (v.files id).header? = some header)
      (hevents : (v.files id).newestEvents cap = []) (hpayload : header.nativePayload = none)
      (hrecorded : (v.recorded? id).bind (·.nativePayload) = none)

/-- In `w` the sessions are closed, and all else is as in `v`. -/
structure IsWithout (v : Vault) (ids : Finset SessionId) (w : Vault) : Prop where
  closed : ∀ id ∈ ids, id ∉ w.sessions
  files : ∀ id ∉ ids, w.sessions.lookup id = v.sessions.lookup id
  reports : w.reports = v.reports

variable {v w : Vault} {id : SessionId} {ids : Finset SessionId}

theorem IsWithout.mem_iff (h : v.IsWithout ids w) :
    id ∈ w.sessions ↔ id ∈ v.sessions ∧ id ∉ ids := by
  by_cases hid : id ∈ ids
  · simp [hid, h.closed id hid]
  · simp [hid, Finmap.mem_iff, h.files id hid]

end Vault

namespace Pass

variable {place : Location} {caps : Caps} {current : Option SessionId} {time : Int64}
  {v w : Vault} {id : SessionId} {ids : Finset SessionId}

/-! ## One session -/

variable (place current time) in
/-- Nothing is assembled for such a session, and the storage is not the reason. -/
theorem outcome_of_hasNothingToReport (hid : id.IsStorable)
    (h : v.HasNothingToReport id caps.events) :
    (plain place caps current time).outcome v id = .ok none ∨
      ∃ failure, (plain place caps current time).outcome v id = .error failure ∧
        failure.isStorage = false := by
  cases hout : (plain place caps current time).outcome v id with
  | ok found =>
    cases found with
    | none => exact Or.inl rfl
    | some a =>
      obtain ⟨hslots, header, hheader, rfl, hcomplete⟩ := (outcome_plain_eq_some_iff hid).1 hout
      exfalso
      cases h with
      | noSlots h => exact hslots h
      | noHeader h =>
        rw [Vault.item?] at h
        rw [Files.header?, Files.contents?, h] at hheader
        exact absurd hheader (by simp)
      | badHeader contents hcontents h =>
        rw [Vault.item?] at hcontents
        rw [Files.header?, Files.contents?, hcontents, Option.bind_some, h] at hheader
        exact absurd hheader (by simp)
      | noEvents other hother hevents hpayload hrecorded =>
        obtain rfl : other = header := Option.some.inj (hother.symm.trans hheader)
        rw [Report.isComplete, Files.assembled, Assembled.events_ofParts,
          Assembled.nativePayload_ofParts, hevents, hpayload, hrecorded] at hcomplete
        exact absurd hcomplete (by simp)
  | error failure =>
    refine Or.inr ⟨failure, rfl, isStorage_of_outcome_plain hid (fun _ => ?_) hout⟩
    cases h with
    | noSlots h =>
      have hnone := Medium.outcome_plain place hid (v := v) time caps.events
      rw [h, List.isEmpty_nil, if_pos rfl] at hnone
      exact absurd (hout.symm.trans hnone) (by simp)
    | noHeader h => simp [h]
    | badHeader contents hcontents h => simp [hcontents]
    | noEvents header hheader =>
      intro hitem
      rw [Vault.item?] at hitem
      rw [Files.header?, Files.contents?, hitem] at hheader
      exact absurd hheader (by simp)

theorem assembling_of_hasNothingToReport (hid : id.IsStorable)
    (h : v.HasNothingToReport id caps.events) :
    ((plain place caps current time).assembling v id).1 = none := by
  rcases outcome_of_hasNothingToReport place current time hid h
    with hout | ⟨failure, hout, -⟩ <;> rw [assembling, hout]

/-! ## The whole pass -/

/-- As long as there are not too many open sessions, none is beyond the cap. -/
theorem kept_eq_candidates
    (hcard : (v.sessions.keys.filter fun id => some id ≠ current).card ≤ caps.openSessions) :
    (plain place caps current time).kept v = (plain place caps current time).candidates v :=
  pairwise_kept.eq_of_mem_iff pairwise_candidates fun id => by
    rw [mem_kept_plain, Vault.mem_newest_of_card_le hcard, mem_candidates_plain]

section Without

variable (hv : v.IsWellFormed) (hw : w.IsWellFormed) (hwithout : v.IsWithout ids w)
  (hcard : (v.sessions.keys.filter fun id => some id ≠ current).card ≤ caps.openSessions)
  (hnothing : ∀ id ∈ ids, v.HasNothingToReport id caps.events)

include hwithout

theorem candidates_without :
    (plain place caps current time).candidates w =
      ((plain place caps current time).candidates v).filter (· ∉ ids) := by
  refine pairwise_candidates.eq_of_mem_iff (pairwise_candidates.filter _) fun id => ?_
  rw [mem_candidates_plain, List.mem_filter, mem_candidates_plain, hwithout.mem_iff]
  simp only [decide_eq_true_eq]
  tauto

include hcard

theorem kept_without :
    (plain place caps current time).kept w =
      ((plain place caps current time).kept v).filter (· ∉ ids) := by
  have hless : (w.sessions.keys.filter fun id => some id ≠ current).card ≤ caps.openSessions := by
    refine (Finset.card_le_card (Finset.filter_subset_filter _ fun id hid => ?_)).trans hcard
    exact Finmap.mem_keys.2 (hwithout.mem_iff.1 (Finmap.mem_keys.1 hid)).1
  rw [kept_eq_candidates hcard, kept_eq_candidates hless, candidates_without hwithout]

include hw

omit hcard in
/-- Of the other sessions the same is assembled. -/
theorem outcome_without (hid : id ∈ w.sessions) :
    (plain place caps current time).outcome w id =
      (plain place caps current time).outcome v id := by
  have hother := (hwithout.mem_iff.1 hid).2
  have hreport : w.report? id = v.report? id :=
    Vault.report?_eq_of_lookup fun t => by rw [hwithout.reports]
  refine outcome_plain_congr (hw.isStorable_open id hid)
    (Vault.files_eq_of_lookup (hwithout.files id hother)) ?_
  rw [Vault.recorded?, Vault.recorded?, hreport]

include hv hnothing

theorem assembled_without :
    (plain place caps current time).assembled w = (plain place caps current time).assembled v := by
  rw [assembled, assembled, kept_without hwithout hcard, List.filterMap_filter]
  refine List.filterMap_congr fun id hid => ?_
  have hopen := (open_of_mem_kept hid).1
  by_cases hmem : id ∈ ids
  · simpa [hmem] using (assembling_of_hasNothingToReport (hv.isStorable_open id hopen)
      (hnothing id hmem)).symm
  · simp only [hmem, not_false_eq_true, decide_true, if_true]
    rw [assembling, assembling, outcome_without hw hwithout (hwithout.mem_iff.2 ⟨hopen, hmem⟩)]

theorem verdict_without :
    (plain place caps current time).verdict w = (plain place caps current time).verdict v := by
  rw [verdict, verdict, assembled_without hv hw hwithout hcard hnothing, Medium.finalizedIds_eq,
    Medium.finalizedIds_eq, Vault.reportIds_congr hwithout.reports]

/-- The same reports are there before any report is deleted. -/
theorem reports_settling_without :
    (w.after ((plain place caps current time).settling w)).reports =
      (v.after ((plain place caps current time).settling v)).reports := by
  have hswept : (w.after ((plain place caps current time).sweeping w)).reports =
      (v.after ((plain place caps current time).sweeping v)).reports := by
    rw [reports_sweeping, reports_sweeping, hwithout.reports]
  rw [settling, settling, Vault.after_append, Vault.after_append,
    assembled_without hv hw hwithout hcard hnothing, verdict_without hv hw hwithout hcard hnothing]
  exact Vault.reports_after_congr hswept _

theorem losers_without :
    (plain place caps current time).losers (w.after ((plain place caps current time).settling w)) =
      (plain place caps current time).losers
        (v.after ((plain place caps current time).settling v)) := by
  rw [losers, losers, Medium.finalizedIds_eq, Medium.finalizedIds_eq,
    Vault.reportIds_congr (reports_settling_without hv hw hwithout hcard hnothing)]

omit hv hnothing in
/-- The same other sessions are closed. -/
theorem deleteSession_mem_changes_without_iff (hid : id ∈ w.sessions) :
    .deleteSession id ∈ (plain place caps current time).changes w ↔
      .deleteSession id ∈ (plain place caps current time).changes v := by
  obtain ⟨hopen, hother⟩ := hwithout.mem_iff.1 hid
  have hkept : id ∈ (plain place caps current time).kept w ↔
      id ∈ (plain place caps current time).kept v := by
    rw [kept_without hwithout hcard, List.mem_filter]
    simp [hother]
  rw [deleteSession_mem_changes_plain_iff, deleteSession_mem_changes_plain_iff, hkept,
    mem_candidates_plain, mem_candidates_plain, outcome_without hw hwithout hid]
  simp [hid, hopen]

variable (hcurrent : ∀ id ∈ ids, some id ≠ current)

include hcurrent

omit hw hwithout hcard in
theorem deleteSession_mem_changes_of_hasNothingToReport (hid : id ∈ ids) (hopen : id ∈ v.sessions) :
    .deleteSession id ∈ (plain place caps current time).changes v := by
  refine deleteSession_mem_changes_plain_iff.2
    ⟨mem_candidates_plain.2 ⟨hopen, hcurrent id hid⟩, fun _ => ?_⟩
  rintro ⟨cause, hcause, hstorage⟩
  rcases outcome_of_hasNothingToReport place current time
    (hv.isStorable_open id hopen) (hnothing id hid) with hout | ⟨failure, hout, hdata⟩
  · exact absurd (hcause.symm.trans hout) (by simp)
  · obtain rfl : cause = failure := Except.error.inj (hcause.symm.trans hout)
    exact absurd (hdata.symm.trans hstorage) (by simp)

/-- Both passes end with the same vault. -/
theorem after_changes_without :
    w.after ((plain place caps current time).changes w) =
      v.after ((plain place caps current time).changes v) := by
  refine Vault.ext (Finmap.ext_lookup fun id => ?_) ?_
  · rw [Vault.lookup_after_of_finalizes fun c hc => finalizes_of_mem_changes hc,
      Vault.lookup_after_of_finalizes fun c hc => finalizes_of_mem_changes hc]
    by_cases hid : id ∈ w.sessions
    · simp only [deleteSession_mem_changes_without_iff hw hwithout hcard hid,
        hwithout.files id (hwithout.mem_iff.1 hid).2]
    · rw [Finmap.lookup_eq_none.2 hid, ite_self]
      symm
      by_cases hopen : id ∈ v.sessions
      · have hmem : id ∈ ids := by
          by_contra hother
          exact hid (hwithout.mem_iff.2 ⟨hopen, hother⟩)
        have hclosed : .deleteSession id ∈ (plain place caps current time).changes v :=
          deleteSession_mem_changes_of_hasNothingToReport hv hnothing hcurrent hmem hopen
        rw [if_pos hclosed]
      · rw [Finmap.lookup_eq_none.2 hopen, ite_self]
  · rw [changes, changes, Vault.after_append, Vault.after_append,
      losers_without hv hw hwithout hcard hnothing]
    exact Vault.reports_after_congr (reports_settling_without hv hw hwithout hcard hnothing) _

end Without

end Pass

/-! ## Directories -/

variable {place : Location} {tree tree' : Node} {v w : Vault} {ids : Finset SessionId}

/-- Sessions with nothing to report do not influence the others.  A pass without failures over a
store in which they are open, and one over a store in which their directories are gone, end with the
same reports, count the same sessions as finalized and as evicted, and close them all. -/
theorem finalize_without (hv : v.IsHeldIn place tree) (hw : w.IsHeldIn place tree')
    (hwithout : v.IsWithout ids w) (caps : Caps) (current : Option SessionId) (time : Int64)
    (hcard : (v.sessions.keys.filter fun id => some id ≠ current).card ≤ caps.openSessions)
    (hnothing : ∀ id ∈ ids, v.HasNothingToReport id caps.events)
    (hcurrent : ∀ id ∈ ids, some id ≠ current) :
    let pass := place.engine.finalize caps current time
    (∃ last : Vault, last.IsHeldIn place (pass tree).2 ∧ last.IsHeldIn place (pass tree').2 ∧
      ∀ id ∈ ids, id ∉ last.sessions) ∧
    (pass tree).1.finalized = (pass tree').1.finalized ∧
      (pass tree).1.evicted = (pass tree').1.evicted := by
  intro pass
  let p := Pass.plain place caps current time
  obtain ⟨hanswer, hlast⟩ := Pass.finalize_directory (p := p) hv
  obtain ⟨hanswer', hlast'⟩ := Pass.finalize_directory (p := p) hw
  have hfirst : (pass tree).1 = p.summary v := hanswer
  have hsecond : (pass tree').1 = p.summary w := hanswer'
  have hassembled : p.assembled w = p.assembled v :=
    Pass.assembled_without hv.isWellFormed hw.isWellFormed hwithout hcard hnothing
  have hverdict : p.verdict w = p.verdict v :=
    Pass.verdict_without hv.isWellFormed hw.isWellFormed hwithout hcard hnothing
  refine ⟨⟨v.after (p.changes v), hlast, ?_, fun id hid hopen => ?_⟩, ?_, ?_⟩
  · rw [← Pass.after_changes_without hv.isWellFormed hw.isWellFormed hwithout hcard hnothing
      hcurrent]
    exact hlast'
  · exact Pass.not_mem_after_of_deleteSession_mem
      (Pass.deleteSession_mem_changes_of_hasNothingToReport hv.isWellFormed hnothing hcurrent hid
        (Pass.open_of_mem_after hopen)) hopen
  · rw [hfirst, hsecond, Pass.finalized_summary, Pass.finalized_summary, hassembled, hverdict]
  · rw [hfirst, hsecond, Pass.evicted_summary, Pass.evicted_summary, hassembled, hverdict,
      Pass.losers_without hv.isWellFormed hw.isWellFormed hwithout hcard hnothing]

/-- A session with a bad header beside one that is finalized. -/
theorem finalize_without_bad_header :
    ∃ (place : Location) (tree tree' : Node) (v : Vault) (id : SessionId),
      v.IsHeldIn place tree ∧ id ∈ v.sessions ∧ v.HasNothingToReport id 8 ∧
      OneEvent.vault.IsHeldIn place tree' ∧ v.IsWithout {id} OneEvent.vault ∧
      (∃ last : Vault, last.IsHeldIn place (place.engine.finalize {} none 0 tree).2 ∧
        last.IsHeldIn place (place.engine.finalize {} none 0 tree').2 ∧ id ∉ last.sessions) ∧
      (place.engine.finalize {} none 0 tree).1.finalized =
        (place.engine.finalize {} none 0 tree').1.finalized ∧
      (place.engine.finalize {} none 0 tree).1.evicted =
        (place.engine.finalize {} none 0 tree').1.evicted := by
  let id : SessionId := ⟨"b"⟩
  let bad : Bytes := Bytes.ofText "x"
  let v : Vault := OneEvent.vault.setFile id SessionFile.header bad
  have hid : id.IsStorable := ⟨by decide, by decide⟩
  obtain ⟨tree', hheld'⟩ := OneEvent.exists_tree
  obtain ⟨tree, hheld⟩ : ∃ tree, v.IsHeldIn OneEvent.pass.place tree :=
    hheld'.exists_setFile hid (isEntryName_sessionFile SessionFile.header (by decide)) (by decide)
      bad
  have hkeys : v.sessions.keys = {id, OneEvent.session} := rfl
  have hnothing : v.HasNothingToReport id 8 :=
    .badHeader bad (by rw [Vault.item?_setFile, if_pos ⟨rfl, rfl⟩]) (by decide)
  have hclosed : id ∉ OneEvent.vault.sessions := fun hopen =>
    absurd (OneEvent.alone id (Or.inl hopen)) (by decide)
  have hwithout : v.IsWithout {id} OneEvent.vault :=
    { closed := by simpa using hclosed
      files := fun other hother =>
        (Finmap.lookup_insert_of_ne _ (by simpa using hother)).symm
      reports := rfl }
  obtain ⟨⟨last, hlast, hlast', hgone⟩, hfinalized, hevicted⟩ := finalize_without hheld hheld'
    hwithout {} none 0 (by rw [hkeys]; decide) (by simpa using hnothing) (by simp)
  exact ⟨_, tree, tree', v, id, hheld, Finmap.mem_keys.1 (by rw [hkeys]; simp), hnothing, hheld',
    hwithout, ⟨last, hlast, hlast', hgone id (by simp)⟩, hfinalized, hevicted⟩

end ReportVault
