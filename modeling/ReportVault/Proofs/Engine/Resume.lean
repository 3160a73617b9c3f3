import ReportVault.Proofs.Engine.ReadFailures

/-!
# ReportVault.Proofs.Engine.Resume

A pass that ends before it is done, and is run again.

The process may end between any two changes of a pass.  `Pass.IsUnderway` says what is stored at
such a moment, and `IsUnderway.of_beginning` that it holds after every beginning of the changes.  A
pass that starts from there leaves what the whole pass would have left (`IsUnderway.after_changes`):
it keeps the same sessions, assembles the same reports for those that are still open, and the
reports that are missing or closed already do not change which ranks are the greatest.
-/

namespace ReportVault

open FileSystem Retention
open Engine (Assembled rankOf)

/-- What holds something that the one beginning does not have holds all of that. -/
theorem prefix_of_mem_of_not_mem {first l whole : List α} {a : α} (hfirst : first <+: whole)
    (hl : l <+: whole) (ha : a ∈ l) (hnot : a ∉ first) : first <+: l := by
  rcases List.prefix_or_prefix_of_prefix hl hfirst with h | h
  · exact absurd (h.subset ha) hnot
  · exact h

namespace Pass

/-! ## What is stored while a pass is going on -/

/-- What is stored in `u` at some moment of a pass over `v`. -/
structure IsUnderway (p : Pass) (v u : Vault) : Prop where
  /-- A session has the files that it had, or it is closed. -/
  session : ∀ id, u.sessions.lookup id = v.sessions.lookup id ∨
    u.sessions.lookup id = none ∧ .deleteSession id ∈ p.changes v
  /-- The sessions beyond the cap are closed before any other one. -/
  surplus : ∀ id ∈ p.kept v, id ∉ u.sessions → ∀ other ∈ p.surplus v, other ∉ u.sessions
  /-- A session has the report that it had, or the one that is assembled for it, or none; reports are
  deleted when all sessions are closed that are to be closed. -/
  report : ∀ id, (∀ t, (u.reports t).lookup id = (v.reports t).lookup id) ∨
    (∃ a, p.Writes v a ∧ a.id = id ∧ u.HasReport id a.tier a.report) ∨
    id ∈ p.losers (v.after (p.settling v)) ∧ (∀ t, (u.reports t).lookup id = none) ∧
      ∀ other, .deleteSession other ∈ p.changes v → other ∉ u.sessions
  /-- A session whose report has a place is closed after that is written. -/
  written : ∀ a, p.Writes v a → a.id ∉ u.sessions → u.HasReport a.id a.tier a.report

variable {place : Location} {caps : Caps} {current : Option SessionId} {time : Int64} {v : Vault}
  {id : SessionId} {changes : List Change}

/-- The sessions that a pass closes. -/
theorem deleteSession_mem_changes_plain_iff :
    .deleteSession id ∈ (plain place caps current time).changes v ↔
      id ∈ (plain place caps current time).candidates v ∧
        (id ∈ (plain place caps current time).kept v → ¬ ∃ failure,
          (plain place caps current time).outcome v id = .error failure ∧
            failure.isStorage = true) := by
  constructor
  · intro h
    refine ⟨?_, fun hkept => (deleteSession_mem_changes_iff rfl failsReadsOf_plain hkept).1 h⟩
    cases mem_changes_iff.1 h with
    | settle h => exact h.mem_candidates
  · rintro ⟨hcandidate, hstays⟩
    rw [← surplus_append_kept, List.mem_append] at hcandidate
    rcases hcandidate with hsurplus | hkept
    · exact mem_changes_iff.2 (.settle (.discard hsurplus rfl))
    · exact (deleteSession_mem_changes_iff rfl failsReadsOf_plain hkept).2 (hstays hkept)

section Beginning

variable (hbegin : changes <+: (plain place caps current time).changes v)

include hbegin

theorem finalizes_of_mem_beginning {c : Change} (hc : c ∈ changes) : c.Finalizes :=
  finalizes_of_mem_changes (hbegin.subset hc)

/-- A session has the files that it had, or it is closed by then. -/
theorem lookup_after_beginning (id : SessionId) :
    (v.after changes).sessions.lookup id = v.sessions.lookup id ∨
      (v.after changes).sessions.lookup id = none := by
  rw [Vault.lookup_after_of_finalizes fun c hc => finalizes_of_mem_beginning hbegin hc]
  split
  · exact Or.inr rfl
  · exact Or.inl rfl

/-- The sessions that are closed by then. -/
theorem not_mem_after_iff (hopen : id ∈ v.sessions) :
    id ∉ (v.after changes).sessions ↔ .deleteSession id ∈ changes := by
  obtain ⟨files, hfiles⟩ := Finmap.mem_iff.1 hopen
  rw [← Finmap.lookup_eq_none,
    Vault.lookup_after_of_finalizes (fun c hc => finalizes_of_mem_beginning hbegin hc), hfiles]
  by_cases hmem : .deleteSession id ∈ changes <;> simp [hmem]

/-- A session within the cap is closed behind all that are beyond it. -/
theorem deleteSession_surplus_mem (hkept : id ∈ (plain place caps current time).kept v)
    (hmem : .deleteSession id ∈ changes) {other : SessionId}
    (hother : other ∈ (plain place caps current time).surplus v) :
    .deleteSession other ∈ changes := by
  have hfirst : .deleteSession id ∉ ((plain place caps current time).surplus v).flatMap fun id =>
      (plain place caps current time).made (.deleteSession id) := by
    intro h
    obtain ⟨found, hfound, h⟩ := List.mem_flatMap.1 h
    obtain rfl : id = found := Change.deleteSession.inj (Medium.mem_made.1 h).1
    exact lt_irrefl id (lt_of_mem_surplus_of_mem_kept hfound hkept)
  have hsurplus : ((plain place caps current time).surplus v).flatMap (fun id =>
      (plain place caps current time).made (.deleteSession id)) <+:
        (plain place caps current time).changes v := by
    rw [Pass.changes, settling, sweeping, List.append_assoc, List.append_assoc]
    exact List.prefix_append _ _
  exact (prefix_of_mem_of_not_mem hsurplus hbegin hmem hfirst).subset
    (List.mem_flatMap.2 ⟨other, hother, List.mem_singleton.2 rfl⟩)

/-- A session whose report has a place is closed behind that is written. -/
theorem writeReport_mem {a : Assembled} (ha : (plain place caps current time).Writes v a)
    (hmem : .deleteSession a.id ∈ changes) :
    .writeReport a.id a.tier a.report.encode ∈ changes := by
  obtain ⟨hassembled, hplace, -⟩ := ha
  obtain ⟨before, behind, hsplit, hbefore⟩ := List.eq_append_cons_of_mem hassembled
  have hkept := (mem_assembled.1 hassembled).1
  -- The write stands right before the closing of the session, which is closed nowhere before.
  have hfirst : .deleteSession a.id ∉ (plain place caps current time).sweeping v ++
      before.flatMap ((plain place caps current time).placing
        ((plain place caps current time).verdict v)) ++
      [.writeReport a.id a.tier a.report.encode] := by
    simp only [List.mem_append, List.mem_singleton, reduceCtorEq, or_false, not_or]
    constructor
    · intro h
      rcases mem_sweeping_iff.1 h with ⟨found, hfound, h⟩ | ⟨found, -, h⟩
      · obtain he : a.id = found := Change.deleteSession.inj (Medium.mem_made.1 h).1
        exact lt_irrefl found (lt_of_mem_surplus_of_mem_kept hfound (he ▸ hkept))
      · obtain he : a.id = found := Change.deleteSession.inj (mem_clearing h)
        rw [clearing, ← he, (mem_assembled.1 hassembled).2] at h
        exact absurd h List.not_mem_nil
    · intro h
      obtain ⟨b, hb, h⟩ := List.mem_flatMap.1 h
      have hmember : b ∈ (plain place caps current time).assembled v :=
        hsplit ▸ List.mem_append_left _ hb
      rcases mem_placing h with he | ⟨contents, -, he⟩
      · rw [eq_of_mem_assembled hmember hassembled (Change.deleteSession.inj he).symm] at hb
        exact hbefore hb
      · exact absurd he (by simp)
  have hplacing : (plain place caps current time).placing
      ((plain place caps current time).verdict v) a =
        [.writeReport a.id a.tier a.report.encode, .deleteSession a.id] := by
    rw [placing, hplace, written_plain]
    rfl
  have hwhole : (plain place caps current time).sweeping v ++
      before.flatMap ((plain place caps current time).placing
        ((plain place caps current time).verdict v)) ++
      [.writeReport a.id a.tier a.report.encode] <+:
        (plain place caps current time).changes v := by
    refine List.IsPrefix.trans ?_ (List.prefix_append _ _)
    rw [settling, hsplit, List.flatMap_append, List.flatMap_cons, hplacing, List.append_assoc]
    exact (List.prefix_append_right_inj _).2 ((List.prefix_append_right_inj _).2 ⟨_, rfl⟩)
  exact (prefix_of_mem_of_not_mem hwhole hbegin hmem hfirst).subset
    (List.mem_append_right _ (List.mem_singleton_self _))

/-- Reports are deleted behind all closings. -/
theorem deleteSession_mem_of_deleteReport_mem (hmem : .deleteReport id ∈ changes)
    {other : SessionId}
    (hother : .deleteSession other ∈ (plain place caps current time).changes v) :
    .deleteSession other ∈ changes := by
  have hfirst : .deleteReport id ∉ (plain place caps current time).settling v := by
    intro h
    cases mem_settling_iff.1 h
  have hsettling : (plain place caps current time).settling v <+: changes :=
    prefix_of_mem_of_not_mem (List.prefix_append _ _) hbegin hmem hfirst
  cases mem_changes_iff.1 hother with
  | settle h => exact hsettling.subset (mem_settling_iff.2 h)

/-- What is done to the report of a session by then. -/
theorem sparesReport_or_of_mem_beginning (id : SessionId) {c : Change} (hc : c ∈ changes) :
    c.SparesReport id ∨
      (∃ a, (plain place caps current time).Writes v a ∧ a.id = id ∧
        c = .writeReport id a.tier a.report.encode) ∨
      id ∈ (plain place caps current time).losers
        (v.after ((plain place caps current time).settling v)) ∧ c = .deleteReport id := by
  cases mem_changes_iff.1 (hbegin.subset hc) with
  | settle h =>
    have hsettling := mem_settling_iff.2 h
    by_cases hwrites : ∃ a, (plain place caps current time).Writes v a ∧ a.id = id
    · obtain ⟨a, ha, rfl⟩ := hwrites
      exact (sparesReport_or_eq ha.1 (written_plain a) hsettling).imp_right
        fun he => Or.inl ⟨a, ha, rfl, he⟩
    · refine Or.inl (sparesReport_of_not_written (fun a ha hid => ?_) hsettling)
      refine Or.inl (by_contra fun hplace => hwrites ⟨a, ⟨ha, ?_, _, written_plain a⟩, hid⟩)
      exact Bool.eq_false_iff.2 (hid ▸ hplace)
  | @drop other hother =>
    by_cases he : other = id
    · subst he
      exact Or.inr (Or.inr ⟨hother, rfl⟩)
    · exact Or.inl he

theorem not_mem_after_of_mem_beginning (hmem : .deleteSession id ∈ changes) :
    id ∉ (v.after changes).sessions := by
  rw [← Finmap.lookup_eq_none,
    Vault.lookup_after_of_finalizes (fun c hc => finalizes_of_mem_beginning hbegin hc), if_pos hmem]

/-- A session that writes no report has the one that it had, or it has lost its place by then. -/
theorem reports_beginning_of_not_writes
    (hwrites : ¬ ∃ a, (plain place caps current time).Writes v a ∧ a.id = id) :
    (∀ t, ((v.after changes).reports t).lookup id = (v.reports t).lookup id) ∨
      id ∈ (plain place caps current time).losers
          (v.after ((plain place caps current time).settling v)) ∧
        (∀ t, ((v.after changes).reports t).lookup id = none) ∧
          ∀ other, .deleteSession other ∈ (plain place caps current time).changes v →
            other ∉ (v.after changes).sessions := by
  have hspares : ∀ c ∈ changes, c.SparesReport id ∨ c = .deleteReport id := fun c hc =>
    (sparesReport_or_of_mem_beginning hbegin id hc).imp_right fun h =>
      h.elim (fun ⟨a, ha, hid, _⟩ => absurd ⟨a, ha, hid⟩ hwrites) And.right
  have hafter := Vault.lookup_reports_after_of_deleted (v := v) hspares
  by_cases hmem : .deleteReport id ∈ changes
  · refine Or.inr ⟨?_, fun t => by rw [hafter, if_pos hmem], fun other hother =>
      not_mem_after_of_mem_beginning hbegin
        (deleteSession_mem_of_deleteReport_mem hbegin hmem hother)⟩
    cases mem_changes_iff.1 (hbegin.subset hmem) with
    | settle h => cases h
    | drop hloser => exact hloser
  · exact Or.inl fun t => by rw [hafter, if_neg hmem]

variable (hone : ∀ a ∈ (plain place caps current time).assembled v, ∀ tier,
  v.tier? a.id = some tier → rankOf a.id tier = rankOf a.id a.tier)

include hone

/-- A session that writes a report has the one that it had until then. -/
theorem lookup_reports_beginning_of_writes {a : Assembled}
    (ha : (plain place caps current time).Writes v a) (t : Tier) :
    ((v.after changes).reports t).lookup a.id =
      if .writeReport a.id a.tier a.report.encode ∈ changes then
        if t = a.tier then some a.report.encode else none
      else (v.reports t).lookup a.id := by
  refine Vault.lookup_reports_after_of_written (fun c hc => ?_) t
  rcases sparesReport_or_of_mem_beginning hbegin a.id hc with h | ⟨b, hb, hid, rfl⟩ | ⟨h, -⟩
  · exact Or.inl h
  · rw [eq_of_mem_assembled hb.1 ha.1 hid]
    exact Or.inr rfl
  · exact absurd h (not_mem_losers_plain hone ((writes_plain_iff hone ha.1).1 ha))

/-- Some moment of a pass. -/
theorem IsUnderway.of_beginning :
    (plain place caps current time).IsUnderway v (v.after changes) where
  session id := by
    rw [Vault.lookup_after_of_finalizes fun c hc => finalizes_of_mem_beginning hbegin hc]
    split
    · next hmem => exact Or.inr ⟨rfl, hbegin.subset hmem⟩
    · exact Or.inl rfl
  surplus id hkept hout other hother := by
    have hclosed := (not_mem_after_iff hbegin (open_of_mem_kept hkept).1).1 hout
    exact not_mem_after_of_mem_beginning hbegin
      (deleteSession_surplus_mem hbegin hkept hclosed hother)
  report id := by
    -- Reports of sessions that write one are not deleted, and all others are not written.
    by_cases hwrites : ∃ a, (plain place caps current time).Writes v a ∧ a.id = id
    · obtain ⟨a, ha, rfl⟩ := hwrites
      have hafter := lookup_reports_beginning_of_writes hbegin hone ha
      by_cases hmem : .writeReport a.id a.tier a.report.encode ∈ changes
      · exact Or.inr (Or.inl ⟨a, ha, rfl, fun t => by rw [hafter, if_pos hmem]⟩)
      · exact Or.inl fun t => by rw [hafter, if_neg hmem]
    · exact (reports_beginning_of_not_writes hbegin hwrites).imp_right Or.inr
  written a ha hout t := by
    have hclosed := (not_mem_after_iff hbegin (open_of_mem_assembled ha.1).1).1 hout
    rw [lookup_reports_beginning_of_writes hbegin hone ha, if_pos (writeReport_mem hbegin ha hclosed)]

end Beginning

/-! ## A pass from there -/

namespace IsUnderway

variable {u : Vault} (h : (plain place caps current time).IsUnderway v u)

include h

/-- What is open then was open, and has the same files. -/
theorem lookup_eq (hopen : id ∈ u.sessions) : u.sessions.lookup id = v.sessions.lookup id := by
  rcases h.session id with he | ⟨hnone, -⟩
  · exact he
  · exact absurd hopen (Finmap.lookup_eq_none.1 hnone)

theorem mem_sessions (hopen : id ∈ u.sessions) : id ∈ v.sessions := by
  rw [Finmap.mem_iff] at hopen ⊢
  rwa [← h.lookup_eq (Finmap.mem_iff.2 hopen)]

/-- Of the sessions that are still open the same are kept: either all of these are there, or the
others are gone. -/
theorem mem_kept_iff :
    id ∈ (plain place caps current time).kept u ↔
      id ∈ (plain place caps current time).kept v ∧ id ∈ u.sessions := by
  let open? (w : Vault) := w.sessions.keys.filter fun id => some id ≠ current
  have hmem : ∀ {w : Vault} {id : SessionId},
      id ∈ open? w ↔ id ∈ (plain place caps current time).candidates w := by
    intro w id
    rw [mem_candidates_plain, Finset.mem_filter, Finmap.mem_keys]
  have hsub : open? u ⊆ open? v := fun id hid => by
    rw [hmem, mem_candidates_plain] at hid ⊢
    exact hid.imp_left h.mem_sessions
  have hchoice : top caps.openSessions (open? v) ⊆ open? u ∨
      open? u ⊆ top caps.openSessions (open? v) := by
    by_cases hall : ∀ id ∈ (plain place caps current time).kept v, id ∈ u.sessions
    · refine Or.inl fun id hid => ?_
      have hkept : id ∈ (plain place caps current time).kept v := mem_kept_plain.2 hid
      have hcurrent := (open_of_mem_kept hkept).2
      exact hmem.2 (mem_candidates_plain.2 ⟨hall id hkept, hcurrent⟩)
    · push Not at hall
      obtain ⟨gone, hgone, hout⟩ := hall
      refine Or.inr fun id hid => mem_kept_plain.1 (?_ : id ∈ (plain place caps current time).kept v)
      have hcandidate := hmem.1 (hsub hid)
      rw [← surplus_append_kept, List.mem_append] at hcandidate
      refine hcandidate.resolve_left fun hsurplus => ?_
      exact h.surplus gone hgone hout id hsurplus (open_of_mem_candidates (hmem.1 hid)).1
  have hcandidate : id ∈ (plain place caps current time).kept v → id ∈ u.sessions →
      id ∈ open? u := fun hkept hopen =>
    hmem.2 (mem_candidates_plain.2 ⟨hopen, (open_of_mem_kept hkept).2⟩)
  rw [mem_kept_plain, mem_kept_plain]
  show id ∈ top caps.openSessions (open? u) ↔ id ∈ top caps.openSessions (open? v) ∧ _
  rw [top_eq_inter hsub hchoice, Finset.mem_inter]
  refine and_congr_right fun hkept => ⟨fun hid => ?_, hcandidate (mem_kept_plain.2 hkept)⟩
  exact (open_of_mem_candidates (hmem.1 hid)).1

variable (hv : v.IsWellFormed)
  (hheader : ∀ id ∈ v.newest current caps.openSessions, ∀ header,
    (v.files id).header? = some header → header.nativePayload = none)

include hv hheader

/-- For a session that is still open the same is assembled: the report that it has by now is the
one that is assembled for it. -/
theorem outcome_eq (hkept : id ∈ (plain place caps current time).kept v)
    (hopen : id ∈ u.sessions) :
    (plain place caps current time).outcome u id =
      (plain place caps current time).outcome v id := by
  have hid : id.IsStorable := hv.isStorable_open id (h.mem_sessions hopen)
  have hfiles : u.files id = v.files id := Vault.files_eq_of_lookup (h.lookup_eq hopen)
  rcases h.report id with hsame | ⟨a, ha, rfl, hreport⟩ | ⟨-, -, hclosed⟩
  · refine outcome_plain_congr hid hfiles ?_
    rw [Vault.recorded?, Vault.recorded?, Vault.report?_eq_of_lookup hsame]
  · have houtcome := (mem_assembled.1 ha.1).2
    obtain ⟨hslots, header, hdecoded, hassembled, hcomplete⟩ :=
      (outcome_plain_eq_some_iff hid).1 houtcome
    have hplain := hheader a.id (mem_kept_plain.1 hkept) header hdecoded
    rw [houtcome, outcome_plain_eq_some_iff hid, hfiles, hreport.recorded?_eq]
    exact ⟨hslots, header, hdecoded, Files.assembled_again hplain hassembled, hcomplete⟩
  · have hstays : ¬ .deleteSession id ∈ (plain place caps current time).changes v :=
      fun hmem => hclosed id hmem hopen
    rw [deleteSession_mem_changes_plain_iff, not_and, Classical.not_imp, not_not] at hstays
    obtain ⟨-, failure, hfailure, -⟩ := hstays (mem_candidates_of_mem_kept hkept)
    rw [hfailure, outcome_plain_eq_error hid hfiles.symm hfailure]

theorem mem_assembled_iff {a : Assembled} :
    a ∈ (plain place caps current time).assembled u ↔
      a ∈ (plain place caps current time).assembled v ∧ a.id ∈ u.sessions := by
  rw [mem_assembled, mem_assembled, h.mem_kept_iff, and_right_comm]
  refine and_congr_left fun hopen => and_congr_right fun hkept => ?_
  rw [h.outcome_eq hv hheader hkept hopen]

/-- No rank is new. -/
theorem contenders_subset :
    (plain place caps current time).contenders u ⊆ (plain place caps current time).contenders v := by
  intro r hr
  rcases Finset.mem_union.1 hr with hr | hr
  · obtain ⟨a, ha, rfl⟩ := Finset.mem_image.1 hr
    exact mem_contenders_of_mem_assembled
      ((h.mem_assembled_iff hv hheader).1 (List.mem_toFinset.1 ha)).1
  · obtain ⟨tier, htier, he⟩ := Vault.mem_ranks.1 hr
    rcases h.report r.id with hsame | ⟨a, ha, hid, hreport⟩ | ⟨-, hnone, -⟩
    · rw [Vault.tier?_congr hsame] at htier
      exact Finset.mem_union_right _ (Vault.mem_ranks.2 ⟨tier, htier, he⟩)
    · rw [hreport.tier?_eq, Option.some.injEq] at htier
      rw [← he, ← hid, ← htier]
      exact mem_contenders_of_mem_assembled ha.1
    · have hfinalized := Vault.mem_finalized_of_tier? htier
      obtain ⟨t, ht⟩ := Vault.mem_finalized.1 hfinalized
      exact absurd ht (Finmap.lookup_eq_none.1 (hnone t))

/-- The sessions that are open in the end. -/
theorem lookup_sessions_after (id : SessionId) :
    (u.after ((plain place caps current time).changes u)).sessions.lookup id =
      (v.after ((plain place caps current time).changes v)).sessions.lookup id := by
  rw [Vault.lookup_after_of_finalizes fun c hc => finalizes_of_mem_changes hc,
    Vault.lookup_after_of_finalizes fun c hc => finalizes_of_mem_changes hc]
  by_cases hopen : id ∈ u.sessions
  · have hiff : .deleteSession id ∈ (plain place caps current time).changes u ↔
        .deleteSession id ∈ (plain place caps current time).changes v := by
      rw [deleteSession_mem_changes_plain_iff, deleteSession_mem_changes_plain_iff,
        mem_candidates_plain, mem_candidates_plain, h.mem_kept_iff]
      have hopens : id ∈ u.sessions ↔ id ∈ v.sessions := iff_of_true hopen (h.mem_sessions hopen)
      refine and_congr (and_congr_left fun _ => hopens) ?_
      rw [and_iff_left hopen]
      refine forall_congr' fun hkept => ?_
      rw [h.outcome_eq hv hheader hkept hopen]
    rw [h.lookup_eq hopen]
    simp only [hiff]
  · have hnone := Finmap.lookup_eq_none.2 hopen
    rw [hnone, ite_self]
    rcases h.session id with he | ⟨-, hmem⟩
    · rw [← he, hnone, ite_self]
    · rw [if_pos hmem]

variable (hone : ∀ a ∈ (plain place caps current time).assembled v, ∀ tier,
  v.tier? a.id = some tier → rankOf a.id tier = rankOf a.id a.tier)

include hone

/-- The greatest ranks are still there: that of a report which is not written yet is assembled. -/
theorem top_subset_contenders :
    top caps.reports ((plain place caps current time).contenders v) ⊆
      (plain place caps current time).contenders u := by
  intro r hr
  by_cases hmade : ∃ a ∈ (plain place caps current time).assembled v, a.id = r.id
  · obtain ⟨a, ha, hid⟩ := hmade
    obtain rfl : rankOf a.id a.tier = r :=
      eq_of_mem_contenders hone (top_subset hr) (mem_contenders_of_mem_assembled ha) hid
    by_cases hopen : a.id ∈ u.sessions
    · exact mem_contenders_of_mem_assembled ((h.mem_assembled_iff hv hheader).2 ⟨ha, hopen⟩)
    · have hreport := h.written a ((writes_plain_iff hone ha).2 hr) hopen
      exact Finset.mem_union_right _ (Vault.mem_ranks.2 ⟨a.tier, hreport.tier?_eq, rfl⟩)
  · have hranks : r ∈ v.ranks := by
      refine (Finset.mem_union.1 (top_subset hr)).resolve_left fun hmem => hmade ?_
      obtain ⟨a, ha, rfl⟩ := Finset.mem_image.1 hmem
      exact ⟨a, List.mem_toFinset.1 ha, rfl⟩
    obtain ⟨tier, htier, he⟩ := Vault.mem_ranks.1 hranks
    rcases h.report r.id with hsame | ⟨a, ha, hid, -⟩ | ⟨hloser, -, -⟩
    · rw [← Vault.tier?_congr hsame] at htier
      exact Finset.mem_union_right _ (Vault.mem_ranks.2 ⟨tier, htier, he⟩)
    · exact absurd ⟨a, ha.1, hid⟩ hmade
    · exact absurd hloser (not_mem_losers_plain hone hr)

theorem top_contenders :
    top caps.reports ((plain place caps current time).contenders u) =
      top caps.reports ((plain place caps current time).contenders v) :=
  top_eq_of_subset (h.contenders_subset hv hheader) (h.top_subset_contenders hv hheader hone)

theorem rankOf_eq {a : Assembled} (ha : a ∈ (plain place caps current time).assembled u)
    {tier : Tier} (htier : u.tier? a.id = some tier) : rankOf a.id tier = rankOf a.id a.tier := by
  have hrank : rankOf a.id tier ∈ (plain place caps current time).contenders v :=
    h.contenders_subset hv hheader
      (Finset.mem_union_right _ (Vault.mem_ranks.2 ⟨tier, htier, rfl⟩))
  exact eq_of_mem_contenders hone
    (mem_contenders_of_mem_assembled ((h.mem_assembled_iff hv hheader).1 ha).1) hrank rfl

/-- The reports that are there in the end. -/
theorem lookup_reports_after (id : SessionId) (t : Tier) :
    ((u.after ((plain place caps current time).changes u)).reports t).lookup id =
      ((v.after ((plain place caps current time).changes v)).reports t).lookup id := by
  have honeAfter : ∀ a ∈ (plain place caps current time).assembled u, ∀ tier,
      u.tier? a.id = some tier → rankOf a.id tier = rankOf a.id a.tier :=
    fun a ha tier htier => h.rankOf_eq hv hheader hone ha htier
  have hfinalized : id ∈ (u.after ((plain place caps current time).changes u)).finalized ↔
      id ∈ (v.after ((plain place caps current time).changes v)).finalized := by
    rw [mem_finalized_plain hone, mem_finalized_plain honeAfter, h.top_contenders hv hheader hone]
  by_cases hin : id ∈ (v.after ((plain place caps current time).changes v)).finalized
  · rw [lookup_changes_plain hin, lookup_changes_plain (hfinalized.2 hin)]
    by_cases hmade : ∃ a ∈ (plain place caps current time).assembled v, a.id = id
    · obtain ⟨a, ha, rfl⟩ := hmade
      have hwrites := writes_plain_of_mem hone ha hin
      rw [lookup_settling_plain hwrites]
      by_cases hopen : a.id ∈ u.sessions
      · refine lookup_settling_plain (writes_plain_of_mem honeAfter ?_ (hfinalized.2 hin)) t
        exact (h.mem_assembled_iff hv hheader).2 ⟨ha, hopen⟩
      · rw [← h.written a hwrites hopen]
        refine lookup_settling_of_not_writes (fun b hid hb => hopen ?_) t
        exact hid ▸ ((h.mem_assembled_iff hv hheader).1 hb.1).2
    · rw [lookup_settling_of_not_writes fun a hid ha => hmade ⟨a, ha.1, hid⟩,
        lookup_settling_of_not_writes fun a hid ha =>
          hmade ⟨a, ((h.mem_assembled_iff hv hheader).1 ha.1).1, hid⟩]
      rcases h.report id with hsame | ⟨a, ha, hid, -⟩ | ⟨hloser, -, -⟩
      · exact hsame t
      · exact absurd ⟨a, ha.1, hid⟩ hmade
      · exact absurd hloser (not_mem_losers (fun _ => rfl) hin)
  · have hnone : ∀ {w : Vault}, id ∉ w.finalized → (w.reports t).lookup id = none :=
      fun hout => Finmap.lookup_eq_none.2 fun hmem => hout (Vault.mem_finalized.2 ⟨t, hmem⟩)
    rw [hnone hin, hnone fun hout => hin (hfinalized.1 hout)]

/-- A pass that starts from there leaves what the whole pass leaves. -/
theorem after_changes :
    u.after ((plain place caps current time).changes u) =
      v.after ((plain place caps current time).changes v) := by
  refine Vault.ext (Finmap.ext_lookup fun id => ?_) (funext fun t => Finmap.ext_lookup fun id => ?_)
  · exact h.lookup_sessions_after hv hheader id
  · exact h.lookup_reports_after hv hheader hone id t

end IsUnderway

theorem isStorable_of_mem_changes {p : Pass} (hv : v.IsWellFormed) {c : Change}
    (hc : c ∈ p.changes v) (hid : c.call.session? = some id) : id.IsStorable := by
  cases mem_changes_iff.1 hc with
  | settle h =>
    cases h with
    | discard hmem =>
      exact Option.some.inj hid ▸
        isStorable_of_mem_candidates hv (mem_candidates_of_mem_surplus hmem)
    | write ha => exact Option.some.inj hid ▸ isStorable_of_mem_assembled hv ha
    | close hkept =>
      exact Option.some.inj hid ▸ isStorable_of_mem_candidates hv (mem_candidates_of_mem_kept hkept)
  | drop hmem =>
    exact Option.some.inj hid ▸ isStorable_of_mem_losers (isWellFormed_settling hv) hmem

end Pass

/-! ## Directories -/

/-- The calls that look and those of changes by which sessions are finalized. -/
def Store.Call.IsFinalizing (call : Store.Call α) : Prop :=
  call.IsProper ∧ ∀ c, call.change? = some c → c.Finalizes

theorem Engine.allowsPass_isFinalizing : AllowsPass Store.Call.IsFinalizing where
  openIds := ⟨trivial, by simp [Store.Call.change?]⟩
  reportIds := ⟨trivial, by simp [Store.Call.change?]⟩
  session _ hid :=
    { files := ⟨⟨hid, by simp [Store.Call.change?]⟩, fun _ hname =>
        ⟨⟨hid, hname⟩, by simp [Store.Call.change?]⟩⟩
      readReport := ⟨hid, by simp [Store.Call.change?]⟩
      writeReport := fun _ _ => ⟨hid, fun _ hc => Option.some.inj hc ▸ trivial⟩
      deleteSession := ⟨hid, fun _ hc => Option.some.inj hc ▸ trivial⟩ }
  deleteReport _ hid := ⟨hid, fun _ hc => Option.some.inj hc ▸ trivial⟩

/-- A call either looks or makes its change. -/
theorem Store.Call.isRead_or_eq_call (call : Store.Call α) :
    call.isRead = true ∨ ∃ (c : Change) (h : α = Unit), h ▸ call = c.call := by
  cases call with
  | read | slots | openIds | reportIds | readReport => exact Or.inl rfl
  | write id name contents => exact Or.inr ⟨.write id name contents, rfl, rfl⟩
  | delete id name => exact Or.inr ⟨.delete id name, rfl, rfl⟩
  | deleteSession id => exact Or.inr ⟨.deleteSession id, rfl, rfl⟩
  | writeReport id tier contents => exact Or.inr ⟨.writeReport id tier contents, rfl, rfl⟩
  | deleteReport id => exact Or.inr ⟨.deleteReport id, rfl, rfl⟩
  | deleteAll => exact Or.inr ⟨.deleteAll, rfl, rfl⟩

variable {place : Location} {tree : Node} {v : Vault}

/-- A directory changes as its log says. -/
theorem Store.Agrees.performed (place : Location) (tree : Node) :
    Store.Agrees (fun top run => top = run.1 ∧ top = place.store.performed tree run.2 ∧
      ∃ v : Vault, v.IsHeldIn place top) Store.Call.IsFinalizing place.store place.store.logged := by
  rintro α call ⟨hproper, hfinalizes⟩ top ⟨_, log⟩ ⟨rfl, htop, v, hheld⟩
  obtain ⟨-, hanswer, hafter⟩ := Store.Agrees.held place call hproper top v hheld
  rw [Store.run_logged]
  refine ⟨rfl, hanswer, rfl, ?_, _, hafter⟩
  dsimp only
  rcases call.isRead_or_eq_call with hread | ⟨c, rfl, rfl⟩
  · rw [Store.Call.logs_of_isRead hread, List.append_nil, hheld.perform_of_isRead hproper hread]
    exact htop
  · rcases hheld.perform_finalizes (hfinalizes c c.change?_call) hproper with
      ⟨after, hrun⟩ | ⟨failure, hrun⟩
    · rw [hrun, Store.Call.logs, c.change?_call, Option.toList_some, Store.performed_concat, ← htop,
        hrun]
    · rw [hrun, Store.Call.logs, List.append_nil]
      exact htop

/-- The log of a pass has all that is done in it. -/
theorem performed_log (hheld : v.IsHeldIn place tree) (caps : Caps) (current : Option SessionId)
    (time : Int64) :
    place.store.performed tree
        (Engine.finalize ⟨place.store.logged, .json⟩ caps current time (tree, [])).2.2 =
      (place.engine.finalize caps current time tree).2 := by
  obtain ⟨-, -, -, hlog, -⟩ := Engine.agree_finalize (k := .json)
    (Store.Agrees.performed place tree) Engine.allowsPass_isFinalizing caps current time tree
    (tree, []) ⟨rfl, rfl, v, hheld⟩
  exact hlog.symm

/-- What is held after changes of sessions that can be stored. -/
theorem Vault.IsHeldIn.performed (hheld : v.IsHeldIn place tree) {changes : List Change}
    (hchanges : ∀ c ∈ changes, c.Finalizes ∧ ∀ id, c.call.session? = some id → id.IsStorable) :
    (v.after changes).IsHeldIn place (place.store.performed tree changes) := by
  induction changes generalizing v tree with
  | nil => exact hheld
  | cons c changes ih =>
    obtain ⟨hc, hid⟩ := hchanges c List.mem_cons_self
    obtain ⟨hproper, hperform⟩ := v.perform_finalizes place hc hid
    have hafter := (hheld.perform c.call hproper).2
    rw [hperform] at hafter
    exact ih hafter fun d hd => hchanges d (List.mem_cons_of_mem _ hd)

/-- A pass that ended before it was done is made good by running it again: wherever in the sequence
of its changes it ended, a pass with the same settings leaves the same open sessions and the same
reports as one that was not interrupted.  In particular a second pass leaves what the first one
left.

A session that is open and was finalized before has a report with a native crash, and no native
crash is in the header of an open session. -/
theorem finalize_resumes (hheld : v.IsHeldIn place tree) (caps : Caps)
    (current : Option SessionId) (time : Int64)
    (hheader : ∀ id ∈ v.newest current caps.openSessions, ∀ header,
      (v.files id).header? = some header → header.nativePayload = none)
    (hnative : ∀ id ∈ v.newest current caps.openSessions, id ∈ v.finalized →
      v.HasNativeReport id) :
    let log := (Engine.finalize ⟨place.store.logged, .json⟩ caps current time (tree, [])).2.2
    let whole := (place.engine.finalize caps current time tree).2
    place.store.performed tree log = whole ∧
      ∃ w : Vault, w.IsHeldIn place whole ∧
        (∀ changes, changes <+: log → w.IsHeldIn place
          (place.engine.finalize caps current time (place.store.performed tree changes)).2) ∧
        w.IsHeldIn place (place.engine.finalize caps current time whole).2 := by
  intro log whole
  let p := Pass.plain place caps current time
  have hv := hheld.isWellFormed
  have hlog : log = p.changes v := Pass.log_finalize_plain hheld
  have hwhole : place.store.performed tree log = whole := performed_log hheld caps current time
  have hone : ∀ a ∈ p.assembled v, ∀ tier, v.tier? a.id = some tier →
      rankOf a.id tier = rankOf a.id a.tier := fun a ha tier =>
    Pass.rankOf_of_native hv hnative ha
  have hagain : ∀ changes, changes <+: log → (v.after (p.changes v)).IsHeldIn place
      (place.engine.finalize caps current time (place.store.performed tree changes)).2 := by
    intro changes hbegin
    rw [hlog] at hbegin
    have hcut : (v.after changes).IsHeldIn place (place.store.performed tree changes) :=
      hheld.performed fun c hc => ⟨Pass.finalizes_of_mem_beginning hbegin hc, fun id hid =>
        Pass.isStorable_of_mem_changes hv (hbegin.subset hc) hid⟩
    have hend := (Pass.finalize_directory (p := p) hcut).2
    rwa [(Pass.IsUnderway.of_beginning hbegin hone).after_changes hv hheader hone] at hend
  refine ⟨hwhole, v.after (p.changes v), (Pass.finalize_directory (p := p) hheld).2, hagain, ?_⟩
  rw [← hwhole]
  exact hagain log (List.prefix_refl log)

/-- A pass over a session that is open and was finalized with a native crash, ended anywhere. -/
theorem finalize_resumes_native :
    ∃ (place : Location) (tree : Node) (v : Vault) (id : SessionId),
      v.IsHeldIn place tree ∧ id ∈ v.newest none 8 ∧ v.HasNativeReport id ∧
      (v.files id).header? = some OneEvent.header ∧
      ∃ w : Vault, w.IsHeldIn place (place.engine.finalize {} none 0 tree).2 ∧
        ∀ changes,
          changes <+: (Engine.finalize ⟨place.store.logged, .json⟩ {} none 0 (tree, [])).2.2 →
          w.IsHeldIn place (place.engine.finalize {} none 0 (place.store.performed tree changes)).2 := by
  let native : Report := OneEvent.header.withNativePayload { files := [] }
  let v : Vault := OneEvent.vault.setReport OneEvent.session .native native.encode
  obtain ⟨_, hopen⟩ := OneEvent.exists_tree
  obtain ⟨tree, hheld⟩ : ∃ tree, v.IsHeldIn OneEvent.pass.place tree :=
    hopen.exists_setReport OneEvent.isStorable .native native.encode
  have hnewest : ∀ id ∈ v.newest none 8, id = OneEvent.session := fun id hid => by
    have hkeys : v.sessions.keys = {OneEvent.session} := rfl
    have hmem := (Finset.mem_filter.1 (top_subset hid)).1
    rwa [hkeys, Finset.mem_singleton] at hmem
  have hnative : v.HasNativeReport OneEvent.session := by
    refine ⟨native.encode, native, ?_, Report.decode?_encode native, rfl⟩
    exact Vault.lookup_setReport_self .native .native native.encode
  have hheader : (v.files OneEvent.session).header? = some OneEvent.header := OneEvent.header?_vault
  obtain ⟨-, w, hwhole, hagain, -⟩ := finalize_resumes hheld {} none 0
    (fun id hid header hdecoded => by
      obtain rfl := hnewest id hid
      rw [hheader, Option.some.injEq] at hdecoded
      rw [← hdecoded]
      rfl)
    (fun id hid _ => by rwa [hnewest id hid])
  exact ⟨_, tree, v, OneEvent.session, hheld, OneEvent.mem_newest, hnative, hheader, w, hwhole,
    hagain⟩

end ReportVault
