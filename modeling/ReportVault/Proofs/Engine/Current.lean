import ReportVault.Proofs.Engine.ReadFailures
import ReportVault.Proofs.Engine.Resume
import ReportVault.Proofs.Store.Untouched

/-!
# ReportVault.Proofs.Engine.Current

The current session, which a pass does not see.

Two vaults that differ in the files of the current session only have the same candidates, and of
each candidate the same is assembled.  So `Pass.changes_congr`: a pass makes the same changes in
both, and none of them is about the current session.  `finalize_current_invisible` says what this
means for two directories.
-/

namespace ReportVault

open FileSystem Retention

/-! ## Vaults that differ in one session -/

/-- The vaults have the same reports, and the same open sessions but for one. -/
structure Vault.SameBut (id : SessionId) (v w : Vault) : Prop where
  files : ∀ other ≠ id, v.sessions.lookup other = w.sessions.lookup other
  reports : v.reports = w.reports

namespace Vault

variable {v w : Vault} {id : SessionId}

theorem reportIds_congr (h : v.reports = w.reports) : v.reportIds = w.reportIds := by
  simp only [reportIds, finalized, tier?, h]

/-- What a change makes of the reports depends on nothing else. -/
theorem reports_apply_congr (h : v.reports = w.reports) (c : Change) :
    (c.apply v).reports = (c.apply w).reports := by
  cases c with
  | write other name contents => exact h
  | delete other name => simp only [Change.apply, reports_dropFile, h]
  | deleteSession other => exact h
  | writeReport other tier contents => simp only [Change.apply, setReport, h]
  | deleteReport other => simp only [Change.apply, dropReport, h]
  | deleteAll => rfl

theorem reports_after_congr (h : v.reports = w.reports) (changes : List Change) :
    (v.after changes).reports = (w.after changes).reports := by
  induction changes generalizing v w with
  | nil => exact h
  | cons c changes ih => exact ih (reports_apply_congr h c)

namespace SameBut

theorem mem_iff (h : v.SameBut id w) {other : SessionId} (hne : other ≠ id) :
    other ∈ v.sessions ↔ other ∈ w.sessions := by
  simp only [Finmap.mem_iff, h.files other hne]

/-- The vaults still differ in that session only when other sessions are finalized. -/
theorem after (h : v.SameBut id w) {changes : List Change} (hchanges : ∀ c ∈ changes, c.Finalizes) :
    (v.after changes).SameBut id (w.after changes) where
  files other hne := by
    rw [lookup_after_of_finalizes hchanges, lookup_after_of_finalizes hchanges, h.files other hne]
  reports := reports_after_congr h.reports changes

/-- A file of the session makes no difference to the rest. -/
theorem setFile (v : Vault) (id : SessionId) (name : String) (contents : Bytes) :
    (v.setFile id name contents).SameBut id v where
  files _ hne := Finmap.lookup_insert_of_ne _ hne
  reports := rfl

end SameBut

end Vault

/-! ## The same changes -/

namespace Pass

variable {p : Pass} {v w : Vault} {id : SessionId}

theorem mem_candidates {other : SessionId} :
    other ∈ p.candidates v ↔
      (p.fails .openIds).isNone = true ∧ other ∈ v.sessions ∧ some other ≠ p.current := by
  rw [candidates, List.mem_filter, decide_eq_true_eq, Medium.openIds_eq]
  split <;> simp_all [Finmap.mem_keys]

/-- No change of a pass is about the files of the current session. -/
theorem sparesFiles_of_mem_changes (hcurrent : p.current = some id) {c : Change}
    (hc : c ∈ p.changes v) : c.SparesFiles id := by
  have hcandidate : ∀ {other}, other ∈ p.candidates v → other ≠ id := by
    rintro other hother rfl
    exact (open_of_mem_candidates hother).2 hcurrent.symm
  cases mem_changes_iff.1 hc with
  | settle h =>
    cases h with
    | discard hid => exact hcandidate (mem_candidates_of_mem_surplus hid)
    | write => trivial
    | close hkept => exact hcandidate (mem_candidates_of_mem_kept hkept)
  | drop => trivial

section Congr

variable (hcurrent : p.current = some id) (h : v.SameBut id w)

include hcurrent h

theorem candidates_congr : p.candidates v = p.candidates w := by
  refine pairwise_candidates.eq_of_mem_iff pairwise_candidates fun other => ?_
  rw [mem_candidates, mem_candidates, hcurrent]
  by_cases hne : other = id
  · simp [hne]
  · rw [h.mem_iff hne]

theorem kept_congr : p.kept v = p.kept w := by
  rw [kept, kept, candidates_congr hcurrent h]

theorem surplus_congr : p.surplus v = p.surplus w := by
  rw [surplus, surplus, candidates_congr hcurrent h]

variable (hv : v.IsWellFormed) (hw : w.IsWellFormed)

omit hcurrent in
theorem finalizedIds_congr : p.finalizedIds v = p.finalizedIds w := by
  rw [Medium.finalizedIds_eq, Medium.finalizedIds_eq, Vault.reportIds_congr h.reports]

include hv hw

omit hcurrent in
/-- Of any other session the same is assembled. -/
theorem outcome_congr {other : SessionId} (hne : other ≠ id) :
    p.outcome v other = p.outcome w other := by
  have hfirst := run_logged_assemble (p := p) hv (Vault.files_eq_of_lookup (h.files other hne).symm)
    (Vault.report?_eq_of_lookup fun t => by rw [h.reports]) []
  exact congrArg Prod.fst (hfirst.symm.trans (run_logged_assemble hw rfl rfl []))

theorem outcome_congr_of_mem_kept {other : SessionId} (hother : other ∈ p.kept v) :
    p.outcome v other = p.outcome w other := by
  refine outcome_congr h hv hw fun he => ?_
  exact (open_of_mem_kept hother).2 (by rw [hcurrent, he])

theorem assembling_congr : ∀ other ∈ p.kept v, p.assembling v other = p.assembling w other := by
  intro other hother
  rw [assembling, assembling, outcome_congr_of_mem_kept hcurrent h hv hw hother]

theorem assembled_congr : p.assembled v = p.assembled w := by
  rw [assembled, assembled, ← kept_congr hcurrent h]
  refine List.filterMap_congr fun other hother => ?_
  rw [assembling_congr hcurrent h hv hw other hother]

theorem verdict_congr : p.verdict v = p.verdict w := by
  rw [verdict, verdict, assembled_congr hcurrent h hv hw, finalizedIds_congr h]

theorem sweeping_congr : p.sweeping v = p.sweeping w := by
  have hclearing : (p.kept v).flatMap (p.clearing v) = (p.kept v).flatMap (p.clearing w) := by
    refine List.flatMap_congr fun other hother => ?_
    rw [clearing, clearing, outcome_congr_of_mem_kept hcurrent h hv hw hother]
  rw [sweeping, sweeping, hclearing, surplus_congr hcurrent h, kept_congr hcurrent h]

theorem settling_congr : p.settling v = p.settling w := by
  rw [settling, settling, sweeping_congr hcurrent h hv hw, assembled_congr hcurrent h hv hw,
    verdict_congr hcurrent h hv hw]

theorem losers_congr :
    p.losers (v.after (p.settling v)) = p.losers (w.after (p.settling w)) := by
  have hreports := Vault.reports_after_congr h.reports (p.settling v)
  rw [← settling_congr hcurrent h hv hw, losers, losers, Medium.finalizedIds_eq,
    Medium.finalizedIds_eq, Vault.reportIds_congr hreports]

/-- A pass makes the same changes. -/
theorem changes_congr : p.changes v = p.changes w := by
  rw [changes, changes, losers_congr hcurrent h hv hw, settling_congr hcurrent h hv hw]

/-- And it counts the same. -/
theorem summary_congr : p.summary v = p.summary w := by
  have hanswers : (p.kept v).map (fun other => (p.assembling v other).2) =
      (p.kept v).map fun other => (p.assembling w other).2 := by
    refine List.map_congr_left fun other hother => ?_
    rw [assembling_congr hcurrent h hv hw other hother]
  rw [summary, summary, hanswers, surplus_congr hcurrent h, kept_congr hcurrent h,
    assembled_congr hcurrent h hv hw, verdict_congr hcurrent h hv hw,
    losers_congr hcurrent h hv hw]

end Congr

end Pass

/-! ## Directories -/

variable {place : Location} {tree tree' : Node} {v w : Vault} {id : SessionId}

/-- A call that writes nothing down about the files of a session leaves its directory. -/
theorem Vault.IsHeldIn.get?_session_of_logs (h : v.IsHeldIn place tree) {call : Store.Call α}
    (hcall : call.IsFinalizing)
    (hspares : ∀ c ∈ call.logs ((place.store.perform call).run tree).1, c.SparesFiles id) :
    ((place.store.perform call).run tree).2.get? (place.session id) =
      tree.get? (place.session id) := by
  obtain ⟨hproper, hfinalizes⟩ := hcall
  rcases call.isRead_or_eq_call with hread | ⟨c, rfl, rfl⟩
  · rw [h.perform_of_isRead hproper hread]
  · have hc := hfinalizes c c.change?_call
    rcases h.perform_finalizes hc hproper with ⟨after, hrun⟩ | ⟨failure, hrun⟩
    · refine h.get?_session_perform hc hproper (hspares c ?_)
      simp [hrun, Store.Call.logs]
    · rw [hrun]

/-- As long as nothing is written down about the files of a session, its directory stays as it is.
-/
theorem Store.Agrees.untouched (place : Location)
    (fails : {α : Type} → Store.Call α → Option Failure) (id : SessionId) (found : Option Node) :
    Store.Agrees
      (fun top (run : Node × List Change) => top = run.1 ∧ (∃ v : Vault, v.IsHeldIn place top) ∧
        ((∀ c ∈ run.2, c.SparesFiles id) → top.get? (place.session id) = found))
      Store.Call.IsFinalizing (place.store.failing fails) (place.store.failing fails).logged := by
  rintro α call hcall top ⟨_, log⟩ ⟨rfl, ⟨v, hheld⟩, hsame⟩
  have hheld' := Store.Agrees.failing (Store.Agrees.held place) fails call hcall.1 top v hheld
  obtain ⟨-, hanswer, hafter⟩ := hheld'
  rw [Store.run_logged]
  refine ⟨rfl, hanswer, rfl, ⟨_, hafter⟩, fun hspares => ?_⟩
  simp only [Store.failing, List.mem_append] at hspares ⊢
  cases hfails : fails call with
  | some failure => exact hsame fun c hc => hspares c (Or.inl hc)
  | none =>
    simp only [hfails] at hspares
    rw [← hsame fun c hc => hspares c (Or.inl hc)]
    exact hheld.get?_session_of_logs hcall fun c hc => hspares c (Or.inr hc)

/-- The directory of the current session stays as it is. -/
theorem Pass.get?_session_current {p : Pass} (hcurrent : p.current = some id)
    (h : v.IsHeldIn p.place tree) :
    (Engine.finalize ⟨p.place.store.failing p.fails, p.codec⟩ p.caps p.current p.time
        tree).2.get? (p.place.session id) = tree.get? (p.place.session id) := by
  obtain ⟨-, -, -, -, hsame⟩ := Engine.agree_finalize (k := p.codec)
    (Store.Agrees.untouched p.place p.fails id (tree.get? (p.place.session id)))
    Engine.allowsPass_isFinalizing p.caps p.current p.time tree (tree, [])
    ⟨rfl, ⟨v, h⟩, fun _ => rfl⟩
  refine hsame fun c hc => ?_
  rw [(Pass.run_finalize_directory h []).2] at hc
  exact Pass.sparesFiles_of_mem_changes hcurrent hc

/-- The current session is exempt from a pass and invisible to it.  Over two stores that differ in
the files of that session only, a pass counts the same, closes the same sessions and ranks the same
reports; it leaves the directory of the session as it is in each store, and the stores hold the same
other open sessions and the same reports in the end.

Any calls may fail, if the same do in both stores. -/
theorem finalize_current_invisible {p : Pass} (hcurrent : p.current = some id)
    (hv : v.IsHeldIn p.place tree) (hw : w.IsHeldIn p.place tree') (h : v.SameBut id w) :
    let pass := Engine.finalize ⟨p.place.store.failing p.fails, p.codec⟩ p.caps p.current p.time
    (pass tree).1 = (pass tree').1 ∧
      (pass tree).2.get? (p.place.session id) = tree.get? (p.place.session id) ∧
      (pass tree').2.get? (p.place.session id) = tree'.get? (p.place.session id) ∧
      p.surplus v = p.surplus w ∧ p.verdict v = p.verdict w ∧
      ∃ after after' : Vault,
        after.IsHeldIn p.place (pass tree).2 ∧ after'.IsHeldIn p.place (pass tree').2 ∧
        after.SameBut id after' ∧ after.sessions.lookup id = v.sessions.lookup id ∧
        after'.sessions.lookup id = w.sessions.lookup id := by
  intro pass
  obtain ⟨hanswer, hafter⟩ := Pass.finalize_directory hv
  obtain ⟨hanswer', hafter'⟩ := Pass.finalize_directory hw
  have hwv := hv.isWellFormed
  have hww := hw.isWellFormed
  have hchanges := Pass.changes_congr hcurrent h hwv hww
  refine ⟨?_, Pass.get?_session_current hcurrent hv, Pass.get?_session_current hcurrent hw,
    Pass.surplus_congr hcurrent h, Pass.verdict_congr hcurrent h hwv hww, _, _, hafter, hafter',
    ?_, ?_, ?_⟩
  · exact hanswer.trans ((Pass.summary_congr hcurrent h hwv hww).trans hanswer'.symm)
  · rw [← hchanges]
    exact h.after fun c hc => Pass.finalizes_of_mem_changes hc
  · exact Vault.lookup_after fun c hc => Pass.sparesFiles_of_mem_changes hcurrent hc
  · exact Vault.lookup_after fun c hc => Pass.sparesFiles_of_mem_changes hcurrent hc

/-- A session with one event, and beside it a current session that is open in one of the stores
only. -/
theorem finalize_current_invisible_one_event : ∃ tree tree' : Node,
    let current : SessionId := ⟨"b"⟩
    let v := OneEvent.vault.setFile current SessionFile.user (Bytes.ofText "x")
    let p : Pass := { OneEvent.pass with current := some current }
    let pass := Engine.finalize ⟨p.place.store.failing p.fails, p.codec⟩ p.caps p.current p.time
    v.IsHeldIn p.place tree ∧ OneEvent.vault.IsHeldIn p.place tree' ∧
      v.SameBut current OneEvent.vault ∧ current ∈ v.sessions ∧ current ∉ OneEvent.vault.sessions ∧
      (pass tree).1 = (pass tree').1 := by
  let current : SessionId := ⟨"b"⟩
  let v := OneEvent.vault.setFile current SessionFile.user (Bytes.ofText "x")
  obtain ⟨tree', hw⟩ := OneEvent.exists_tree
  have hcurrent : current.IsStorable := ⟨by decide, by decide⟩
  obtain ⟨tree, hv⟩ : ∃ tree, v.IsHeldIn OneEvent.pass.place tree :=
    hw.exists_setFile hcurrent (isEntryName_sessionFile _ (by decide)) (by decide) _
  have hsame : v.SameBut current OneEvent.vault := .setFile _ _ _ _
  have habsent : OneEvent.vault.sessions.lookup current = none := by decide
  refine ⟨tree, tree', hv, hw, hsame, Finmap.mem_iff.2 ⟨_, Finmap.lookup_insert _⟩,
    Finmap.lookup_eq_none.1 habsent, ?_⟩
  exact (finalize_current_invisible (p := { OneEvent.pass with current := some current }) rfl hv hw
    hsame).1

end ReportVault
