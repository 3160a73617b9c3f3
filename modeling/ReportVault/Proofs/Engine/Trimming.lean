import ReportVault.Proofs.Engine.Faults
import ReportVault.Proofs.Engine.Survivors

/-!
# ReportVault.Proofs.Engine.Trimming

Which reports a pass deletes, whatever fails in it.

Until the open sessions are settled reports are written and none is deleted, so every report that
was there before still is (`Change.Settles`).  Only then a pass ranks what is stored, and what it
deletes is below the reports that it keeps: these were stored when it ranked them, be they new or
old, and no call touches them any more.  So it does not matter which of the calls before failed
(`trims_only_outranked`).
-/

namespace ReportVault

open FileSystem Retention
open Engine (rankOf)

/-! ## Settling -/

/-- Whether the change is one that is made while the open sessions are settled. -/
def Change.Settles : Change → Prop
  | .deleteSession _ => True
  | .writeReport .. => True
  | _ => False

/-- Whether the call is one by which the open sessions are settled. -/
def Store.Call.Settles (call : Store.Call α) : Prop :=
  call.IsProper ∧ ∀ c, call.change? = some c → c.Settles

theorem Store.Call.settles_of_isRead {call : Store.Call α} (hproper : call.IsProper)
    (hread : call.isRead = true) : call.Settles :=
  ⟨hproper, fun c hc => by simp [change?_of_isRead hread] at hc⟩

namespace Vault

variable {v : Vault} {changes : List Change}

/-- A report that is not written again stays as it is. -/
theorem lookup_reports_after_of_settles (h : ∀ c ∈ changes, c.Settles) {id : SessionId}
    (hid : ∀ tier contents, .writeReport id tier contents ∉ changes) (t : Tier) :
    ((v.after changes).reports t).lookup id = (v.reports t).lookup id := by
  refine lookup_reports_after (fun c hc => ?_) t
  have hsettles := h c hc
  cases c with
  | deleteSession other => trivial
  | writeReport other tier contents =>
    rintro rfl
    exact hid tier contents hc
  | _ => exact hsettles.elim

/-- A finalized session stays finalized. -/
theorem finalized_subset_after (h : ∀ c ∈ changes, c.Settles) :
    v.finalized ⊆ (v.after changes).finalized := by
  induction changes generalizing v with
  | nil => exact subset_rfl
  | cons c changes ih =>
    refine subset_trans ?_ (ih fun d hd => h d (List.mem_cons_of_mem _ hd))
    have hsettles := h c List.mem_cons_self
    intro id hid
    cases c with
    | deleteSession other => exact hid
    | writeReport other tier contents =>
      by_cases he : id = other
      · refine mem_finalized.2 ⟨tier, Finmap.mem_iff.2 ⟨contents, ?_⟩⟩
        rw [Change.apply, he, lookup_setReport_self, if_pos rfl]
      · obtain ⟨t, ht⟩ := mem_finalized.1 hid
        refine mem_finalized.2 ⟨t, Finmap.mem_iff.2 ?_⟩
        rw [Change.apply, lookup_setReport_of_ne he]
        exact Finmap.mem_iff.1 ht
    | _ => exact hsettles.elim

/-- What is stored and written down while the open sessions of a vault are settled. -/
structure IsSettling (v : Vault) (x : (Vault × Nat) × List Change) : Prop where
  isWellFormed : x.1.1.IsWellFormed
  eq_after : x.1.1 = v.after x.2
  settles : ∀ c ∈ x.2, c.Settles

/-- A vault some calls to which fail, with a log of the changes. -/
def faultyStore (place : Location) (fails : Nat → {α : Type} → Store.Call α → Option Failure) :
    Store (StateM ((Vault × Nat) × List Change)) :=
  ((Vault.store place).faulty (.early fails)).logged

variable (place : Location) (fails : Nat → {α : Type} → Store.Call α → Option Failure)

theorem run_faultyStore (call : Store.Call α) (w : Vault) (n : Nat) (log : List Change) :
    ((faultyStore place fails).perform call).run ((w, n), log) =
      match fails n call with
      | some failure => (.error failure, (w, n + 1), log)
      | none => ((w.perform place call).1, ((w.perform place call).2, n + 1),
          log ++ call.logs (w.perform place call).1) := by
  rw [faultyStore, Store.run_logged, Store.run_faulty, Faults.early]
  cases fails n call with
  | some failure =>
    rw [Option.map_some, Store.Call.logs, List.append_nil]
  | none => rfl

theorem keeps_isSettling (v : Vault) :
    (faultyStore place fails).Keeps v.IsSettling Store.Call.Settles := by
  rintro α call ⟨hproper, hchange⟩ ⟨⟨w, n⟩, log⟩ h
  rw [run_faultyStore]
  cases fails n call with
  | some failure => exact ⟨⟨h.isWellFormed, h.eq_after, h.settles⟩, fun _ ha => by cases ha⟩
  | none =>
    refine ⟨⟨h.isWellFormed.perform place call hproper, ?_, ?_⟩, fun _ ha =>
      h.isWellFormed.isProperAnswer place call ha⟩
    · rw [after_append, ← h.eq_after]
      exact w.perform_snd_eq_after place call
    · intro c hc
      rcases List.mem_append.1 hc with hc | hc
      · exact h.settles c hc
      · cases hanswer : (w.perform place call).1 with
        | ok a =>
          rw [hanswer, Store.Call.logs] at hc
          exact hchange c (Option.mem_toList.1 hc)
        | error failure =>
          rw [hanswer] at hc
          exact absurd hc List.not_mem_nil

variable (k : Codec) (caps : Caps) (current : Option SessionId) (time : Int64)

theorem isSettling_settle {v : Vault} (hv : v.IsWellFormed) (n : Nat) :
    v.IsSettling
      (Engine.settle ⟨faultyStore place fails, k⟩ caps current time ((v, n), [])).2 := by
  have hsession : ∀ id : SessionId, id.IsShort → Engine.AllowsFinalizing Store.Call.Settles id :=
    fun id hid => {
      files := ⟨Store.Call.settles_of_isRead hid rfl, fun _ hname =>
        Store.Call.settles_of_isRead ⟨hid, hname⟩ rfl⟩
      readReport := Store.Call.settles_of_isRead hid rfl
      writeReport := fun _ _ => ⟨hid, by simp [Store.Call.change?, Change.Settles]⟩
      deleteSession := ⟨hid, by simp [Store.Call.change?, Change.Settles]⟩ }
  have hsettle := Engine.agree_settle (k := k) (Store.Keeps.agrees (keeps_isSettling place fails v))
    (Store.Call.settles_of_isRead trivial rfl) (Store.Call.settles_of_isRead trivial rfl) hsession
    caps current time
  exact hsettle.keeps ⟨hv, rfl, by simp⟩

/-! ## Deleting reports -/

theorem run_deleteReport {id : SessionId} (hid : id.IsStorable) (w : Vault) (n : Nat)
    (log : List Change) :
    Engine.deleteReport ⟨faultyStore place fails, k⟩ id ((w, n), log) =
      match fails n (.deleteReport id) with
      | some _ => ((), (w, n + 1), log)
      | none => ((), (w.dropReport id, n + 1), log ++ [.deleteReport id]) := by
  have hrun := run_faultyStore place fails (.deleteReport id) w n log
  rw [w.perform_deleteReport place hid] at hrun
  rw [Engine.deleteReport, Engine.attempt, stateM_bind, hrun]
  cases fails n (.deleteReport id) <;> rfl

/-- Of the reports that are to be deleted some are, and all if no such call fails. -/
theorem exists_run_deleteReports {l : List (SessionId × Tier)} (hl : ∀ e ∈ l, e.1.IsStorable)
    (w : Vault) (n : Nat) (log : List Change) :
    ∃ (gone : List SessionId) (m : Nat),
      l.forM (fun e => Engine.deleteReport ⟨faultyStore place fails, k⟩ e.1) ((w, n), log) =
        ((), (w.after (gone.map .deleteReport), m), log ++ gone.map .deleteReport) ∧
      gone ⊆ l.map Prod.fst ∧
      ((∀ n id, fails n (.deleteReport id) = none) → gone = l.map Prod.fst) := by
  induction l generalizing w n log with
  | nil => exact ⟨[], n, by rw [List.map_nil, List.append_nil]; rfl, by simp, fun _ => rfl⟩
  | cons e l ih =>
    have hrest := ih fun d hd => hl d (List.mem_cons_of_mem _ hd)
    have hrun := run_deleteReport place fails k (hl e List.mem_cons_self) w n log
    cases hfails : fails n (.deleteReport e.1) with
    | some failure =>
      rw [hfails] at hrun
      obtain ⟨gone, m, hgone, hsub, -⟩ := hrest w (n + 1) log
      exact ⟨gone, m, (run_bind hrun _).trans hgone, List.subset_cons_of_subset _ hsub,
        fun h => absurd (h n e.1) (by simp [hfails])⟩
    | none =>
      rw [hfails] at hrun
      obtain ⟨gone, m, hgone, hsub, hall⟩ := hrest (w.dropReport e.1) (n + 1)
        (log ++ [.deleteReport e.1])
      refine ⟨e.1 :: gone, m, (run_bind hrun _).trans (hgone.trans ?_),
        List.cons_subset_cons _ hsub, fun h => by rw [hall h, List.map_cons]⟩
      simp [Change.apply]

theorem run_finalizedIds (u : Vault) (n : Nat) (log : List Change) :
    Engine.finalizedIds ⟨faultyStore place fails, k⟩ ((u, n), log) =
      (if (fails n .reportIds).isNone then u.reportIds else [], (u, n + 1), log) := by
  have hrun := run_faultyStore place fails .reportIds u n log
  rw [Engine.finalizedIds, Engine.succeeds?, stateM_bind, stateM_bind, hrun]
  cases fails n (α := List (SessionId × Tier)) .reportIds with
  | some failure => rfl
  | none => exact Prod.ext rfl (Prod.ext rfl (List.append_nil log))

/-- Some of the reports are deleted that are one too many, and all of them if the calls that matter
do not fail. -/
theorem exists_run_trimReports {u : Vault} (hu : u.IsWellFormed) (n : Nat) (log : List Change) :
    let losers := (Pass.plain place caps current time).losers u
    ∃ (gone : List SessionId) (m : Nat),
      (Engine.trimReports ⟨faultyStore place fails, k⟩ caps.reports ((u, n), log)).2 =
        ((u.after (gone.map .deleteReport), m), log ++ gone.map .deleteReport) ∧
      gone ⊆ losers ∧
      ((∀ n, fails n .reportIds = none) → (∀ n id, fails n (.deleteReport id) = none) →
        gone = losers) := by
  intro losers
  let kept := (selectSurvivors (u.reportIds.map fun e => rankOf e.1 e.2)
    caps.reports).isKept
  have hlosers : losers = if u.reportIds.length ≤ caps.reports then []
      else (u.reportIds.filter fun e => !kept e.1).map Prod.fst := rfl
  have hstorable : ∀ id ∈ losers, id.IsStorable := fun _ => Pass.isStorable_of_mem_losers hu
  rw [Engine.trimReports, stateM_bind, run_finalizedIds]
  cases hfails : fails n (α := List (SessionId × Tier)) .reportIds with
  | some failure =>
    refine ⟨[], n + 1, ?_, by simp, fun h => absurd (h n) (by simp [hfails])⟩
    simp only [Option.isNone_some, Bool.false_eq_true, if_false, List.length_nil, Nat.zero_le,
      if_true, List.map_nil, List.append_nil]
    rfl
  | none =>
    by_cases hcap : u.reportIds.length ≤ caps.reports
    · rw [if_pos hcap] at hlosers
      refine ⟨[], n + 1, ?_, by simp, fun _ _ => hlosers.symm⟩
      simp only [Option.isNone_none, if_true, if_pos hcap, List.map_nil, List.append_nil]
      rfl
    · rw [if_neg hcap] at hlosers
      obtain ⟨gone, m, hgone, hsub, hall⟩ := exists_run_deleteReports place fails k
        (l := u.reportIds.filter fun e => !kept e.1)
        (fun e he => hstorable e.1 (hlosers ▸ List.mem_map_of_mem he)) u (n + 1) log
      refine ⟨gone, m, ?_, hlosers ▸ hsub, fun _ h => (hall h).trans hlosers.symm⟩
      simp only [Option.isNone_none, if_true, if_neg hcap]
      exact congrArg Prod.snd (run_bind hgone _)

/-- A pass settles the open sessions, and of what is stored then it deletes some of the reports that
are one too many. -/
theorem exists_run_finalize {v : Vault} (hv : v.IsWellFormed) :
    ∃ (log : List Change) (gone : List SessionId) (m : Nat),
      let losers := (Pass.plain place caps current time).losers (v.after log)
      (Engine.finalize ⟨faultyStore place fails, k⟩ caps current time ((v, 0), [])).2 =
        (((v.after log).after (gone.map .deleteReport), m), log ++ gone.map .deleteReport) ∧
      (∀ c ∈ log, c.Settles) ∧ gone ⊆ losers ∧
      ((∀ n, fails n .reportIds = none) → (∀ n id, fails n (.deleteReport id) = none) →
        gone = losers) := by
  have hsettling := isSettling_settle place fails k caps current time hv 0
  rw [Engine.finalize_eq_settle, stateM_bind]
  generalize (Engine.settle ⟨faultyStore place fails, k⟩ caps current time ((v, 0), [])).2 = x
    at hsettling ⊢
  obtain ⟨⟨u, n⟩, log⟩ := x
  obtain rfl : u = v.after log := hsettling.eq_after
  obtain ⟨gone, m, hrun, hgone, hall⟩ :=
    exists_run_trimReports place fails k caps current time hsettling.isWellFormed n log
  exact ⟨log, gone, m, hrun, hsettling.settles, hgone, hall⟩

/-! ## What is left -/

section Deleted

variable {place caps current time} {u : Vault} {gone : List SessionId} {id : SessionId}

/-- A report that is not deleted stays where it is. -/
theorem tier?_after_deleted (hid : id ∉ gone) :
    (u.after (gone.map .deleteReport)).tier? id = u.tier? id :=
  tier?_congr fun t => by rw [lookup_reports_after_deleted, if_neg hid]

theorem notMem_finalized_after_deleted (hid : id ∈ gone) :
    id ∉ (u.after (gone.map .deleteReport)).finalized := by
  intro hmem
  obtain ⟨tier, htier⟩ := mem_finalized.1 hmem
  obtain ⟨contents, hcontents⟩ := Finmap.mem_iff.1 htier
  rw [lookup_reports_after_deleted, if_pos hid] at hcontents
  cases hcontents

variable (hgone : gone ⊆ (Pass.plain place caps current time).losers u)

include hgone

/-- The reports of the greatest ranks are left. -/
theorem top_subset_ranks_after :
    top caps.reports u.ranks ⊆ (u.after (gone.map .deleteReport)).ranks := by
  intro r hr
  obtain ⟨tier, htier, he⟩ := mem_ranks.1 (top_subset hr)
  have hid : r.id ∉ gone := fun hmem => by
    obtain ⟨other, hother, hout⟩ := (Pass.mem_losers rfl).1 (hgone hmem)
    obtain rfl : tier = other := Option.some.inj (htier.symm.trans hother)
    exact hout (he ▸ hr)
  exact mem_ranks.2 ⟨tier, (tier?_after_deleted hid).trans htier, he⟩

/-- As many reports as the cap allows are left that outrank a report that is not. -/
theorem le_card_outranking {tier : Tier} (hid : id ∈ gone) (htier : u.tier? id = some tier) :
    caps.reports ≤
      ((u.after (gone.map .deleteReport)).ranks.filter (rankOf id tier < ·)).card := by
  obtain ⟨other, hother, hout⟩ := (Pass.mem_losers rfl).1 (hgone hid)
  obtain rfl : tier = other := Option.some.inj (htier.symm.trans hother)
  have hrank : rankOf id tier ∈ u.ranks := mem_ranks.2 ⟨tier, htier, rfl⟩
  calc caps.reports = (top caps.reports u.ranks).card := (card_top_of_notMem hrank hout).symm
    _ ≤ _ := Finset.card_le_card fun r hr => Finset.mem_filter.2
      ⟨top_subset_ranks_after hgone hr, lt_of_mem_top hrank hout hr⟩

theorem min_le_card_finalized_after :
    min caps.reports u.finalized.card ≤ (u.after (gone.map .deleteReport)).finalized.card := by
  rw [← card_ranks, ← card_ranks, ← card_top]
  exact Finset.card_le_card (top_subset_ranks_after hgone)

omit hgone in
/-- If all are deleted that are one too many, no more are left than the cap allows. -/
theorem card_finalized_after_le (hall : gone = (Pass.plain place caps current time).losers u) :
    (u.after (gone.map .deleteReport)).finalized.card ≤ caps.reports := by
  have hleft : (u.after (gone.map .deleteReport)).ranks ⊆ top caps.reports u.ranks := by
    intro r hr
    obtain ⟨tier, htier, he⟩ := mem_ranks.1 hr
    have hid : r.id ∉ gone := fun hmem => notMem_finalized_after_deleted hmem
      (mem_finalized_of_tier? htier)
    rw [tier?_after_deleted hid] at htier
    by_contra hout
    exact hid (hall ▸ (Pass.mem_losers rfl).2 ⟨tier, htier, fun h => hout (he ▸ h)⟩)
  rw [← card_ranks]
  calc _ ≤ (top caps.reports u.ranks).card := Finset.card_le_card hleft
    _ ≤ caps.reports := by rw [card_top]; exact min_le_left _ _

end Deleted

end Vault

/-! ## Passes -/

/-- A pass deletes the report of a session that it did not write only if as many reports outrank it
as the cap allows, and these are stored when the pass ends.  So as many sessions are finalized after
it as were before, or as the cap allows; and no more than the cap allows, if the reports can be
listed and deleted.  Any other calls may fail, each before it does anything, and the record format
may be any. -/
theorem trims_only_outranked {place : Location} {tree : Node} {v : Vault}
    (hheld : v.IsHeldIn place tree)
    (fails : Nat → {α : Type} → Store.Call α → Option Failure) (k : Codec) (caps : Caps)
    (current : Option SessionId) (time : Int64) :
    let run := Engine.finalize ⟨(place.store.faulty (.early fails)).logged, k⟩ caps current time
      ((tree, 0), [])
    ∃ w : Vault, w.IsHeldIn place run.2.1.1 ∧
      (∀ id tier, v.tier? id = some tier →
        (∀ t contents, .writeReport id t contents ∉ run.2.2) → id ∉ w.finalized →
          caps.reports ≤ (w.ranks.filter (rankOf id tier < ·)).card) ∧
      min caps.reports v.finalized.card ≤ w.finalized.card ∧
      ((∀ n, fails n .reportIds = none) → (∀ n id, fails n (.deleteReport id) = none) →
        w.finalized.card ≤ caps.reports) := by
  intro run
  obtain ⟨-, -, ⟨hfinal, -⟩, hlog⟩ := Engine.agree_finalize (k := k)
    (Store.Agrees.logged (Store.Agrees.faulty (Store.Agrees.held place) fails))
    Engine.allowsPass_isProper caps current time ((tree, 0), []) ((v, 0), []) ⟨⟨hheld, rfl⟩, rfl⟩
  obtain ⟨log, gone, m, hrun, hsettles, hgone, hall⟩ :=
    Vault.exists_run_finalize place fails k caps current time hheld.isWellFormed
  rw [← Vault.faultyStore, hrun] at hfinal hlog
  refine ⟨(v.after log).after (gone.map .deleteReport), hfinal,
    fun id tier htier hwritten hlost => ?_, ?_,
    fun hlist hdelete => Vault.card_finalized_after_le (hall hlist hdelete)⟩
  · have hstays : (v.after log).tier? id = some tier := by
      rw [← htier]
      refine Vault.tier?_congr (Vault.lookup_reports_after_of_settles hsettles ?_)
      exact fun t contents hmem => hwritten t contents (hlog ▸ List.mem_append_left _ hmem)
    refine Vault.le_card_outranking hgone (not_imp_comm.1 (fun hid => ?_) hlost) hstays
    rw [← Vault.tier?_isSome, Vault.tier?_after_deleted hid, hstays]
    rfl
  · have hcard := Finset.card_le_card (Vault.finalized_subset_after (v := v) hsettles)
    exact (min_le_min_left _ hcard).trans (Vault.min_le_card_finalized_after hgone)

/-- With two reports and one place one report is left, although no report can be written. -/
theorem trims_only_outranked_one_place :
    ∃ (place : Location) (tree : Node) (v w : Vault),
      let fails : Nat → {α : Type} → Store.Call α → Option Failure := fun _ _ call =>
        match call with
        | .writeReport id _ _ => some (.storage .writeTemporary id.name .denied)
        | _ => none
      v.IsHeldIn place tree ∧ v.finalized.card = 2 ∧
      w.IsHeldIn place (Engine.finalize ⟨(place.store.faulty (.early fails)).logged, .json⟩
        { reports := 1 } none 0 ((tree, 0), [])).2.1.1 ∧
      w.finalized.card = 1 := by
  have hname : IsEntryName "data" := by constructor <;> decide
  have hstorable : ∀ name ∈ ["a", "b"], (SessionId.mk name).IsStorable := by
    intro name hname
    constructor <;> revert name <;> decide
  let v : Vault := (Vault.empty.setReport ⟨"a"⟩ .normal []).setReport ⟨"b"⟩ .normal []
  have hcard : v.finalized.card = 2 := rfl
  obtain ⟨_, hfirst⟩ :=
    (Vault.IsHeldIn.empty_named hname).exists_setReport (hstorable "a" (by simp)) .normal []
  obtain ⟨tree, hheld⟩ : ∃ tree, v.IsHeldIn (.named "data" hname) tree :=
    hfirst.exists_setReport (hstorable "b" (by simp)) .normal []
  obtain ⟨w, hw, -, hleast, hmost⟩ := trims_only_outranked hheld
    (fun _ _ call => match call with
      | .writeReport id _ _ => some (.storage .writeTemporary id.name .denied)
      | _ => none) .json { reports := 1 } none 0
  have hone : w.finalized.card ≤ 1 := hmost (fun _ => rfl) fun _ _ => rfl
  have hleft : 1 ≤ w.finalized.card := by rwa [hcard] at hleast
  exact ⟨.named "data" hname, tree, v, w, hheld, hcard, hw, le_antisymm hone hleft⟩

end ReportVault
