import ReportVault.Proofs.Engine.Interleaving
import ReportVault.Proofs.Engine.NativeCrash
import ReportVault.Proofs.Engine.Priority

/-!
# ReportVault.Proofs.Engine.Demotion

What becomes of a finalized report, over any run of operations.

An operation leaves the report of a session alone, deletes it, attaches a native crash to it, or is a
pass that writes the report of an open session over it (`ReportAfter`).  Whatever is in the native
tier therefore has a native crash (`hasNativeReport_after`), and stays there.  A pass goes by the
event files and the mark of the open session and not by the tier of the report that it writes over:
`tier_lowered_iff` says that this is how a report can come into a lower tier, and when.
-/

namespace ReportVault

open FileSystem Retention
open Engine (Assembled withNativeCrash)

namespace Tier

variable {lower tier : Tier}

theorem not_native_lt : ¬ Tier.native.level < tier.level := by cases tier <;> decide

/-- Below the native tier there is one step. -/
theorem level_lt_iff (h : tier ≠ .native) :
    lower.level < tier.level ↔ lower = .normal ∧ tier = .priority := by
  cases tier with
  | native => exact absurd rfl h
  | priority => cases lower <;> decide
  | normal => cases lower <;> decide

end Tier

/-! ## What operations do to a report -/

section Steps

variable {place : Location} {top : Node} {v w : Vault} {id : SessionId} {tier : Tier} {r : Report}

/-- In `w` the report of the session is as in `v`, or gone, or one of those that `P` allows. -/
inductive ReportAfter (id : SessionId) (v : Vault) (P : Tier → Report → Prop) (w : Vault) : Prop
  | same (h : ∀ t, (w.reports t).lookup id = (v.reports t).lookup id)
  | gone (h : ∀ t, (w.reports t).lookup id = none)
  | made (tier : Tier) (r : Report) (hP : P tier r) (h : w.HasReport id tier r)

variable {P : Tier → Report → Prop}

theorem ReportAfter.of_same {u : Vault} (h : ReportAfter id v P u)
    (hsame : ∀ t, (w.reports t).lookup id = (u.reports t).lookup id) : ReportAfter id v P w := by
  cases h with
  | same h => exact .same fun t => (hsame t).trans (h t)
  | gone h => exact .gone fun t => (hsame t).trans (h t)
  | made tier r hP h => exact .made tier r hP fun t => (hsame t).trans (h t)

/-- The call leaves the report of the session alone or deletes it. -/
def Store.Call.SparesOrDrops (id : SessionId) (call : Store.Call α) : Prop :=
  call.NamesEntries ∧ ∀ c, call.change? = some c →
    c.SparesReport id ∨ c = .deleteReport id ∨ c = .deleteAll

theorem keeps_reportAfter (place : Location) (id : SessionId) (v : Vault)
    (P : Tier → Report → Prop) :
    place.store.Keeps (fun top => ∃ w : Vault, w.IsHeldIn place top ∧ ReportAfter id v P w)
      (Store.Call.SparesOrDrops id) := by
  rintro α call ⟨hnames, hspares⟩ top ⟨u, hu, hreport⟩
  obtain ⟨⟨w, hw, hafter⟩, hanswer⟩ := hu.exists_after call hnames
  refine ⟨⟨w, hafter, ?_⟩, hanswer⟩
  rcases hw with rfl | ⟨c, hc, rfl⟩
  · exact hreport
  · rcases hspares c hc with hsame | rfl | rfl
    · exact hreport.of_same (Vault.lookup_reports_apply hsame)
    · exact .gone fun t => Vault.lookup_dropReport_self t
    · exact .gone fun t => Finmap.lookup_empty _

namespace Engine

theorem sparesOrDrops_of_spares {call : Store.Call α} (hnames : call.NamesEntries)
    (h : ∀ c, call.change? = some c → c.SparesReport id) : call.SparesOrDrops id :=
  ⟨hnames, fun c hc => Or.inl (h c hc)⟩

theorem allowsFiles_sparesOrDrops (other : SessionId) :
    AllowsFiles (Store.Call.SparesOrDrops id) other :=
  ⟨sparesOrDrops_of_spares trivial (by simp [Store.Call.change?]), fun _ hname =>
    sparesOrDrops_of_spares hname (by simp [Store.Call.change?])⟩

theorem allowsStoring_sparesOrDrops (other : SessionId) :
    AllowsStoring (Store.Call.SparesOrDrops id) other where
  slots := sparesOrDrops_of_spares trivial (by simp [Store.Call.change?])
  write _ _ hname := sparesOrDrops_of_spares hname fun _ hc => Option.some.inj hc ▸ trivial
  delete _ hname := sparesOrDrops_of_spares hname fun _ hc => Option.some.inj hc ▸ trivial

/-- Only operations that finalize sessions write reports. -/
theorem Action.allowed_sparesOrDrops {a : Action}
    (hpass : ∀ caps current time, a ≠ .finalize caps current time)
    (hnative : ∀ caps other payload info, a ≠ .finalizeNative caps other payload info) :
    a.Allowed (Store.Call.SparesOrDrops id) := by
  have hlist : Store.Call.reportIds.SparesOrDrops id :=
    sparesOrDrops_of_spares trivial (by simp [Store.Call.change?])
  cases a with
  | persistReport report => exact (allowsStoring_sparesOrDrops report.id).records
  | persistEvent caps correlation event other high => exact allowsStoring_sparesOrDrops other
  | persistUser other user => exact (allowsStoring_sparesOrDrops other).records
  | finalize caps current time => exact absurd rfl (hpass caps current time)
  | finalizeNative caps other payload info => exact absurd rfl (hnative caps other payload info)
  | openIds => exact sparesOrDrops_of_spares trivial (by simp [Store.Call.change?])
  | hasFinalized => exact hlist
  | loadFinalized =>
    exact ⟨hlist, fun _ _ => sparesOrDrops_of_spares trivial (by simp [Store.Call.change?])⟩
  | startTime other => exact allowsFiles_sparesOrDrops other
  | deleteReport other =>
    refine ⟨trivial, fun c hc => ?_⟩
    obtain rfl : Change.deleteReport other = c := Option.some.inj hc
    by_cases he : other = id
    · exact Or.inr (Or.inl (he ▸ rfl))
    · exact Or.inl he
  | deleteAll => exact ⟨trivial, fun c hc => Or.inr (Or.inr (Option.some.inj hc).symm)⟩

end Engine

/-- Besides a pass, only attaching a native crash writes a report, and in the native tier. -/
theorem reportAfter_step (hid : id.IsStorable) (hheld : v.IsHeldIn place top) (a : Engine.Action)
    (hpass : ∀ caps current time, a ≠ .finalize caps current time) :
    ∃ w : Vault, w.IsHeldIn place (a.run place.engine top).2 ∧
      ReportAfter id v (fun tier r => tier = .native ∧ r.nativePayload.isSome = true) w := by
  by_cases hnative : ∃ caps other payload info, a = .finalizeNative caps other payload info
  · obtain ⟨caps, other, payload, info, rfl⟩ := hnative
    by_cases he : id = other
    · subst he
      refine ⟨_, Medium.finalizeNative_directory (m := .plain place) hheld hid caps payload info, ?_⟩
      cases hbase : (Medium.plain place).nativeBase v id with
      | error failure =>
        have hnone : (Medium.plain place).nativeChanges v id caps payload info = [] := by
          rw [Medium.nativeChanges, hbase]
        rw [hnone]
        exact .same fun _ => rfl
      | ok base =>
        refine .made _ _ ⟨rfl, ?_⟩
          (Medium.hasReport_nativeChanges_plain hid hbase caps payload info)
        cases info <;> rfl
    · obtain ⟨w, hw, hsame⟩ := Engine.exists_frame (a := .finalizeNative caps other payload info)
        .json rfl hheld
      exact ⟨w, hw, .same (hsame id he).reports⟩
  · exact Store.Keeps.run (keeps_reportAfter place id v _) .json
      (Engine.Action.allowed_sparesOrDrops hpass fun caps other payload info he =>
        hnative ⟨caps, other, payload, info, he⟩)
      ⟨v, hheld, .same fun _ => rfl⟩

/-! ## What a pass does to a report -/

/-- A report that is assembled for the native tier has the native crash that was recorded. -/
theorem Engine.Assembled.nativePayload_of_tier {files : Files} {time : Int64} {cap : Nat}
    {header : Report} {recorded : Option Report}
    (h : (files.assembled id time cap header recorded).tier = .native) :
    (files.assembled id time cap header recorded).report.nativePayload.isSome = true := by
  have hpayload : (recorded.bind (·.nativePayload)).isSome = true := by
    by_contra hnone
    rw [Files.assembled, Assembled.tier_ofParts, if_neg hnone] at h
    split at h <;> exact absurd h (by simp)
  rw [Files.assembled, Assembled.nativePayload_ofParts, Option.isSome_or, hpayload, Bool.true_or]

namespace Pass

variable {caps : Caps} {current : Option SessionId} {time : Int64}

theorem deleteReport_mem_changes_iff :
    .deleteReport id ∈ (plain place caps current time).changes v ↔
      id ∈ (plain place caps current time).losers
        (v.after ((plain place caps current time).settling v)) := by
  rw [mem_changes_iff]
  constructor
  · rintro (h | ⟨hid, -⟩)
    · cases h
    · exact hid
  · exact fun h => .drop h rfl

/-- A report that a pass writes and does not delete is there after it. -/
theorem hasReport_of_writes {a : Assembled} (h : (plain place caps current time).Writes v a)
    (hstays : .deleteReport a.id ∉ (plain place caps current time).changes v) :
    (v.after ((plain place caps current time).changes v)).HasReport a.id a.tier a.report := by
  intro t
  rw [lookup_changes (p := plain place caps current time) (fun _ => rfl),
    if_neg fun hloser => hstays (deleteReport_mem_changes_iff.2 hloser), lookup_settling_plain h]

/-- A pass leaves a report alone, deletes it or writes a new one. -/
theorem reportAfter_changes (hv : v.IsWellFormed) :
    ReportAfter id v
      (fun tier r => .writeReport id tier r.encode ∈ (plain place caps current time).changes v ∧
        .deleteReport id ∉ (plain place caps current time).changes v ∧
          (tier = .native → r.nativePayload.isSome = true))
      (v.after ((plain place caps current time).changes v)) := by
  have hlookup : ∀ t, ((v.after ((plain place caps current time).changes v)).reports t).lookup id =
      if id ∈ (plain place caps current time).losers
        (v.after ((plain place caps current time).settling v)) then none
      else ((v.after ((plain place caps current time).settling v)).reports t).lookup id :=
    lookup_changes fun _ => rfl
  by_cases hdeleted : .deleteReport id ∈ (plain place caps current time).changes v
  · exact .gone fun t => by rw [hlookup, if_pos (deleteReport_mem_changes_iff.1 hdeleted)]
  by_cases hwrites : ∃ a, a.id = id ∧ (plain place caps current time).Writes v a
  · obtain ⟨a, rfl, hwrites⟩ := hwrites
    refine .made a.tier a.report ⟨?_, hdeleted, ?_⟩ (hasReport_of_writes hwrites hdeleted)
    · exact writeReport_mem_changes_iff.2 ⟨a, hwrites, rfl, rfl, written_plain a⟩
    · obtain ⟨-, header, -, hassembled, -⟩ :=
        (outcome_plain_eq_some_iff (isStorable_of_mem_assembled hv hwrites.1)).1
          (mem_assembled.1 hwrites.1).2
      rw [← hassembled]
      exact Assembled.nativePayload_of_tier
  · refine .same fun t => ?_
    rw [hlookup, if_neg fun hloser => hdeleted (deleteReport_mem_changes_iff.2 hloser)]
    exact lookup_settling_of_not_writes (fun a ha h => hwrites ⟨a, ha, h⟩) t

end Pass

/-! ## The native tier -/

/-- A report in the native tier has a native crash, if that was so before and any new one does. -/
theorem ReportAfter.hasNativeReport (h : ReportAfter id v P w)
    (hP : ∀ r, P .native r → r.nativePayload.isSome = true)
    (hv : id ∈ v.reports .native → v.HasNativeReport id) :
    id ∈ w.reports .native → w.HasNativeReport id := by
  intro hmem
  cases h with
  | same h =>
    obtain ⟨contents, r, hlookup, hr⟩ := hv (Finmap.mem_iff.2 (h .native ▸ Finmap.mem_iff.1 hmem))
    exact ⟨contents, r, (h .native).trans hlookup, hr⟩
  | gone h => exact absurd hmem (Finmap.lookup_eq_none.1 (h .native))
  | made tier r hr h =>
    obtain ⟨contents, hlookup⟩ := Finmap.mem_iff.1 hmem
    have hnative := h .native
    split at hnative
    · next he => exact ⟨r.encode, r, hnative, r.decode?_encode, hP r (he ▸ hr)⟩
    · exact absurd (hnative.symm.trans hlookup) (by simp)

/-- The listed tier after an operation is the one before or that of a new report. -/
theorem ReportAfter.tier?_eq {lower : Tier} (h : ReportAfter id v P w)
    (hv : v.tier? id = some tier) (hw : w.tier? id = some lower) :
    lower = tier ∨ ∃ r, P lower r := by
  cases h with
  | same h =>
    rw [Vault.tier?_congr h, hv, Option.some.injEq] at hw
    exact Or.inl hw.symm
  | gone h =>
    obtain ⟨t, hmem⟩ := Vault.mem_finalized.1 (Vault.mem_finalized_of_tier? hw)
    exact absurd hmem (Finmap.lookup_eq_none.1 (h t))
  | made made r hr h =>
    rw [h.tier?_eq, Option.some.injEq] at hw
    exact Or.inr ⟨r, hw ▸ hr⟩

/-- After any run a report in the native tier has a native crash. -/
theorem hasNativeReport_after (hid : id.IsStorable) (hheld : v.IsHeldIn place top)
    (hv : id ∈ v.reports .native → v.HasNativeReport id) (actions : List Engine.Action) :
    ∃ w : Vault, w.IsHeldIn place (place.engine.after top actions) ∧
      (id ∈ w.reports .native → w.HasNativeReport id) := by
  induction actions generalizing top v with
  | nil => exact ⟨v, hheld, hv⟩
  | cons a actions ih =>
    by_cases hpass : ∃ caps current time, a = .finalize caps current time
    · obtain ⟨caps, current, time, rfl⟩ := hpass
      exact ih (hheld.finalize caps current time)
        ((Pass.reportAfter_changes hheld.isWellFormed).hasNativeReport (fun r h => h.2.2 rfl) hv)
    · obtain ⟨w, hw, hafter⟩ := reportAfter_step hid hheld a fun caps current time he =>
        hpass ⟨caps, current, time, he⟩
      exact ih hw (hafter.hasNativeReport (fun r h => h.2) hv)

end Steps

/-! ## Lower tiers -/

section Lowering

variable {place : Location} {tree top : Node} {v : Vault} {id : SessionId} {tier : Tier}

/-- The tier that is listed is that of the vault. -/
theorem mem_finalizedIds_directory (hheld : v.IsHeldIn place top) :
    (id, tier) ∈ (place.engine.finalizedIds top).1 ↔ v.tier? id = some tier := by
  have hlisted : place.engine.finalizedIds top = (v.reportIds, top) :=
    (run_bind (Medium.run_succeeds? hheld.perform_reportIds) _).trans rfl
  rw [hlisted, Vault.mem_reportIds]

/-- The listed tier is one in which there is a report. -/
theorem mem_reports_of_tier? (h : v.tier? id = some tier) : id ∈ v.reports tier := by
  simpa using List.find?_some h

/-- When a pass moves a report to a lower tier. -/
theorem Pass.exists_lower_iff (place : Location) (caps : Caps) (current : Option SessionId)
    (time : Int64) (hv : v.IsWellFormed) (hnative : id ∈ v.reports .native → v.HasNativeReport id)
    (htier : v.tier? id = some tier) :
    let changes := (plain place caps current time).changes v
    (∃ lower, (v.after changes).tier? id = some lower ∧ lower.level < tier.level) ↔
      tier = .priority ∧ (v.files id).isMarked = false ∧
        (v.recorded? id).bind (·.nativePayload) = none ∧
          (∃ written contents, .writeReport id written contents ∈ changes) ∧
            .deleteReport id ∉ changes := by
  intro changes
  constructor
  · rintro ⟨lower, hlower, hlevel⟩
    rcases (reportAfter_changes hv).tier?_eq htier hlower with rfl | ⟨r, hwrite, hstays, -⟩
    · exact absurd hlevel (lt_irrefl _)
    obtain ⟨-, hwritten, -⟩ := tier_of_writeReport hv hwrite
    have hne : tier ≠ .native := by
      rintro rfl
      obtain ⟨native, hrecorded, hsome⟩ := (hnative (mem_reports_of_tier? htier)).recorded?_eq
      rw [hrecorded, Option.bind_some, if_pos hsome] at hwritten
      exact Tier.not_native_lt (hwritten ▸ hlevel)
    obtain ⟨rfl, rfl⟩ := (Tier.level_lt_iff hne).1 hlevel
    obtain ⟨hpayload, hmarked⟩ := (tier_cases hwritten).2.2.1 rfl
    exact ⟨rfl, Bool.eq_false_iff.2 hmarked, Option.not_isSome_iff_eq_none.1 hpayload,
      ⟨_, _, hwrite⟩, hstays⟩
  · rintro ⟨rfl, hmarked, hpayload, ⟨written, contents, hwrite⟩, hstays⟩
    obtain ⟨-, htier, -⟩ := tier_of_writeReport hv hwrite
    rw [hpayload, hmarked] at htier
    obtain ⟨a, hwrites, rfl, rfl, -⟩ := writeReport_mem_changes_iff.1 hwrite
    refine ⟨.normal, ?_, by decide⟩
    rw [(hasReport_of_writes hwrites hstays).tier?_eq, htier]
    rfl

/-- When an operation moves a finalized report to a lower tier, after any run of operations on a
store that was empty: the report is in the priority tier and has no native crash, its session was
opened again and has been given no event of high priority since, and the operation is a pass that
writes the report of that. -/
theorem tier_lowered_iff (hempty : Vault.empty.IsHeldIn place tree)
    (actions : List Engine.Action) (hstored : place.engine.Stores id tree actions)
    (htier : (id, tier) ∈ (place.engine.finalizedIds (place.engine.after tree actions)).1)
    (a : Engine.Action) :
    let top := place.engine.after tree actions
    (∃ lower, (id, lower) ∈ (place.engine.finalizedIds (a.run place.engine top).2).1 ∧
        lower.level < tier.level) ↔
      ∃ caps current time, a = .finalize caps current time ∧
        let log := (Engine.finalize ⟨place.store.logged, .json⟩ caps current time (top, [])).2.2
        tier = .priority ∧ place.engine.raised id tree false actions = false ∧
          ((place.engine.readFinalized id top).1.bind (·.nativePayload)) = none ∧
            (∃ written contents, .writeReport id written contents ∈ log) ∧
              .deleteReport id ∉ log := by
  dsimp only
  obtain ⟨u, hu⟩ := hempty.exists_run actions
  have hlisted := (mem_finalizedIds_directory hu).1 htier
  have hid : id.IsStorable :=
    hu.isWellFormed.isStorable_report tier id (mem_reports_of_tier? hlisted)
  obtain ⟨v, hheld, hnative⟩ := hasNativeReport_after hid hempty
    (fun h => absurd h Finmap.notMem_empty) actions
  obtain rfl := hheld.unique hu
  obtain ⟨w, hw, hraised⟩ := raised_after hid ⟨Vault.empty, hempty, Files.Shows.nil⟩ actions hstored
  obtain rfl := hheld.unique hw
  by_cases hpass : ∃ caps current time, a = .finalize caps current time
  · obtain ⟨caps, current, time, rfl⟩ := hpass
    have hafter := hheld.finalize caps current time
    have hiff := Pass.exists_lower_iff place caps current time hheld.isWellFormed hnative hlisted
    rw [hraised.isMarked_eq, ← readFinalized_directory hheld hid] at hiff
    simp only [mem_finalizedIds_directory hafter]
    refine hiff.trans ⟨fun h => ⟨caps, current, time, rfl, ?_⟩, ?_⟩
    · rwa [Pass.log_finalize_plain hheld]
    · rintro ⟨_, _, _, he, h⟩
      cases he
      rwa [Pass.log_finalize_plain hheld] at h
  · refine iff_of_false ?_ fun ⟨caps, current, time, he, _⟩ => hpass ⟨caps, current, time, he⟩
    rintro ⟨lower, hlower, hlevel⟩
    obtain ⟨w, hw, hafter⟩ := reportAfter_step hid hheld a fun caps current time he =>
      hpass ⟨caps, current, time, he⟩
    rcases hafter.tier?_eq hlisted ((mem_finalizedIds_directory hw).1 hlower) with
      rfl | ⟨r, rfl, -⟩
    · exact absurd hlevel (lt_irrefl _)
    · exact absurd hlevel Tier.not_native_lt

end Lowering

/-! ## A session that is opened again -/

section Reopening

variable {place : Location} {tree : Node} {header : Report} {caps : Caps}

/-- A session is opened and finalized, and then it is opened again. -/
def Engine.reopening (caps : Caps) (header : Report) (first second : Event) (high high' : Bool)
    (time : Int64) : List Engine.Action :=
  Engine.opening caps header first high ++
    .finalize caps none time :: Engine.opening caps header second high'

theorem Engine.stores_append {σ : Type} (e : Engine (StateM σ)) (id : SessionId) (s : σ)
    (actions more : List Engine.Action) :
    e.Stores id s (actions ++ more) ↔
      e.Stores id s actions ∧ e.Stores id (e.after s actions) more := by
  induction actions generalizing s with
  | nil => exact (and_iff_right trivial).symm
  | cons a actions ih => exact (and_congr_right fun _ => ih _).trans and_assoc.symm

/-- Each pass goes by the event of its own opening, if there is no native crash. -/
theorem listed_reopening (first second : Event) (high high' : Bool) (time time' : Int64)
    (hempty : Vault.empty.IsHeldIn place tree) (hid : header.id.IsStorable)
    (hpayload : header.nativePayload = none) (hopen : 1 ≤ caps.openSessions)
    (hcap : 1 ≤ caps.events) (hreports : 1 ≤ caps.reports) :
    let run := Engine.reopening caps header first second high high' time
    let top := place.engine.after tree run
    place.engine.Stores header.id tree run ∧
      (header.id, if high then .priority else .normal) ∈ (place.engine.finalizedIds top).1 ∧
        (header.id, if high' then .priority else .normal) ∈ (place.engine.finalizedIds
          ((Engine.Action.finalize caps none time').run place.engine top).2).1 := by
  obtain ⟨hstores, -, v, hv, honly, hreport⟩ := hempty.finalize_opened first high
    (Vault.hasOnly_empty _) hid hopen hcap hreports time
  obtain ⟨hstores', -, w, hw, -, hreport'⟩ := hv.finalize_opened second high' honly hid hopen hcap
    hreports time'
  have hopened := (hv.opening second high' (Pass.files_of_hasOnly honly) hid hcap).1
  have hnone : (Vault.empty.recorded? header.id).bind (·.nativePayload) = none := by
    rw [Vault.recorded?_eq_none (Finset.notMem_empty _), Option.bind_none]
  have hagain : (v.recorded? header.id).bind (·.nativePayload) = none := by
    rw [hreport.recorded?_eq, Option.bind_some, nativePayload_made hnone, hpayload]
  have hlisted : ∀ t, ((v.opened header second high').reports t).lookup header.id =
      (v.reports t).lookup header.id := fun t => by rw [reports_opened]
  rw [tier_made (Pass.files_of_hasOnly (Vault.hasOnly_empty _)) hnone] at hreport
  rw [tier_made (Pass.files_of_hasOnly honly) hagain] at hreport'
  have hafter : place.engine.after tree
      (Engine.reopening caps header first second high high' time) =
      place.engine.after ((Engine.Action.finalize caps none time).run place.engine
        (place.engine.after tree (Engine.opening caps header first high))).2
          (Engine.opening caps header second high') := by
    rw [Engine.reopening, Engine.after_append, Engine.after_cons]
  dsimp only
  refine ⟨(Engine.stores_append ..).2 ⟨hstores, trivial, hstores'⟩, ?_, ?_⟩
  · rw [hafter, mem_finalizedIds_directory hopened, Vault.tier?_congr hlisted]
    exact hreport.tier?_eq
  · rw [hafter]
    exact (mem_finalizedIds_directory hw).2 hreport'.tier?_eq

end Reopening

/-- The session is opened again with an event that is not of high priority. -/
def OneEvent.reopening : List Engine.Action :=
  Engine.reopening {} header (Event.log 0 "x") (Event.log 1 "y") true false 5

theorem OneEvent.listed_reopening {tree : Node} (hempty : Vault.empty.IsHeldIn pass.place tree) :
    let top := pass.place.engine.after tree reopening
    pass.place.engine.Stores header.id tree reopening ∧
      (header.id, .priority) ∈ (pass.place.engine.finalizedIds top).1 ∧
        (header.id, .normal) ∈ (pass.place.engine.finalizedIds
          ((Engine.Action.finalize {} none 9).run pass.place.engine top).2).1 := by
  have hcap : 1 ≤ ({} : Caps).events := by decide
  have hopen : 1 ≤ ({} : Caps).openSessions := by decide
  have hreports : 1 ≤ ({} : Caps).reports := by decide
  exact ReportVault.listed_reopening (Event.log 0 "x") (Event.log 1 "y") true false 5 9 hempty
    isStorable rfl hopen hcap hreports

/-- A session that is opened again loses the priority of its report. -/
theorem priority_is_lost :
    ∃ (tree : Node) (lower : Tier), Vault.empty.IsHeldIn OneEvent.pass.place tree ∧
      OneEvent.pass.place.engine.Stores OneEvent.header.id tree OneEvent.reopening ∧
      let top := OneEvent.pass.place.engine.after tree OneEvent.reopening
      (OneEvent.header.id, .priority) ∈ (OneEvent.pass.place.engine.finalizedIds top).1 ∧
        (OneEvent.header.id, lower) ∈ (OneEvent.pass.place.engine.finalizedIds
          ((Engine.Action.finalize {} none 9).run OneEvent.pass.place.engine top).2).1 ∧
        lower.level < Tier.priority.level := by
  obtain ⟨tree, hempty⟩ : ∃ tree, Vault.empty.IsHeldIn OneEvent.pass.place tree :=
    ⟨_, Vault.IsHeldIn.empty_named OneEvent.isEntryName_data⟩
  obtain ⟨hstored, htier, hlower⟩ := OneEvent.listed_reopening hempty
  exact ⟨tree, .normal, hempty, hstored, htier, hlower, by decide⟩

/-- It was given no event of high priority since. -/
theorem tier_lowered_iff_reopened :
    ∃ tree : Node, Vault.empty.IsHeldIn OneEvent.pass.place tree ∧
      let top := OneEvent.pass.place.engine.after tree OneEvent.reopening
      (OneEvent.header.id, .priority) ∈ (OneEvent.pass.place.engine.finalizedIds top).1 ∧
        OneEvent.pass.place.engine.raised OneEvent.header.id tree false OneEvent.reopening =
          false ∧
        ∃ written contents, .writeReport OneEvent.header.id written contents ∈
          (Engine.finalize ⟨OneEvent.pass.place.store.logged, .json⟩ {} none 9 (top, [])).2.2 := by
  obtain ⟨tree, hempty⟩ : ∃ tree, Vault.empty.IsHeldIn OneEvent.pass.place tree :=
    ⟨_, Vault.IsHeldIn.empty_named OneEvent.isEntryName_data⟩
  obtain ⟨hstored, htier, hlower⟩ := OneEvent.listed_reopening hempty
  obtain ⟨caps, current, time, he, -, hraised, -, hwritten, -⟩ :=
    (tier_lowered_iff hempty OneEvent.reopening hstored htier (.finalize {} none 9)).1
      ⟨.normal, hlower, by decide⟩
  cases he
  exact ⟨tree, hempty, htier, hraised, hwritten⟩

end ReportVault
