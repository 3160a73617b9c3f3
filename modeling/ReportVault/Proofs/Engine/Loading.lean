import ReportVault.Proofs.Engine.Standing

/-!
# ReportVault.Proofs.Engine.Loading

What can be loaded, and what of it there is after a pass.

Loading decodes what it reads, and a pass ranks files by their names and tiers.
`mem_loadable_changes_iff` has both: a session has a place by its rank, and there is a report to
load of it if one was written or the one that it had can be decoded.
-/

namespace ReportVault

open FileSystem Retention
open Engine (Assembled rankOf)

namespace Vault

variable {v w : Vault} {id : SessionId} {r : Report}

/-- The reports that can be decoded and are worth an upload, latest session first. -/
def loadable (v : Vault) : List (SessionId × Report) :=
  v.reportIds.filterMap fun (id, _) => ((v.recorded? id).filter Report.isComplete).map (id, ·)

theorem mem_loadable : (id, r) ∈ v.loadable ↔ v.recorded? id = some r ∧ r.isComplete = true := by
  rw [loadable, List.mem_filterMap]
  constructor
  · rintro ⟨⟨other, tier⟩, -, h⟩
    obtain ⟨found, hfound, he⟩ := Option.map_eq_some_iff.1 h
    obtain ⟨rfl, rfl⟩ := Prod.mk.inj he
    exact Option.filter_eq_some_iff.1 hfound
  · rintro ⟨hrecorded, hcomplete⟩
    have hfinalized : id ∈ v.finalized := by
      by_contra hnone
      rw [recorded?_eq_none hnone] at hrecorded
      exact absurd hrecorded (by simp)
    obtain ⟨tier, htier⟩ := Option.isSome_iff_exists.1 (tier?_isSome.2 hfinalized)
    refine ⟨(id, tier), mem_reportIds.2 htier, Option.map_eq_some_iff.2 ⟨r, ?_, rfl⟩⟩
    exact Option.filter_eq_some_iff.2 ⟨hrecorded, hcomplete⟩

theorem pairwise_loadable : v.loadable.Pairwise fun a b => b.1 < a.1 := by
  refine List.Pairwise.filterMap _ (fun a b hab => ?_) pairwise_reportIds
  intro e he f hf
  obtain ⟨_, -, rfl⟩ := Option.map_eq_some_iff.1 he
  obtain ⟨_, -, rfl⟩ := Option.map_eq_some_iff.1 hf
  exact hab

theorem loadable_eq_iff : v.loadable = w.loadable ↔ ∀ e, e ∈ v.loadable ↔ e ∈ w.loadable :=
  ⟨fun h _ => by rw [h], SessionId.eq_of_pairwise_descending pairwise_loadable pairwise_loadable⟩

end Vault

/-- What is loaded from a store that lists and reads reports as the vault says. -/
theorem Engine.run_loadFinalized {σ : Type} {store : Store (StateM σ)} {s : σ} {v : Vault}
    (hlist : (store.perform .reportIds).run s = (.ok v.reportIds, s))
    (hread : ∀ id ∈ v.finalized,
      (store.perform (.readReport id)).run s = (.ok (v.report? id), s)) :
    Engine.loadFinalized ({ store } : Engine (StateM σ)) s = (v.loadable, s) := by
  let e : Engine (StateM σ) := { store }
  have hids : e.finalizedIds s = (v.reportIds, s) :=
    (run_bind (Medium.run_succeeds? (x := e.store.perform .reportIds) hlist) _).trans rfl
  have hload : ∀ entry ∈ v.reportIds, e.loadReport entry.1 s =
      (((v.recorded? entry.1).filter Report.isComplete).map (entry.1, ·), s) := by
    rintro ⟨id, tier⟩ hentry
    have htier := Vault.mem_reportIds.1 hentry
    have hid := hread id (Vault.mem_finalized_of_tier? htier)
    have hrecorded : Medium.decoded? (.ok (v.report? id))
        (fun found : Tier × Bytes => Codec.json.decodeReport found.2) = v.recorded? id := by
      rw [Vault.recorded?]
      cases v.report? id with
      | none => rfl
      | some found => exact Codec.toOption_decodeReport_json found.2
    have hfinalized : e.readFinalized id s = (v.recorded? id, s) :=
      (Medium.run_decoded? (x := e.store.perform (.readReport id)) hid
        (fun found => Codec.json.decodeReport found.2) rfl fun _ => rfl).trans
        (by rw [hrecorded])
    exact (run_bind hfinalized _).trans rfl
  refine (run_bind hids _).trans ?_
  refine (run_bind (run_mapM_of_same hload) _).trans ?_
  refine Prod.ext ?_ rfl
  show ((v.reportIds.map _).filterMap fun r => r).mergeSort _ = _
  rw [List.filterMap_map]
  exact SessionId.mergeSort_descending
    (Vault.pairwise_loadable.imp fun h => (ne_of_lt h).symm) Vault.pairwise_loadable
    fun _ => Iff.rfl

/-- From a directory the reports are loaded that its tiers show. -/
theorem TiersHold.loadFinalized {place : Location} {top : Node} {v : Vault}
    (hheld : TiersHold place v.reports top) : (place.engine.loadFinalized top).1 = v.loadable := by
  have hrun := Engine.run_loadFinalized hheld.perform_reportIds fun id hid => by
    obtain ⟨tier, htier⟩ := Vault.mem_finalized.1 hid
    exact hheld.perform_readReport ((hheld.shows tier).isStorable id htier)
  exact congrArg Prod.fst hrun

/-- From a directory the reports are loaded that the vault says. -/
theorem loadFinalized_directory {place : Location} {top : Node} {v : Vault}
    (hheld : v.IsHeldIn place top) : (place.engine.loadFinalized top).1 = v.loadable :=
  hheld.tiersHold.loadFinalized

/-! ## After a pass -/

namespace Pass

variable {place : Location} {caps : Caps} {current : Option SessionId} {time : Int64} {v : Vault}
  {id : SessionId} {tier : Tier} {r : Report}

/-- A report that is assembled is worth an upload. -/
theorem isComplete_of_mem_assembled (hv : v.IsWellFormed) {a : Assembled}
    (ha : a ∈ (plain place caps current time).assembled v) : a.report.isComplete = true := by
  obtain ⟨-, header, -, hassembled, hcomplete⟩ :=
    (outcome_plain_eq_some_iff (isStorable_of_mem_assembled hv ha)).1 (mem_assembled.1 ha).2
  exact hcomplete

section Finalized

variable (hplace : id ∈ (v.after ((plain place caps current time).changes v)).finalized)

include hplace

/-- A report that was written is recorded, if its session is finalized. -/
theorem recorded?_changes_of_writes {a : Assembled}
    (ha : (plain place caps current time).Writes v a) (hid : a.id = id) :
    (v.after ((plain place caps current time).changes v)).recorded? id = some a.report := by
  subst hid
  have hreport : (v.after ((plain place caps current time).changes v)).HasReport a.id a.tier
      a.report := fun t => (lookup_changes_plain hplace t).trans (lookup_settling_plain ha t)
  exact hreport.recorded?_eq

/-- Of another session the same is recorded as before. -/
theorem recorded?_changes_of_not_writes
    (hnone : ∀ a, (plain place caps current time).Writes v a → a.id ≠ id) :
    (v.after ((plain place caps current time).changes v)).recorded? id = v.recorded? id := by
  rw [Vault.recorded?, Vault.recorded?, Vault.report?_eq_of_lookup fun t =>
    (lookup_changes_plain hplace t).trans
      (lookup_settling_of_not_writes (fun a hid ha => hnone a ha hid) t)]

end Finalized

/-- What can be loaded after a pass.  A session has a place by its rank, for which it does not
matter whether its report can be decoded. -/
theorem mem_loadable_changes_iff (hv : v.IsWellFormed) :
    (id, r) ∈ (v.after ((plain place caps current time).changes v)).loadable ↔
      (∃ c ∈ top caps.reports ((plain place caps current time).standing v), c.id = id) ∧
        ((∃ a, (plain place caps current time).Writes v a ∧ a.id = id ∧ a.report = r) ∨
          (∀ a, (plain place caps current time).Writes v a → a.id ≠ id) ∧
            v.recorded? id = some r ∧ r.isComplete = true) := by
  have hfinal : id ∈ (v.after ((plain place caps current time).changes v)).finalized ↔
      ∃ c ∈ top caps.reports ((plain place caps current time).standing v), c.id = id := by
    rw [← ranks_settling]
    exact mem_finalized_changes (p := plain place caps current time) (fun _ => rfl) rfl
  rw [Vault.mem_loadable, ← hfinal]
  by_cases hplace : id ∈ (v.after ((plain place caps current time).changes v)).finalized
  · rw [and_iff_right hplace]
    by_cases hwrites : ∃ a, (plain place caps current time).Writes v a ∧ a.id = id
    · obtain ⟨a, ha, hid⟩ := hwrites
      rw [recorded?_changes_of_writes hplace ha hid]
      constructor
      · rintro ⟨hr, -⟩
        exact Or.inl ⟨a, ha, hid, Option.some.inj hr⟩
      · rintro (⟨b, hb, hother, rfl⟩ | ⟨hnone, -⟩)
        · obtain rfl := eq_of_mem_assembled hb.1 ha.1 (hother.trans hid.symm)
          exact ⟨rfl, isComplete_of_mem_assembled hv ha.1⟩
        · exact absurd hid (hnone a ha)
    · have hnone : ∀ a, (plain place caps current time).Writes v a → a.id ≠ id :=
        fun a ha hid => hwrites ⟨a, ha, hid⟩
      rw [recorded?_changes_of_not_writes hplace hnone]
      constructor
      · exact fun h => Or.inr ⟨hnone, h⟩
      · rintro (⟨a, ha, hid, -⟩ | ⟨-, h⟩)
        · exact absurd hid (hnone a ha)
        · exact h
  · rw [Vault.recorded?_eq_none hplace]
    simp [hplace]

/-- What there is to load of a session that has a place. -/
def Offers (p : Pass) (v : Vault) (id : SessionId) (r : Report) : Prop :=
  (∃ a ∈ p.assembled v, a.id = id ∧ a.report = r) ∨
    (∀ a ∈ p.assembled v, a.id ≠ id) ∧ v.recorded? id = some r ∧ r.isComplete = true

section OneRank

variable (hone : ∀ a ∈ (plain place caps current time).assembled v, ∀ tier,
  v.tier? a.id = some tier → rankOf a.id tier = rankOf a.id a.tier)

include hone

/-- The same where no session has two ranks. -/
theorem mem_loadable_changes_iff_offers (hv : v.IsWellFormed) :
    (id, r) ∈ (v.after ((plain place caps current time).changes v)).loadable ↔
      (∃ c ∈ top caps.reports ((plain place caps current time).contenders v), c.id = id) ∧
        (plain place caps current time).Offers v id r := by
  rw [mem_loadable_changes_iff hv, ← ranks_settling, top_ranks_settling_plain hone, Offers]
  refine and_congr_right ?_
  rintro ⟨c, hc, rfl⟩
  have hwrites : ∀ a, a.id = c.id → ((plain place caps current time).Writes v a ↔
      a ∈ (plain place caps current time).assembled v) := by
    refine fun a hid => ⟨fun h => h.1, fun ha => (writes_plain_iff hone ha).2 ?_⟩
    rwa [eq_of_mem_contenders hone (top_subset hc) (mem_contenders_of_mem_assembled ha) hid]
  refine or_congr ⟨?_, ?_⟩ (and_congr_left fun _ => ⟨?_, ?_⟩)
  · rintro ⟨a, ha, hid, hr⟩
    exact ⟨a, ha.1, hid, hr⟩
  · rintro ⟨a, ha, hid, hr⟩
    exact ⟨a, (hwrites a hid).2 ha, hid, hr⟩
  · exact fun h a ha hid => h a ((hwrites a hid).2 ha) hid
  · exact fun h a ha hid => h a ha.1 hid

end OneRank

end Pass

variable {place : Location} {tree : Node} {v : Vault}

/-- What can be loaded after a pass over a directory. -/
theorem loadFinalized_finalize (hheld : v.IsHeldIn place tree) (caps : Caps)
    (current : Option SessionId) (time : Int64) :
    (place.engine.loadFinalized (place.engine.finalize caps current time tree).2).1 =
      (v.after ((Pass.plain place caps current time).changes v)).loadable :=
  loadFinalized_directory (Pass.finalize_directory (p := .plain place caps current time) hheld).2

end ReportVault
