import ReportVault.Proofs.Store.Shelves

/-!
# ReportVault.Proofs.Store.Tiers

Listing and reading reports, whatever else a store holds.

`TiersHold` says which reports the directories of the tiers show; the open sessions may be in any
state, and hidden entries may be there.  A listing merges the tiers and a reading takes the first
one that has a report: `TiersHold.perform_reportIds` and `TiersHold.perform_readReport` say that
both go by the same map.
-/

namespace ReportVault

open FileSystem

/-- The tiers of a store show the reports; each one may be missing if it has none. -/
structure TiersHold (place : Location) (reports : Tier → Finmap fun _ : SessionId => Bytes)
    (top : Node) : Prop where
  leadsOn : ∀ tier : Tier, top.leadsOn (place.names ++ [tier.directory]) = true
  shows : ∀ tier : Tier,
    Shows HoldsReport (top.entriesAt (place.names ++ [tier.directory])) (reports tier)

/-- A vault that is held in a directory has its reports in the tiers. -/
theorem Vault.IsHeldIn.tiersHold {v : Vault} {place : Location} {top : Node}
    (h : v.IsHeldIn place top) : TiersHold place v.reports top :=
  ⟨h.leadsOn_tier, fun tier => (h.reports tier).shows⟩

namespace TiersHold

variable {v : Vault} {place : Location} {top : Node} {id : SessionId}

/-! ## Reading -/

/-- The report of a session is read from the first tier that has one. -/
theorem run_readFrom (h : TiersHold place v.reports top) (hid : id.IsStorable) (tiers : List Tier) :
    (place.directory.readFrom id tiers).run top =
      (.ok (tiers.findSome? fun tier => ((v.reports tier).lookup id).map (tier, ·)), top) := by
  induction tiers with
  | nil => rfl
  | cons tier rest ih =>
    have hread := Store.Directory.run_readIfPresent place
      (place.isPlace_entry (isEntryName_tier tier) hid.isEntryName) (h.leadsOn tier)
    rw [Store.Directory.readFrom, run_bind_of_ok (place.run_reportPath hid.isPlain tier top),
      List.findSome?_cons]
    cases hreport : (v.reports tier).lookup id with
    | none =>
      rw [(h.shows tier).lookup_eq_none hid.isVisible hreport] at hread
      rw [run_bind_of_ok hread]
      exact ih
    | some contents =>
      obtain ⟨n, hn, rfl⟩ := (h.shows tier).lookup_eq_some hid.isVisible hreport
      rw [hn] at hread
      rw [run_bind_of_ok hread]
      rfl

theorem perform_readReport (h : TiersHold place v.reports top) (hid : id.IsStorable) :
    (place.store.perform (.readReport id)).run top = (.ok (v.report? id), top) :=
  h.run_readFrom hid Tier.all

/-! ## Listing -/

/-- The reports of a tier in a listing. -/
theorem run_namesOfTier (h : TiersHold place v.reports top) (tier : Tier) :
    ∃ ids : List SessionId, (place.directory.namesOfTier tier).run top =
        (.ok (ids.map (·, tier)), top) ∧ ids.Nodup ∧ ∀ id, id ∈ ids ↔ id ∈ v.reports tier := by
  have hnames := Store.Directory.run_names place (by simp)
    (place.isPlace_shelf (isEntryName_tier tier)) (h.leadsOn tier) .file
  have hkind : ∀ n contents, HoldsReport n contents → n.kind = .file := by
    rintro n contents rfl
    rfl
  obtain ⟨hnodup, hmem⟩ := (h.shows tier).visibleNames_spec hkind
  refine ⟨_, ?_, hnodup, hmem⟩
  rw [← place.tierPath_eq] at hnames
  rw [Store.Directory.namesOfTier, run_bind_of_ok hnames, List.map_map]
  rfl

/-- What is found first in a list of sessions with one tier. -/
theorem find?_map_tier (ids : List SessionId) (tier : Tier) (id : SessionId) :
    (ids.map (·, tier)).find? (fun e => e.1 = id) = if id ∈ ids then some (id, tier) else none := by
  induction ids with
  | nil => rfl
  | cons other rest ih =>
    by_cases he : other = id
    · simp [he]
    · have hne : ¬ id = other := fun h => he h.symm
      simp [he, hne, ih]

theorem perform_reportIds (h : TiersHold place v.reports top) :
    (place.store.perform .reportIds).run top = (.ok v.reportIds, top) := by
  obtain ⟨native, hnative, hnativeNodup, hnativeMem⟩ := h.run_namesOfTier .native
  obtain ⟨priority, hpriority, hpriorityNodup, hpriorityMem⟩ := h.run_namesOfTier .priority
  obtain ⟨normal, hnormal, hnormalNodup, hnormalMem⟩ := h.run_namesOfTier .normal
  have hmem : ∀ e, e ∈ Retention.distinctBy (·.1) (native.map (·, Tier.native) ++
      priority.map (·, Tier.priority) ++ normal.map (·, Tier.normal)) ↔ e ∈ v.reportIds := by
    rintro ⟨id, tier⟩
    rw [Retention.mem_distinctBy, Vault.mem_reportIds, List.find?_append, List.find?_append,
      find?_map_tier, find?_map_tier, find?_map_tier, Vault.tier?, Tier.all]
    simp only [hnativeMem, hpriorityMem, hnormalMem]
    by_cases hn : id ∈ v.reports .native <;> by_cases hp : id ∈ v.reports .priority <;>
      by_cases hm : id ∈ v.reports .normal <;> simp [hn, hp, hm]
  have hsort := SessionId.mergeSort_descending (Retention.pairwise_distinctBy _ _)
    v.pairwise_reportIds hmem
  rw [← hsort]
  show (place.directory.namesOfTier .native >>= _).run top = _
  rw [run_bind_of_ok hnative, run_bind_of_ok hpriority, run_bind_of_ok hnormal]
  rfl

end TiersHold

end ReportVault
