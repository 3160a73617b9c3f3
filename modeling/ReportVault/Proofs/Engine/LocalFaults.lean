import ReportVault.Proofs.Engine.Loading

/-!
# ReportVault.Proofs.Engine.LocalFaults

What is wrong with the reports of one session does not show in those of the others.

Loading lists the sessions of all tiers and reads the report of each from the highest tier that has
one.  `Vault.mem_loadable_iff` says which reports come of it, one session at a time, so that two
stores which differ in one session give the same for all others (`Vault.filter_loadable_eq`).
-/

namespace ReportVault

open FileSystem

namespace Vault

variable {v w : Vault} {id : SessionId} {r : Report}

/-- The report is read from the highest tier that has one. -/
theorem report?_eq_some_iff {tier : Tier} {contents : Bytes} :
    v.report? id = some (tier, contents) ↔ (v.reports tier).lookup id = some contents ∧
      ∀ higher : Tier, tier.level < higher.level → id ∉ v.reports higher := by
  have hmem : ∀ t, id ∉ v.reports t ↔ (v.reports t).lookup id = none := fun t =>
    Finmap.lookup_eq_none.symm
  rw [report?, Tier.all]
  simp only [List.findSome?_cons, List.findSome?_nil, hmem]
  cases tier with
  | native =>
    have hnone : ∀ higher : Tier, ¬ Tier.native.level < higher.level := by
      rintro (_ | _ | _) <;> decide
    cases (v.reports .native).lookup id <;> cases (v.reports .priority).lookup id <;>
      cases (v.reports .normal).lookup id <;> simp [hnone]
  | priority =>
    have habove : ∀ higher : Tier, Tier.priority.level < higher.level ↔ higher = .native := by
      rintro (_ | _ | _) <;> decide
    cases hnative : (v.reports .native).lookup id <;> cases (v.reports .priority).lookup id <;>
      cases (v.reports .normal).lookup id <;> simp [hnative, habove]
  | normal =>
    have habove : ∀ higher : Tier, Tier.normal.level < higher.level ↔
        higher = .native ∨ higher = .priority := by
      rintro (_ | _ | _) <;> decide
    cases hnative : (v.reports .native).lookup id <;>
      cases hpriority : (v.reports .priority).lookup id <;>
        cases (v.reports .normal).lookup id <;> simp [hnative, hpriority, habove]

/-- A report is loaded if the highest one of its session can be decoded and has an event or a native
crash. -/
theorem mem_loadable_iff :
    (id, r) ∈ v.loadable ↔ ∃ tier contents, (v.reports tier).lookup id = some contents ∧
      (∀ higher : Tier, tier.level < higher.level → id ∉ v.reports higher) ∧
        Codec.json.decodeReport contents = .ok r ∧
          (r.events ≠ [] ∨ r.nativePayload.isSome = true) := by
  have hcomplete : r.isComplete = true ↔ r.events ≠ [] ∨ r.nativePayload.isSome = true := by
    simp [Report.isComplete]
  rw [mem_loadable, recorded?, Option.bind_eq_some_iff, hcomplete]
  constructor
  · rintro ⟨⟨⟨tier, contents⟩, hreport, hdecode⟩, hworth⟩
    obtain ⟨hlookup, hhighest⟩ := report?_eq_some_iff.1 hreport
    exact ⟨tier, contents, hlookup, hhighest, Codec.decodeReport_json_eq_ok_iff.2 hdecode, hworth⟩
  · rintro ⟨tier, contents, hlookup, hhighest, hdecode, hworth⟩
    exact ⟨⟨(tier, contents), report?_eq_some_iff.2 ⟨hlookup, hhighest⟩,
      Codec.decodeReport_json_eq_ok_iff.1 hdecode⟩, hworth⟩

/-- Of two vaults with the same reports of all other sessions the same is loaded for these. -/
theorem filter_loadable_eq
    (h : ∀ tier, ∀ other ≠ id, (w.reports tier).lookup other = (v.reports tier).lookup other) :
    w.loadable.filter (·.1 ≠ id) = v.loadable.filter (·.1 ≠ id) := by
  refine SessionId.eq_of_pairwise_descending (pairwise_loadable.filter _)
    (pairwise_loadable.filter _) ?_
  rintro ⟨other, r⟩
  rw [List.mem_filter, List.mem_filter, decide_eq_true_eq]
  refine and_congr_left fun hother => ?_
  rw [mem_loadable, mem_loadable, recorded?, recorded?,
    report?_eq_of_lookup fun tier => h tier other hother]

end Vault

/-! ## Directories -/

/-- Loading is exact and faults stay local.  Whatever the tiers show, the sessions are loaded in
descending order, and those whose highest report can be decoded and has an event or a native crash;
and if the reports of one session are changed in any way, nothing changes for the others. -/
theorem loadFinalized_exact {place : Location} {top : Node}
    {reports : Tier → Finmap fun _ : SessionId => Bytes} (hhold : TiersHold place reports top) :
    let loaded := (place.engine.loadFinalized top).1
    loaded.Pairwise (fun a b => b.1 < a.1) ∧
      (∀ id r, (id, r) ∈ loaded ↔ ∃ tier contents,
        (reports tier).lookup id = some contents ∧
          (∀ higher : Tier, tier.level < higher.level → id ∉ reports higher) ∧
            Codec.json.decodeReport contents = .ok r ∧
              (r.events ≠ [] ∨ r.nativePayload.isSome = true)) ∧
      ∀ (id : SessionId) (changed : Tier → Finmap fun _ : SessionId => Bytes) (top' : Node),
        TiersHold place changed top' →
        (∀ tier, ∀ other ≠ id, (changed tier).lookup other = (reports tier).lookup other) →
        (place.engine.loadFinalized top').1.filter (·.1 ≠ id) = loaded.filter (·.1 ≠ id) := by
  let v : Vault := ⟨∅, reports⟩
  intro loaded
  have hloaded : loaded = v.loadable := TiersHold.loadFinalized (v := v) hhold
  rw [hloaded]
  refine ⟨Vault.pairwise_loadable, fun id r => Vault.mem_loadable_iff,
    fun id changed top' hhold' hothers => ?_⟩
  rw [TiersHold.loadFinalized (v := ⟨∅, changed⟩) hhold']
  exact Vault.filter_loadable_eq hothers

namespace TwoTiers

/-- The session with a bad report above a good one. -/
def first : SessionId := ⟨"a"⟩

/-- The session with a good report. -/
def second : SessionId := ⟨"b"⟩

/-- The good report. -/
def report : Report :=
  (Report.header "1" ⟨"app", "1", "1.0"⟩ second 0).withEvents [Event.log 0 "x"]

/-- Not the text of a report. -/
def bad : Bytes := Bytes.ofText "x"

/-- The store. -/
def place : Location := .named "data" (by constructor <;> decide)

/-- The store with these entries in the native tier; a temporary file was left in the normal one. -/
def top (native : List (String × Node)) : Node :=
  .directory [("data", .directory [("native-reports", .directory native),
    ("reports", .directory (setEntry ".tmp" (.file []) (setEntry second.name (.file report.encode)
      (setEntry first.name (.file report.encode) []))))])]

/-- The reports that are there with these in the native tier. -/
def reports (native : Finmap fun _ : SessionId => Bytes) :
    Tier → Finmap fun _ : SessionId => Bytes
  | .native => native
  | .priority => ∅
  | .normal => (Finmap.insert first report.encode ∅).insert second report.encode

theorem isStorable_first : first.IsStorable := ⟨by decide, by decide⟩

theorem holds {es : List (String × Node)} {native : Finmap fun _ : SessionId => Bytes}
    (h : Shows HoldsReport es native) : TiersHold place (reports native) (top es) where
  leadsOn tier := by cases tier <;> rfl
  shows tier := by
    have hsecond : second.IsStorable := ⟨by decide, by decide⟩
    have hhidden : ¬ IsVisible ".tmp" := by decide
    cases tier with
    | native => exact h
    | priority => exact Shows.nil
    | normal =>
      have hone : Shows HoldsReport (setEntry first.name (.file report.encode) [])
          (Finmap.insert first report.encode ∅) := Shows.nil.setEntry isStorable_first rfl
      have hboth := hone.setEntry hsecond (show HoldsReport (.file report.encode) _ from rfl)
      exact hboth.setHidden hhidden (.file [])

theorem decodeReport_bad (r : Report) : Codec.json.decodeReport bad ≠ .ok r := by
  have hnone : Report.decode? bad = none := by decide
  rw [ne_eq, Codec.decodeReport_json_eq_ok_iff, hnone]
  simp

end TwoTiers

open TwoTiers in
/-- The bad report is there, and then it is deleted. -/
theorem loadFinalized_exact_two_tiers :
    ∃ (place : Location) (top top' : Node) (first second : SessionId) (r : Report),
      (∀ other, (first, other) ∉ (place.engine.loadFinalized top).1) ∧
        (second, r) ∈ (place.engine.loadFinalized top).1 ∧
          (place.engine.loadFinalized top').1.filter (·.1 ≠ first) =
            (place.engine.loadFinalized top).1.filter (·.1 ≠ first) := by
  have hbad : Shows HoldsReport (setEntry first.name (.file bad) []) (Finmap.insert first bad ∅) :=
    Shows.nil.setEntry isStorable_first rfl
  obtain ⟨-, hexact, hlocal⟩ := loadFinalized_exact (holds hbad)
  refine ⟨place, _, top [], first, second, report, fun other hmem => ?_, ?_,
    hlocal first _ _ (holds Shows.nil) ?_⟩
  · obtain ⟨tier, contents, hlookup, hhighest, hdecode, -⟩ := (hexact first other).1 hmem
    cases tier with
    | native =>
      have hfirst : (reports (Finmap.insert first bad ∅) .native).lookup first = some bad :=
        Finmap.lookup_insert _
      obtain rfl : bad = contents := Option.some.inj (hfirst.symm.trans hlookup)
      exact decodeReport_bad other hdecode
    | priority => exact absurd hlookup (by simp [reports])
    | normal => exact hhighest .native (by decide) (Finmap.mem_insert.2 (Or.inl rfl))
  · refine (hexact second report).2 ⟨.normal, report.encode, Finmap.lookup_insert _,
      fun higher hlt => ?_, Codec.decodeReport_json_eq_ok_iff.2 report.decode?_encode,
      Or.inl (by decide)⟩
    cases higher with
    | native => exact fun hmem => absurd hmem (by decide)
    | priority => exact Finmap.notMem_empty
    | normal => exact absurd hlt (by decide)
  · intro tier other hother
    cases tier with
    | native => exact (Finmap.lookup_insert_of_ne _ hother).symm
    | priority => rfl
    | normal => rfl

end ReportVault
