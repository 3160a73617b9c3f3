import ReportVault.Proofs.Engine.Plain

/-!
# ReportVault.Proofs.Engine.Survivors

Which reports there are after a pass in which no call fails.

The pass ranks twice: first the reports that it has assembled together with those that are there,
to see what is worth being written, and then what is in the directories once the winners are
written.  Both choices leave the same sessions, as the first one leaves nothing out that belongs
to the result (`top_eq_of_subset`) and no session has two different ranks.
-/

namespace ReportVault

open FileSystem Retention
open Engine (Assembled rankOf)

namespace Vault

variable {v : Vault} {id : SessionId}

/-- The ranks of the finalized sessions. -/
def ranks (v : Vault) : Finset Rank := (v.reportIds.map fun (id, tier) => rankOf id tier).toFinset

/-- The newest open sessions but the current one. -/
def newest (v : Vault) (current : Option SessionId) (cap : Nat) : Finset SessionId :=
  top cap (v.sessions.keys.filter fun id => some id ≠ current)

/-- As long as there are not too many open sessions, all are among the newest. -/
theorem mem_newest_of_card_le {current : Option SessionId} {cap : Nat}
    (hcard : (v.sessions.keys.filter fun id => some id ≠ current).card ≤ cap) :
    id ∈ v.newest current cap ↔ id ∈ v.sessions ∧ some id ≠ current := by
  rw [newest, top_of_card_le hcard, Finset.mem_filter, Finmap.mem_keys]

/-- The session has a report in the native tier that can be decoded and has a native crash. -/
def HasNativeReport (v : Vault) (id : SessionId) : Prop :=
  ∃ contents r, (v.reports .native).lookup id = some contents ∧
    Report.decode? contents = some r ∧ r.nativePayload.isSome = true

theorem mem_ranks {r : Rank} : r ∈ v.ranks ↔ ∃ tier, v.tier? r.id = some tier ∧ rankOf r.id tier = r := by
  rw [ranks, List.mem_toFinset, List.mem_map]
  constructor
  · rintro ⟨⟨id, tier⟩, he, rfl⟩
    exact ⟨tier, mem_reportIds.1 he, rfl⟩
  · rintro ⟨tier, ht, he⟩
    exact ⟨(r.id, tier), mem_reportIds.2 ht, he⟩

/-- A finalized session has one rank. -/
theorem eq_of_mem_ranks {r c : Rank} (hr : r ∈ v.ranks) (hc : c ∈ v.ranks) (hid : c.id = r.id) :
    c = r := by
  obtain ⟨tier, htier, he⟩ := mem_ranks.1 hr
  obtain ⟨other, hother, hf⟩ := mem_ranks.1 hc
  rw [hid, htier, Option.some.injEq] at hother
  rw [← he, ← hf, hid, hother]

/-- The finalized sessions are those that have a rank. -/
theorem image_id_ranks (v : Vault) : v.ranks.image Rank.id = v.finalized := by
  ext id
  rw [Finset.mem_image, ← tier?_isSome, Option.isSome_iff_exists]
  constructor
  · rintro ⟨r, hr, rfl⟩
    exact (mem_ranks.1 hr).imp fun tier h => h.1
  · rintro ⟨tier, htier⟩
    exact ⟨rankOf id tier, mem_ranks.2 ⟨tier, htier, rfl⟩, rfl⟩

theorem id_mem_finalized {r : Rank} (hr : r ∈ v.ranks) : r.id ∈ v.finalized :=
  v.image_id_ranks ▸ Finset.mem_image_of_mem Rank.id hr

/-- There are as many ranks as finalized sessions. -/
theorem card_ranks (v : Vault) : v.ranks.card = v.finalized.card := by
  rw [← v.image_id_ranks, Finset.card_image_of_injOn]
  exact fun r hr c hc hid => (eq_of_mem_ranks hr hc hid.symm).symm

theorem tier?_congr {w : Vault} (h : ∀ t, (v.reports t).lookup id = (w.reports t).lookup id) :
    v.tier? id = w.tier? id := by
  have hmem : ∀ t, id ∈ v.reports t ↔ id ∈ w.reports t := fun t => by
    rw [Finmap.mem_iff, Finmap.mem_iff, h]
  simp only [tier?, hmem]

/-- A session without a report has none that can be decoded. -/
theorem recorded?_eq_none (h : id ∉ v.finalized) : v.recorded? id = none := by
  have hnone : ∀ t, (v.reports t).lookup id = none := fun t =>
    Finmap.lookup_eq_none.2 fun hmem => h (mem_finalized.2 ⟨t, hmem⟩)
  rw [recorded?, report?, Tier.all]
  simp only [List.findSome?_cons, List.findSome?_nil, hnone, Option.map_none, Option.bind_none]

/-- A report in one tier only. -/
theorem tier?_eq_some {tier : Tier} {contents : Bytes}
    (h : ∀ t, (v.reports t).lookup id = if t = tier then some contents else none) :
    v.tier? id = some tier := by
  have hmem : ∀ t, id ∈ v.reports t ↔ t = tier := by
    intro t
    rw [Finmap.mem_iff, h]
    by_cases he : t = tier <;> simp [he]
  simp only [tier?, hmem]
  cases tier <;> rfl

/-- The report is there, in its tier only. -/
def HasReport (v : Vault) (id : SessionId) (tier : Tier) (r : Report) : Prop :=
  ∀ t, (v.reports t).lookup id = if t = tier then some r.encode else none

namespace HasReport

variable {tier : Tier} {r : Report}

theorem tier?_eq (h : v.HasReport id tier r) : v.tier? id = some tier := tier?_eq_some h

theorem report?_eq (h : v.HasReport id tier r) : v.report? id = some (tier, r.encode) := by
  rw [report?, Tier.all]
  simp only [List.findSome?_cons, List.findSome?_nil, h _]
  cases tier <;> rfl

theorem recorded?_eq (h : v.HasReport id tier r) : v.recorded? id = some r := by
  rw [recorded?, h.report?_eq, Option.bind_some, r.decode?_encode]

end HasReport

theorem HasNativeReport.tier?_eq (h : v.HasNativeReport id) : v.tier? id = some .native := by
  obtain ⟨contents, r, hlookup, -⟩ := h
  have hmem : id ∈ v.reports .native := Finmap.mem_iff.2 ⟨contents, hlookup⟩
  rw [tier?, Tier.all, List.find?_cons_of_pos (by simpa using hmem)]

theorem HasNativeReport.report?_eq (h : v.HasNativeReport id) :
    ∃ contents r, v.report? id = some (.native, contents) ∧
      Report.decode? contents = some r ∧ r.nativePayload.isSome = true := by
  obtain ⟨contents, r, hlookup, hr⟩ := h
  refine ⟨contents, r, ?_, hr⟩
  rw [report?, Tier.all, List.findSome?_cons, hlookup]
  rfl

theorem HasNativeReport.recorded?_eq (h : v.HasNativeReport id) :
    ∃ r, v.recorded? id = some r ∧ r.nativePayload.isSome = true := by
  obtain ⟨contents, r, hreport, hdecode, hpayload⟩ := h.report?_eq
  exact ⟨r, by rw [recorded?, hreport, Option.bind_some, hdecode], hpayload⟩

end Vault

namespace Pass

variable {p : Pass} {v : Vault} {id : SessionId}

/-- If the sessions can be listed, all are candidates but the current one. -/
theorem toFinset_candidates (hlist : p.fails (α := List SessionId) .openIds = none) :
    (p.candidates v).toFinset = v.sessions.keys.filter fun id => some id ≠ p.current := by
  ext id
  rw [candidates, Medium.openIds_eq, hlist, List.mem_toFinset, List.mem_filter,
    Finset.mem_filter, decide_eq_true_eq, Option.isNone_none, if_pos rfl, Finset.mem_sort]

/-- If the sessions can be listed, the newest ones are assembled. -/
theorem mem_kept (hlist : p.fails (α := List SessionId) .openIds = none) :
    id ∈ p.kept v ↔ id ∈ v.newest p.current p.caps.openSessions := by
  rw [Vault.newest, ← toFinset_candidates hlist]
  exact mem_keepNewest pairwise_candidates

/-- If the reports can be listed, those are deleted that do not have one of the greatest ranks. -/
theorem mem_losers (hlist : p.fails (α := List (SessionId × Tier)) .reportIds = none) :
    id ∈ p.losers v ↔ ∃ tier, v.tier? id = some tier ∧ rankOf id tier ∉ top p.caps.reports v.ranks := by
  have hids : p.finalizedIds v = v.reportIds := by rw [Medium.finalizedIds_eq, hlist]; rfl
  have hkept : ∀ e ∈ v.reportIds,
      (selectSurvivors (v.reportIds.map fun (id, tier) => rankOf id tier) p.caps.reports).isKept
        e.1 = true ↔ rankOf e.1 e.2 ∈ top p.caps.reports v.ranks := by
    intro e he
    refine isKept_iff (fun r hr c hc => ?_) (List.mem_map_of_mem he)
    exact Vault.eq_of_mem_ranks (List.mem_toFinset.2 hr) (List.mem_toFinset.2 hc)
  rw [losers, hids]
  dsimp only
  split
  · next hcap =>
    have hcard : v.ranks.card ≤ p.caps.reports :=
      (List.toFinset_card_le _).trans (by rwa [List.length_map])
    rw [top_of_card_le hcard]
    constructor
    · exact fun h => absurd h List.not_mem_nil
    · rintro ⟨tier, htier, hout⟩
      exact absurd (Vault.mem_ranks.2 ⟨tier, htier, rfl⟩) hout
  · simp only [List.mem_map, List.mem_filter, Bool.not_eq_true', Prod.exists, exists_and_right,
      exists_eq_right]
    constructor
    · rintro ⟨⟨tier, hmem⟩, hlost⟩
      refine ⟨tier, Vault.mem_reportIds.1 hmem, fun htop => ?_⟩
      rw [(hkept _ hmem).2 htop] at hlost
      exact absurd hlost (by simp)
    · rintro ⟨tier, htier, hout⟩
      have hmem := Vault.mem_reportIds.2 htier
      exact ⟨⟨tier, hmem⟩, Bool.eq_false_iff.2 fun h => hout ((hkept _ hmem).1 h)⟩

/-! ## Both choices -/

/-- The ranks that compete for a place. -/
def contenders (p : Pass) (v : Vault) : Finset Rank :=
  (p.assembled v).toFinset.image (fun a => rankOf a.id a.tier) ∪ v.ranks

/-- The report is assembled, has a place and can be written. -/
def Writes (p : Pass) (v : Vault) (a : Assembled) : Prop :=
  a ∈ p.assembled v ∧ (p.verdict v).isEvicted a.id = false ∧ ∃ contents, p.written a = .ok contents

/-- The reports that a pass writes. -/
theorem writeReport_mem_changes_iff {tier : Tier} {contents : Bytes} :
    .writeReport id tier contents ∈ p.changes v ↔
      ∃ a, p.Writes v a ∧ a.id = id ∧ a.tier = tier ∧ p.written a = .ok contents := by
  constructor
  · intro h
    cases mem_changes_iff.1 h with
    | settle h =>
      cases h with
      | write ha hplace hwritten => exact ⟨_, ⟨ha, hplace, _, hwritten⟩, rfl, rfl, hwritten⟩
  · rintro ⟨a, ⟨ha, hplace, -⟩, rfl, rfl, hwritten⟩
    exact mem_changes_iff.2 (.settle (.write ha hplace hwritten))

/-- If the reports can be listed, these are the ranks that a pass compares. -/
theorem toFinset_contenders (hlist : p.fails (α := List (SessionId × Tier)) .reportIds = none) :
    ((p.assembled v).map (fun a : Assembled => rankOf a.id a.tier) ++
      (p.finalizedIds v).map fun (id, tier) => rankOf id tier).toFinset = p.contenders v := by
  have hids : p.finalizedIds v = v.reportIds := by rw [Medium.finalizedIds_eq, hlist]; rfl
  ext r
  simp only [hids, contenders, Vault.ranks, List.mem_toFinset, List.mem_append, List.mem_map,
    Finset.mem_union, Finset.mem_image]

theorem mem_contenders_of_mem_assembled {a : Assembled} (ha : a ∈ p.assembled v) :
    rankOf a.id a.tier ∈ p.contenders v :=
  Finset.mem_union_left _ (Finset.mem_image_of_mem (fun a : Assembled => rankOf a.id a.tier)
    (List.mem_toFinset.2 ha))

/-- Who competes is open or finalized. -/
theorem id_of_mem_contenders {r : Rank} (hr : r ∈ p.contenders v) :
    r.id ∈ v.sessions ∨ r.id ∈ v.finalized := by
  rcases Finset.mem_union.1 hr with hr | hr
  · obtain ⟨a, ha, rfl⟩ := Finset.mem_image.1 hr
    exact Or.inl (open_of_mem_assembled (List.mem_toFinset.1 ha)).1
  · exact Or.inr (Vault.id_mem_finalized hr)

theorem tier?_settling_of_writes {a : Assembled} (h : p.Writes v a) :
    (v.after (p.settling v)).tier? a.id = some a.tier := by
  obtain ⟨ha, hplace, contents, hwritten⟩ := h
  exact Vault.tier?_eq_some (lookup_settling ha hplace hwritten)

theorem lookup_settling_of_not_writes (h : ∀ a, a.id = id → ¬ p.Writes v a) (t : Tier) :
    ((v.after (p.settling v)).reports t).lookup id = (v.reports t).lookup id := by
  refine lookup_settling_of_not_written (fun a ha hid => ?_) t
  cases hplace : (p.verdict v).isEvicted id with
  | true => exact Or.inl rfl
  | false =>
    exact Or.inr fun contents hwritten => h a hid ⟨ha, hid ▸ hplace, contents, hwritten⟩

theorem tier?_settling_of_not_writes (h : ∀ a, a.id = id → ¬ p.Writes v a) :
    (v.after (p.settling v)).tier? id = v.tier? id :=
  Vault.tier?_congr (lookup_settling_of_not_writes h)

/-- What is ranked at the end was ranked before. -/
theorem ranks_settling_subset : (v.after (p.settling v)).ranks ⊆ p.contenders v := by
  intro r hr
  obtain ⟨tier, htier, he⟩ := Vault.mem_ranks.1 hr
  by_cases h : ∃ a, a.id = r.id ∧ p.Writes v a
  · obtain ⟨a, hid, hwrites⟩ := h
    rw [← hid, tier?_settling_of_writes hwrites, Option.some.injEq] at htier
    rw [← he, ← hid, ← htier]
    exact mem_contenders_of_mem_assembled hwrites.1
  · rw [tier?_settling_of_not_writes fun a hid hwrites => h ⟨a, hid, hwrites⟩] at htier
    exact Finset.mem_union_right _ (Vault.mem_ranks.2 ⟨tier, htier, he⟩)

section OneRank

variable (hlist : p.fails (α := List (SessionId × Tier)) .reportIds = none)
  (hone : ∀ a ∈ p.assembled v, ∀ tier, v.tier? a.id = some tier →
    rankOf a.id tier = rankOf a.id a.tier)

include hone

/-- No session competes with two ranks. -/
theorem eq_of_mem_contenders {r c : Rank} (hr : r ∈ p.contenders v) (hc : c ∈ p.contenders v)
    (hid : c.id = r.id) : c = r := by
  have hmixed : ∀ a ∈ p.assembled v, ∀ d ∈ v.ranks, d.id = a.id → d = rankOf a.id a.tier := by
    intro a ha d hd hda
    obtain ⟨tier, htier, he⟩ := Vault.mem_ranks.1 hd
    rw [hda] at htier he
    rw [← he, hone a ha tier htier]
  simp only [contenders, Finset.mem_union, Finset.mem_image, List.mem_toFinset] at hr hc
  rcases hr with ⟨a, ha, rfl⟩ | hr
  · rcases hc with ⟨b, hb, rfl⟩ | hc
    · rw [eq_of_mem_assembled hb ha hid]
    · exact hmixed a ha c hc hid
  · rcases hc with ⟨b, hb, rfl⟩ | hc
    · exact (hmixed b hb r hr hid.symm).symm
    · exact Vault.eq_of_mem_ranks hr hc hid

include hlist

theorem isEvicted_verdict {r : Rank} (hr : r ∈ p.contenders v) :
    (p.verdict v).isEvicted r.id = true ↔ r ∉ top p.caps.reports (p.contenders v) := by
  have hset := toFinset_contenders (v := v) hlist
  rw [verdict, ← hset]
  refine isEvicted_iff (fun r hr c hc => ?_) ?_
  · rw [← List.mem_toFinset, hset] at hr hc
    exact eq_of_mem_contenders hone hr hc
  · rwa [← List.mem_toFinset, hset]

/-- Nothing is left out before the second choice that belongs to the result. -/
theorem top_ranks_settling
    (hwritten : ∀ a ∈ p.assembled v, rankOf a.id a.tier ∈ top p.caps.reports (p.contenders v) →
      ∃ contents, p.written a = .ok contents) :
    top p.caps.reports (v.after (p.settling v)).ranks = top p.caps.reports (p.contenders v) := by
  refine top_eq_of_subset ranks_settling_subset fun r hr => ?_
  have hcontends := top_subset hr
  have hwrites : ∀ a ∈ p.assembled v, rankOf a.id a.tier = r → p.Writes v a := by
    rintro a ha rfl
    refine ⟨ha, Bool.eq_false_iff.2 fun hevicted => ?_, hwritten a ha hr⟩
    exact (isEvicted_verdict hlist hone hcontends).1 hevicted hr
  by_cases h : ∃ a, a.id = r.id ∧ p.Writes v a
  · obtain ⟨a, hid, hwrites⟩ := h
    have hrank : rankOf a.id a.tier = r :=
      eq_of_mem_contenders hone hcontends (mem_contenders_of_mem_assembled hwrites.1) hid
    refine Vault.mem_ranks.2 ⟨a.tier, ?_, ?_⟩
    · rw [← hid, tier?_settling_of_writes hwrites]
    · rw [← hid, hrank]
  · have hnot : ∀ a, a.id = r.id → ¬ p.Writes v a := fun a hid hw => h ⟨a, hid, hw⟩
    simp only [contenders, Finset.mem_union, Finset.mem_image, List.mem_toFinset] at hcontends
    rcases hcontends with ⟨a, ha, hrank⟩ | hranks
    · exact absurd (hwrites a ha hrank) (hnot a (hrank ▸ rfl))
    · obtain ⟨tier, htier, he⟩ := Vault.mem_ranks.1 hranks
      exact Vault.mem_ranks.2 ⟨tier, (tier?_settling_of_not_writes hnot).trans htier, he⟩

end OneRank

/-! ## The end of a pass -/

section NoDeletionFails

variable (hdelete : ∀ id, p.fails (.deleteReport id) = none)

include hdelete

theorem lookup_changes (t : Tier) :
    ((v.after (p.changes v)).reports t).lookup id =
      if id ∈ p.losers (v.after (p.settling v)) then none
      else ((v.after (p.settling v)).reports t).lookup id := by
  have hmade : ∀ id, p.made (.deleteReport id) = [.deleteReport id] := fun id => by
    rw [Medium.made, Change.call, hdelete id]
    rfl
  rw [changes, Vault.after_append, ← Vault.lookup_reports_after_deleted]
  simp only [hmade, ← List.map_eq_flatMap]

/-- What is finalized after a pass was not deleted in it. -/
theorem not_mem_losers (hid : id ∈ (v.after (p.changes v)).finalized) :
    id ∉ p.losers (v.after (p.settling v)) := by
  intro hloser
  obtain ⟨tier, hmem⟩ := Vault.mem_finalized.1 hid
  obtain ⟨contents, hcontents⟩ := Finmap.mem_iff.1 hmem
  rw [lookup_changes hdelete, if_pos hloser] at hcontents
  exact absurd hcontents (by simp)

theorem lookup_changes_of_mem (hid : id ∈ (v.after (p.changes v)).finalized) (t : Tier) :
    ((v.after (p.changes v)).reports t).lookup id =
      ((v.after (p.settling v)).reports t).lookup id := by
  rw [lookup_changes hdelete, if_neg (not_mem_losers hdelete hid)]

theorem mem_finalized_changes
    (hlist : p.fails (α := List (SessionId × Tier)) .reportIds = none) :
    id ∈ (v.after (p.changes v)).finalized ↔
      ∃ r ∈ top p.caps.reports (v.after (p.settling v)).ranks, r.id = id := by
  constructor
  · intro hid
    obtain ⟨tier, htier⟩ := Option.isSome_iff_exists.1 (Vault.tier?_isSome.2 hid)
    rw [Vault.tier?_congr (lookup_changes_of_mem hdelete hid)] at htier
    refine ⟨rankOf id tier, ?_, rfl⟩
    by_contra hout
    exact not_mem_losers hdelete hid ((mem_losers hlist).2 ⟨tier, htier, hout⟩)
  · rintro ⟨r, hr, rfl⟩
    obtain ⟨tier, htier, he⟩ := Vault.mem_ranks.1 (top_subset hr)
    have hstays : r.id ∉ p.losers (v.after (p.settling v)) := by
      intro hloser
      obtain ⟨other, hother, hout⟩ := (mem_losers hlist).1 hloser
      rw [htier, Option.some.injEq] at hother
      rw [← hother, he] at hout
      exact hout hr
    have hlookup : ∀ t, ((v.after (p.changes v)).reports t).lookup r.id =
        ((v.after (p.settling v)).reports t).lookup r.id := fun t => by
      rw [lookup_changes hdelete, if_neg hstays]
    rw [← Vault.tier?_isSome, Vault.tier?_congr hlookup, htier]
    rfl

end NoDeletionFails

/-! ## Without failures -/

variable {place : Location} {caps : Caps} {current : Option SessionId} {time : Int64}

theorem mem_kept_plain :
    id ∈ (plain place caps current time).kept v ↔ id ∈ v.newest current caps.openSessions :=
  mem_kept (p := plain place caps current time) rfl

theorem mem_candidates_plain :
    id ∈ (plain place caps current time).candidates v ↔ id ∈ v.sessions ∧ some id ≠ current := by
  refine ⟨open_of_mem_candidates, fun h => ?_⟩
  rw [candidates, Medium.openIds_eq, List.mem_filter, decide_eq_true_eq]
  exact ⟨(Finset.mem_sort _).2 (Finmap.mem_keys.2 h.1), h.2⟩

/-- What cannot be assembled lies in the data, if the header that is read is not a directory. -/
theorem isStorage_of_outcome_plain (hid : id.IsStorable)
    (hread : (v.files id).slots ≠ [] → v.item? id SessionFile.header ≠ some .directory)
    {failure : Failure}
    (h : (plain place caps current time).outcome v id = .error failure) :
    failure.isStorage = false := by
  rw [outcome, Medium.outcome, show (plain place caps current time).toMedium = .plain place from rfl,
    Medium.answer_slots_plain place hid] at h
  dsimp only at h
  split at h
  · exact absurd h (by simp)
  · next hslots =>
    have hfile := hread (by simpa using hslots)
    rw [Medium.header, Medium.answer_read_plain place hid, Vault.readAnswer] at h
    cases hitem : v.item? id SessionFile.header with
    | none =>
      simp only [hitem, Except.map, Except.error.injEq] at h
      rw [← h]
      rfl
    | some item =>
      cases item with
      | directory => exact absurd hitem hfile
      | file contents =>
        simp only [hitem] at h
        cases hreport : Codec.json.decodeReport contents with
        | error cause =>
          obtain rfl : cause = failure := by
            simpa [Medium.plain, hreport, Except.map] using h
          exact Codec.isStorage_of_decodeReport_json hreport
        | ok r => simp [Medium.plain, hreport, Except.map] at h

/-- A session that was finalized with a native crash stays in the native tier. -/
theorem tier_of_native {a : Assembled} (hid : id.IsStorable) (hnative : v.HasNativeReport id)
    (h : (plain place caps current time).outcome v id = .ok (some a)) : a.tier = .native := by
  obtain ⟨r, hrecorded, hpayload⟩ := hnative.recorded?_eq
  obtain ⟨-, header, -, rfl, -⟩ := (outcome_plain_eq_some_iff hid).1 h
  rw [Files.assembled, Assembled.tier_ofParts, hrecorded, Option.bind_some, if_pos hpayload]

/-- Every session is closed that is not the current one, if its header is not a directory. -/
theorem deleteSession_mem_changes_plain (hv : v.IsWellFormed) (hid : id ∈ v.sessions)
    (hcurrent : some id ≠ current)
    (hread : id ∈ v.newest current caps.openSessions → (v.files id).slots ≠ [] →
      v.item? id SessionFile.header ≠ some .directory) :
    .deleteSession id ∈ (plain place caps current time).changes v := by
  have hcandidate : id ∈ (plain place caps current time).candidates v :=
    mem_candidates_plain.2 ⟨hid, hcurrent⟩
  rw [← surplus_append_kept, List.mem_append] at hcandidate
  refine mem_changes_iff.2 (.settle ?_)
  rcases hcandidate with hsurplus | hkept
  · exact .discard hsurplus rfl
  · have hstorage : ∀ failure, (plain place caps current time).outcome v id = .error failure →
        failure.isStorage = false := fun failure =>
      isStorage_of_outcome_plain (hv.isStorable_open id hid) (hread (mem_kept_plain.1 hkept))
    exact .close hkept rfl hstorage fun a _ _ _ failure hfailure => by simp [written_plain] at hfailure

section OneRank

variable (hone : ∀ a ∈ (plain place caps current time).assembled v, ∀ tier,
  v.tier? a.id = some tier → rankOf a.id tier = rankOf a.id a.tier)

include hone

theorem top_ranks_settling_plain :
    top caps.reports (v.after ((plain place caps current time).settling v)).ranks =
      top caps.reports ((plain place caps current time).contenders v) :=
  top_ranks_settling (p := plain place caps current time) rfl hone
    fun a _ _ => ⟨_, written_plain a⟩

/-- The sessions of the greatest ranks are finalized. -/
theorem mem_finalized_plain :
    id ∈ (v.after ((plain place caps current time).changes v)).finalized ↔
      ∃ r ∈ top caps.reports ((plain place caps current time).contenders v), r.id = id := by
  rw [← top_ranks_settling_plain hone]
  exact mem_finalized_changes (p := plain place caps current time) (fun _ => rfl) rfl

/-- A session of one of the greatest ranks loses nothing at the end. -/
theorem not_mem_losers_plain {r : Rank}
    (hr : r ∈ top caps.reports ((plain place caps current time).contenders v)) :
    r.id ∉ (plain place caps current time).losers
      (v.after ((plain place caps current time).settling v)) :=
  not_mem_losers (fun _ => rfl) ((mem_finalized_plain hone).2 ⟨r, hr, rfl⟩)

/-- An assembled report is written if its rank is among the greatest. -/
theorem writes_plain_iff {a : Assembled} (ha : a ∈ (plain place caps current time).assembled v) :
    (plain place caps current time).Writes v a ↔
      rankOf a.id a.tier ∈ top caps.reports ((plain place caps current time).contenders v) := by
  have hevicted := isEvicted_verdict (p := plain place caps current time) rfl hone
    (mem_contenders_of_mem_assembled ha)
  constructor
  · intro h
    by_contra hout
    have hplace : ((plain place caps current time).verdict v).isEvicted a.id = true :=
      hevicted.2 hout
    rw [h.2.1] at hplace
    exact absurd hplace (by simp)
  · intro htop
    exact ⟨ha, Bool.eq_false_iff.2 fun h => hevicted.1 h htop, _, written_plain a⟩

/-- A session that was assembled and is finalized was written. -/
theorem writes_plain_of_mem {a : Assembled}
    (ha : a ∈ (plain place caps current time).assembled v)
    (hid : a.id ∈ (v.after ((plain place caps current time).changes v)).finalized) :
    (plain place caps current time).Writes v a := by
  obtain ⟨r, hr, hrid⟩ := (mem_finalized_plain hone).1 hid
  have hrank : r = rankOf a.id a.tier :=
    eq_of_mem_contenders hone (mem_contenders_of_mem_assembled ha) (top_subset hr) hrid
  exact (writes_plain_iff hone ha).2 (hrank ▸ hr)

end OneRank

/-- A report that is written is there before any report is deleted. -/
theorem lookup_settling_plain {a : Assembled}
    (h : (plain place caps current time).Writes v a) (t : Tier) :
    ((v.after ((plain place caps current time).settling v)).reports t).lookup a.id =
      if t = a.tier then some a.report.encode else none :=
  lookup_settling h.1 h.2.1 (written_plain a) t

/-- What is finalized after a pass is as it was before reports were deleted. -/
theorem lookup_changes_plain
    (hid : id ∈ (v.after ((plain place caps current time).changes v)).finalized) (t : Tier) :
    ((v.after ((plain place caps current time).changes v)).reports t).lookup id =
      ((v.after ((plain place caps current time).settling v)).reports t).lookup id :=
  lookup_changes_of_mem (p := plain place caps current time) (fun _ => rfl) hid t

end Pass

/-- What is stored in `w` after a pass over `v` that assembled the reports `made`. -/
structure Vault.IsFinalized (v w : Vault) (caps : Caps) (current : Option SessionId)
    (made : Finset Assembled) : Prop where
  /-- No session is open but the current one. -/
  closed : ∀ id ∈ w.sessions, some id = current
  /-- The sessions of the greatest ranks are finalized. -/
  finalized : w.finalized =
    (top caps.reports (made.image (fun a => rankOf a.id a.tier) ∪ v.ranks)).image Rank.id
  /-- One that was assembled has its new report, and in the tier of it only. -/
  of_made : ∀ a ∈ made, a.id ∈ w.finalized → ∀ tier,
    (w.reports tier).lookup a.id = if tier = a.tier then some a.report.encode else none
  /-- Any other one has the report it had. -/
  of_not_made : ∀ id ∈ w.finalized, (∀ a ∈ made, a.id ≠ id) → ∀ tier,
    (w.reports tier).lookup id = (v.reports tier).lookup id

namespace Pass

variable {place : Location} {v : Vault} {caps : Caps} {current : Option SessionId} {time : Int64}

/-- A session that is assembled and was finalized before keeps its rank. -/
theorem rankOf_of_native (hv : v.IsWellFormed)
    (hnative : ∀ id ∈ v.newest current caps.openSessions, id ∈ v.finalized → v.HasNativeReport id)
    {a : Assembled} (ha : a ∈ (plain place caps current time).assembled v) {tier : Tier}
    (htier : v.tier? a.id = some tier) : rankOf a.id tier = rankOf a.id a.tier := by
  obtain ⟨hkept, hout⟩ := mem_assembled.1 ha
  have hfinalized := Vault.mem_finalized_of_tier? htier
  have h := hnative a.id (mem_kept_plain.1 hkept) hfinalized
  have hopen := (open_of_mem_kept hkept).1
  rw [tier_of_native (hv.isStorable_open _ hopen) h hout]
  rw [h.tier?_eq, Option.some.injEq] at htier
  rw [htier]

theorem closed_plain (hv : v.IsWellFormed)
    (hread : ∀ id ∈ v.newest current caps.openSessions, (v.files id).slots ≠ [] →
      v.item? id SessionFile.header ≠ some .directory) {id : SessionId}
    (hid : id ∈ (v.after ((plain place caps current time).changes v)).sessions) :
    some id = current := by
  by_contra hcurrent
  exact not_mem_after_of_deleteSession_mem
    (deleteSession_mem_changes_plain hv (open_of_mem_after hid) hcurrent (hread id)) hid

theorem isFinalized_plain (hv : v.IsWellFormed)
    (hread : ∀ id ∈ v.newest current caps.openSessions,
      v.item? id SessionFile.header ≠ some .directory)
    (hnative : ∀ id ∈ v.newest current caps.openSessions, id ∈ v.finalized →
      v.HasNativeReport id) :
    v.IsFinalized (v.after ((plain place caps current time).changes v)) caps current
      ((plain place caps current time).assembled v).toFinset := by
  have hone : ∀ a ∈ (plain place caps current time).assembled v, ∀ tier,
      v.tier? a.id = some tier → rankOf a.id tier = rankOf a.id a.tier :=
    fun a ha tier => rankOf_of_native hv hnative ha
  refine ⟨fun id hid => closed_plain hv (fun other hother _ => hread other hother) hid, ?_,
    fun a ha hid tier => ?_, fun id hid hnone tier => ?_⟩
  · ext id
    rw [mem_finalized_plain hone, Finset.mem_image]
    rfl
  · rw [lookup_changes_plain hid]
    exact lookup_settling_plain (writes_plain_of_mem hone (List.mem_toFinset.1 ha) hid) tier
  · rw [lookup_changes_plain hid]
    refine lookup_settling_of_not_writes (fun a hid hwrites => ?_) tier
    exact hnone a (List.mem_toFinset.2 hwrites.1) hid

end Pass

/-! ## Directories -/

/-- What an engine assembles for a session from what is stored. -/
def Engine.assembled? (e : Engine (StateM σ)) (s : σ) (id : SessionId) (time : Int64)
    (cap : Nat) : Option Assembled :=
  match ((e.assemble id time cap).run s).1 with
  | .ok found => found
  | .error _ => none

variable {place : Location} {tree : Node} {v : Vault}

/-- From a directory the same is assembled as from the vault that it holds. -/
theorem assembled?_directory (hheld : v.IsHeldIn place tree) {id : SessionId}
    (hid : id ∈ v.sessions) (caps : Caps) (current : Option SessionId) (time : Int64) :
    place.engine.assembled? tree id time caps.events =
      ((Pass.plain place caps current time).assembling v id).1 := by
  have hshort : id.IsShort := (hheld.isWellFormed.isStorable_open id hid).isShort
  obtain ⟨hanswer, -⟩ := Engine.agree_assemble (k := .json) (Store.Agrees.held place)
    (Engine.allowsFiles_isProper hshort) (show Store.Call.IsProper (.readReport id) from hshort)
    time caps.events tree v hheld
  have hrun : (Engine.assemble ⟨Vault.store place, .json⟩ id time caps.events).run v =
      ((Pass.plain place caps current time).outcome v id, v) :=
    Medium.run_assemble (m := (Pass.plain place caps current time).toMedium) time caps.events
  have houtcome : ((place.engine.assemble id time caps.events).run tree).1 =
      (Pass.plain place caps current time).outcome v id :=
    hanswer.trans (congrArg Prod.fst hrun)
  rw [Engine.assembled?, houtcome, Pass.assembling]
  cases (Pass.plain place caps current time).outcome v id with
  | ok found => cases found <;> rfl
  | error failure => rfl

/-- After a pass the sessions of the greatest ranks are finalized, among those that are assembled
and those that were finalized before.  The newest open sessions are assembled, and all open
sessions are closed but the current one.

Reading a header that is a directory is the only call of such a pass that could fail and leave a
session open. -/
theorem finalize_keeps_greatest (hheld : v.IsHeldIn place tree) (caps : Caps)
    (current : Option SessionId) (time : Int64)
    (hread : ∀ id ∈ v.newest current caps.openSessions,
      v.item? id SessionFile.header ≠ some .directory)
    (hnative : ∀ id ∈ v.newest current caps.openSessions, id ∈ v.finalized →
      v.HasNativeReport id) :
    ∃ w : Vault, w.IsHeldIn place (place.engine.finalize caps current time tree).2 ∧
      v.IsFinalized w caps current
        ((v.newest current caps.openSessions).biUnion fun id =>
          (place.engine.assembled? tree id time caps.events).toFinset) := by
  let p := Pass.plain place caps current time
  have hmade : (v.newest current caps.openSessions).biUnion (fun id =>
      (place.engine.assembled? tree id time caps.events).toFinset) =
        (p.assembled v).toFinset := by
    ext a
    rw [Finset.mem_biUnion, List.mem_toFinset, Pass.assembled, List.mem_filterMap]
    constructor
    · rintro ⟨id, hid, ha⟩
      have hkept : id ∈ p.kept v := Pass.mem_kept_plain.2 hid
      have hopen := (Pass.open_of_mem_candidates (Pass.mem_candidates_of_mem_kept hkept)).1
      rw [assembled?_directory hheld hopen caps current, Option.mem_toFinset] at ha
      exact ⟨id, hkept, ha⟩
    · rintro ⟨id, hkept, ha⟩
      have hopen := (Pass.open_of_mem_candidates (Pass.mem_candidates_of_mem_kept hkept)).1
      refine ⟨id, Pass.mem_kept_plain.1 hkept, ?_⟩
      rwa [assembled?_directory hheld hopen caps current, Option.mem_toFinset]
  refine ⟨v.after (p.changes v), (Pass.finalize_directory (p := p) hheld).2, ?_⟩
  rw [hmade]
  exact Pass.isFinalized_plain hheld.isWellFormed hread hnative

/-- A pass over a store with a session that is open and was finalized with a native crash. -/
theorem finalize_keeps_greatest_native :
    ∃ (place : Location) (tree : Node) (v : Vault) (id : SessionId),
      id ∈ v.newest none 8 ∧ v.HasNativeReport id ∧
      ∃ w : Vault, w.IsHeldIn place (place.engine.finalize {} none 0 tree).2 ∧
        v.IsFinalized w {} none ((v.newest none 8).biUnion fun id =>
          (place.engine.assembled? tree id 0 8).toFinset) := by
  let id : SessionId := ⟨"a"⟩
  let header : Report := .header "1" ⟨"app", "1", "1.0"⟩ id 0
  let native : Report := header.withNativePayload { files := [] }
  let v : Vault := ((Vault.empty.setReport id .native native.encode).setFile id SessionFile.header
    header.encode).setFile id (Slot.name 1 false) (Event.log 0 "x").encode
  have hname : IsEntryName "data" := by constructor <;> decide
  have hid : id.IsStorable := ⟨by decide, by decide⟩
  have hheader := isEntryName_sessionFile SessionFile.header (by decide)
  have hevent := Slot.isEntryName_name 1 false
  have hfiles : v.files id = [(SessionFile.header, .file header.encode),
      (Slot.name 1 false, .file (Event.log 0 "x").encode)] := by
    rw [Vault.files_setFile_self, Vault.files_setFile_self]
    rfl
  have hkeys : v.sessions.keys = {id} := rfl
  have hnewest : v.newest none 8 = {id} := by
    rw [Vault.newest, hkeys, Finset.filter_singleton, if_pos (by simp), top_of_card_le (by simp)]
  obtain ⟨_, hreport⟩ :=
    (Vault.IsHeldIn.empty_named hname).exists_setReport hid .native native.encode
  obtain ⟨_, hopen⟩ := hreport.exists_setFile hid hheader (by decide) header.encode
  obtain ⟨tree, hheld⟩ : ∃ tree, v.IsHeldIn (.named "data" hname) tree :=
    hopen.exists_setFile hid hevent (by decide) (Event.log 0 "x").encode
  have hnative : v.HasNativeReport id := by
    refine ⟨native.encode, native, ?_, Report.decode?_encode native, rfl⟩
    exact Vault.lookup_setReport_self .native .native native.encode
  refine ⟨.named "data" hname, tree, v, id, by simp [hnewest], hnative, ?_⟩
  refine finalize_keeps_greatest hheld {} none 0 ?_ ?_
  · intro other hother
    rw [show other = id by simpa [hnewest] using hother, Vault.item?, hfiles]
    decide
  · intro other hother _
    rwa [show other = id by simpa [hnewest] using hother]
end ReportVault
