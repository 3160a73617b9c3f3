import Mathlib.Algebra.GroupWithZero.Nat
import ReportVault.Proofs.Engine.ReadFailures
import ReportVault.Proofs.Engine.Standing

/-!
# ReportVault.Proofs.Engine.Accounting

What the counts of a pass come to.

A candidate is counted once, whatever becomes of it, and each report that is deleted once more
(`Pass.counted_summary`).  The reports at the end are those before the pass and those that were
written, less the ones that were deleted (`Pass.card_finalized_changes`), as long as no report is
written over another one.
-/

namespace ReportVault

open FileSystem Retention
open Engine (Assembled Summary rankOf)

/-! ## Counts -/

section Count

variable (count : Summary → Nat) (hnone : count {} = 0)
  (hadd : ∀ s t : Summary, count (s.add t) = count s + count t)

include hnone hadd

/-- What is counted in a whole is the sum of what is counted in the parts. -/
theorem Engine.Summary.count_total (ss : List Summary) :
    count (.total ss) = (ss.map count).sum := by
  induction ss with
  | nil => exact hnone
  | cons s ss ih =>
    rw [List.map_cons, List.sum_cons, ← ih]
    exact hadd s (.total ss)

/-- A pass counts its surplus, its losers, the sessions that it assembles and the reports that it
places. -/
theorem Pass.count_summary (p : Pass) (v : Vault) :
    count (p.summary v) = count { overOpenCap := (p.surplus v).length } +
      (count { evicted := (p.losers (v.after (p.settling v))).length } +
        (((p.kept v).map fun id => count (p.assembling v id).2).sum +
          ((p.assembled v).map fun a => count (p.placed (p.verdict v) a)).sum)) := by
  rw [summary, Summary.count_total count hnone hadd]
  simp [Function.comp_def]

end Count

/-- All that is counted. -/
def Engine.Summary.counted (s : Summary) : Nat :=
  s.finalized + s.empty + s.overOpenCap + s.evicted + s.failed

namespace Vault

/-- The open sessions but the current one. -/
def openBut (v : Vault) (current : Option SessionId) : Finset SessionId :=
  v.sessions.keys.filter fun id => some id ≠ current

theorem mem_openBut {v : Vault} {current : Option SessionId} {id : SessionId} :
    id ∈ v.openBut current ↔ id ∈ v.sessions ∧ some id ≠ current := by
  rw [openBut, Finset.mem_filter, Finmap.mem_keys]

end Vault

namespace Pass

variable (p : Pass) (v : Vault)

/-- Assembling a session neither finalizes nor evicts it. -/
theorem counts_assembling (id : SessionId) :
    (p.assembling v id).2.finalized = 0 ∧ (p.assembling v id).2.evicted = 0 := by
  rw [assembling]
  split <;> exact ⟨rfl, rfl⟩

theorem finalized_summary :
    (p.summary v).finalized =
      ((p.assembled v).map fun a => (p.placed (p.verdict v) a).finalized).sum := by
  have hcount := count_summary (·.finalized) rfl (fun _ _ => rfl) p v
  simpa [(counts_assembling p v _).1] using hcount

theorem evicted_summary :
    (p.summary v).evicted = (p.losers (v.after (p.settling v))).length +
      ((p.assembled v).map fun a => (p.placed (p.verdict v) a).evicted).sum := by
  have hcount := count_summary (·.evicted) rfl (fun _ _ => rfl) p v
  simpa [(counts_assembling p v _).2] using hcount

/-- A session is counted when it is assembled, unless a report is made of it. -/
theorem counted_assembling (id : SessionId) :
    (p.assembling v id).2.counted + (p.assembling v id).1.toList.length = 1 := by
  rw [assembling]
  split <;> rfl

/-- A report is counted once when it is placed. -/
theorem counted_placed (verdict : Verdict) (a : Assembled) :
    (p.placed verdict a).counted = 1 := by
  rw [placed]
  split
  · rfl
  · split <;> rfl

/-- Each session that is kept is counted as it is assembled or has its report placed. -/
theorem counted_kept (ids : List SessionId) :
    (ids.map fun id => (p.assembling v id).2.counted).sum +
      (ids.filterMap fun id => (p.assembling v id).1).length = ids.length := by
  induction ids with
  | nil => rfl
  | cons id ids ih =>
    have hone := counted_assembling p v id
    rw [List.map_cons, List.sum_cons, List.length_cons, List.filterMap_cons]
    cases hmade : (p.assembling v id).1 with
    | none =>
      rw [hmade] at hone
      simp only [Option.toList_none, List.length_nil] at hone ⊢
      omega
    | some a =>
      rw [hmade] at hone
      simp only [Option.toList_some, List.length_cons, List.length_nil] at hone ⊢
      omega

/-- A pass counts each candidate once, and once more each report that it deletes. -/
theorem counted_summary :
    (p.summary v).counted =
      (p.candidates v).length + (p.losers (v.after (p.settling v))).length := by
  have hcount := count_summary Summary.counted rfl
    (fun s t => by simp only [Summary.counted, Summary.add]; omega) p v
  have hkept := counted_kept p v (p.kept v)
  have hsplit := congrArg List.length (p.surplus_append_kept (v := v))
  have hplaced : ((p.assembled v).map fun a => (p.placed (p.verdict v) a).counted).sum =
      (p.assembled v).length := by
    simp [counted_placed]
  have hsurplus : Summary.counted { overOpenCap := (p.surplus v).length } =
      (p.surplus v).length := by
    simp [Summary.counted]
  have hlosers : Summary.counted
      { evicted := (p.losers (v.after (p.settling v))).length } =
        (p.losers (v.after (p.settling v))).length := by
    simp [Summary.counted]
  rw [List.length_append] at hsplit
  rw [hplaced, hsurplus, hlosers] at hcount
  rw [assembled] at hcount
  omega

/-- The reports that are written are those that are counted as finalized. -/
theorem length_placements : (p.placements v).length = (p.summary v).finalized := by
  have hplaced : ∀ a, (p.placed (p.verdict v) a).finalized =
      if !(p.verdict v).isEvicted a.id && (p.written a).isOk then 1 else 0 := by
    intro a
    rw [placed]
    cases (p.verdict v).isEvicted a.id <;> cases p.written a <;> rfl
  rw [finalized_summary, placements, ← List.countP_eq_length_filter]
  simp only [hplaced]
  induction p.assembled v with
  | nil => rfl
  | cons a l ih =>
    rw [List.countP_cons, List.map_cons, List.sum_cons, ih, Nat.add_comm]

variable {p v}

/-! ## Sessions and reports -/

theorem length_candidates (hlist : p.fails (α := List SessionId) .openIds = none) :
    (p.candidates v).length = (v.openBut p.current).card := by
  have hnodup : (p.candidates v).Nodup := pairwise_candidates.imp ne_of_lt
  rw [Vault.openBut, ← toFinset_candidates hlist, List.toFinset_card_of_nodup hnodup]

theorem nodup_placements : ((p.placements v).map Assembled.id).Nodup :=
  List.pairwise_map.2 ((pairwise_assembled.filter _).imp ne_of_lt)

/-- Each report that is written is one more, if none is written over another one. -/
theorem card_standing (hnew : ∀ a, p.Writes v a → a.id ∉ v.finalized) :
    (p.standing v).card = (p.placements v).length + v.finalized.card := by
  have hranks : (v.ranks.filter fun r => ∀ a ∈ p.placements v, a.id ≠ r.id) = v.ranks := by
    refine Finset.filter_true_of_mem fun r hr a ha hid => ?_
    exact hnew a (mem_placements.1 ha) (hid ▸ Vault.id_mem_finalized hr)
  have hinjective : Set.InjOn (fun a : Assembled => rankOf a.id a.tier)
      (p.placements v).toFinset := by
    intro a ha b hb hrank
    exact eq_of_mem_assembled (mem_placements.1 (List.mem_toFinset.1 ha)).1
      (mem_placements.1 (List.mem_toFinset.1 hb)).1 (congrArg Rank.id hrank)
  have hdisjoint : Disjoint
      ((p.placements v).toFinset.image fun a => rankOf a.id a.tier) v.ranks := by
    refine Finset.disjoint_left.2 fun r hr hmem => ?_
    obtain ⟨a, ha, rfl⟩ := Finset.mem_image.1 hr
    exact hnew a (mem_placements.1 (List.mem_toFinset.1 ha)) (Vault.id_mem_finalized hmem)
  rw [standing, hranks, Finset.card_union_of_disjoint hdisjoint,
    Finset.card_image_of_injOn hinjective, Vault.card_ranks,
    List.toFinset_card_of_nodup (nodup_placements.of_map _)]

section Listed

variable (hlist : p.fails (α := List (SessionId × Tier)) .reportIds = none)

include hlist

/-- As many reports are deleted as there are too many. -/
theorem length_losers (v : Vault) :
    (p.losers v).length + (top p.caps.reports v.ranks).card = v.ranks.card := by
  have hnodup : (p.losers v).Nodup := by
    have hids : ((p.finalizedIds v).map Prod.fst).Nodup := by
      rw [Medium.finalizedIds_eq, hlist]
      exact List.pairwise_map.2 (Vault.pairwise_reportIds.imp fun h => (ne_of_lt h).symm)
    rw [losers]
    dsimp only
    split
    · exact List.nodup_nil
    · exact hids.sublist (List.filter_sublist.map Prod.fst)
  have hset : (p.losers v).toFinset =
      (v.ranks \ top p.caps.reports v.ranks).image Rank.id := by
    ext id
    rw [List.mem_toFinset, mem_losers hlist, Finset.mem_image]
    constructor
    · rintro ⟨tier, htier, hout⟩
      exact ⟨rankOf id tier, Finset.mem_sdiff.2 ⟨Vault.mem_ranks.2 ⟨tier, htier, rfl⟩, hout⟩, rfl⟩
    · rintro ⟨r, hr, rfl⟩
      obtain ⟨hmem, hout⟩ := Finset.mem_sdiff.1 hr
      obtain ⟨tier, htier, hrank⟩ := Vault.mem_ranks.1 hmem
      exact ⟨tier, htier, hrank ▸ hout⟩
  have hinjective : Set.InjOn Rank.id (v.ranks \ top p.caps.reports v.ranks : Finset Rank) :=
    fun r hr c hc hid => Vault.eq_of_mem_ranks (Finset.mem_sdiff.1 hc).1 (Finset.mem_sdiff.1 hr).1
      hid
  rw [← List.toFinset_card_of_nodup hnodup, hset, Finset.card_image_of_injOn hinjective,
    Finset.card_sdiff_add_card_eq_card top_subset]

variable (hdelete : ∀ id, p.fails (.deleteReport id) = none)

include hdelete

/-- The reports after a pass: those before it and those that were written, less the deleted ones. -/
theorem card_finalized_changes (hnew : ∀ a, p.Writes v a → a.id ∉ v.finalized) :
    (v.after (p.changes v)).finalized.card + (p.losers (v.after (p.settling v))).length =
      (p.placements v).length + v.finalized.card := by
  have hlosers := length_losers hlist (v.after (p.settling v))
  rw [ranks_settling, card_standing hnew] at hlosers
  rw [← Vault.card_ranks, ranks_changes hlist hdelete]
  omega

end Listed

/-! ## Without failures -/

variable {place : Location} {caps : Caps} {current : Option SessionId} {time : Int64}
  {id : SessionId}

section Apart

variable (hapart : ∀ id ∈ v.openBut current, id ∉ v.finalized)

include hapart

theorem not_mem_finalized_of_mem_assembled {a : Assembled}
    (ha : a ∈ (plain place caps current time).assembled v) : a.id ∉ v.finalized :=
  hapart a.id (Vault.mem_openBut.2 (open_of_mem_assembled ha))

/-- The sessions that were open and are finalized after a pass are those whose reports it wrote. -/
theorem mem_finalized_changes_iff_writes (hid : id ∈ v.openBut current) :
    id ∈ (v.after ((plain place caps current time).changes v)).finalized ↔
      ∃ a, (plain place caps current time).Writes v a ∧ a.id = id := by
  have hone : ∀ a ∈ (plain place caps current time).assembled v, ∀ tier,
      v.tier? a.id = some tier → rankOf a.id tier = rankOf a.id a.tier := by
    intro a ha tier htier
    exact absurd (Vault.mem_finalized_of_tier? htier)
      (not_mem_finalized_of_mem_assembled hapart ha)
  constructor
  · intro hmem
    by_contra hnone
    have htier : (v.after ((plain place caps current time).changes v)).tier? id = v.tier? id := by
      rw [Vault.tier?_congr (lookup_changes_plain hmem), tier?_settling_of_not_writes]
      exact fun a ha hwrites => hnone ⟨a, hwrites, ha⟩
    rw [← Vault.tier?_isSome, htier, Vault.tier?_isSome] at hmem
    exact hapart id hid hmem
  · rintro ⟨a, hwrites, rfl⟩
    exact (mem_finalized_plain hone).2 ⟨_, (writes_plain_iff hone hwrites.1).1 hwrites, rfl⟩

/-- A pass counts these sessions as finalized. -/
theorem finalized_summary_plain :
    ((plain place caps current time).summary v).finalized =
      ((v.openBut current).filter
        (· ∈ (v.after ((plain place caps current time).changes v)).finalized)).card := by
  have hset : (v.openBut current).filter
      (· ∈ (v.after ((plain place caps current time).changes v)).finalized) =
        (((plain place caps current time).placements v).map Assembled.id).toFinset := by
    ext id
    rw [Finset.mem_filter, List.mem_toFinset, List.mem_map]
    simp only [mem_placements]
    constructor
    · rintro ⟨hid, hmem⟩
      exact (mem_finalized_changes_iff_writes hapart hid).1 hmem
    · rintro ⟨a, hwrites, rfl⟩
      have hid := Vault.mem_openBut.2 (open_of_mem_assembled hwrites.1)
      exact ⟨hid, (mem_finalized_changes_iff_writes hapart hid).2 ⟨a, hwrites, rfl⟩⟩
  rw [hset, List.toFinset_card_of_nodup nodup_placements, List.length_map, length_placements]

end Apart

end Pass

/-! ## Directories -/

variable {place : Location} {tree : Node} {v : Vault}

/-- The summary of a pass accounts for everything that disappears.  If no session is both open and
finalized but the current one, and the storage lets read every header, then no session is open
after the pass but the current one; as many sessions and reports are gone as are counted as empty,
over the cap, failed and evicted; and the sessions that are counted as finalized are those that
were open and have a report.

Reading a header that is a directory is the only call of such a pass that could fail and leave a
session open. -/
theorem finalize_accounts (hheld : v.IsHeldIn place tree) (caps : Caps)
    (current : Option SessionId) (time : Int64)
    (hapart : ∀ id ∈ v.openBut current, id ∉ v.finalized)
    (hread : ∀ id ∈ v.newest current caps.openSessions, (v.files id).slots ≠ [] →
      v.item? id SessionFile.header ≠ some .directory) :
    let pass := place.engine.finalize caps current time tree
    ∃ w : Vault, w.IsHeldIn place pass.2 ∧ w.openBut current = ∅ ∧
      (v.openBut current).card + v.finalized.card =
        (w.openBut current).card + w.finalized.card +
          (pass.1.empty + pass.1.overOpenCap + pass.1.failed + pass.1.evicted) ∧
      pass.1.finalized = ((v.openBut current).filter (· ∈ w.finalized)).card := by
  intro pass
  let p := Pass.plain place caps current time
  obtain ⟨hanswer, hlast⟩ := Pass.finalize_directory (p := p) hheld
  have hsummary : pass.1 = p.summary v := hanswer
  have hclosed : (v.after (p.changes v)).openBut current = ∅ := by
    refine Finset.eq_empty_of_forall_notMem fun id hid => ?_
    obtain ⟨hopen, hother⟩ := Vault.mem_openBut.1 hid
    exact hother (Pass.closed_plain hheld.isWellFormed hread hopen)
  have hcounted := p.counted_summary v
  have hreports := Pass.card_finalized_changes (p := p) (v := v) rfl (fun _ => rfl)
    fun a hwrites => Pass.not_mem_finalized_of_mem_assembled hapart hwrites.1
  have hcandidates : (p.candidates v).length = (v.openBut current).card :=
    Pass.length_candidates (p := p) rfl
  rw [hcandidates, Summary.counted] at hcounted
  rw [Pass.length_placements] at hreports
  refine ⟨v.after (p.changes v), hlast, hclosed, ?_, ?_⟩
  · rw [hclosed, Finset.card_empty, hsummary]
    omega
  · rw [hsummary]
    exact Pass.finalized_summary_plain hapart

/-- A session that makes a report, one without events and the report of a third one. -/
theorem finalize_accounts_three_sessions :
    ∃ (place : Location) (tree : Node) (v : Vault), v.IsHeldIn place tree ∧
      (v.openBut none).card = 2 ∧ v.finalized.card = 1 ∧
      let pass := place.engine.finalize {} none 0 tree
      ∃ w : Vault, w.IsHeldIn place pass.2 ∧ w.openBut none = ∅ ∧
        3 = w.finalized.card +
          (pass.1.empty + pass.1.overOpenCap + pass.1.failed + pass.1.evicted) ∧
        pass.1.finalized = ((v.openBut none).filter (· ∈ w.finalized)).card := by
  let second : SessionId := ⟨"b"⟩
  let third : SessionId := ⟨"c"⟩
  let v : Vault := (OneEvent.vault.setFile second SessionFile.header (Bytes.ofText "x")).setReport
    third .normal (Bytes.ofText "x")
  have hopened : second.IsStorable := ⟨by decide, by decide⟩
  have hthird : third.IsStorable := ⟨by decide, by decide⟩
  have hopen : v.openBut none = {second, OneEvent.session} := rfl
  have hfinalized : v.finalized = {third} := by decide
  obtain ⟨_, hfirst⟩ := OneEvent.exists_tree
  obtain ⟨_, hsecond⟩ := hfirst.exists_setFile hopened
    (isEntryName_sessionFile SessionFile.header (by decide)) (by decide) (Bytes.ofText "x")
  obtain ⟨tree, hheld⟩ : ∃ tree, v.IsHeldIn OneEvent.pass.place tree :=
    hsecond.exists_setReport hthird .normal (Bytes.ofText "x")
  have hapart : ∀ id ∈ v.openBut none, id ∉ v.finalized := by
    rw [hopen, hfinalized]
    decide
  have hread : ∀ id ∈ v.openBut none, v.item? id SessionFile.header ≠ some .directory := by
    rw [hopen]
    decide
  obtain ⟨w, hw, hclosed, hcount, hmade⟩ :=
    finalize_accounts hheld {} none 0 hapart fun id hid _ => hread id (top_subset hid)
  refine ⟨_, tree, v, hheld, by rw [hopen]; rfl, by rw [hfinalized]; rfl, w, hw, hclosed, ?_, hmade⟩
  rw [hopen, hfinalized, hclosed, Finset.card_empty, Nat.zero_add] at hcount
  exact hcount

end ReportVault
