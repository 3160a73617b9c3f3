import ReportVault.Proofs.Engine.Loading
import ReportVault.Proofs.Engine.ReadFailures

/-!
# ReportVault.Proofs.Engine.Undecodable

Finalized reports that cannot be decoded.

Nothing can be loaded of such a file, but a pass ranks it like any other one.  Without the file the
same is assembled (`Pass.assembled_eraseReport`), and what is ranked is the same but for the rank of
the file (`Pass.contenders_eraseReport`).  `undecodable_report_counts_iff` says from that when the
file takes a place from a report that could be loaded.
-/

namespace ReportVault

open FileSystem Retention
open Engine (Assembled rankOf)

/-! ## A file that is gone -/

/-- What is found first is found as well where something else is missing. -/
theorem find?_eq_of_ne {p q : α → Bool} {l : List α} {x : α} (h : l.find? p ≠ some x)
    (hq : ∀ a, q a = true ↔ p a = true ∧ a ≠ x) : l.find? q = l.find? p := by
  induction l with
  | nil => rfl
  | cons a l ih =>
    cases hp : p a with
    | true =>
      rw [List.find?_cons_of_pos hp] at h ⊢
      exact List.find?_cons_of_pos ((hq a).2 ⟨hp, fun he => h (congrArg some he)⟩)
    | false =>
      have hnot : ¬ q a = true := fun hqa => absurd (hp.symm.trans ((hq a).1 hqa).1) (by simp)
      have hfind : (a :: l).find? p = l.find? p := List.find?_cons_of_neg (by simp [hp])
      rw [hfind] at h ⊢
      rw [List.find?_cons_of_neg hnot]
      exact ih h

namespace Vault

/-- The report of a session is gone from one tier. -/
def eraseReport (v : Vault) (id : SessionId) (tier : Tier) : Vault :=
  { v with reports := Function.update v.reports tier ((v.reports tier).erase id) }

variable {v : Vault} {id other : SessionId} {tier t : Tier}

theorem lookup_eraseReport :
    ((v.eraseReport id tier).reports t).lookup other =
      if t = tier ∧ other = id then none else (v.reports t).lookup other := by
  simp only [eraseReport, Function.update_apply]
  by_cases ht : t = tier
  · subst ht
    rw [if_pos rfl]
    by_cases hid : other = id
    · rw [if_pos ⟨rfl, hid⟩, hid]
      exact Finmap.lookup_erase _ _
    · rw [if_neg fun hboth => hid hboth.2]
      exact Finmap.lookup_erase_ne hid
  · simp [ht]

/-- Another report of the session or one of another session is not touched. -/
theorem lookup_eraseReport_of_ne (h : other ≠ id) :
    ((v.eraseReport id tier).reports t).lookup other = (v.reports t).lookup other := by
  rw [lookup_eraseReport, if_neg fun hboth => h hboth.2]

/-- The report that is read is that of the listed tier. -/
theorem report?_eq_tier? :
    v.report? id = (v.tier? id).bind fun t => ((v.reports t).lookup id).map (t, ·) := by
  rw [report?, tier?]
  induction Tier.all with
  | nil => rfl
  | cons t tiers ih =>
    rw [List.findSome?_cons, List.find?_cons, ih]
    cases hlookup : (v.reports t).lookup id with
    | none =>
      have hmem : id ∉ v.reports t := Finmap.lookup_eq_none.1 hlookup
      simp [hmem]
    | some contents =>
      have hmem : id ∈ v.reports t := Finmap.mem_iff.2 ⟨contents, hlookup⟩
      simp [hmem, hlookup]

/-- A file that is not the one that is listed does not show. -/
theorem tier?_eraseReport_of_ne (h : v.tier? id ≠ some tier) :
    (v.eraseReport id tier).tier? other = v.tier? other := by
  by_cases hid : other = id
  · subst hid
    refine find?_eq_of_ne h fun t => ?_
    rw [decide_eq_true_eq, decide_eq_true_eq, Finmap.mem_iff, Finmap.mem_iff]
    simp only [lookup_eraseReport, and_true]
    by_cases ht : t = tier <;> simp [ht]
  · exact tier?_congr fun t => lookup_eraseReport_of_ne hid

theorem report?_eraseReport_of_ne (h : v.tier? id ≠ some tier) :
    (v.eraseReport id tier).report? other = v.report? other := by
  rw [report?_eq_tier?, report?_eq_tier?, tier?_eraseReport_of_ne h]
  refine Option.bind_congr fun t ht => ?_
  rw [lookup_eraseReport, if_neg]
  rintro ⟨rfl, rfl⟩
  exact h ht

/-- Nothing is recorded for a session whose listed report cannot be decoded. -/
theorem recorded?_eq_none_of_decode? {contents : Bytes} (htier : v.tier? id = some tier)
    (hfile : (v.reports tier).lookup id = some contents) (hbad : Report.decode? contents = none) :
    v.recorded? id = none := by
  rw [recorded?, report?_eq_tier?, htier, Option.bind_some, hfile]
  exact hbad

/-- Without its only report the session has no rank. -/
theorem ranks_eq_insert (htier : v.tier? id = some tier)
    (honly : (v.eraseReport id tier).tier? id = none) :
    v.ranks = insert (rankOf id tier) (v.eraseReport id tier).ranks := by
  ext r
  rw [Finset.mem_insert, mem_ranks, mem_ranks]
  by_cases hid : r.id = id
  · rw [hid, htier, honly]
    simp [eq_comm]
  · have hne : r ≠ rankOf id tier := fun he => hid (he ▸ rfl)
    rw [tier?_congr fun t => lookup_eraseReport_of_ne hid]
    simp [hne]

end Vault

/-! ## A pass without the file -/

namespace Pass

variable {place : Location} {caps : Caps} {current : Option SessionId} {time : Int64} {v : Vault}
  {id : SessionId} {tier : Tier} {r : Report}

section Erased

variable {contents : Bytes} (hv : v.IsWellFormed)
  (hfile : (v.reports tier).lookup id = some contents) (hbad : Report.decode? contents = none)
  (honly : v.tier? id = some tier → (v.eraseReport id tier).tier? id = none)

include hfile hbad honly

theorem recorded?_eraseReport (other : SessionId) :
    (v.eraseReport id tier).recorded? other = v.recorded? other := by
  by_cases htier : v.tier? id = some tier
  · by_cases hid : other = id
    · have hnone : id ∉ (v.eraseReport id tier).finalized := by
        rw [← Vault.tier?_isSome, honly htier]
        simp
      rw [hid, Vault.recorded?_eq_none_of_decode? htier hfile hbad, Vault.recorded?_eq_none hnone]
    · rw [Vault.recorded?, Vault.recorded?,
        Vault.report?_eq_of_lookup fun t => Vault.lookup_eraseReport_of_ne hid]
  · rw [Vault.recorded?, Vault.recorded?, Vault.report?_eraseReport_of_ne htier]

include hv

/-- The same is assembled. -/
theorem assembled_eraseReport :
    (plain place caps current time).assembled (v.eraseReport id tier) =
      (plain place caps current time).assembled v := by
  rw [assembled, assembled]
  refine List.filterMap_congr fun other hother => ?_
  have hout : (plain place caps current time).outcome (v.eraseReport id tier) other =
      (plain place caps current time).outcome v other :=
    outcome_plain_congr (hv.isStorable_open other (open_of_mem_kept hother).1) rfl
      (recorded?_eraseReport hfile hbad honly other)
  rw [assembling, assembling, hout]

theorem contenders_eraseReport :
    (plain place caps current time).contenders v =
      if v.tier? id = some tier then
        insert (rankOf id tier) ((plain place caps current time).contenders (v.eraseReport id tier))
      else (plain place caps current time).contenders (v.eraseReport id tier) := by
  rw [contenders, contenders, assembled_eraseReport hv hfile hbad honly]
  split
  · next htier => rw [Vault.ranks_eq_insert htier (honly htier), Finset.union_insert]
  · next htier =>
    congr 1
    ext r
    rw [Vault.mem_ranks, Vault.mem_ranks, Vault.tier?_eraseReport_of_ne htier]

theorem offers_eraseReport {other : SessionId} :
    (plain place caps current time).Offers (v.eraseReport id tier) other r ↔
      (plain place caps current time).Offers v other r := by
  rw [Offers, Offers, assembled_eraseReport hv hfile hbad honly,
    recorded?_eraseReport hfile hbad honly]

variable (hone : ∀ a ∈ (plain place caps current time).assembled v, ∀ tier,
  v.tier? a.id = some tier → rankOf a.id tier = rankOf a.id a.tier)

include hone

theorem rankOf_eraseReport :
    ∀ a ∈ (plain place caps current time).assembled (v.eraseReport id tier), ∀ t,
      (v.eraseReport id tier).tier? a.id = some t → rankOf a.id t = rankOf a.id a.tier := by
  intro a ha t ht
  rw [assembled_eraseReport hv hfile hbad honly] at ha
  refine hone a ha t ?_
  by_cases htier : v.tier? id = some tier
  · have hid : a.id ≠ id := fun hid => by
      rw [hid, honly htier] at ht
      exact absurd ht (by simp)
    rwa [Vault.tier?_congr fun t => Vault.lookup_eraseReport_of_ne hid] at ht
  · rwa [Vault.tier?_eraseReport_of_ne htier] at ht

/-- If it is the file alone by which the session competes, there is nothing to load of it. -/
theorem not_offers_of_notMem (htier : v.tier? id = some tier)
    (hout : rankOf id tier ∉ (plain place caps current time).contenders (v.eraseReport id tier)) :
    ¬ (plain place caps current time).Offers v id r := by
  rintro (⟨a, ha, rfl, -⟩ | ⟨-, hrecorded, -⟩)
  · rw [hone a ha tier htier] at hout
    refine hout (mem_contenders_of_mem_assembled ?_)
    rwa [assembled_eraseReport hv hfile hbad honly]
  · rw [Vault.recorded?_eq_none_of_decode? htier hfile hbad] at hrecorded
    exact absurd hrecorded (by simp)

variable (hw : (v.eraseReport id tier).IsWellFormed)

include hw

/-- The file takes the last place from a report that could be loaded, or it makes no difference. -/
theorem loadable_changes_eraseReport_iff :
    let p := plain place caps current time
    let w := v.eraseReport id tier
    (v.after (p.changes v)).loadable = (w.after (p.changes w)).loadable ↔
      ¬ ∃ e ∈ p.contenders w, v.tier? id = some tier ∧ rankOf id tier ∉ p.contenders w ∧
        e < rankOf id tier ∧ ((p.contenders w).filter (e < ·)).card + 1 = caps.reports ∧
          ∃ r, p.Offers w e.id r := by
  intro p w
  have honew := rankOf_eraseReport hv hfile hbad honly hone
  have hcontenders : p.contenders v = _ := contenders_eraseReport hv hfile hbad honly
  have hoffers : ∀ {other r}, p.Offers w other r ↔ p.Offers v other r :=
    offers_eraseReport hv hfile hbad honly
  have hloads : ∀ other r, (other, r) ∈ (v.after (p.changes v)).loadable ↔
      (∃ c ∈ top caps.reports (p.contenders v), c.id = other) ∧ p.Offers v other r :=
    fun _ _ => mem_loadable_changes_iff_offers hone hv
  have hloadsw : ∀ other r, (other, r) ∈ (w.after (p.changes w)).loadable ↔
      (∃ c ∈ top caps.reports (p.contenders w), c.id = other) ∧ p.Offers v other r :=
    fun _ _ => (mem_loadable_changes_iff_offers honew hw).trans (and_congr_right fun _ => hoffers)
  rw [Vault.loadable_eq_iff]
  -- The file adds a rank only if it is the one that is listed and no other has the same rank.
  by_cases hin : v.tier? id = some tier ∧ rankOf id tier ∉ p.contenders w
  · obtain ⟨htier, hout⟩ := hin
    rw [if_pos htier] at hcontenders
    constructor
    · rintro hsame ⟨e, he, -, -, hlt, hlast, r, hr⟩
      have htop : e ∈ top caps.reports (p.contenders w) := mem_top.2 ⟨he, by omega⟩
      obtain ⟨⟨c, hc, hid⟩, -⟩ := (hloads e.id r).1 ((hsame (e.id, r)).2 ((hloadsw e.id r).2
        ⟨⟨e, htop, rfl⟩, hoffers.1 hr⟩))
      have heq : c = e := eq_of_mem_contenders hone (hcontenders ▸ Finset.mem_insert_of_mem he)
        (top_subset hc) hid
      rw [heq, hcontenders, mem_top_insert hout he] at hc
      exact hc.2 ⟨hlt, hlast⟩
    · rintro hnone ⟨other, r⟩
      rw [hloads, hloadsw, hcontenders]
      refine and_congr_left fun hr => ⟨?_, ?_⟩
      · rintro ⟨c, hc, rfl⟩
        rcases Finset.mem_insert.1 (top_subset hc) with rfl | hmem
        · exact absurd hr (not_offers_of_notMem hv hfile hbad honly hone htier hout)
        · exact ⟨c, ((mem_top_insert hout hmem).1 hc).1, rfl⟩
      · rintro ⟨c, hc, rfl⟩
        refine ⟨c, (mem_top_insert hout (top_subset hc)).2 ⟨hc, ?_⟩, rfl⟩
        rintro ⟨hlt, hlast⟩
        exact hnone ⟨c, top_subset hc, htier, hout, hlt, hlast, r, hoffers.2 hr⟩
  · have hsame : p.contenders v = p.contenders w := by
      rw [hcontenders]
      split
      · next htier =>
        exact Finset.insert_eq_of_mem (not_not.1 fun hout => hin ⟨htier, hout⟩)
      · rfl
    refine iff_of_true (fun e => ?_) ?_
    · rw [hloads, hloadsw, hsame]
    · rintro ⟨e, -, htier, hout, -⟩
      exact hin ⟨htier, hout⟩

end Erased

end Pass

/-! ## Directories -/

variable {place : Location} {tree : Node} {v : Vault} {id : SessionId} {tier : Tier}

/-- A file that is removed is gone. -/
theorem Vault.IsHeldIn.eraseReport (hheld : v.IsHeldIn place tree) (hid : id.IsStorable)
    (tier : Tier) :
    (v.eraseReport id tier).IsHeldIn place ((place.directory.removeFile
      (Path.ofNames (place.names ++ [tier.directory] ++ [id.name]))).run tree).2 := by
  obtain ⟨after, hrun, hafter⟩ := hheld.run_removeReport hid tier
  rw [hrun]
  exact hafter

/-- How an undecodable report counts.  After a pass those reports can be loaded that were written or
can be decoded, of the sessions that have a place; and the places go by the ranks of all files, also
of those that cannot be decoded.

So the reports that can be loaded are the same without such a file, unless it takes the last place
from one of them: the file is the one that is listed for its session, its rank competes by the file
alone, and it exceeds the last rank that has a place without it.  This is where the file hides no
other report of its session, and no session that is assembled has two ranks. -/
theorem undecodable_report_counts_iff (hheld : v.IsHeldIn place tree) {contents : Bytes}
    (hfile : (v.reports tier).lookup id = some contents) (hbad : Report.decode? contents = none)
    (caps : Caps) (current : Option SessionId) (time : Int64) :
    let p := Pass.plain place caps current time
    let w := v.eraseReport id tier
    let without := ((place.directory.removeFile
      (Path.ofNames (place.names ++ [tier.directory] ++ [id.name]))).run tree).2
    let loaded (top : Node) :=
      (place.engine.loadFinalized (place.engine.finalize caps current time top).2).1
    w.IsHeldIn place without ∧
    (∀ (u : Vault) (top : Node), u.IsHeldIn place top → ∀ other r, (other, r) ∈ loaded top ↔
      (∃ c ∈ Retention.top caps.reports (p.standing u), c.id = other) ∧
        ((∃ a, p.Writes u a ∧ a.id = other ∧ a.report = r) ∨
          (∀ a, p.Writes u a → a.id ≠ other) ∧ u.recorded? other = some r ∧
            r.isComplete = true)) ∧
    ((v.tier? id = some tier → w.tier? id = none) →
      (∀ a ∈ p.assembled v, ∀ t, v.tier? a.id = some t → rankOf a.id t = rankOf a.id a.tier) →
        (loaded tree = loaded without ↔
          ¬ ∃ e ∈ p.contenders w, v.tier? id = some tier ∧ rankOf id tier ∉ p.contenders w ∧
            e < rankOf id tier ∧ ((p.contenders w).filter (e < ·)).card + 1 = caps.reports ∧
              ∃ r, p.Offers w e.id r)) := by
  intro p w without loaded
  have hid : id.IsStorable :=
    hheld.isWellFormed.isStorable_report tier id (Finmap.mem_iff.2 ⟨contents, hfile⟩)
  have hwithout : w.IsHeldIn place without := hheld.eraseReport hid tier
  refine ⟨hwithout, fun u top hu other r => ?_, fun honly hone => ?_⟩
  · have hloaded : loaded top = (u.after (p.changes u)).loadable :=
      loadFinalized_finalize hu caps current time
    rw [hloaded]
    exact Pass.mem_loadable_changes_iff hu.isWellFormed
  · have hloaded : loaded tree = (v.after (p.changes v)).loadable :=
      loadFinalized_finalize hheld caps current time
    have hwloaded : loaded without = (w.after (p.changes w)).loadable :=
      loadFinalized_finalize hwithout caps current time
    rw [hloaded, hwloaded]
    exact Pass.loadable_changes_eraseReport_iff hheld.isWellFormed hfile hbad honly hone
      hwithout.isWellFormed

/-! ## A report that loses its place to a file -/

namespace TwoReports

/-- Two sessions that are finalized. -/
def first : SessionId := ⟨"a"⟩

def second : SessionId := ⟨"b"⟩

/-- The report of the first session. -/
def report : Report := (Report.header "1" ⟨"app", "1", "1.0"⟩ first 0).withEvents [Event.log 0 "x"]

/-- The report of the second session cannot be decoded. -/
def bad : Bytes := Bytes.ofText "x"

def vault : Vault :=
  (Vault.empty.setReport first .normal report.encode).setReport second .normal bad

/-- There is a place for one report. -/
def pass : Pass := .plain (.named "data" OneEvent.isEntryName_data) { reports := 1 } none 0

theorem decode?_bad : Report.decode? bad = none := by decide

theorem isStorable_second : second.IsStorable := ⟨by decide, by decide⟩

theorem exists_tree : ∃ tree, vault.IsHeldIn pass.place tree := by
  have hfirst : first.IsStorable := ⟨by decide, by decide⟩
  obtain ⟨_, hone⟩ := (Vault.IsHeldIn.empty_named OneEvent.isEntryName_data).exists_setReport
    hfirst .normal report.encode
  exact hone.exists_setReport isStorable_second .normal bad

theorem lookup_first (t : Tier) :
    (vault.reports t).lookup first = if t = .normal then some report.encode else none := by
  rw [vault, Vault.lookup_setReport_of_ne (by decide), Vault.lookup_setReport_self]

theorem lookup_second (t : Tier) :
    (vault.reports t).lookup second = if t = .normal then some bad else none := by
  rw [vault, Vault.lookup_setReport_self]

theorem finalized_vault : vault.finalized = {second, first} := rfl

theorem ranks_vault : vault.ranks = {rankOf first .normal, rankOf second .normal} := by
  have hfirst : vault.tier? first = some .normal := Vault.tier?_eq_some lookup_first
  have hsecond : vault.tier? second = some .normal := Vault.tier?_eq_some lookup_second
  ext r
  rw [Vault.mem_ranks, Finset.mem_insert, Finset.mem_singleton]
  constructor
  · rintro ⟨t, ht, he⟩
    have hmem := Vault.mem_finalized_of_tier? ht
    rw [finalized_vault, Finset.mem_insert, Finset.mem_singleton] at hmem
    rcases hmem.symm with hid | hid
    · rw [hid, hfirst, Option.some.injEq] at ht
      exact Or.inl (by rw [← he, ← ht, hid])
    · rw [hid, hsecond, Option.some.injEq] at ht
      exact Or.inr (by rw [← he, ← ht, hid])
  · rintro (rfl | rfl)
    · exact ⟨.normal, hfirst, rfl⟩
    · exact ⟨.normal, hsecond, rfl⟩

/-- No session is open. -/
theorem not_mem_assembled {u : Vault} (hu : u.sessions = ∅) {c : Assembled} :
    c ∉ pass.assembled u := fun hc => by
  have hopen := (Pass.open_of_mem_assembled hc).1
  rw [hu] at hopen
  exact Finmap.notMem_empty hopen

/-- Without the file the first session keeps its report. -/
theorem tier?_erased : (vault.eraseReport second .normal).tier? second = none := by
  rw [← Option.not_isSome_iff_eq_none, Vault.tier?_isSome, Vault.mem_finalized]
  rintro ⟨t, ht⟩
  refine Finmap.lookup_eq_none.1 ?_ ht
  rw [Vault.lookup_eraseReport, lookup_second]
  by_cases hnormal : t = .normal <;> simp [hnormal]

theorem contenders_vault : pass.contenders vault =
    {rankOf first .normal, rankOf second .normal} := by
  have hnone : (pass.assembled vault).toFinset = ∅ :=
    Finset.eq_empty_of_forall_notMem fun c hc => not_mem_assembled rfl (List.mem_toFinset.1 hc)
  rw [Pass.contenders, hnone, Finset.image_empty, Finset.empty_union, ranks_vault]

theorem contenders_erased : pass.contenders (vault.eraseReport second .normal) =
    {rankOf first .normal} := by
  have hnone : (pass.assembled (vault.eraseReport second .normal)).toFinset = ∅ :=
    Finset.eq_empty_of_forall_notMem fun c hc => not_mem_assembled rfl (List.mem_toFinset.1 hc)
  have hranks := Vault.ranks_eq_insert (v := vault) (Vault.tier?_eq_some lookup_second) tier?_erased
  have hout : rankOf second .normal ∉ (vault.eraseReport second .normal).ranks := fun hmem => by
    obtain ⟨t, ht, -⟩ := Vault.mem_ranks.1 hmem
    rw [show (rankOf second .normal).id = second from rfl, tier?_erased] at ht
    exact absurd ht (by simp)
  rw [Pass.contenders, hnone, Finset.image_empty, Finset.empty_union,
    ← Finset.erase_insert hout, ← hranks, ranks_vault]
  decide

theorem offers_first {u : Vault} (hu : u.sessions = ∅) (hfirst : u.recorded? first = some report) :
    pass.Offers u first report :=
  Or.inr ⟨fun _ hc => absurd hc (not_mem_assembled hu), hfirst, by decide⟩

theorem recorded?_first : vault.recorded? first = some report := by
  have hreport : vault.HasReport first .normal report := lookup_first
  exact hreport.recorded?_eq

/-- No session has two ranks, as none is assembled. -/
theorem rankOf_eq : ∀ c ∈ pass.assembled vault, ∀ t, vault.tier? c.id = some t →
    rankOf c.id t = rankOf c.id c.tier :=
  fun _ hc => absurd hc (not_mem_assembled rfl)

/-- The first session loses the last place. -/
theorem exists_last : ∃ e ∈ pass.contenders (vault.eraseReport second .normal),
    vault.tier? second = some .normal ∧
      rankOf second .normal ∉ pass.contenders (vault.eraseReport second .normal) ∧
      e < rankOf second .normal ∧
      ((pass.contenders (vault.eraseReport second .normal)).filter (e < ·)).card + 1 =
        pass.caps.reports ∧
      ∃ r, pass.Offers (vault.eraseReport second .normal) e.id r := by
  have hrecorded := Pass.recorded?_eraseReport (lookup_second .normal) decode?_bad
    (fun _ => tier?_erased) first
  rw [contenders_erased]
  exact ⟨rankOf first .normal, Finset.mem_singleton_self _, Vault.tier?_eq_some lookup_second,
    by decide, by decide, by decide, report,
    offers_first rfl (hrecorded.trans recorded?_first)⟩

/-- The session of the file takes the place, and there is nothing to load of it. -/
theorem loadable_vault (hv : vault.IsWellFormed) :
    (vault.after (pass.changes vault)).loadable = [] := by
  refine List.eq_nil_iff_forall_not_mem.2 ?_
  rintro ⟨other, r⟩ hmem
  obtain ⟨⟨c, hc, rfl⟩, hoffers⟩ := (Pass.mem_loadable_changes_iff_offers rankOf_eq hv).1 hmem
  have htop : top 1 {rankOf first .normal, rankOf second .normal} = {rankOf second .normal} := by
    decide
  have hcontenders : c ∈ top 1 (pass.contenders vault) := hc
  rw [contenders_vault, htop, Finset.mem_singleton] at hcontenders
  rw [hcontenders] at hoffers
  refine Pass.not_offers_of_notMem hv (lookup_second .normal) decode?_bad (fun _ => tier?_erased)
    rankOf_eq (Vault.tier?_eq_some lookup_second) ?_ hoffers
  show rankOf second .normal ∉ pass.contenders (vault.eraseReport second .normal)
  rw [contenders_erased]
  decide

theorem mem_loadable_erased (hw : (vault.eraseReport second .normal).IsWellFormed) :
    (first, report) ∈ ((vault.eraseReport second .normal).after
      (pass.changes (vault.eraseReport second .normal))).loadable := by
  have hrecorded := Pass.recorded?_eraseReport (lookup_second .normal) decode?_bad
    (fun _ => tier?_erased) first
  refine (Pass.mem_loadable_changes_iff_offers
    (fun _ hc => absurd hc (not_mem_assembled (u := vault.eraseReport second .normal) rfl)) hw).2
    ⟨⟨rankOf first .normal, ?_, rfl⟩, offers_first rfl (hrecorded.trans recorded?_first)⟩
  show rankOf first .normal ∈ top 1 (pass.contenders (vault.eraseReport second .normal))
  rw [contenders_erased]
  decide

end TwoReports

/-- There is a place for one report.  A file that cannot be decoded takes it from a report that can
be: nothing can be loaded after the pass, and without the file the report could be. -/
theorem undecodable_report_costs_report : ∃ tree : Node,
    TwoReports.vault.IsHeldIn TwoReports.pass.place tree ∧
    (TwoReports.vault.reports .normal).lookup TwoReports.second = some TwoReports.bad ∧
    Report.decode? TwoReports.bad = none ∧
    let without := ((TwoReports.pass.place.directory.removeFile (Path.ofNames
      (TwoReports.pass.place.names ++ [Tier.normal.directory] ++
        [TwoReports.second.name]))).run tree).2
    let loaded (top : Node) := (TwoReports.pass.place.engine.loadFinalized
      (TwoReports.pass.place.engine.finalize { reports := 1 } none 0 top).2).1
    loaded tree = [] ∧ (TwoReports.first, TwoReports.report) ∈ loaded without := by
  obtain ⟨tree, hheld⟩ := TwoReports.exists_tree
  have hwithout := hheld.eraseReport TwoReports.isStorable_second .normal
  refine ⟨tree, hheld, TwoReports.lookup_second .normal, TwoReports.decode?_bad, ?_, ?_⟩
  · exact (loadFinalized_finalize hheld _ _ _).trans
      (TwoReports.loadable_vault hheld.isWellFormed)
  · dsimp only
    rw [loadFinalized_finalize hwithout]
    exact TwoReports.mem_loadable_erased hwithout.isWellFormed

/-- The same store, seen from the place that the file takes. -/
theorem undecodable_report_counts_iff_one_place : ∃ tree : Node,
    TwoReports.vault.IsHeldIn TwoReports.pass.place tree ∧
    let without := ((TwoReports.pass.place.directory.removeFile (Path.ofNames
      (TwoReports.pass.place.names ++ [Tier.normal.directory] ++
        [TwoReports.second.name]))).run tree).2
    let loaded (top : Node) := (TwoReports.pass.place.engine.loadFinalized
      (TwoReports.pass.place.engine.finalize { reports := 1 } none 0 top).2).1
    loaded tree ≠ loaded without := by
  obtain ⟨tree, hheld⟩ := TwoReports.exists_tree
  obtain ⟨-, -, hiff⟩ := undecodable_report_counts_iff hheld (TwoReports.lookup_second .normal)
    TwoReports.decode?_bad { reports := 1 } none 0
  have hdiffer := (hiff (fun _ => TwoReports.tier?_erased) TwoReports.rankOf_eq).1
  exact ⟨tree, hheld, fun hsame => hdiffer hsame TwoReports.exists_last⟩

end ReportVault
