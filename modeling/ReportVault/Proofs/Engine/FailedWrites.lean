import ReportVault.Proofs.Engine.NativeCrash
import ReportVault.Proofs.Engine.Opening
import ReportVault.Proofs.Engine.Resume
import ReportVault.Proofs.Engine.Standing

/-!
# ReportVault.Proofs.Engine.FailedWrites

Passes in which the reports of some sessions cannot be written.

A session that has a place and cannot be written stays as it is, and a later pass makes of it what
would have been made of it before (`failed_write_retries`).  A session without a place is deleted
whether or not the winners can be written, and then there can be fewer reports above it than there
are places: `evicted_outranked_iff` says when.
-/

namespace ReportVault

open FileSystem Retention
open Engine (Assembled rankOf)

/-! ## Writes that fail -/

/-- How calls fail when the reports of some sessions cannot be written, and nothing else fails. -/
def Store.Call.writeFailure (unwritable : SessionId → Option Failure) :
    Store.Call α → Option Failure
  | .writeReport id _ _ => unwritable id
  | _ => none

namespace Pass

/-- A pass in which the reports of some sessions cannot be written. -/
def blocked (place : Location) (unwritable : SessionId → Option Failure) (caps : Caps)
    (current : Option SessionId) (time : Int64) : Pass where
  place := place
  fails := Store.Call.writeFailure unwritable
  codec := .json
  caps := caps
  current := current
  time := time

variable {place : Location} {unwritable : SessionId → Option Failure} {caps : Caps}
  {current : Option SessionId} {time : Int64} {v : Vault} {id : SessionId}

/-- Up to the writes nothing shows of that. -/
theorem outcome_blocked :
    (blocked place unwritable caps current time).outcome v id =
      (plain place caps current time).outcome v id := rfl

theorem assembled_blocked :
    (blocked place unwritable caps current time).assembled v =
      (plain place caps current time).assembled v := rfl

theorem written_blocked (a : Assembled) :
    (blocked place unwritable caps current time).written a =
      match unwritable a.id with
      | some failure => .error failure
      | none => .ok a.report.encode := rfl

theorem writes_blocked_iff {a : Assembled} :
    (blocked place unwritable caps current time).Writes v a ↔
      (plain place caps current time).Writes v a ∧ unwritable a.id = none := by
  have hplain : ∃ contents, (plain place caps current time).written a = .ok contents :=
    ⟨_, written_plain a⟩
  have hwritten : (∃ contents, (blocked place unwritable caps current time).written a =
      .ok contents) ↔ unwritable a.id = none := by
    rw [written_blocked]
    cases unwritable a.id <;> simp
  simp only [Writes, hwritten, hplain, and_true]
  exact and_assoc.symm

section OneRank

variable (hone : ∀ a ∈ (plain place caps current time).assembled v, ∀ tier,
  v.tier? a.id = some tier → rankOf a.id tier = rankOf a.id a.tier)

include hone

/-- A rank that has a place is not there if its session cannot be written and had no report. -/
theorem not_mem_standing_iff {r : Rank}
    (hr : r ∈ top caps.reports ((blocked place unwritable caps current time).contenders v)) :
    r ∉ (blocked place unwritable caps current time).standing v ↔
      (unwritable r.id).isSome = true ∧ r.id ∉ v.finalized := by
  have hcontends := top_subset hr
  have heq : ∀ {c}, c ∈ (blocked place unwritable caps current time).contenders v → c.id = r.id →
      c = r := fun hc => eq_of_mem_contenders (p := plain place caps current time) hone hcontends hc
  by_cases h : ∃ a, (blocked place unwritable caps current time).Writes v a ∧ a.id = r.id
  · obtain ⟨a, hwrites, hid⟩ := h
    have hrank := heq (mem_contenders_of_mem_assembled hwrites.1) hid
    have hwritable := (writes_blocked_iff.1 hwrites).2
    rw [hid] at hwritable
    simp [mem_standing.2 (Or.inl ⟨a, hwrites, hrank⟩), hwritable]
  · have hnot : ∀ a, (blocked place unwritable caps current time).Writes v a → a.id ≠ r.id :=
      fun a hw hid => h ⟨a, hw, hid⟩
    have hfinalized : r ∈ v.ranks ↔ r.id ∈ v.finalized := by
      rw [← Vault.tier?_isSome, Option.isSome_iff_exists]
      constructor
      · exact fun hranks => (Vault.mem_ranks.1 hranks).imp fun tier h => h.1
      · rintro ⟨tier, htier⟩
        have hranks := Vault.mem_ranks (r := rankOf r.id tier).2 ⟨tier, htier, rfl⟩
        rwa [← heq (Finset.mem_union_right _ hranks) rfl]
    rw [mem_standing_of_not_writes hnot, hfinalized, iff_and_self]
    intro hnone
    -- The rank is that of an assembled report, and only its write keeps that from being there.
    obtain ⟨a, ha, rfl⟩ := Finset.mem_image.1 ((Finset.mem_union.1 hcontends).resolve_right
      fun hranks => hnone (hfinalized.1 hranks))
    rw [Option.isSome_iff_ne_none]
    intro hwritable
    have hplain := (writes_plain_iff hone (List.mem_toFinset.1 ha)).2 hr
    exact hnot a (writes_blocked_iff.2 ⟨hplain, hwritable⟩) rfl

/-- What else is there has the rank that it had. -/
theorem mem_standing_of_notMem_top {r : Rank}
    (hr : r ∉ top caps.reports ((blocked place unwritable caps current time).contenders v)) :
    r ∈ (blocked place unwritable caps current time).standing v ↔ r ∈ v.ranks := by
  rw [mem_standing]
  constructor
  · rintro (⟨a, hwrites, rfl⟩ | ⟨hranks, -⟩)
    · have hplain := (writes_blocked_iff.1 hwrites).1
      exact absurd ((writes_plain_iff hone hplain.1).1 hplain) hr
    · exact hranks
  · intro hranks
    refine Or.inr ⟨hranks, fun a hwrites hid => hr ?_⟩
    have hplain := (writes_blocked_iff.1 hwrites).1
    rw [← eq_of_mem_contenders (p := plain place caps current time) hone
      (Finset.mem_union_right _ hranks) (mem_contenders_of_mem_assembled hplain.1) hid]
    exact (writes_plain_iff hone hplain.1).1 hplain

/-- The same where no session has two ranks: the winners are missing that cannot be written and had
no report, and all other reports that are there had theirs before. -/
theorem le_card_ranks_changes_blocked_iff {a : Assembled}
    (ha : a ∈ (blocked place unwritable caps current time).assembled v)
    (hevicted : ((blocked place unwritable caps current time).verdict v).isEvicted a.id = true) :
    let p := blocked place unwritable caps current time
    caps.reports ≤ ((v.after (p.changes v)).ranks.filter (rankOf a.id a.tier < ·)).card ↔
      ((top caps.reports (p.contenders v)).filter fun r =>
          (unwritable r.id).isSome = true ∧ r.id ∉ v.finalized).card ≤
        (v.ranks.filter fun c =>
          rankOf a.id a.tier < c ∧ c ∉ top caps.reports (p.contenders v)).card := by
  intro p
  have hwinners : p.winners v = top caps.reports (p.contenders v) :=
    congrArg (top caps.reports) (best_eq_self fun r hr c hc =>
      eq_of_mem_contenders (p := plain place caps current time) hone hr hc)
  have hcontends := mem_contenders_of_mem_assembled ha
  have hout : rankOf a.id a.tier ∉ top caps.reports (p.contenders v) :=
    (isEvicted_verdict (p := plain place caps current time) rfl hone hcontends).1 hevicted
  have heq : ∀ {r c}, r ∈ p.contenders v → c ∈ p.contenders v → c.id = r.id → c = r :=
    fun hr hc => eq_of_mem_contenders (p := plain place caps current time) hone hr hc
  have hlacking : ((p.winners v).filter fun r => ∀ c ∈ p.standing v, c.id = r.id →
      c ≤ rankOf a.id a.tier) = (top caps.reports (p.contenders v)).filter fun r =>
        (unwritable r.id).isSome = true ∧ r.id ∉ v.finalized := by
    rw [hwinners]
    refine Finset.filter_congr fun r hr => ?_
    rw [← not_mem_standing_iff hone hr]
    constructor
    · exact fun h hmem => absurd (h r hmem rfl) (not_le.2 (lt_of_mem_top hcontends hout hr))
    · intro hnot c hc hid
      exact absurd (heq (top_subset hr) (standing_subset hc) hid ▸ hc) hnot
  have hspare : ((p.standing v).filter fun c => rankOf a.id a.tier < c ∧
      ∀ r ∈ p.winners v, r.id ≠ c.id) = v.ranks.filter fun c => rankOf a.id a.tier < c ∧
        c ∉ top caps.reports (p.contenders v) := by
    ext c
    rw [hwinners, Finset.mem_filter, Finset.mem_filter]
    constructor
    · rintro ⟨hc, habove, hnone⟩
      have hcout : c ∉ top caps.reports (p.contenders v) := fun hmem => hnone c hmem rfl
      exact ⟨(mem_standing_of_notMem_top hone hcout).1 hc, habove, hcout⟩
    · rintro ⟨hc, habove, hcout⟩
      refine ⟨(mem_standing_of_notMem_top hone hcout).2 hc, habove, fun r hr hid => hcout ?_⟩
      rwa [← heq (Finset.mem_union_right _ hc) (top_subset hr) hid]
  have hiff := le_card_ranks_changes_iff (p := p) rfl (fun _ => rfl) hevicted (rankOf a.id a.tier)
  rwa [hlacking, hspare] at hiff

end OneRank

end Pass

/-! ## Sessions that are not written -/

namespace Pass

variable {p : Pass} {v : Vault} {id : SessionId}

/-- Who is evicted is closed, if that can be done. -/
theorem deleteSession_mem_changes_of_isEvicted {a : Assembled} (ha : a ∈ p.assembled v)
    (hevicted : (p.verdict v).isEvicted a.id = true)
    (hdelete : p.fails (.deleteSession a.id) = none) :
    .deleteSession a.id ∈ p.changes v := by
  obtain ⟨hkept, hout⟩ := mem_assembled.1 ha
  refine mem_changes_iff.2 (.settle (.close hkept hdelete (by simp [hout]) fun b _ _ hplace => ?_))
  exact absurd (hevicted.symm.trans hplace) (by simp)

/-- Who has a place and is not written stays open, if the storage is the reason. -/
theorem deleteSession_not_mem_changes {a : Assembled} (ha : a ∈ p.assembled v)
    (hplace : (p.verdict v).isEvicted a.id = false) {failure : Failure}
    (hwritten : p.written a = .error failure) (hstorage : failure.isStorage = true) :
    .deleteSession a.id ∉ p.changes v := by
  intro hmem
  cases mem_changes_iff.1 hmem with
  | settle h =>
    cases h with
    | discard hid =>
      exact lt_irrefl _ (lt_of_mem_surplus_of_mem_kept hid (mem_assembled.1 ha).1)
    | close _ _ _ hwrite =>
      exact absurd hstorage (by simp [hwrite a ha rfl hplace failure hwritten])

/-- A session with a place that is not written keeps the report it had, if it had the same rank. -/
theorem lookup_changes_of_not_written
    (hlist : p.fails (α := List (SessionId × Tier)) .reportIds = none)
    (hdelete : ∀ id, p.fails (.deleteReport id) = none)
    (hone : ∀ a ∈ p.assembled v, ∀ tier, v.tier? a.id = some tier →
      rankOf a.id tier = rankOf a.id a.tier)
    {a : Assembled} (ha : a ∈ p.assembled v) (hplace : (p.verdict v).isEvicted a.id = false)
    {failure : Failure} (hwritten : p.written a = .error failure) (t : Tier) :
    ((v.after (p.changes v)).reports t).lookup a.id = (v.reports t).lookup a.id := by
  have hnot : ∀ b, b.id = a.id → ¬ p.Writes v b := by
    rintro b hid ⟨hb, -, contents, hcontents⟩
    obtain rfl := eq_of_mem_assembled hb ha hid
    rw [hwritten] at hcontents
    exact absurd hcontents (by simp)
  have hstays : a.id ∉ p.losers (v.after (p.settling v)) := by
    intro hloser
    obtain ⟨tier, htier, hout⟩ := (mem_losers hlist).1 hloser
    have hleft : rankOf a.id tier ∈ (v.after (p.settling v)).ranks :=
      Vault.mem_ranks.2 ⟨tier, htier, rfl⟩
    rw [tier?_settling_of_not_writes hnot] at htier
    rw [hone a ha tier htier] at hout hleft
    have htop : rankOf a.id a.tier ∈ top p.caps.reports (p.contenders v) := by
      by_contra hlost
      have hevicted := (isEvicted_verdict hlist hone (mem_contenders_of_mem_assembled ha)).2 hlost
      exact absurd (hplace.symm.trans hevicted) (by simp)
    exact hout (mem_top_of_subset ranks_settling_subset htop hleft)
  rw [lookup_changes hdelete, if_neg hstays, lookup_settling_of_not_writes hnot]

end Pass

/-! ## Directories -/

variable {place : Location} {tree : Node} {v : Vault}

/-- How far a session that is evicted is outranked, if the reports of some sessions cannot be
written and nothing else fails.  After the pass as many reports are above it as there are places, or
more winners have no report above it than there are other reports above it; and then that is so.
Where no session has two ranks, the winners without a report are those that cannot be written and
had none before. -/
theorem evicted_outranked_iff (hheld : v.IsHeldIn place tree)
    (unwritable : SessionId → Option Failure) (caps : Caps) (current : Option SessionId)
    (time : Int64) :
    let p := Pass.blocked place unwritable caps current time
    let e : Engine (StateM Node) :=
      ⟨place.store.failing (Store.Call.writeFailure unwritable), .json⟩
    ∃ w : Vault, w.IsHeldIn place (e.finalize caps current time tree).2 ∧
      ∀ a ∈ p.assembled v, (p.verdict v).isEvicted a.id = true →
        a.id ∉ w.sessions ∧
        (caps.reports ≤ (w.ranks.filter (rankOf a.id a.tier < ·)).card ↔
          ((p.winners v).filter fun r =>
              ∀ c ∈ p.standing v, c.id = r.id → c ≤ rankOf a.id a.tier).card ≤
            ((p.standing v).filter fun c =>
              rankOf a.id a.tier < c ∧ ∀ r ∈ p.winners v, r.id ≠ c.id).card) ∧
        ((∀ b ∈ p.assembled v, ∀ tier, v.tier? b.id = some tier →
            rankOf b.id tier = rankOf b.id b.tier) →
          (caps.reports ≤ (w.ranks.filter (rankOf a.id a.tier < ·)).card ↔
            ((top caps.reports (p.contenders v)).filter fun r =>
                (unwritable r.id).isSome = true ∧ r.id ∉ v.finalized).card ≤
              (v.ranks.filter fun c => rankOf a.id a.tier < c ∧
                c ∉ top caps.reports (p.contenders v)).card)) := by
  intro p e
  refine ⟨_, (Pass.finalize_directory (p := p) hheld).2, fun a ha hevicted => ⟨?_, ?_, ?_⟩⟩
  · exact Pass.not_mem_after_of_deleteSession_mem
      (Pass.deleteSession_mem_changes_of_isEvicted ha hevicted rfl)
  · exact Pass.le_card_ranks_changes_iff rfl (fun _ => rfl) hevicted _
  · exact fun hone => Pass.le_card_ranks_changes_blocked_iff hone ha hevicted

/-- A write that the storage refuses can be made good later.  A session that has a place and cannot
be written keeps its files and the report that it had; a later pass under the same settings that
writes it writes what would have been assembled for it at that time in the store before the first
pass. -/
theorem failed_write_retries (hheld : v.IsHeldIn place tree)
    (unwritable : SessionId → Option Failure) (caps : Caps) (current : Option SessionId)
    (time later : Int64)
    (hstorage : ∀ id failure, unwritable id = some failure → failure.isStorage = true)
    (hnative : ∀ id ∈ v.newest current caps.openSessions, id ∈ v.finalized →
      v.HasNativeReport id) :
    let p := Pass.blocked place unwritable caps current time
    let next := (Engine.finalize ⟨place.store.failing (Store.Call.writeFailure unwritable), .json⟩
      caps current time tree).2
    ∃ w : Vault, w.IsHeldIn place next ∧
      ∀ a ∈ p.assembled v, (p.verdict v).isEvicted a.id = false →
        (unwritable a.id).isSome = true →
        w.sessions.lookup a.id = v.sessions.lookup a.id ∧
        (∀ t, (w.reports t).lookup a.id = (v.reports t).lookup a.id) ∧
        ∀ tier contents, .writeReport a.id tier contents ∈
            (Engine.finalize ⟨place.store.logged, .json⟩ caps current later (next, [])).2.2 →
          ∃ b, place.engine.assembled? tree a.id later caps.events = some b ∧
            tier = b.tier ∧ contents = b.report.encode := by
  intro p next
  have hv := hheld.isWellFormed
  have hw : (v.after (p.changes v)).IsHeldIn place next :=
    (Pass.finalize_directory (p := p) hheld).2
  have hone : ∀ a ∈ p.assembled v, ∀ tier, v.tier? a.id = some tier →
      rankOf a.id tier = rankOf a.id a.tier := by
    intro a ha tier
    rw [Pass.assembled_blocked] at ha
    exact Pass.rankOf_of_native hv hnative ha
  refine ⟨_, hw, fun a ha hplace hunwritable => ?_⟩
  obtain ⟨failure, hfailure⟩ := Option.isSome_iff_exists.1 hunwritable
  have hwritten : p.written a = .error failure := by
    rw [Pass.written_blocked, hfailure]
  have hfiles : (v.after (p.changes v)).sessions.lookup a.id = v.sessions.lookup a.id := by
    rw [Vault.lookup_after_of_finalizes fun c hc => Pass.finalizes_of_mem_changes hc,
      if_neg (Pass.deleteSession_not_mem_changes ha hplace hwritten (hstorage _ _ hfailure))]
  have hreports : ∀ t, ((v.after (p.changes v)).reports t).lookup a.id =
      (v.reports t).lookup a.id :=
    Pass.lookup_changes_of_not_written rfl (fun _ => rfl) hone ha hplace hwritten
  refine ⟨hfiles, hreports, fun tier contents hmem => ?_⟩
  rw [Pass.log_finalize_plain hw] at hmem
  obtain ⟨b, hwrites, hid, rfl, hcontents⟩ := Pass.writeReport_mem_changes_iff.1 hmem
  have hopen := (Pass.open_of_mem_assembled ha).1
  have hout := (Pass.mem_assembled.1 hwrites.1).2
  rw [hid, Pass.outcome_plain_congr (hv.isStorable_open _ hopen) (Vault.files_eq_of_lookup hfiles)
    (by rw [Vault.recorded?, Vault.recorded?, Vault.report?_eq_of_lookup hreports])] at hout
  refine ⟨b, ?_, rfl, (Except.ok.inj hcontents).symm⟩
  rw [assembled?_directory hheld hopen caps current, Pass.assembling, hout]

/-! ## A session that is written at the second attempt -/

namespace OneEvent

theorem alone_written (other : SessionId)
    (h : other ∈ written.sessions ∨ other ∈ written.finalized) : other = session := by
  have hfinalized : written.finalized = {session} := rfl
  rcases h with hopen | hmem
  · exact alone other (Or.inl hopen)
  · rwa [hfinalized, Finset.mem_singleton] at hmem

theorem nativePayload_written :
    (written.recorded? session).bind (·.nativePayload) = some { files := [] } := by
  rw [hasReport_written.recorded?_eq]
  rfl

/-- What is made of the session. -/
def again (time : Int64) : Assembled :=
  (written.files session).assembled session time 8 header (written.recorded? session)

theorem id_again (time : Int64) : (again time).id = session := by
  rw [again, Files.assembled, Assembled.id_ofParts]

/-- The session can be assembled at any time. -/
theorem outcome_written (time : Int64) :
    (Pass.plain pass.place {} none time).outcome written session = .ok (some (again time)) := by
  refine (Pass.outcome_plain_eq_some_iff isStorable).2 ⟨?_, header, header?_vault, rfl, ?_⟩
  · show (vault.files session).slots ≠ []
    rw [slots_vault]
    simp
  · rw [Report.isComplete, again, Files.assembled, Assembled.nativePayload_ofParts,
      nativePayload_written]
    simp

/-- A pass writes it, if there is nothing else and the session is as it was. -/
theorem writeReport_mem_changes {w : Vault} (time : Int64)
    (hfiles : w.sessions.lookup session = written.sessions.lookup session)
    (hreports : ∀ t, (w.reports t).lookup session = (written.reports t).lookup session)
    (halone : ∀ other, other ∈ w.sessions ∨ other ∈ w.finalized → other = session) :
    .writeReport session (again time).tier (again time).report.encode ∈
      (Pass.plain pass.place {} none time).changes w := by
  have hopen : session ∈ w.sessions := by
    rw [Finmap.mem_iff, hfiles]
    exact Finmap.mem_iff.1 (Finmap.mem_keys.1 (Finset.mem_filter.1 (top_subset mem_newest)).1)
  refine Pass.writeReport_mem_changes_of_alone hopen (by simp) halone (by decide) (by decide) ?_
  rw [Pass.outcome_plain_congr isStorable (Vault.files_eq_of_lookup hfiles)
    (by rw [Vault.recorded?, Vault.recorded?, Vault.report?_eq_of_lookup hreports])]
  exact outcome_written time

end OneEvent

/-- A session that was finalized with a native crash is open and cannot be written.  The next pass
writes it. -/
theorem failed_write_retries_native : ∃ (tree next : Node) (w : Vault) (b : Assembled),
    OneEvent.written.IsHeldIn OneEvent.pass.place tree ∧ w.IsHeldIn OneEvent.pass.place next ∧
    w.sessions.lookup OneEvent.session = OneEvent.written.sessions.lookup OneEvent.session ∧
    (∀ t, (w.reports t).lookup OneEvent.session =
      (OneEvent.written.reports t).lookup OneEvent.session) ∧
    OneEvent.pass.place.engine.assembled? tree OneEvent.session 9 8 = some b ∧
    .writeReport OneEvent.session b.tier b.report.encode ∈
      (Engine.finalize ⟨OneEvent.pass.place.store.logged, .json⟩ {} none 9 (next, [])).2.2 := by
  let unwritable (id : SessionId) : Option Failure :=
    some (.storage .renameTemporary id.name .denied)
  let p := Pass.blocked OneEvent.pass.place unwritable {} none 0
  obtain ⟨_, hopen⟩ := OneEvent.exists_tree
  obtain ⟨tree, hheld⟩ : ∃ tree, OneEvent.written.IsHeldIn OneEvent.pass.place tree :=
    hopen.exists_setReport OneEvent.isStorable .native OneEvent.crashed.encode
  obtain ⟨w, hw, hretry⟩ := failed_write_retries hheld unwritable {} none 0 9
    (fun id failure h => Option.some.inj h ▸ rfl) fun id _ hmem => by
      rw [OneEvent.alone_written id (Or.inr hmem)]
      exact ⟨_, _, OneEvent.hasReport_written .native, OneEvent.crashed.decode?_encode, rfl⟩
  have hmade : OneEvent.again 0 ∈ p.assembled OneEvent.written := by
    refine Pass.mem_assembled.2 ?_
    rw [OneEvent.id_again]
    exact ⟨(Pass.mem_kept rfl).2 OneEvent.mem_newest, OneEvent.outcome_written 0⟩
  have hplace : (p.verdict OneEvent.written).isEvicted (OneEvent.again 0).id = false :=
    Bool.eq_false_iff.2 fun h => Pass.not_evicts_of_alone (p := p) rfl OneEvent.alone_written
      (by decide) (Or.inl (OneEvent.id_again 0 ▸ h))
  obtain ⟨hfiles, hreports, hagain⟩ := hretry (OneEvent.again 0) hmade hplace rfl
  rw [OneEvent.id_again] at hfiles hreports
  have halone : ∀ other, other ∈ w.sessions ∨ other ∈ w.finalized → other = OneEvent.session := by
    rw [hw.unique (Pass.finalize_directory (p := p) hheld).2]
    exact fun other h => OneEvent.alone_written other
      (Pass.mem_of_mem_changes (p := p) rfl (fun _ => rfl) h)
  have hwrites := OneEvent.writeReport_mem_changes 9 hfiles hreports halone
  rw [← Pass.log_finalize_plain hw] at hwrites
  obtain ⟨b, hb, htier, hcontents⟩ := hagain _ _ (OneEvent.id_again 0 ▸ hwrites)
  rw [OneEvent.id_again] at hb
  exact ⟨tree, _, w, b, hheld, hw, hfiles, hreports, hb, htier ▸ hcontents ▸ hwrites⟩

/-! ## A winner that cannot be written -/

namespace TwoSessions

/-- The headers of two sessions. -/
def first : Report := .header "1" ⟨"app", "1", "1.0"⟩ ⟨"a"⟩ 0

def second : Report := .header "1" ⟨"app", "1", "1.0"⟩ ⟨"b"⟩ 0

/-- The first session is open with one event, and nothing else is stored. -/
def opened : Vault := Vault.empty.opened first (Event.log 0 "x") false

/-- Both sessions are open with one event each. -/
def vault : Vault := opened.opened second (Event.log 0 "y") false

/-- The report of the second session cannot be written. -/
def unwritable (id : SessionId) : Option Failure :=
  if id = second.id then some (.storage .renameTemporary id.name .denied) else none

/-- There is a place for one report. -/
def caps : Caps := { reports := 1 }

/-- A pass in which the report of the second session cannot be written. -/
def pass : Pass := .blocked (.named "data" OneEvent.isEntryName_data) unwritable caps none 0

theorem isStorable_first : first.id.IsStorable := ⟨by decide, by decide⟩

theorem isStorable_second : second.id.IsStorable := ⟨by decide, by decide⟩

theorem closed_second : opened.files second.id = [] := by
  rw [opened, files_opened_of_ne (by decide)]
  rfl

theorem exists_tree : ∃ tree, vault.IsHeldIn pass.place tree := by
  have hclosed : Vault.empty.files first.id = [] := rfl
  have hcap : 1 ≤ caps.events := by decide
  obtain ⟨hfirst, -⟩ := (Vault.IsHeldIn.empty_named OneEvent.isEntryName_data).opening
    (Event.log 0 "x") false hclosed isStorable_first hcap
  exact ⟨_, (hfirst.opening (Event.log 0 "y") false closed_second isStorable_second hcap).1⟩

/-- The reports that are made of the sessions. -/
def a : Assembled := Vault.empty.made first (Event.log 0 "x") false 0 8

def b : Assembled := opened.made second (Event.log 0 "y") false 0 8

theorem id_a : a.id = first.id := Engine.Assembled.id_ofParts ..

theorem id_b : b.id = second.id := Engine.Assembled.id_ofParts ..

theorem mem_kept_iff {id : SessionId} : id ∈ pass.kept vault ↔ id = first.id ∨ id = second.id := by
  have hkeys : vault.sessions.keys.filter (fun id => some id ≠ pass.current) =
      {first.id, second.id} := by
    ext id
    simp [vault, opened, mem_opened, Vault.empty, pass, Pass.blocked, Finmap.mem_keys,
      Finmap.notMem_empty, or_comm]
  rw [Pass.mem_kept rfl, Vault.newest, hkeys, top_of_card_le (by decide)]
  simp

theorem outcome_first : pass.outcome vault first.id = .ok (some a) := by
  have hfiles : vault.files first.id = opened.files first.id := files_opened_of_ne (by decide)
  rw [pass, Pass.outcome_blocked, Pass.outcome_plain_congr isStorable_first hfiles rfl]
  exact Pass.outcome_opened rfl isStorable_first (by decide)

theorem outcome_second : pass.outcome vault second.id = .ok (some b) :=
  Pass.outcome_blocked.trans (Pass.outcome_opened closed_second isStorable_second (by decide))

theorem mem_assembled_iff {c : Assembled} : c ∈ pass.assembled vault ↔ c = a ∨ c = b := by
  rw [Pass.mem_assembled, mem_kept_iff]
  constructor
  · rintro ⟨hid | hid, hout⟩
    · rw [hid, outcome_first] at hout
      exact Or.inl (Option.some.inj (Except.ok.inj hout)).symm
    · rw [hid, outcome_second] at hout
      exact Or.inr (Option.some.inj (Except.ok.inj hout)).symm
  · rintro (rfl | rfl)
    · exact ⟨Or.inl id_a, id_a ▸ outcome_first⟩
    · exact ⟨Or.inr id_b, id_b ▸ outcome_second⟩

theorem finalized_vault : vault.finalized = ∅ := rfl

theorem ranks_vault : vault.ranks = ∅ := by
  rw [← Finset.card_eq_zero, Vault.card_ranks, finalized_vault, Finset.card_empty]

/-- No session has two ranks, as none has a report. -/
theorem rankOf_eq : ∀ c ∈ pass.assembled vault, ∀ tier, vault.tier? c.id = some tier →
    rankOf c.id tier = rankOf c.id c.tier := by
  intro c _ tier htier
  have hmem := Vault.mem_finalized_of_tier? htier
  rw [finalized_vault] at hmem
  exact absurd hmem (Finset.notMem_empty _)

theorem contenders_vault : pass.contenders vault =
    {rankOf first.id .normal, rankOf second.id .normal} := by
  have ha : rankOf a.id a.tier = rankOf first.id .normal := by
    rw [id_a, a, tier_made rfl rfl]
    rfl
  have hb : rankOf b.id b.tier = rankOf second.id .normal := by
    rw [id_b, b, tier_made closed_second rfl]
    rfl
  have hassembled : (pass.assembled vault).toFinset = {a, b} := by
    ext c
    simp [mem_assembled_iff]
  rw [Pass.contenders, hassembled, ranks_vault, Finset.union_empty, Finset.image_insert,
    Finset.image_singleton, ha, hb]

/-- The second session takes the place. -/
theorem isEvicted_first : (pass.verdict vault).isEvicted a.id = true := by
  have ha : a ∈ pass.assembled vault := mem_assembled_iff.2 (Or.inl rfl)
  refine (Pass.isEvicted_verdict rfl rankOf_eq (Pass.mem_contenders_of_mem_assembled ha)).2 ?_
  rw [contenders_vault, id_a, a, tier_made rfl rfl]
  show rankOf first.id .normal ∉
    top 1 {rankOf first.id .normal, rankOf second.id .normal}
  decide

theorem standing_vault : pass.standing vault = ∅ := by
  refine Finset.eq_empty_of_forall_notMem fun r hr => ?_
  rcases Pass.mem_standing.1 hr with ⟨c, ⟨hc, hplace, contents, hwritten⟩, -⟩ | ⟨hr, -⟩
  · rcases mem_assembled_iff.1 hc with rfl | rfl
    · exact absurd (hplace.symm.trans isEvicted_first) (by simp)
    · have hunwritable : unwritable b.id =
          some (.storage .renameTemporary second.id.name .denied) := by
        rw [id_b]
        rfl
      have hblocked : pass.written b =
          .error (.storage .renameTemporary second.id.name .denied) := by
        rw [pass, Pass.written_blocked, hunwritable]
      exact absurd (hwritten.symm.trans hblocked) (by simp)
  · exact absurd (ranks_vault ▸ hr) (Finset.notMem_empty r)

end TwoSessions

/-- There is a place for one report.  The session that does not get it is deleted, the report of the
one that does cannot be written, and there is none in the end. -/
theorem failed_winner_costs_report : ∃ tree : Node,
    TwoSessions.vault.IsHeldIn TwoSessions.pass.place tree ∧
    TwoSessions.a ∈ TwoSessions.pass.assembled TwoSessions.vault ∧
    (TwoSessions.pass.verdict TwoSessions.vault).isEvicted TwoSessions.a.id = true ∧
    ∃ w : Vault, w.IsHeldIn TwoSessions.pass.place (Engine.finalize
        ⟨TwoSessions.pass.place.store.failing
          (Store.Call.writeFailure TwoSessions.unwritable), .json⟩ { reports := 1 } none 0 tree).2 ∧
      TwoSessions.a.id ∉ w.sessions ∧ w.finalized = ∅ ∧
      (w.ranks.filter (rankOf TwoSessions.a.id TwoSessions.a.tier < ·)).card < 1 := by
  obtain ⟨tree, hheld⟩ := TwoSessions.exists_tree
  have ha : TwoSessions.a ∈ TwoSessions.pass.assembled TwoSessions.vault :=
    TwoSessions.mem_assembled_iff.2 (Or.inl rfl)
  have hranks :
      (TwoSessions.vault.after (TwoSessions.pass.changes TwoSessions.vault)).ranks = ∅ := by
    rw [Pass.ranks_changes rfl fun _ => rfl, TwoSessions.standing_vault]
    rfl
  refine ⟨tree, hheld, ha, TwoSessions.isEvicted_first, _,
    (Pass.finalize_directory (p := TwoSessions.pass) hheld).2, ?_, ?_, ?_⟩
  · exact Pass.not_mem_after_of_deleteSession_mem
      (Pass.deleteSession_mem_changes_of_isEvicted ha TwoSessions.isEvicted_first rfl)
  · rw [← Finset.card_eq_zero, ← Vault.card_ranks, hranks, Finset.card_empty]
  · rw [hranks]
    decide

/-- The same store and pass, seen from what has to be missing. -/
theorem evicted_outranked_iff_two_sessions : ∃ tree next : Node, ∃ w : Vault,
    TwoSessions.vault.IsHeldIn TwoSessions.pass.place tree ∧
    w.IsHeldIn TwoSessions.pass.place next ∧ TwoSessions.a.id ∉ w.sessions ∧
      (1 ≤ (w.ranks.filter (rankOf TwoSessions.a.id TwoSessions.a.tier < ·)).card ↔
        ((top 1 (TwoSessions.pass.contenders TwoSessions.vault)).filter fun r =>
            (TwoSessions.unwritable r.id).isSome = true ∧
              r.id ∉ TwoSessions.vault.finalized).card ≤
          (TwoSessions.vault.ranks.filter fun c =>
            rankOf TwoSessions.a.id TwoSessions.a.tier < c ∧
              c ∉ top 1 (TwoSessions.pass.contenders TwoSessions.vault)).card) := by
  obtain ⟨tree, hheld⟩ := TwoSessions.exists_tree
  obtain ⟨w, hw, hevicted⟩ := evicted_outranked_iff hheld TwoSessions.unwritable TwoSessions.caps
    none 0
  obtain ⟨hclosed, -, hiff⟩ := hevicted TwoSessions.a
    (TwoSessions.mem_assembled_iff.2 (Or.inl rfl)) TwoSessions.isEvicted_first
  exact ⟨tree, _, w, hheld, hw, hclosed, hiff TwoSessions.rankOf_eq⟩

end ReportVault
