import ReportVault.Proofs.Engine.Survivors

/-!
# ReportVault.Proofs.Engine.Standing

What a pass leaves, whatever cannot be written and whatever ranks a session has.

The places go first to the best ranks of all sessions (`Pass.winners`), then the winners are written
as far as that can be done, and then the greatest of the ranks stay that there are
(`Pass.standing`): `ranks_changes` says that these are the ranks at the end.  A session may have
been ranked by a report that is written over, and a winner may not be there, so that the second
choice need not be the first one; `le_card_ranks_changes_iff` counts what that comes to.
-/

namespace ReportVault

open FileSystem Retention
open Engine (Assembled rankOf)

namespace Pass

variable {p : Pass} {v : Vault} {id : SessionId}

/-- The reports that a pass writes. -/
def placements (p : Pass) (v : Vault) : List Assembled :=
  (p.assembled v).filter fun a => !(p.verdict v).isEvicted a.id && (p.written a).isOk

/-- The ranks of the reports that there are once the winners are written: those that were there,
unless a new report is written over them, and those of the new reports. -/
def standing (p : Pass) (v : Vault) : Finset Rank :=
  (p.placements v).toFinset.image (fun a => rankOf a.id a.tier) ∪
    v.ranks.filter fun r => ∀ a ∈ p.placements v, a.id ≠ r.id

/-- The ranks that a pass gives the places to. -/
def winners (p : Pass) (v : Vault) : Finset Rank := top p.caps.reports (best (p.contenders v))

theorem mem_placements {a : Assembled} : a ∈ p.placements v ↔ p.Writes v a := by
  have hok : (p.written a).isOk = true ↔ ∃ contents, p.written a = .ok contents := by
    cases p.written a <;> simp [Except.isOk, Except.toBool]
  rw [placements, List.mem_filter, Bool.and_eq_true, Bool.not_eq_true', hok, Writes]

theorem mem_standing {r : Rank} :
    r ∈ p.standing v ↔ (∃ a, p.Writes v a ∧ rankOf a.id a.tier = r) ∨
      r ∈ v.ranks ∧ ∀ a, p.Writes v a → a.id ≠ r.id := by
  simp only [standing, Finset.mem_union, Finset.mem_image, List.mem_toFinset, mem_placements,
    Finset.mem_filter]

/-- A session for which nothing is written has the rank that it had. -/
theorem mem_standing_of_not_writes {r : Rank} (hnot : ∀ a, p.Writes v a → a.id ≠ r.id) :
    r ∈ p.standing v ↔ r ∈ v.ranks := by
  rw [mem_standing]
  constructor
  · rintro (⟨a, hw, rfl⟩ | ⟨hr, -⟩)
    · exact absurd rfl (hnot a hw)
    · exact hr
  · exact fun hr => Or.inr ⟨hr, hnot⟩

theorem ranks_settling : (v.after (p.settling v)).ranks = p.standing v := by
  ext r
  rw [Vault.mem_ranks]
  by_cases h : ∃ a, p.Writes v a ∧ a.id = r.id
  · obtain ⟨a, hwrites, hid⟩ := h
    have htier : (v.after (p.settling v)).tier? r.id = some a.tier :=
      hid ▸ tier?_settling_of_writes hwrites
    rw [htier, mem_standing]
    constructor
    · rintro ⟨tier, he, hrank⟩
      obtain rfl : a.tier = tier := Option.some.inj he
      exact Or.inl ⟨a, hwrites, by rw [hid, hrank]⟩
    · rintro (⟨b, hb, rfl⟩ | ⟨-, hnone⟩)
      · obtain rfl := eq_of_mem_assembled hwrites.1 hb.1 hid
        exact ⟨a.tier, rfl, rfl⟩
      · exact absurd hid (hnone a hwrites)
  · have hnot : ∀ a, p.Writes v a → a.id ≠ r.id := fun a hw hid => h ⟨a, hw, hid⟩
    rw [tier?_settling_of_not_writes fun a hid hw => hnot a hw hid, ← Vault.mem_ranks,
      mem_standing_of_not_writes hnot]

theorem eq_of_mem_standing {r c : Rank} (hr : r ∈ p.standing v) (hc : c ∈ p.standing v)
    (hid : c.id = r.id) : c = r := by
  rw [← ranks_settling] at hr hc
  exact Vault.eq_of_mem_ranks hr hc hid

theorem standing_subset : p.standing v ⊆ p.contenders v :=
  ranks_settling (p := p) (v := v) ▸ ranks_settling_subset

section Listed

variable (hlist : p.fails (α := List (SessionId × Tier)) .reportIds = none)

include hlist

/-- Who is evicted has a best rank, and that has no place. -/
theorem exists_of_isEvicted (hevicted : (p.verdict v).isEvicted id = true) :
    ∃ r ∈ best (p.contenders v), r ∉ p.winners v ∧ r.id = id := by
  obtain ⟨r, hr, hid⟩ : ∃ r ∈ (p.verdict v).evict, r.id = id := by
    simpa [Verdict.isEvicted] using hevicted
  have hout := mem_selectSurvivors_evict.1 hr
  rw [toFinset_contenders hlist] at hout
  exact ⟨r, hout.1, hout.2, hid⟩

/-- All places are taken then. -/
theorem card_winners (hevicted : (p.verdict v).isEvicted id = true) :
    (p.winners v).card = p.caps.reports := by
  obtain ⟨r, hr, hout, -⟩ := exists_of_isEvicted hlist hevicted
  exact card_top_of_notMem hr hout

variable (hdelete : ∀ id, p.fails (.deleteReport id) = none)

include hdelete

/-- The ranks at the end are the greatest of those before any report is deleted. -/
theorem ranks_changes : (v.after (p.changes v)).ranks = top p.caps.reports (p.standing v) := by
  rw [← ranks_settling]
  ext r
  have hstays : ∀ {r : Rank}, r ∈ top p.caps.reports (v.after (p.settling v)).ranks →
      (v.after (p.changes v)).tier? r.id = (v.after (p.settling v)).tier? r.id := fun hr =>
    Vault.tier?_congr (lookup_changes_of_mem hdelete
      ((mem_finalized_changes hdelete hlist).2 ⟨_, hr, rfl⟩))
  rw [Vault.mem_ranks]
  constructor
  · rintro ⟨tier, htier, he⟩
    have hfinalized := Vault.mem_finalized_of_tier? htier
    obtain ⟨c, hc, hid⟩ := (mem_finalized_changes hdelete hlist).1 hfinalized
    obtain ⟨other, hother, hf⟩ := Vault.mem_ranks.1 (top_subset hc)
    rw [← hid, hstays hc, hother, Option.some.injEq] at htier
    rwa [← he, ← htier, ← hid, hf]
  · intro hr
    rw [hstays hr]
    exact Vault.mem_ranks.1 (top_subset hr)

/-- How many reports above a bar are there after a pass that has evicted a session: as many as there
are places, unless more winners have no report above it than there are other reports above it. -/
theorem le_card_ranks_changes_iff (hevicted : (p.verdict v).isEvicted id = true) (bar : Rank) :
    p.caps.reports ≤ ((v.after (p.changes v)).ranks.filter (bar < ·)).card ↔
      ((p.winners v).filter fun r => ∀ c ∈ p.standing v, c.id = r.id → c ≤ bar).card ≤
        ((p.standing v).filter fun c => bar < c ∧ ∀ r ∈ p.winners v, r.id ≠ c.id).card := by
  have hwinners : ∀ r ∈ p.winners v, ∀ c ∈ p.winners v, c.id = r.id → c = r :=
    fun r hr c hc => eq_of_mem_best (top_subset hr) (top_subset hc)
  have hstanding : ∀ r ∈ p.standing v, ∀ c ∈ p.standing v, c.id = r.id → c = r :=
    fun r hr c hc => eq_of_mem_standing hr hc
  have hcount := card_lacking_add_card hwinners hstanding bar
  rw [card_winners hlist hevicted] at hcount
  rw [ranks_changes hlist hdelete, le_card_filter_top_iff]
  omega

/-- Who is open or finalized after a pass was so before. -/
theorem mem_of_mem_changes
    (h : id ∈ (v.after (p.changes v)).sessions ∨ id ∈ (v.after (p.changes v)).finalized) :
    id ∈ v.sessions ∨ id ∈ v.finalized := by
  rcases h with hopen | hfinalized
  · exact Or.inl (open_of_mem_after hopen)
  · obtain ⟨r, hr, rfl⟩ := (mem_finalized_changes hdelete hlist).1 hfinalized
    exact id_of_mem_contenders (ranks_settling_subset (top_subset hr))

end Listed

end Pass

end ReportVault
