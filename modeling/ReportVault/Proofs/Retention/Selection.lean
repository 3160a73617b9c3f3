import ReportVault.Proofs.Retention.Top

/-!
# ReportVault.Proofs.Retention.Selection

A competition as a function of the set of its candidates.

The ranked list descends and has the best rank of each session, so it is determined by which
candidates there are (`ranked_eq_of_mem_iff`): neither their order nor their repetitions matter.  A
verdict is this list, split where the places end.
-/

namespace ReportVault.Retention

variable {candidates others : List Rank} {places : Nat} {r c : Rank}

/-! ## The ranked candidates -/

theorem mem_ranked_iff :
    r ∈ ranked candidates ↔ r ∈ candidates ∧ ∀ c ∈ candidates, c.id = r.id → c ≤ r := by
  simp only [mem_ranked, mem_best, List.mem_toFinset]

/-- The sessions that are ranked are those of the candidates. -/
theorem exists_mem_ranked (hc : c ∈ candidates) : ∃ r ∈ ranked candidates, r.id = c.id := by
  have hid : c.id ∈ (candidates.mergeSort Rank.descending).map Rank.id :=
    List.mem_map_of_mem (List.mem_mergeSort.2 hc)
  rwa [← mem_map_distinctBy, List.mem_map] at hid

/-- No session is ranked twice. -/
theorem eq_of_mem_ranked (hr : r ∈ ranked candidates) (hc : c ∈ ranked candidates)
    (hid : c.id = r.id) : c = r :=
  eq_of_mem_best (mem_ranked.1 hr) (mem_ranked.1 hc) hid

/-- As many are ranked as there are sessions among the candidates. -/
theorem length_ranked (candidates : List Rank) :
    (ranked candidates).length = (candidates.map Rank.id).toFinset.card := by
  have hnodup : ((ranked candidates).map Rank.id).Nodup :=
    List.pairwise_map.2 (pairwise_distinctBy Rank.id _)
  have hset : (candidates.map Rank.id).toFinset = ((ranked candidates).map Rank.id).toFinset := by
    ext id
    rw [List.mem_toFinset, List.mem_toFinset, ranked, mem_map_distinctBy, List.mem_map,
      List.mem_map]
    simp only [List.mem_mergeSort]
  rw [hset, List.toFinset_card_of_nodup hnodup, List.length_map]

/-- The ranked list depends on which candidates there are, and on nothing else. -/
theorem ranked_eq_of_mem_iff (h : ∀ r, r ∈ others ↔ r ∈ candidates) :
    ranked others = ranked candidates := by
  have hirrefl : Std.Irrefl fun a b : Rank => a > b := ⟨fun a => lt_irrefl a⟩
  have hantisymm : Std.Antisymm fun a b : Rank => a > b :=
    ⟨fun _ _ hab hba => absurd hab (lt_asymm hba)⟩
  refine (pairwise_ranked others).eq_of_mem_iff (pairwise_ranked candidates) fun r => ?_
  simp only [mem_ranked_iff, h]

/-! ## The verdict -/

/-- Both lists of a verdict are the ranked list. -/
theorem keep_append_evict (candidates : List Rank) (places : Nat) :
    (selectSurvivors candidates places).keep ++ (selectSurvivors candidates places).evict =
      ranked candidates :=
  List.take_append_drop places (ranked candidates)

/-- A session of the candidates keeps its place or loses it, and not both. -/
theorem isEvicted_eq_not_isKept (hc : c ∈ candidates) :
    (selectSurvivors candidates places).isEvicted c.id =
      !(selectSurvivors candidates places).isKept c.id := by
  obtain ⟨r, hr, hid⟩ := exists_mem_ranked hc
  have hbest := mem_ranked.1 hr
  rw [← hid, Bool.eq_iff_iff, isEvicted_iff_of_mem_best hbest, Bool.not_eq_true',
    ← Bool.not_eq_true, isKept_iff_of_mem_best hbest]

/-- The survivors of a competition are the best by rank, whatever order the candidates have and
however often they are there: the verdict lists the best rank of each session from the best to the
worst, and the first of them keep their places. -/
theorem selectSurvivors_topOfSessions (candidates : List Rank) (places : Nat) :
    let v := selectSurvivors candidates places
    (v.keep ++ v.evict).Pairwise (· > ·) ∧
      (∀ r, r ∈ v.keep ++ v.evict ↔ r ∈ candidates ∧ ∀ c ∈ candidates, c.id = r.id → c ≤ r) ∧
      (∀ c ∈ candidates, ∃! r, r ∈ v.keep ++ v.evict ∧ r.id = c.id) ∧
      v.keep.length = min places (candidates.map Rank.id).toFinset.card ∧
      (∀ others : List Rank, (∀ r, r ∈ others ↔ r ∈ candidates) →
        selectSurvivors others places = v) ∧
      (∀ more, (selectSurvivors candidates more).keep ++ (selectSurvivors candidates more).evict =
        v.keep ++ v.evict) ∧
      ∀ c ∈ candidates, v.isEvicted c.id = !v.isKept c.id := by
  intro v
  have hlists : v.keep ++ v.evict = ranked candidates := keep_append_evict candidates places
  rw [hlists]
  refine ⟨pairwise_ranked candidates, fun r => mem_ranked_iff, fun c hc => ?_, ?_,
    fun others hothers => ?_, keep_append_evict candidates,
    fun c hc => isEvicted_eq_not_isKept hc⟩
  · obtain ⟨r, hr, hid⟩ := exists_mem_ranked hc
    exact ⟨r, ⟨hr, hid⟩, fun s hs => eq_of_mem_ranked hr hs.1 (hs.2.trans hid.symm)⟩
  · rw [← length_ranked]
    exact List.length_take
  · rw [selectSurvivors, ranked_eq_of_mem_iff hothers]
    rfl

/-- Three sessions for two places, one of them with both priorities and once more. -/
theorem selectSurvivors_topOfSessions_repeated :
    let v := selectSurvivors [⟨false, ⟨"b"⟩⟩, ⟨true, ⟨"a"⟩⟩, ⟨false, ⟨"c"⟩⟩, ⟨false, ⟨"a"⟩⟩,
      ⟨true, ⟨"a"⟩⟩] 2
    v.keep.length = 2 ∧
      selectSurvivors [⟨true, ⟨"a"⟩⟩, ⟨false, ⟨"b"⟩⟩, ⟨false, ⟨"a"⟩⟩, ⟨false, ⟨"c"⟩⟩] 2 = v ∧
      v.isEvicted ⟨"a"⟩ = !v.isKept ⟨"a"⟩ := by
  intro v
  obtain ⟨-, -, -, hlength, hothers, -, hone⟩ := selectSurvivors_topOfSessions
    [⟨false, ⟨"b"⟩⟩, ⟨true, ⟨"a"⟩⟩, ⟨false, ⟨"c"⟩⟩, ⟨false, ⟨"a"⟩⟩, ⟨true, ⟨"a"⟩⟩] 2
  refine ⟨hlength.trans (by decide), hothers _ (by simp; tauto), ?_⟩
  exact hone ⟨true, ⟨"a"⟩⟩ (by simp)

end ReportVault.Retention
