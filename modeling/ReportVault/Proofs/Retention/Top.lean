import Mathlib.Data.Finset.Sort
import ReportVault.Proofs.Order
import ReportVault.Retention.Trim

/-!
# ReportVault.Proofs.Retention.Top

The greatest elements of a finite set, and what the retention policy keeps.

`top k c` has the elements of `c` that fewer than `k` others of it exceed.  To choose twice is to
choose once, as long as the first choice leaves nothing out that belongs to the result
(`top_eq_of_subset`).  `mem_selectSurvivors_keep` says that a competition keeps the greatest ranks,
one for each session, and `mem_keepNewest` that trimming a sorted list keeps the greatest elements.
`filterMap_keepNewest_eq_iff` says when it does not matter whether a list is trimmed or read first.
-/

namespace ReportVault.Retention

section Top

variable {α : Type*} [LinearOrder α] {c d : Finset α} {k : Nat} {a b : α}

/-- The `k` greatest elements, or all if there are fewer. -/
def top (k : Nat) (c : Finset α) : Finset α := c.filter fun a => (c.filter (a < ·)).card < k

theorem mem_top : a ∈ top k c ↔ a ∈ c ∧ (c.filter (a < ·)).card < k := Finset.mem_filter

theorem top_subset : top k c ⊆ c := Finset.filter_subset _ _

/-- In a list that descends, the first elements are the greatest. -/
theorem mem_take_iff {l : List α} (h : l.Pairwise (· > ·)) :
    a ∈ l.take k ↔ a ∈ top k l.toFinset := by
  induction l generalizing k with
  | nil => simp [top]
  | cons b l ih =>
    rw [List.pairwise_cons] at h
    have hb : b ∉ l.toFinset := fun hmem => lt_irrefl b (h.1 b (List.mem_toFinset.1 hmem))
    cases k with
    | zero => simp [top]
    | succ k =>
      rw [List.take_succ_cons, List.mem_cons, ih h.2, mem_top, mem_top, List.toFinset_cons,
        Finset.mem_insert, Finset.filter_insert]
      by_cases he : a = b
      · have hnone : l.toFinset.filter (a < ·) = ∅ := by
          refine Finset.filter_eq_empty_iff.2 fun x hx => ?_
          rw [he]
          exact lt_asymm (h.1 x (List.mem_toFinset.1 hx))
        have hirrefl : ¬ a < b := he ▸ lt_irrefl a
        rw [if_neg hirrefl, hnone]
        simp [he]
      · have hcard : a ∈ l.toFinset →
            (insert b (l.toFinset.filter (a < ·))).card = (l.toFinset.filter (a < ·)).card + 1 :=
          fun _ => Finset.card_insert_of_notMem fun hmem => hb (Finset.mem_filter.1 hmem).1
        simp only [he, false_or]
        refine and_congr_right fun ha => ?_
        rw [if_pos (h.1 a (List.mem_toFinset.1 ha)), hcard ha]
        omega

/-- As many elements are chosen as there are and as there are places. -/
theorem card_top : (top k c).card = min k c.card := by
  have hsorted : (c.sort (· ≥ ·)).Pairwise (· > ·) := (Finset.sortedGT_sort c).pairwise
  have hset : top k c = ((c.sort (· ≥ ·)).take k).toFinset := by
    ext a
    rw [List.mem_toFinset, mem_take_iff hsorted, Finset.sort_toFinset]
  rw [hset, List.toFinset_card_of_nodup ((Finset.sort_nodup c _).sublist (List.take_sublist _ _)),
    List.length_take, Finset.length_sort]

theorem top_of_card_le (h : c.card ≤ k) : top k c = c :=
  Finset.eq_of_subset_of_card_le top_subset (by rw [card_top, min_eq_right h])

/-- If anything is not chosen, all places are taken. -/
theorem card_top_of_notMem (ha : a ∈ c) (hout : a ∉ top k c) : (top k c).card = k := by
  rw [card_top, min_eq_left]
  by_contra hcard
  rw [top_of_card_le (Nat.le_of_not_le hcard)] at hout
  exact hout ha

/-- Not more elements exceed what is greater. -/
theorem card_filter_lt_le (h : b ≤ a) : (c.filter (a < ·)).card ≤ (c.filter (b < ·)).card :=
  Finset.card_le_card (Finset.monotone_filter_right c fun _ _ hx => lt_of_le_of_lt h hx)

/-- What is not chosen is below all that is. -/
theorem lt_of_mem_top (ha : a ∈ c) (hout : a ∉ top k c) (hb : b ∈ top k c) : a < b := by
  by_contra hle
  exact hout (mem_top.2 ⟨ha, (card_filter_lt_le (not_lt.1 hle)).trans_lt (mem_top.1 hb).2⟩)

/-- Of the elements that exceed `a` all places are taken, if there are so many of them. -/
theorem le_card_filter_top_iff :
    k ≤ ((top k c).filter (a < ·)).card ↔ k ≤ (c.filter (a < ·)).card := by
  refine ⟨fun h => h.trans (Finset.card_le_card (Finset.filter_subset_filter _ top_subset)),
    fun h => ?_⟩
  have habove : ∀ b ∈ top k c, a < b := by
    intro b hb
    by_contra hle
    exact absurd (h.trans (card_filter_lt_le (not_lt.1 hle))) (not_le.2 (mem_top.1 hb).2)
  rw [Finset.filter_true_of_mem habove, card_top]
  exact le_min le_rfl (h.trans (Finset.card_le_card (Finset.filter_subset _ _)))

/-- One more element costs the last one its place, if it exceeds that, and no other one. -/
theorem mem_top_insert (hb : b ∉ c) (ha : a ∈ c) :
    a ∈ top k (insert b c) ↔ a ∈ top k c ∧ ¬ (a < b ∧ (c.filter (a < ·)).card + 1 = k) := by
  rw [mem_top, mem_top, Finset.filter_insert, and_iff_right (Finset.mem_insert_of_mem ha),
    and_iff_right ha]
  by_cases hlt : a < b
  · rw [if_pos hlt, Finset.card_insert_of_notMem fun hmem => hb (Finset.mem_filter.1 hmem).1]
    simp only [hlt, true_and]
    omega
  · simp [hlt]

/-- What is chosen from a set is chosen from what is left of it, if it is left. -/
theorem mem_top_of_subset (hsub : d ⊆ c) (ha : a ∈ top k c) (hleft : a ∈ d) : a ∈ top k d :=
  mem_top.2 ⟨hleft, lt_of_le_of_lt
    (Finset.card_le_card (Finset.filter_subset_filter _ hsub)) (mem_top.1 ha).2⟩

/-- A choice from what is left of a set is the choice from the set, if nothing that belongs to it
was left out. -/
theorem top_eq_of_subset (hsub : d ⊆ c) (htop : top k c ⊆ d) : top k d = top k c := by
  have hle : top k c ⊆ top k d := fun a ha => mem_top_of_subset hsub ha (htop ha)
  refine (Finset.eq_of_subset_of_card_le hle ?_).symm
  rw [card_top, card_top]
  exact min_le_min_left k (Finset.card_le_card hsub)

/-- From what is left of a set the same is chosen, as far as it is left, if only the others were
left out or all of the others were. -/
theorem top_eq_inter (hsub : d ⊆ c) (h : top k c ⊆ d ∨ d ⊆ top k c) : top k d = top k c ∩ d := by
  rcases h with htop | hrest
  · rw [top_eq_of_subset hsub htop, Finset.inter_eq_left.2 htop]
  · have hcard : d.card ≤ k :=
      (Finset.card_le_card hrest).trans (by rw [card_top]; exact min_le_left _ _)
    rw [top_of_card_le hcard, Finset.inter_eq_right.2 hrest]

end Top

/-! ## Sessions that compete -/

/-- The best rank of each session. -/
def best (candidates : Finset Rank) : Finset Rank :=
  candidates.filter fun r => ∀ c ∈ candidates, c.id = r.id → c ≤ r

theorem mem_best {candidates : Finset Rank} {r : Rank} :
    r ∈ best candidates ↔ r ∈ candidates ∧ ∀ c ∈ candidates, c.id = r.id → c ≤ r :=
  Finset.mem_filter

theorem eq_of_mem_best {candidates : Finset Rank} {r c : Rank} (hr : r ∈ best candidates)
    (hc : c ∈ best candidates) (hid : c.id = r.id) : c = r := by
  obtain ⟨hr, hrbest⟩ := mem_best.1 hr
  obtain ⟨hc, hcbest⟩ := mem_best.1 hc
  exact le_antisymm (hrbest c hc hid) (hcbest r hr hid.symm)

/-- No session counts twice. -/
theorem card_best_le (candidates : Finset Rank) :
    (best candidates).card ≤ (candidates.image Rank.id).card :=
  Finset.card_le_card_of_injOn Rank.id
    (fun _ hr => Finset.mem_image_of_mem Rank.id (mem_best.1 hr).1)
    fun _ hr _ hc hid => eq_of_mem_best hc hr hid

/-- Candidates with one rank for each session all count. -/
theorem best_eq_self {candidates : Finset Rank}
    (h : ∀ r ∈ candidates, ∀ c ∈ candidates, c.id = r.id → c = r) :
    best candidates = candidates := by
  ext r
  rw [mem_best]
  exact ⟨fun hr => hr.1, fun hr => ⟨hr, fun c hc he => le_of_eq (h r hr c hc he)⟩⟩

/-- Two sets of ranks with one rank for each session.  The sessions of the first are above `bar` in
the second or not, and those of the second above `bar` are in the first or not. -/
theorem card_lacking_add_card {winners standing : Finset Rank}
    (hwinners : ∀ r ∈ winners, ∀ c ∈ winners, c.id = r.id → c = r)
    (hstanding : ∀ r ∈ standing, ∀ c ∈ standing, c.id = r.id → c = r) (bar : Rank) :
    (winners.filter fun r => ∀ c ∈ standing, c.id = r.id → c ≤ bar).card +
        (standing.filter (bar < ·)).card =
      winners.card + (standing.filter fun c => bar < c ∧ ∀ r ∈ winners, r.id ≠ c.id).card := by
  have hsame : (winners.filter fun r => ¬ ∀ c ∈ standing, c.id = r.id → c ≤ bar).image Rank.id =
      (standing.filter fun c => bar < c ∧ ¬ ∀ r ∈ winners, r.id ≠ c.id).image Rank.id := by
    ext id
    simp only [Finset.mem_image, Finset.mem_filter]
    push Not
    constructor
    · rintro ⟨r, ⟨hr, c, hc, hid, habove⟩, rfl⟩
      exact ⟨c, ⟨hc, habove, r, hr, hid.symm⟩, hid⟩
    · rintro ⟨c, ⟨hc, habove, r, hr, hid⟩, rfl⟩
      exact ⟨r, ⟨hr, c, hc, hid.symm, habove⟩, hid⟩
  have hcard := congrArg Finset.card hsame
  rw [Finset.card_image_of_injOn fun r hr c hc hid => (hwinners c (Finset.mem_filter.1 hc).1 r
      (Finset.mem_filter.1 hr).1 hid),
    Finset.card_image_of_injOn fun r hr c hc hid => (hstanding c (Finset.mem_filter.1 hc).1 r
      (Finset.mem_filter.1 hr).1 hid)] at hcard
  have hfirst := Finset.card_filter_add_card_filter_not (s := winners)
    fun r => ∀ c ∈ standing, c.id = r.id → c ≤ bar
  have hsecond := Finset.card_filter_add_card_filter_not (s := standing.filter (bar < ·))
    fun c => ∀ r ∈ winners, r.id ≠ c.id
  rw [Finset.filter_filter, Finset.filter_filter] at hsecond
  omega

variable {candidates : List Rank} {places : Nat} {r : Rank}

theorem pairwise_sorted (candidates : List Rank) :
    (candidates.mergeSort Rank.descending).Pairwise (· ≥ ·) :=
  pairwise_mergeSort_iff _ (fun _ _ => Rank.descending_iff) candidates

/-- The candidates are ranked from the best to the worst, each session once. -/
theorem pairwise_ranked (candidates : List Rank) : (ranked candidates).Pairwise (· > ·) := by
  have hweak := (pairwise_sorted candidates).sublist
    (distinctBy_sublist Rank.id (candidates.mergeSort Rank.descending))
  have hne := pairwise_distinctBy Rank.id (candidates.mergeSort Rank.descending)
  exact (hweak.and hne).imp fun h => lt_of_le_of_ne h.1 fun he => h.2 (he ▸ rfl)

/-- A session is ranked by the best of its ranks. -/
theorem mem_ranked : r ∈ ranked candidates ↔ r ∈ best candidates.toFinset := by
  rw [ranked, mem_distinctBy, mem_best, List.mem_toFinset, ← List.mem_mergeSort]
  simp only [List.mem_toFinset]
  constructor
  · intro h
    have hr := List.mem_of_find?_eq_some h
    refine ⟨hr, fun c hc he => ?_⟩
    obtain ⟨-, before, after, hsplit, hbefore⟩ := List.find?_eq_some_iff_append.1 h
    have hranked : c ∈ candidates.mergeSort Rank.descending := List.mem_mergeSort.2 hc
    rw [hsplit, List.mem_append, List.mem_cons] at hranked
    rcases hranked with hc | rfl | hc
    · have hne := hbefore c hc
      simp only [he, decide_true, Bool.not_true, Bool.false_eq_true] at hne
    · exact le_refl c
    · have hsorted := pairwise_sorted candidates
      rw [hsplit, List.pairwise_append] at hsorted
      exact (List.pairwise_cons.1 hsorted.2.1).1 c hc
  · rintro ⟨hr, hbest⟩
    cases hfind : (candidates.mergeSort Rank.descending).find? fun b => b.id = r.id with
    | none => exact absurd (decide_eq_true rfl) (List.find?_eq_none.1 hfind r hr)
    | some c =>
      obtain ⟨hc, before, after, hsplit, hbefore⟩ := List.find?_eq_some_iff_append.1 hfind
      have hid : c.id = r.id := by simpa using hc
      have hmem : c ∈ candidates := List.mem_mergeSort.1 (List.mem_of_find?_eq_some hfind)
      have hsorted := pairwise_sorted candidates
      rw [hsplit, List.pairwise_append] at hsorted
      rw [hsplit, List.mem_append, List.mem_cons] at hr
      rcases hr with hr | rfl | hr
      · exact absurd (hbefore r hr) (by simp)
      · rfl
      · exact congrArg some (le_antisymm (hbest c hmem hid)
          ((List.pairwise_cons.1 hsorted.2.1).1 r hr))

theorem toFinset_ranked (candidates : List Rank) :
    (ranked candidates).toFinset = best candidates.toFinset := by
  ext r
  rw [List.mem_toFinset, mem_ranked]

/-- The sessions of the greatest ranks keep a place. -/
theorem mem_selectSurvivors_keep :
    r ∈ (selectSurvivors candidates places).keep ↔ r ∈ top places (best candidates.toFinset) := by
  rw [selectSurvivors, mem_take_iff (pairwise_ranked candidates), toFinset_ranked]

/-- All other sessions lose theirs. -/
theorem mem_selectSurvivors_evict :
    r ∈ (selectSurvivors candidates places).evict ↔
      r ∈ best candidates.toFinset ∧ r ∉ top places (best candidates.toFinset) := by
  have hnodup : ((ranked candidates).take places ++ (ranked candidates).drop places).Nodup := by
    rw [List.take_append_drop]
    exact (pairwise_ranked candidates).imp fun h => ne_of_gt h
  have hdisjoint := (List.nodup_append.1 hnodup).2.2
  rw [← mem_selectSurvivors_keep, ← mem_ranked, selectSurvivors]
  constructor
  · intro h
    exact ⟨List.mem_of_mem_drop h, fun hkeep => hdisjoint r hkeep r h rfl⟩
  · rintro ⟨hr, hkeep⟩
    rw [← List.take_append_drop places (ranked candidates), List.mem_append] at hr
    exact hr.resolve_left hkeep

/-- A session keeps its place if the best of its ranks is among the greatest. -/
theorem isKept_iff_of_mem_best (hr : r ∈ best candidates.toFinset) :
    (selectSurvivors candidates places).isKept r.id = true ↔
      r ∈ top places (best candidates.toFinset) := by
  simp only [Verdict.isKept, List.any_eq_true, mem_selectSurvivors_keep, decide_eq_true_eq]
  constructor
  · rintro ⟨c, hc, hid⟩
    rwa [eq_of_mem_best hr (top_subset hc) hid] at hc
  · exact fun h => ⟨r, h, rfl⟩

theorem isEvicted_iff_of_mem_best (hr : r ∈ best candidates.toFinset) :
    (selectSurvivors candidates places).isEvicted r.id = true ↔
      r ∉ top places (best candidates.toFinset) := by
  simp only [Verdict.isEvicted, List.any_eq_true, mem_selectSurvivors_evict, decide_eq_true_eq]
  constructor
  · rintro ⟨c, ⟨hc, hout⟩, hid⟩
    rwa [eq_of_mem_best hr hc hid] at hout
  · exact fun h => ⟨r, ⟨hr, h⟩, rfl⟩

section OneRank

variable (hone : ∀ r ∈ candidates, ∀ c ∈ candidates, c.id = r.id → c = r)

include hone

/-- If no session has two ranks, each of them is its best. -/
theorem best_toFinset : best candidates.toFinset = candidates.toFinset :=
  best_eq_self fun r hr c hc => hone r (List.mem_toFinset.1 hr) c (List.mem_toFinset.1 hc)

/-- If no session has two ranks, a session keeps its place if its rank is among the greatest. -/
theorem isKept_iff (hr : r ∈ candidates) :
    (selectSurvivors candidates places).isKept r.id = true ↔
      r ∈ top places candidates.toFinset := by
  have hbest : r ∈ best candidates.toFinset := by rwa [best_toFinset hone, List.mem_toFinset]
  rw [isKept_iff_of_mem_best hbest, best_toFinset hone]

theorem isEvicted_iff (hr : r ∈ candidates) :
    (selectSurvivors candidates places).isEvicted r.id = true ↔
      r ∉ top places candidates.toFinset := by
  have hbest : r ∈ best candidates.toFinset := by rwa [best_toFinset hone, List.mem_toFinset]
  rw [isEvicted_iff_of_mem_best hbest, best_toFinset hone]

end OneRank

/-! ## Lists that are trimmed -/

/-- What is kept of a list that ascends are the greatest elements. -/
theorem mem_keepNewest {α : Type*} [LinearOrder α] {l : List α} {cap : Nat} {a : α}
    (h : l.Pairwise (· < ·)) : a ∈ keepNewest l cap ↔ a ∈ top cap l.toFinset := by
  have hreverse : l.reverse.Pairwise (· > ·) := List.pairwise_reverse.2 h
  rw [keepNewest_eq_drop, ← List.toFinset_reverse, ← mem_take_iff hreverse, List.take_reverse,
    List.mem_reverse]

/-- What was trimmed before more items came need not have been. -/
theorem keepNewest_append_keepNewest {α : Type*} (l more : List α) (cap : Nat) :
    keepNewest (keepNewest l cap ++ more) cap = keepNewest (l ++ more) cap := by
  have hrest : keepNewest l cap ++ more = (l ++ more).drop (l.length - cap) := by
    rw [keepNewest_eq_drop, List.drop_append_of_le_length (Nat.sub_le _ _)]
  rw [hrest, keepNewest_eq_drop, keepNewest_eq_drop, List.drop_drop, List.length_drop,
    List.length_append]
  congr 1
  omega

/-- Something is kept, if there is something and the cap allows anything. -/
theorem keepNewest_ne_nil {α : Type*} {l : List α} {cap : Nat} (hl : l ≠ []) (hcap : 1 ≤ cap) :
    keepNewest l cap ≠ [] := by
  have hlength := List.length_pos_iff.2 hl
  rw [← List.length_pos_iff, keepNewest, length_splitOldest_snd]
  omega

/-- As many of the last items as there are places are kept, whatever stands before them. -/
theorem keepNewest_append_of_length_eq {α : Type*} (l : List α) {last : List α} {cap : Nat}
    (h : last.length = cap) : keepNewest (l ++ last) cap = last := by
  rw [keepNewest_eq_drop, List.length_append, h, Nat.add_sub_cancel, List.drop_left]

theorem keepNewest_of_length_le {α : Type*} {l : List α} {cap : Nat} (h : l.length ≤ cap) :
    keepNewest l cap = l := by
  rw [keepNewest_eq_drop, Nat.sub_eq_zero_of_le h, List.drop_zero]

/-- It does not matter whether a list is trimmed before or after its items are read, iff nothing
that is trimmed could be read or everything that is kept can be. -/
theorem filterMap_keepNewest_eq_iff {α β : Type*} (f : α → Option β) (l : List α) (cap : Nat) :
    (keepNewest l cap).filterMap f = keepNewest (l.filterMap f) cap ↔
      (∀ a ∈ (splitOldest l cap).1, f a = none) ∨ ∀ a ∈ keepNewest l cap, (f a).isSome = true := by
  have hsplit : (splitOldest l cap).1.filterMap f ++ (keepNewest l cap).filterMap f =
      l.filterMap f := by
    rw [← List.filterMap_append, keepNewest, splitOldest_append]
  have hdropped : (splitOldest l cap).1.length = l.length - cap := by
    rw [splitOldest_fst, List.length_take]
    omega
  have hkept : (keepNewest l cap).length = min l.length cap := length_splitOldest_snd l cap
  have hread := List.length_filterMap_le f (keepNewest l cap)
  rw [← List.filterMap_eq_nil_iff, ← List.filterMap_length_eq_length, ← hsplit]
  generalize keepNewest l cap = kept at *
  constructor
  · intro heq
    have hlength := congrArg List.length heq
    rw [keepNewest, length_splitOldest_snd, List.length_append] at hlength
    have hbefore := List.length_filterMap_le f (splitOldest l cap).1
    rw [← List.length_eq_zero_iff]
    omega
  · rintro (hnone | hall)
    · rw [hnone, List.nil_append, keepNewest_of_length_le (by omega)]
    · by_cases hroom : l.length ≤ cap
      · have hnil : (splitOldest l cap).1 = [] := List.length_eq_zero_iff.1 (by omega)
        rw [hnil, List.filterMap_nil, List.nil_append, keepNewest_of_length_le (by omega)]
      · rw [keepNewest_append_of_length_eq _ (by omega)]

end ReportVault.Retention
