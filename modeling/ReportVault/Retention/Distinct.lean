/-!
# ReportVault.Retention.Distinct

The first item of a list for each key.
-/

namespace ReportVault.Retention

/-- The items whose key no earlier item has. -/
def distinctBy [DecidableEq β] (key : α → β) : List α → List α
  | [] => []
  | a :: rest => a :: (distinctBy key rest).filter fun b => key b ≠ key a

@[simp] theorem distinctBy_nil [DecidableEq β] (key : α → β) : distinctBy key [] = [] := rfl

/-- Nothing is added and the order is kept. -/
theorem distinctBy_sublist [DecidableEq β] (key : α → β) (l : List α) :
    (distinctBy key l).Sublist l := by
  induction l with
  | nil => simp
  | cons a l ih => exact (List.filter_sublist.trans ih).cons_cons a

/-- No two items that are left have the same key. -/
theorem pairwise_distinctBy [DecidableEq β] (key : α → β) (l : List α) :
    (distinctBy key l).Pairwise fun a b => key a ≠ key b := by
  induction l with
  | nil => simp
  | cons a l ih =>
    refine List.Pairwise.cons ?_ (ih.filter _)
    intro b hb
    have := (List.mem_filter.1 hb).2
    simp only [decide_eq_true_eq] at this
    exact fun h => this h.symm

/-- The first item of each key is left. -/
theorem mem_distinctBy [DecidableEq β] (key : α → β) (l : List α) (a : α) :
    a ∈ distinctBy key l ↔ l.find? (fun b => key b = key a) = some a := by
  induction l with
  | nil => simp
  | cons b l ih =>
    by_cases h : key b = key a
    · simp only [distinctBy, List.mem_cons, List.mem_filter, h, ne_eq, decide_not, decide_true,
        Bool.not_true, Bool.false_eq_true, and_false, or_false, List.find?_cons_of_pos,
        Option.some.injEq]
      exact eq_comm
    · have hne : a ≠ b := fun he => h (he ▸ rfl)
      have hkey : key a ≠ key b := fun hk => h hk.symm
      simp [distinctBy, hne, hkey, h, ih]

/-- No key is lost. -/
theorem mem_map_distinctBy [DecidableEq β] (key : α → β) (l : List α) (k : β) :
    k ∈ (distinctBy key l).map key ↔ k ∈ l.map key := by
  induction l with
  | nil => simp
  | cons a l ih =>
    by_cases h : k = key a
    · simp [distinctBy, h]
    · have h' : ∀ b, key b = k → key b ≠ key a := fun b hb hk => h (hb ▸ hk)
      simp only [List.mem_map] at ih
      simp only [distinctBy, List.map_cons, List.mem_cons, h, false_or, List.mem_map,
        List.mem_filter, decide_eq_true_eq]
      rw [← ih]
      exact ⟨fun ⟨b, hb, hk⟩ => ⟨b, hb.1, hk⟩, fun ⟨b, hb, hk⟩ => ⟨b, ⟨hb, h' b hk⟩, hk⟩⟩

end ReportVault.Retention
