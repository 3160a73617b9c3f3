import Mathlib.Data.Finset.Sort
import ReportVault.Retention.Survivors
import ReportVault.Slot

/-!
# ReportVault.Proofs.Order

Identifiers and ranks as linear orders, and sorting by them.

`SessionId.mergeSort_ascending` and its counterparts say what sorting a list without repetitions
gives: the sorted elements of a finite set, whatever order the list had.  Slots are sorted by their
numbers, which several of them may share; what sorting does to such a list follows from
`mergeSort_cons_eq`.
-/

namespace ReportVault

namespace SessionId

/-- Identifiers compare by code point. -/
instance : LinearOrder SessionId where
  le a b := a.ascending b = true
  lt a b := a.precedes b = true
  le_refl a := by simp [ascending, precedes, Text.precedes_irrefl]
  le_trans a b c hab hbc := by
    simp only [ascending, Bool.not_eq_true'] at hab hbc ⊢
    rcases Text.precedes_trichotomy a.name b.name with h | h | h
    · cases hca : c.precedes a with
      | false => rfl
      | true => exact absurd (Text.precedes_trans hca h) (by simpa [precedes] using hbc)
    · rwa [precedes, h]
    · exact absurd h (by simpa [precedes] using hab)
  lt_iff_le_not_ge a b := by
    simp only [ascending, Bool.not_eq_true']
    constructor
    · exact fun h => ⟨Text.precedes_asymm h, by simp [h]⟩
    · exact fun h => by simpa using h.2
  le_antisymm a b hab hba := by
    simp only [ascending, precedes, Bool.not_eq_true'] at hab hba
    rcases Text.precedes_trichotomy a.name b.name with h | h | h
    · simp [h] at hba
    · exact congrArg SessionId.mk h
    · simp [h] at hab
  le_total a b := by
    simp only [ascending, precedes, Bool.not_eq_true']
    cases h : Text.precedes a.name b.name with
    | false => exact Or.inr rfl
    | true => exact Or.inl (Text.precedes_asymm h)
  toDecidableEq := inferInstance
  toDecidableLE a b := inferInstanceAs (Decidable (a.ascending b = true))
  toDecidableLT a b := inferInstanceAs (Decidable (a.precedes b = true))

end SessionId

namespace Retention.Rank

/-- Ranks compare by their priority first. -/
instance : LinearOrder Rank where
  le a b := a.ascending b = true
  lt a b := a.below b = true
  le_refl a := by simp [ascending, below_irrefl]
  le_trans a b c hab hbc := by
    simp only [ascending, Bool.not_eq_true'] at hab hbc ⊢
    rcases below_trichotomy a b with h | h | h
    · cases hca : c.below a with
      | false => rfl
      | true => exact absurd (below_trans hca h) (by simp [hbc])
    · rwa [h]
    · exact absurd h (by simp [hab])
  lt_iff_le_not_ge a b := by
    simp only [ascending, Bool.not_eq_true']
    constructor
    · intro h
      refine ⟨?_, by simp [h]⟩
      cases hba : b.below a with
      | false => rfl
      | true => rw [← below_irrefl a, below_trans h hba]
    · exact fun h => by simpa using h.2
  le_antisymm a b hab hba := by
    simp only [ascending, Bool.not_eq_true'] at hab hba
    rcases below_trichotomy a b with h | h | h
    · simp [h] at hba
    · exact h
    · simp [h] at hab
  le_total a b := by
    simp only [ascending, Bool.not_eq_true']
    cases h : a.below b with
    | false => exact Or.inr rfl
    | true =>
      cases hba : b.below a with
      | false => exact Or.inl rfl
      | true => exact absurd (below_trans h hba) (by simp [below_irrefl])
  toDecidableEq := inferInstance
  toDecidableLE a b := inferInstanceAs (Decidable (a.ascending b = true))
  toDecidableLT a b := inferInstanceAs (Decidable (a.below b = true))

theorem descending_iff {a b : Rank} : a.descending b = true ↔ b ≤ a := Iff.rfl

end Retention.Rank

/-! ## Sorting -/

/-- A list that is sorted by a Boolean order is sorted. -/
theorem pairwise_mergeSort_iff {r : α → α → Prop} [Std.Total r] [IsTrans α r]
    (le : α → α → Bool) (hle : ∀ a b, le a b = true ↔ r a b) (l : List α) :
    (l.mergeSort le).Pairwise r := by
  have htrans : ∀ a b c, le a b = true → le b c = true → le a c = true := by
    intro a b c hab hbc
    rw [hle] at hab hbc ⊢
    exact IsTrans.trans a b c hab hbc
  have htotal : ∀ a b, (le a b || le b a) = true := by
    intro a b
    rw [Bool.or_eq_true, hle, hle]
    exact Std.Total.total a b
  exact (List.pairwise_mergeSort htrans htotal l).imp fun h => (hle _ _).1 h

section MergeSort

variable {le : α → α → Bool} (htrans : ∀ a b c, le a b = true → le b c = true → le a c = true)
  (htotal : ∀ a b, (le a b || le b a) = true)

include htrans htotal

/-- Sorting puts the first element behind those that are less, and before all others. -/
theorem mergeSort_cons_eq (a : α) (l : List α) :
    (a :: l).mergeSort le =
      (l.mergeSort le).filter (fun b => !le a b) ++ a :: (l.mergeSort le).filter (le a) := by
  obtain ⟨before, behind, hcons, hrest, hless⟩ := List.mergeSort_cons htrans htotal a l
  have hsorted := List.pairwise_mergeSort htrans htotal (a :: l)
  rw [hcons] at hsorted
  have hgreater := (List.pairwise_cons.1 (List.pairwise_append.1 hsorted).2.1).1
  have hbefore : before.filter (le a) = [] := by simpa using hless
  have hbehind : behind.filter (fun b => !le a b) = [] := by simpa using hgreater
  rw [hcons, hrest, List.filter_append, List.filter_append, List.filter_eq_self.2 hless, hbefore,
    hbehind, List.filter_eq_self.2 hgreater, List.append_nil, List.nil_append]

/-- To sort a part is to take the part of what is sorted. -/
theorem mergeSort_filter (p : α → Bool) (l : List α) :
    (l.filter p).mergeSort le = (l.mergeSort le).filter p := by
  induction l with
  | nil => simp
  | cons a l ih =>
    cases ha : p a with
    | false =>
      obtain ⟨before, behind, hcons, hrest, -⟩ := List.mergeSort_cons htrans htotal a l
      rw [List.filter_cons_of_neg (by simp [ha]), ih, hcons, hrest, List.filter_append,
        List.filter_append, List.filter_cons_of_neg (by simp [ha])]
    | true =>
      rw [List.filter_cons_of_pos ha, mergeSort_cons_eq htrans htotal, ih,
        mergeSort_cons_eq htrans htotal, List.filter_append, List.filter_cons_of_pos ha,
        List.filter_comm, List.filter_comm p (le a)]

/-- What is at least as great as all others comes last. -/
theorem mergeSort_concat {a : α} {l : List α} (h : ∀ b ∈ l, le b a = true) :
    (l ++ [a]).mergeSort le = l.mergeSort le ++ [a] := by
  induction l with
  | nil => simp
  | cons b l ih =>
    have hb := h b List.mem_cons_self
    rw [List.cons_append, mergeSort_cons_eq htrans htotal,
      ih fun c hc => h c (List.mem_cons_of_mem _ hc), mergeSort_cons_eq htrans htotal b l,
      List.filter_append, List.filter_append, List.filter_cons_of_pos hb,
      List.filter_cons_of_neg (by simp [hb]), List.filter_nil, List.filter_nil, List.append_nil,
      List.append_assoc, List.cons_append]

end MergeSort

namespace SessionId

/-- Identifiers without repetitions, ascending. -/
theorem mergeSort_ascending {l : List SessionId} (h : l.Nodup) :
    l.mergeSort ascending = l.toFinset.sort := by
  have hperm := List.mergeSort_perm l ascending
  have hsorted : (l.mergeSort ascending).Pairwise (· ≤ ·) :=
    pairwise_mergeSort_iff _ (fun _ _ => Iff.rfl) l
  rw [← List.toFinset_eq_of_perm _ _ hperm]
  exact ((List.toFinset_sort (· ≤ ·) (hperm.nodup_iff.2 h)).2 hsorted).symm

/-- Lists with the same pairs are equal if both have the identifiers in descending order. -/
theorem eq_of_pairwise_descending {l m : List (SessionId × α)}
    (hl : l.Pairwise fun a b => b.1 < a.1) (hm : m.Pairwise fun a b => b.1 < a.1)
    (hmem : ∀ e, e ∈ l ↔ e ∈ m) : l = m := by
  have : Std.Irrefl fun a b : SessionId × α => b.1 < a.1 := ⟨fun a => lt_irrefl a.1⟩
  have : Std.Antisymm fun a b : SessionId × α => b.1 < a.1 :=
    ⟨fun _ _ hab hba => absurd hab (lt_asymm hba)⟩
  exact hl.eq_of_mem_iff hm hmem

/-- Pairs with different identifiers, by descending identifier. -/
theorem mergeSort_descending {l m : List (SessionId × α)} (hl : l.Pairwise fun a b => a.1 ≠ b.1)
    (hm : m.Pairwise fun a b => b.1 < a.1) (hmem : ∀ e, e ∈ l ↔ e ∈ m) :
    l.mergeSort (fun a b => a.1.descending b.1) = m := by
  have : Std.Total fun a b : SessionId × α => b.1 ≤ a.1 := ⟨fun a b => le_total b.1 a.1⟩
  have : IsTrans (SessionId × α) fun a b => b.1 ≤ a.1 := ⟨fun _ _ _ hab hbc => le_trans hbc hab⟩
  have hperm := List.mergeSort_perm l fun a b => a.1.descending b.1
  have hweak := pairwise_mergeSort_iff (r := fun a b : SessionId × α => b.1 ≤ a.1)
    (fun a b => a.1.descending b.1) (fun _ _ => Iff.rfl) l
  have hne : (l.mergeSort fun a b => a.1.descending b.1).Pairwise fun a b => a.1 ≠ b.1 :=
    (hperm.pairwise_iff fun hab hba => hab hba.symm).2 hl
  have hstrict : (l.mergeSort fun a b => a.1.descending b.1).Pairwise fun a b => b.1 < a.1 :=
    (hweak.and hne).imp fun h => lt_of_le_of_ne h.1 h.2.symm
  exact eq_of_pairwise_descending hstrict hm fun e => by rw [List.mem_mergeSort, hmem]

end SessionId

namespace Slot

/-- Different names are names of different slots. -/
theorem nodup_filterMap_ofFileName? {names : List String} (h : names.Nodup) :
    (names.filterMap ofFileName?).Nodup := by
  refine List.Pairwise.filterMap _ (R := (· ≠ ·)) (fun a b hab s hs t ht hst => ?_) h
  rw [← fileName_of_ofFileName? hs, ← fileName_of_ofFileName? ht, hst] at hab
  exact hab rfl

theorem ascending_iff {a b : Slot} : a.ascending b = true ↔ a.sequence ≤ b.sequence := by
  rw [ascending, decide_eq_true_iff]

theorem ascending_trans (a b c : Slot) (hab : a.ascending b = true) (hbc : b.ascending c = true) :
    a.ascending c = true :=
  ascending_iff.2 (UInt64.le_trans (ascending_iff.1 hab) (ascending_iff.1 hbc))

theorem ascending_total (a b : Slot) : (a.ascending b || b.ascending a) = true := by
  rw [Bool.or_eq_true, ascending_iff, ascending_iff]
  exact UInt64.le_total a.sequence b.sequence

/-- Slots by their numbers. -/
theorem pairwise_le_mergeSort (l : List Slot) :
    (l.mergeSort ascending).Pairwise fun a b => a.sequence ≤ b.sequence :=
  (List.pairwise_mergeSort ascending_trans ascending_total l).imp ascending_iff.1

/-- Slots with different numbers, by ascending number. -/
theorem pairwise_mergeSort {l : List Slot} (h : l.Nodup)
    (hnumbers : ∀ a ∈ l, ∀ b ∈ l, a.sequence = b.sequence → a = b) :
    (l.mergeSort ascending).Pairwise fun a b => a.sequence < b.sequence := by
  have hnodup : (l.mergeSort ascending).Nodup := (List.mergeSort_perm l _).nodup_iff.2 h
  refine ((pairwise_le_mergeSort l).and hnodup).imp_of_mem fun {a b} ha hb hab => ?_
  exact UInt64.lt_of_le_of_ne hab.1 fun he =>
    hab.2 (hnumbers a (List.mem_mergeSort.1 ha) b (List.mem_mergeSort.1 hb) he)

/-- The greatest number, or zero if there are no slots. -/
def greatest (slots : List Slot) : Nat := (slots.map fun slot => slot.sequence.toNat).foldr max 0

theorem le_greatest {slots : List Slot} {slot : Slot} (h : slot ∈ slots) :
    slot.sequence.toNat ≤ greatest slots := by
  induction slots with
  | nil => exact absurd h List.not_mem_nil
  | cons first slots ih =>
    rw [greatest, List.map_cons, List.foldr_cons]
    rcases List.mem_cons.1 h with rfl | h
    · exact Nat.le_max_left _ _
    · exact Nat.le_trans (ih h) (Nat.le_max_right _ _)

theorem greatest_le {slots : List Slot} {bound : Nat}
    (h : ∀ slot ∈ slots, slot.sequence.toNat ≤ bound) : greatest slots ≤ bound := by
  induction slots with
  | nil => exact Nat.zero_le bound
  | cons first slots ih =>
    rw [greatest, List.map_cons, List.foldr_cons]
    exact Nat.max_le.2 ⟨h first List.mem_cons_self, ih fun s hs => h s (List.mem_cons_of_mem _ hs)⟩

/-- In slots in the order of their numbers the last one has the greatest number. -/
theorem greatest_concat {slots : List Slot} {last : Slot}
    (h : (slots ++ [last]).Pairwise fun a b => a.sequence ≤ b.sequence) :
    greatest (slots ++ [last]) = last.sequence.toNat := by
  refine Nat.le_antisymm (greatest_le fun s hs => ?_)
    (le_greatest (List.mem_append_right _ List.mem_cons_self))
  rcases List.mem_append.1 hs with hs | hs
  · exact UInt64.le_iff_toNat_le.1 ((List.pairwise_append.1 h).2.2 s hs last List.mem_cons_self)
  · rw [List.mem_singleton.1 hs]

/-- An event file is visible. -/
theorem visible_of_ofFileName? {fileName : String} {slot : Slot}
    (h : ofFileName? fileName = some slot) : fileName.toList.head? ≠ some '.' := by
  simp only [ofFileName?] at h
  split at h
  · next hstem =>
    obtain ⟨rest, hrest⟩ := List.isPrefixOf_iff_prefix.1 hstem
    rw [← hrest]
    exact Option.some_inj.not.2 (by decide)
  · contradiction

end Slot

end ReportVault
