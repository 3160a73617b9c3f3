import Mathlib.Data.List.Nodup
import Mathlib.Data.List.Perm.Subperm
import ReportVault.Proofs.FileSystem.Tree

/-!
# ReportVault.Proofs.FileSystem.SpareName

The names of temporary files.

`lookup_spareName` says that no entry has the name that is drawn.  It is the least one that is
free, so it has its usual length as long as some name of that length is free (`HasSpareName`); a
directory full of temporary files would have none.
-/

namespace ReportVault.FileSystem.Node

/-- The number of temporary names of the usual length. -/
def spareNames : Nat := Nat.pow 10 32

/-- Whether a temporary name of the usual length is free. -/
def HasSpareName (entries : List (String × Node)) : Prop :=
  ∃ n < spareNames, entries.lookup (temporaryName n) = none

theorem toList_temporaryName (n : Nat) :
    (temporaryName n).toList = ".tmp-".toList ++ Text.zeroPaddedDigits n 32 := by
  rw [temporaryName, String.toList_append]
  exact congrArg _ String.toList_ofList

theorem temporaryName_inj {n k : Nat} (h : temporaryName n = temporaryName k) : n = k := by
  have hlist := congrArg String.toList h
  rw [toList_temporaryName, toList_temporaryName, List.append_cancel_left_eq] at hlist
  have hread := Text.natOfDigits?_zeroPaddedDigits n 32
  rw [hlist, Text.natOfDigits?_zeroPaddedDigits, Option.some.injEq] at hread
  exact hread.symm

/-- A directory cannot have as many temporary names as it has entries and one more. -/
theorem exists_free (entries : List (String × Node)) :
    ∃ n < entries.length + 1, entries.lookup (temporaryName n) = none := by
  by_contra hall
  have htaken : ∀ n < entries.length + 1, temporaryName n ∈ entries.map Prod.fst := by
    intro n hn
    have hsome : entries.lookup (temporaryName n) ≠ none := fun h => hall ⟨n, hn, h⟩
    rw [Ne, List.lookup_eq_none_iff] at hsome
    push Not at hsome
    obtain ⟨e, he, hname⟩ := hsome
    exact List.mem_map.2 ⟨e, he, (by simpa using hname : temporaryName n = e.1).symm⟩
  have hnodup : ((List.range (entries.length + 1)).map temporaryName).Nodup :=
    List.Nodup.map (fun _ _ => temporaryName_inj) List.nodup_range
  have hsubset : (List.range (entries.length + 1)).map temporaryName ⊆ entries.map Prod.fst := by
    intro name hname
    obtain ⟨n, hn, rfl⟩ := List.mem_map.1 hname
    exact htaken n (List.mem_range.1 hn)
  have hle := (List.subperm_of_subset hnodup hsubset).length_le
  simp only [List.length_map, List.length_range] at hle
  omega

/-- The name that is drawn is the least one that is free. -/
theorem spareName_eq (entries : List (String × Node)) :
    ∃ n, spareName entries = temporaryName n ∧ entries.lookup (temporaryName n) = none ∧
      ∀ k, entries.lookup (temporaryName k) = none → n ≤ k := by
  obtain ⟨free, hfree, hnone⟩ := exists_free entries
  cases hfind : (List.range (entries.length + 1)).find? fun n =>
      (entries.lookup (temporaryName n)).isNone with
  | none =>
    have hno := List.find?_eq_none.1 hfind free (List.mem_range.2 hfree)
    rw [hnone] at hno
    exact absurd rfl hno
  | some n =>
    obtain ⟨hn, hmem, hleast⟩ := List.find?_range_eq_some.1 hfind
    refine ⟨n, by rw [spareName, hfind, Option.getD_some], Option.isNone_iff_eq_none.1 hn, ?_⟩
    intro k hk
    by_contra hlt
    have hno := hleast k (by omega)
    rw [hk] at hno
    exact absurd hno (by simp)

/-- No entry has the name that is drawn. -/
theorem lookup_spareName (entries : List (String × Node)) :
    entries.lookup (spareName entries) = none := by
  obtain ⟨n, hname, hnone, -⟩ := spareName_eq entries
  rw [hname, hnone]

/-- The characters of a temporary name are those of its stem and digits. -/
theorem not_mem_temporaryName {c : Char} (hstem : c ∉ ".tmp-".toList) (hdigit : c.isDigit = false)
    (n : Nat) : c ∉ (temporaryName n).toList := by
  rw [toList_temporaryName, List.mem_append, not_or]
  refine ⟨hstem, fun hc => ?_⟩
  rw [Text.isDigit_of_mem_zeroPaddedDigits hc] at hdigit
  exact absurd hdigit (by decide)

theorem length_temporaryName (n : Nat) :
    (temporaryName n).toList.length = 5 + (Text.zeroPaddedDigits n 32).length := by
  rw [toList_temporaryName, List.length_append]
  rfl

/-- Every temporary name is one part of a path. -/
theorem isPart_temporaryName (n : Nat) : IsPart (temporaryName n) :=
  isPart_of_length (by rw [length_temporaryName]; omega)
    (not_mem_temporaryName (by decide) (by decide) n)

/-- Temporary names of the usual length are names that an entry can have. -/
theorem isEntryName_temporaryName {n : Nat} (h : n < spareNames) :
    IsEntryName (temporaryName n) := by
  refine (isPart_temporaryName n).isEntryName_of_length
    (not_mem_temporaryName (by decide) (by decide) n) ?_
  have hdigits := Text.length_zeroPaddedDigits_le (k := 32) (Nat.le_refl 32) (by decide) h
  rw [length_temporaryName, maxNameBytes]
  omega

theorem isPart_spareName (entries : List (String × Node)) : IsPart (spareName entries) := by
  obtain ⟨n, hname, -, -⟩ := spareName_eq entries
  exact hname ▸ isPart_temporaryName n

/-- Where a name of the usual length is free, such a name is drawn. -/
theorem isEntryName_spareName {entries : List (String × Node)} (h : HasSpareName entries) :
    IsEntryName (spareName entries) := by
  obtain ⟨k, hk, hnone⟩ := h
  obtain ⟨n, hname, -, hleast⟩ := spareName_eq entries
  have hle := hleast k hnone
  rw [hname]
  exact isEntryName_temporaryName (by omega)

/-- Names that are drawn are hidden. -/
theorem temporaryName_hidden (n : Nat) : (temporaryName n).toList.head? = some '.' := by
  rw [toList_temporaryName]
  rfl

theorem hasSpareName_nil : HasSpareName [] := ⟨0, by decide, rfl⟩

/-- A visible entry takes no temporary name. -/
theorem HasSpareName.setEntry {entries : List (String × Node)} (h : HasSpareName entries)
    {name : String} (hname : name.toList.head? ≠ some '.') (m : Node) :
    HasSpareName (setEntry name m entries) := by
  obtain ⟨n, hn, hnone⟩ := h
  have hne : temporaryName n ≠ name := by
    rintro rfl
    exact hname (temporaryName_hidden n)
  exact ⟨n, hn, by rw [lookup_setEntry_of_ne m entries hne, hnone]⟩

theorem HasSpareName.dropEntry {entries : List (String × Node)} (h : HasSpareName entries)
    (name : String) : HasSpareName (dropEntry name entries) := by
  obtain ⟨n, hn, hnone⟩ := h
  refine ⟨n, hn, ?_⟩
  by_cases hne : temporaryName n = name
  · rw [hne, lookup_dropEntry_self]
  · rw [lookup_dropEntry_of_ne entries hne, hnone]

end ReportVault.FileSystem.Node
