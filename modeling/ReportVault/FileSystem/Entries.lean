import ReportVault.Bytes

/-!
# ReportVault.FileSystem.Entries

Lists of named things, as a directory has them.

`setEntry` and `dropEntry` change one entry.  `lookup_setEntry_self`, `lookup_setEntry_of_ne` and
their counterparts for `dropEntry` say that no other entry changes.
-/

namespace ReportVault.FileSystem

/-- The entries with `a` under `name`, in the place of what was there, or at the end. -/
def setEntry (name : String) (a : α) : List (String × α) → List (String × α)
  | [] => [(name, a)]
  | (other, o) :: rest =>
    if other = name then (name, a) :: rest else (other, o) :: setEntry name a rest

/-- The entries without the one under `name`. -/
def dropEntry (name : String) (entries : List (String × α)) : List (String × α) :=
  entries.filter fun e => e.1 ≠ name

@[simp] theorem lookup_setEntry_self (name : String) (a : α) (entries : List (String × α)) :
    (setEntry name a entries).lookup name = some a := by
  induction entries with
  | nil => simp [setEntry]
  | cons e entries ih =>
    obtain ⟨key, value⟩ := e
    by_cases h : key = name
    · simp [setEntry, h]
    · have h' : (name == key) = false := beq_eq_false_iff_ne.2 fun hn => h hn.symm
      simp [setEntry, h, List.lookup_cons, h', ih]

/-- The other entries stay. -/
theorem lookup_setEntry_of_ne {name other : String} (a : α) (entries : List (String × α))
    (h : other ≠ name) : (setEntry name a entries).lookup other = entries.lookup other := by
  have h' : (other == name) = false := beq_eq_false_iff_ne.2 h
  induction entries with
  | nil => simp [setEntry, List.lookup_cons, h']
  | cons e entries ih =>
    obtain ⟨key, value⟩ := e
    by_cases he : key = name
    · simp [setEntry, he, List.lookup_cons, h']
    · simp [setEntry, he, List.lookup_cons, ih]

@[simp] theorem lookup_dropEntry_self (name : String) (entries : List (String × α)) :
    (dropEntry name entries).lookup name = none := by
  simp only [dropEntry, List.lookup_eq_none_iff, List.mem_filter, decide_eq_true_eq]
  exact fun e he => bne_iff_ne.2 fun hn => he.2 hn.symm

/-- The other entries stay. -/
theorem lookup_dropEntry_of_ne {name other : String} (entries : List (String × α))
    (h : other ≠ name) : (dropEntry name entries).lookup other = entries.lookup other := by
  induction entries with
  | nil => rfl
  | cons e entries ih =>
    obtain ⟨key, value⟩ := e
    simp only [dropEntry] at ih
    by_cases he : key = name
    · have h' : (other == name) = false := beq_eq_false_iff_ne.2 h
      simpa [dropEntry, he, List.lookup_cons, h'] using ih
    · simp only [dropEntry, List.filter_cons, he, ne_eq, not_false_eq_true, decide_true, if_true,
        List.lookup_cons, ih]

/-! ## One change after another -/

/-- A name without an entry gets a new one, at the end. -/
theorem setEntry_of_lookup_eq_none {name : String} {a : α} {entries : List (String × α)}
    (h : entries.lookup name = none) : setEntry name a entries = entries ++ [(name, a)] := by
  induction entries with
  | nil => rfl
  | cons e entries ih =>
    obtain ⟨key, value⟩ := e
    by_cases he : key = name
    · simp [he] at h
    · have h' : (name == key) = false := beq_eq_false_iff_ne.2 fun hn => he hn.symm
      rw [List.lookup_cons, h'] at h
      rw [setEntry, if_neg he, ih h, List.cons_append]

/-- Nothing changes if the entry is what it was. -/
theorem setEntry_of_lookup_eq_some {name : String} {a : α} {entries : List (String × α)}
    (h : entries.lookup name = some a) : setEntry name a entries = entries := by
  induction entries with
  | nil => simp at h
  | cons e entries ih =>
    obtain ⟨key, value⟩ := e
    by_cases he : key = name
    · subst he
      rw [List.lookup_cons_self, Option.some.injEq] at h
      rw [setEntry, if_pos rfl, h]
    · have h' : (name == key) = false := beq_eq_false_iff_ne.2 fun hn => he hn.symm
      rw [List.lookup_cons, h'] at h
      rw [setEntry, if_neg he, ih h]

/-- The last change of an entry counts. -/
@[simp] theorem setEntry_setEntry (name : String) (a b : α) (entries : List (String × α)) :
    setEntry name b (setEntry name a entries) = setEntry name b entries := by
  induction entries with
  | nil => simp [setEntry]
  | cons e entries ih =>
    obtain ⟨key, value⟩ := e
    by_cases he : key = name
    · simp [setEntry, he]
    · simp [setEntry, he, ih]

/-- An entry that is not there need not be dropped. -/
theorem dropEntry_of_lookup_eq_none {name : String} {entries : List (String × α)}
    (h : entries.lookup name = none) : dropEntry name entries = entries := by
  rw [List.lookup_eq_none_iff] at h
  refine List.filter_eq_self.2 fun e he => ?_
  have hne := h e he
  simp only [bne_iff_ne] at hne
  simp [Ne.symm hne]

/-- An entry that was made and dropped leaves no trace. -/
theorem dropEntry_setEntry_of_lookup_eq_none {name : String} {a : α}
    {entries : List (String × α)} (h : entries.lookup name = none) :
    dropEntry name (setEntry name a entries) = entries := by
  rw [setEntry_of_lookup_eq_none h]
  have hdrop := dropEntry_of_lookup_eq_none h
  simp only [dropEntry] at hdrop ⊢
  rw [List.filter_append, hdrop]
  simp

/-! ## Names and contents -/

theorem map_setEntry (f : α → β) (name : String) (a : α) (entries : List (String × α)) :
    (setEntry name a entries).map (fun e => (e.1, f e.2)) =
      setEntry name (f a) (entries.map fun e => (e.1, f e.2)) := by
  induction entries with
  | nil => rfl
  | cons e entries ih =>
    obtain ⟨key, value⟩ := e
    by_cases he : key = name
    · simp [setEntry, he]
    · simp [setEntry, he, ih]

theorem map_dropEntry (f : α → β) (name : String) (entries : List (String × α)) :
    (dropEntry name entries).map (fun e => (e.1, f e.2)) =
      dropEntry name (entries.map fun e => (e.1, f e.2)) := by
  simp only [dropEntry, List.filter_map]
  rfl

theorem lookup_map (f : α → β) (name : String) (entries : List (String × α)) :
    (entries.map fun e => (e.1, f e.2)).lookup name = (entries.lookup name).map f := by
  induction entries with
  | nil => rfl
  | cons e entries ih =>
    rw [List.map_cons, List.lookup_cons, List.lookup_cons]
    cases name == e.1 <;> simp [ih]

/-- The names that there are afterwards. -/
theorem mem_names_setEntry {name other : String} {a : α} {entries : List (String × α)} :
    other ∈ (setEntry name a entries).map Prod.fst ↔
      other = name ∨ other ∈ entries.map Prod.fst := by
  induction entries with
  | nil => simp [setEntry]
  | cons e entries ih =>
    obtain ⟨key, value⟩ := e
    by_cases he : key = name
    · simp [setEntry, he]
    · rw [setEntry, if_neg he, List.map_cons, List.mem_cons, ih, List.map_cons, List.mem_cons]
      exact or_left_comm

/-- What is there afterwards: the new entry, or one that was there. -/
theorem mem_setEntry {name : String} {a : α} {entries : List (String × α)} {e : String × α}
    (h : e ∈ setEntry name a entries) : e = (name, a) ∨ e ∈ entries := by
  induction entries with
  | nil => exact Or.inl (List.mem_singleton.1 h)
  | cons first entries ih =>
    rw [setEntry] at h
    split at h
    · exact (List.mem_cons.1 h).imp_right (List.mem_cons_of_mem _)
    · rcases List.mem_cons.1 h with he | h
      · exact Or.inr (he ▸ List.mem_cons_self)
      · exact (ih h).imp_right (List.mem_cons_of_mem _)

theorem nodup_setEntry {name : String} {a : α} {entries : List (String × α)}
    (h : (entries.map Prod.fst).Nodup) : ((setEntry name a entries).map Prod.fst).Nodup := by
  induction entries with
  | nil => simp [setEntry]
  | cons e entries ih =>
    obtain ⟨key, value⟩ := e
    rw [List.map_cons, List.nodup_cons] at h
    by_cases he : key = name
    · subst he
      rw [setEntry, if_pos rfl]
      exact List.nodup_cons.2 h
    · rw [setEntry, if_neg he, List.map_cons, List.nodup_cons, mem_names_setEntry]
      exact ⟨fun hk => hk.elim he h.1, ih h.2⟩

theorem nodup_dropEntry {name : String} {entries : List (String × α)}
    (h : (entries.map Prod.fst).Nodup) : ((dropEntry name entries).map Prod.fst).Nodup :=
  h.sublist (List.filter_sublist.map _)

/-- Without a name twice, what is listed is what a lookup finds. -/
theorem lookup_eq_some_iff {name : String} {a : α} {entries : List (String × α)}
    (h : (entries.map Prod.fst).Nodup) : entries.lookup name = some a ↔ (name, a) ∈ entries := by
  induction entries with
  | nil => simp
  | cons e entries ih =>
    obtain ⟨key, value⟩ := e
    rw [List.map_cons, List.nodup_cons] at h
    rw [List.lookup_cons, List.mem_cons, Prod.mk.injEq]
    by_cases he : name = key
    · subst he
      have hnot : (name, a) ∉ entries := fun hm => h.1 (List.mem_map.2 ⟨_, hm, rfl⟩)
      simp [hnot, eq_comm]
    · rw [beq_eq_false_iff_ne.2 he]
      simp [he, ih h.2]

end ReportVault.FileSystem
