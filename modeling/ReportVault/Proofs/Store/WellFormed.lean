import ReportVault.Proofs.Store.Vault

/-!
# ReportVault.Proofs.Store.WellFormed

Calls and vaults in which everything has a name that an entry of a directory can have.

Well-formed vaults are closed under proper calls (`Vault.IsWellFormed.perform`), and what they list
can be named in a proper call again (`Vault.IsWellFormed.isProperAnswer`).
-/

namespace ReportVault

open FileSystem

namespace Store

theorem checkedName_eq_ok_iff {id : SessionId} {name : String} :
    checkedName id = .ok name ↔ isPlainName id.name = true ∧ name = id.name := by
  rw [checkedName]
  split
  · next h => simp [h, eq_comm]
  · next h => simp [h]

theorem checkedName_of_isPlainName {id : SessionId} (h : isPlainName id.name = true) :
    checkedName id = .ok id.name :=
  checkedName_eq_ok_iff.2 ⟨h, rfl⟩

theorem no_slash_of_isPlainName {name : String} (h : isPlainName name = true) :
    '/' ∉ name.toList := by
  simp only [isPlainName, Bool.and_eq_true, List.all_eq_true, bne_iff_ne] at h
  exact fun hmem => (h.2 _ hmem).1.1 rfl

/-- An identifier that is not refused is one part of a path. -/
theorem isPart_of_isPlainName {name : String} (h : isPlainName name = true) : IsPart name := by
  have hslash := no_slash_of_isPlainName h
  simp only [isPlainName, Bool.and_eq_true, bne_iff_ne] at h
  refine ⟨?_, ?_, ?_, hslash⟩ <;> rintro rfl <;> simp at h

end Store

/-- Whether a name is shown by a listing. -/
abbrev IsVisible (name : String) : Prop := name.toList.head? ≠ some '.'

theorem Store.isVisible_of_isPlainName {name : String} (h : isPlainName name = true) :
    IsVisible name := by
  simp only [isPlainName, Bool.and_eq_true, bne_iff_ne] at h
  exact h.1.2

/-- An identifier that a session of a store can have. -/
structure SessionId.IsStorable (id : SessionId) : Prop where
  isPlain : Store.isPlainName id.name = true
  isShort : id.name.utf8ByteSize ≤ Node.maxNameBytes

namespace SessionId.IsStorable

variable {id : SessionId}

theorem isVisible (h : id.IsStorable) : IsVisible id.name :=
  Store.isVisible_of_isPlainName h.isPlain

theorem isEntryName (h : id.IsStorable) : IsEntryName id.name := by
  have hpart := Store.isPart_of_isPlainName h.isPlain
  have hplain := h.isPlain
  simp only [Store.isPlainName, Bool.and_eq_true, List.all_eq_true, bne_iff_ne] at hplain
  exact ⟨hpart.ne_empty, hpart.ne_dot, hpart.ne_dots, hpart.no_slash,
    fun hmem => (hplain.2 _ hmem).2 rfl, h.isShort⟩

theorem checkedName (h : id.IsStorable) : Store.checkedName id = .ok id.name :=
  Store.checkedName_of_isPlainName h.isPlain

end SessionId.IsStorable

/-- An identifier that is no longer than a name may be. -/
def SessionId.IsShort (id : SessionId) : Prop := id.name.utf8ByteSize ≤ Node.maxNameBytes

/-! ## Calls -/

namespace Store.Call

/-- Whether what a call names can be named: identifiers are short enough, and files have names that
an entry can have.  Hidden files are not written; the store itself writes such files. -/
def IsProper : Store.Call α → Prop
  | .write id name _ => id.IsShort ∧ IsEntryName name ∧ IsVisible name
  | .read id name => id.IsShort ∧ IsEntryName name
  | .delete id name => id.IsShort ∧ IsEntryName name
  | .slots id => id.IsShort
  | .openIds => True
  | .deleteSession id => id.IsShort
  | .reportIds => True
  | .readReport id => id.IsShort
  | .writeReport id _ _ => id.IsShort
  | .deleteReport id => id.IsShort
  | .deleteAll => True

theorem IsProper.isShort {call : Store.Call α} (h : call.IsProper) {id : SessionId}
    (hid : call.session? = some id) : id.IsShort := by
  cases call <;> cases hid
  case write | read | delete => exact h.1
  all_goals exact h

/-- Whether the files that a call names have names that an entry can have, be the identifier of the
session too long for one or not. -/
def NamesEntries : Store.Call α → Prop
  | .write _ name _ => IsEntryName name ∧ IsVisible name
  | .read _ name => IsEntryName name
  | .delete _ name => IsEntryName name
  | _ => True

theorem NamesEntries.isProper {call : Store.Call α} (h : call.NamesEntries)
    (hshort : ∀ id, call.session? = some id → id.IsShort) : call.IsProper := by
  cases call with
  | write id name contents => exact ⟨hshort id rfl, h⟩
  | read id name => exact ⟨hshort id rfl, h⟩
  | delete id name => exact ⟨hshort id rfl, h⟩
  | slots id => exact hshort id rfl
  | openIds => trivial
  | deleteSession id => exact hshort id rfl
  | reportIds => trivial
  | readReport id => exact hshort id rfl
  | writeReport id tier contents => exact hshort id rfl
  | deleteReport id => exact hshort id rfl
  | deleteAll => trivial

/-- Whether what a listing gives can be named in a call. -/
def IsProperAnswer : Store.Call α → α → Prop
  | .slots _, found =>
    ∀ slot ∈ found, IsEntryName slot.fileName ∧ Slot.ofFileName? slot.fileName = some slot
  | .openIds, ids => ∀ id ∈ ids, id.IsShort
  | .reportIds, entries => ∀ e ∈ entries, e.1.IsShort
  | _, _ => True

end Store.Call

/-! ## Vaults -/

/-- The files of a session have different names that entries can have. -/
structure Files.IsWellFormed (files : Files) : Prop where
  nodup : (files.map Prod.fst).Nodup
  isName : ∀ name ∈ files.map Prod.fst, IsEntryName name

namespace Files.IsWellFormed

variable {files : Files} {name : String}

theorem nil : Files.IsWellFormed [] := ⟨List.nodup_nil, by simp⟩

theorem setEntry (h : files.IsWellFormed) (hname : IsEntryName name) (item : Item) :
    Files.IsWellFormed (setEntry name item files) where
  nodup := nodup_setEntry h.nodup
  isName other hother := by
    rcases mem_names_setEntry.1 hother with he | hmem
    · exact he ▸ hname
    · exact h.isName other hmem

theorem dropEntry (h : files.IsWellFormed) (name : String) :
    Files.IsWellFormed (dropEntry name files) where
  nodup := nodup_dropEntry h.nodup
  isName other hother := by
    obtain ⟨e, he, rfl⟩ := List.mem_map.1 hother
    exact h.isName _ (List.mem_map.2 ⟨e, List.mem_of_mem_filter he, rfl⟩)

end Files.IsWellFormed

/-- Sessions and files have names that entries can have. -/
structure Vault.IsWellFormed (v : Vault) : Prop where
  isStorable_open : ∀ id ∈ v.sessions, id.IsStorable
  files : ∀ id files, v.sessions.lookup id = some files → files.IsWellFormed
  isStorable_report : ∀ tier, ∀ id ∈ v.reports tier, id.IsStorable

namespace Vault.IsWellFormed

variable {v : Vault} {id : SessionId} {name : String}

theorem empty : Vault.empty.IsWellFormed where
  isStorable_open _ h := absurd h Finmap.notMem_empty
  files id files h := by simp [Vault.empty] at h
  isStorable_report _ _ h := absurd h Finmap.notMem_empty

theorem files_of (h : v.IsWellFormed) (id : SessionId) : (v.files id).IsWellFormed := by
  cases hopen : v.sessions.lookup id with
  | none =>
    rw [Vault.files, hopen]
    exact Files.IsWellFormed.nil
  | some files =>
    rw [Vault.files_of_lookup hopen]
    exact h.files id files hopen

theorem setFiles (h : v.IsWellFormed) (hid : id.IsStorable) {files : Files}
    (hfiles : files.IsWellFormed) : (v.setFiles id files).IsWellFormed where
  isStorable_open other hother := by
    rcases Finmap.mem_insert.1 hother with he | hmem
    · exact he ▸ hid
    · exact h.isStorable_open other hmem
  files other found hfound := by
    by_cases he : other = id
    · rw [he, Vault.setFiles, Finmap.lookup_insert, Option.some.injEq] at hfound
      exact hfound ▸ hfiles
    · rw [Vault.setFiles, Finmap.lookup_insert_of_ne _ he] at hfound
      exact h.files other found hfound
  isStorable_report := h.isStorable_report

theorem dropFile (h : v.IsWellFormed) (id : SessionId) (name : String) :
    (v.dropFile id name).IsWellFormed := by
  cases hitem : v.item? id name with
  | none =>
    rw [Vault.dropFile_of_item?_eq_none hitem]
    exact h
  | some item =>
    rw [Vault.dropFile_of_item?_eq_some hitem]
    cases hopen : v.sessions.lookup id with
    | none =>
      rw [Vault.item?, Vault.files, hopen] at hitem
      exact absurd hitem (by simp)
    | some files =>
      have hid := h.isStorable_open id (Finmap.mem_iff.2 ⟨files, hopen⟩)
      exact h.setFiles hid ((h.files_of id).dropEntry name)

theorem close (h : v.IsWellFormed) (id : SessionId) : (v.close id).IsWellFormed where
  isStorable_open other hother := h.isStorable_open other (Finmap.mem_erase.1 hother).2
  files other found hfound := by
    by_cases he : other = id
    · rw [he, Vault.close, Finmap.lookup_erase] at hfound
      exact absurd hfound (by simp)
    · rw [Vault.close, Finmap.lookup_erase_ne he] at hfound
      exact h.files other found hfound
  isStorable_report := h.isStorable_report

theorem setReport (h : v.IsWellFormed) (hid : id.IsStorable) (tier : Tier) (contents : Bytes) :
    (v.setReport id tier contents).IsWellFormed where
  isStorable_open := h.isStorable_open
  files := h.files
  isStorable_report t other hother := by
    simp only [Vault.setReport] at hother
    split at hother
    · rcases Finmap.mem_insert.1 hother with he | hmem
      · exact he ▸ hid
      · exact h.isStorable_report t other hmem
    · exact h.isStorable_report t other (Finmap.mem_erase.1 hother).2

theorem dropReport (h : v.IsWellFormed) (id : SessionId) : (v.dropReport id).IsWellFormed where
  isStorable_open := h.isStorable_open
  files := h.files
  isStorable_report t other hother := h.isStorable_report t other (Finmap.mem_erase.1 hother).2

theorem isStorable_of_checkedName (hshort : id.IsShort) {checked : String}
    (h : Store.checkedName id = .ok checked) : id.IsStorable :=
  ⟨(Store.checkedName_eq_ok_iff.1 h).1, hshort⟩

/-- Proper calls leave a vault well formed. -/
theorem perform (h : v.IsWellFormed) (place : Location) (call : Store.Call α)
    (hcall : call.IsProper) : (v.perform place call).2.IsWellFormed := by
  cases call with
  | write id name contents =>
    rw [Vault.perform, Vault.ifPlain]
    split
    · exact h
    · next checked hchecked =>
      have hid := isStorable_of_checkedName hcall.1 hchecked
      split
      · exact h
      · exact h.setFiles hid ((h.files_of id).setEntry hcall.2.1 _)
  | read id name =>
    rw [Vault.perform, Vault.ifPlain]
    split <;> exact h
  | delete id name =>
    rw [Vault.perform, Vault.ifPlain]
    split
    · exact h
    · split
      · exact h
      · exact h.dropFile id name
  | slots id =>
    rw [Vault.perform, Vault.ifPlain]
    split <;> exact h
  | openIds => exact h
  | deleteSession id =>
    rw [Vault.perform, Vault.ifPlain]
    split
    · exact h
    · exact h.close id
  | reportIds => exact h
  | readReport id =>
    rw [Vault.perform, Vault.ifPlain]
    split <;> exact h
  | writeReport id tier contents =>
    rw [Vault.perform, Vault.ifPlain]
    split
    · exact h
    · next checked hchecked =>
      exact h.setReport (isStorable_of_checkedName hcall hchecked) tier contents
  | deleteReport id =>
    rw [Vault.perform, Vault.ifPlain]
    split
    · exact h
    · exact h.dropReport id
  | deleteAll => exact Vault.IsWellFormed.empty

/-- The slots of a session are the files that have event names. -/
theorem mem_slots {files : Files} {slot : Slot} :
    slot ∈ files.slots ↔
      Slot.ofFileName? slot.fileName = some slot ∧ IsVisible slot.fileName ∧
        ∃ contents, (slot.fileName, Item.file contents) ∈ files := by
  simp only [Files.slots, List.mem_mergeSort, List.mem_filterMap,
    Option.ite_none_right_eq_some, Option.some.injEq, Bool.and_eq_true, bne_iff_ne]
  constructor
  · rintro ⟨fileName, ⟨⟨first, item⟩, hitem, ⟨hfile, hvisible⟩, rfl⟩, hread⟩
    obtain rfl := (Slot.fileName_of_ofFileName? hread).symm
    refine ⟨hread, hvisible, ?_⟩
    cases item with
    | file contents => exact ⟨contents, hitem⟩
    | directory => exact absurd hfile (by simp [Item.isFile])
  · rintro ⟨hread, hvisible, contents, hmem⟩
    exact ⟨slot.fileName, ⟨_, hmem, ⟨rfl, hvisible⟩, rfl⟩, hread⟩

/-- What a listing gives can be named in a call. -/
theorem isProperAnswer (h : v.IsWellFormed) (place : Location) (call : Store.Call α) {a : α}
    (ha : (v.perform place call).1 = .ok a) : call.IsProperAnswer a := by
  cases call with
  | slots id =>
    intro slot hslot
    rw [Vault.perform, Vault.ifPlain] at ha
    split at ha
    · exact absurd ha (by simp)
    · obtain rfl : (v.files id).slots = a := Except.ok.inj ha
      obtain ⟨hread, -, contents, hmem⟩ := mem_slots.1 hslot
      exact ⟨(h.files_of id).isName _ (List.mem_map.2 ⟨_, hmem, rfl⟩), hread⟩
  | openIds =>
    intro id hid
    rw [Vault.perform, Except.ok.injEq] at ha
    subst ha
    rw [Finset.mem_sort, Finmap.mem_keys] at hid
    exact (h.isStorable_open id hid).isShort
  | reportIds =>
    rintro ⟨id, tier⟩ he
    rw [Vault.perform, Except.ok.injEq] at ha
    subst ha
    rw [Vault.mem_reportIds] at he
    obtain ⟨other, hmem⟩ := Vault.mem_finalized.1 (Vault.mem_finalized_of_tier? he)
    exact (h.isStorable_report other id hmem).isShort
  | write id name contents => trivial
  | read id name => trivial
  | delete id name => trivial
  | deleteSession id => trivial
  | readReport id => trivial
  | writeReport id tier contents => trivial
  | deleteReport id => trivial
  | deleteAll => trivial

end Vault.IsWellFormed

end ReportVault
