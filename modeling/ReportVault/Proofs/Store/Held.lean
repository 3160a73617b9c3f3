import ReportVault.Proofs.FileSystem.SpareName
import ReportVault.Proofs.Store.WellFormed

/-!
# ReportVault.Proofs.Store.Held

When the directory of a store holds a vault.

The directory has four shelves: that of the open sessions and one for each tier.  `Shows` says that
the visible entries of a shelf are those of a finite map, which is all that reading takes, and
`IsShelf` that there is room for a temporary file, too; `Vault.IsHeldIn` says that all four shelves
are as the vault says.  Hidden entries, such as temporary files that were left behind, may
be there and do not count.
-/

namespace ReportVault

open FileSystem
open FileSystem.Node (HasSpareName)

/-! ## Shelves -/

/-- The visible entries of a directory are those of a finite map by session. -/
structure Shows (holds : Node → β → Prop) (es : List (String × Node))
    (shelf : Finmap fun _ : SessionId => β) : Prop where
  nodup : (es.map Prod.fst).Nodup
  lookup : ∀ id : SessionId, IsVisible id.name →
    Option.Rel holds (es.lookup id.name) (shelf.lookup id)
  isStorable : ∀ id ∈ shelf, id.IsStorable

/-- The same, and there is a name for one more temporary file. -/
structure IsShelf (holds : Node → β → Prop) (es : List (String × Node))
    (shelf : Finmap fun _ : SessionId => β) : Prop where
  nodup : (es.map Prod.fst).Nodup
  lookup : ∀ id : SessionId, IsVisible id.name →
    Option.Rel holds (es.lookup id.name) (shelf.lookup id)
  isStorable : ∀ id ∈ shelf, id.IsStorable
  hasSpareName : HasSpareName es

/-- The names that a listing of a shelf shows. -/
def IsShelf.visibleNames (kind : EntryKind) (es : List (String × Node)) : List String :=
  (es.map fun (name, n) => (name, n.kind)).filterMap fun (name, k) =>
    if k = kind && name.toList.head? != some '.' then some name else none

section Shelf

variable {holds : Node → β → Prop} {es : List (String × Node)}
  {shelf shelf' : Finmap fun _ : SessionId => β} {id : SessionId}

namespace Shows

/-- An empty directory shows nothing. -/
theorem nil : Shows holds [] (∅ : Finmap fun _ : SessionId => β) where
  nodup := List.nodup_nil
  lookup id _ := by
    rw [Finmap.lookup_empty]
    exact .none
  isStorable id hid := absurd hid Finmap.notMem_empty

theorem setEntry (h : Shows holds es shelf) (hid : id.IsStorable) {n : Node} {b : β}
    (hn : holds n b) : Shows holds (setEntry id.name n es) (shelf.insert id b) where
  nodup := nodup_setEntry h.nodup
  lookup other hother := by
    by_cases he : other = id
    · rw [he, lookup_setEntry_self, Finmap.lookup_insert]
      exact .some hn
    · have hname : other.name ≠ id.name := fun hn => he (by cases other; cases id; simp_all)
      rw [lookup_setEntry_of_ne n es hname, Finmap.lookup_insert_of_ne shelf he]
      exact h.lookup other hother
  isStorable other hother := by
    rcases (Finmap.mem_insert).1 hother with he | hmem
    · exact he ▸ hid
    · exact h.isStorable other hmem

/-- A hidden entry is not shown. -/
theorem setHidden (h : Shows holds es shelf) {name : String} (hname : ¬ IsVisible name)
    (n : Node) : Shows holds (FileSystem.setEntry name n es) shelf where
  nodup := nodup_setEntry h.nodup
  lookup other hother := by
    have hne : other.name ≠ name := fun he => hname (he ▸ hother)
    rw [lookup_setEntry_of_ne n es hne]
    exact h.lookup other hother
  isStorable := h.isStorable

theorem dropEntry (h : Shows holds es shelf) (id : SessionId) :
    Shows holds (dropEntry id.name es) (shelf.erase id) where
  nodup := nodup_dropEntry h.nodup
  lookup other hother := by
    by_cases he : other = id
    · rw [he, lookup_dropEntry_self, Finmap.lookup_erase]
      exact .none
    · have hname : other.name ≠ id.name := fun hn => he (by cases other; cases id; simp_all)
      rw [lookup_dropEntry_of_ne es hname, Finmap.lookup_erase_ne he]
      exact h.lookup other hother
  isStorable other hother := h.isStorable other (Finmap.mem_erase.1 hother).2

/-- What stands under the name of a session. -/
theorem lookup_eq_some (h : Shows holds es shelf) (hid : IsVisible id.name) {b : β}
    (hb : shelf.lookup id = some b) : ∃ n, es.lookup id.name = some n ∧ holds n b := by
  have hrel := h.lookup id hid
  rw [hb] at hrel
  cases hlookup : es.lookup id.name with
  | none => rw [hlookup] at hrel; cases hrel
  | some n =>
    rw [hlookup] at hrel
    cases hrel with
    | some hn => exact ⟨n, rfl, hn⟩

theorem lookup_eq_none (h : Shows holds es shelf) (hid : IsVisible id.name)
    (hnone : shelf.lookup id = none) : es.lookup id.name = none := by
  have hrel := h.lookup id hid
  rw [hnone] at hrel
  cases hlookup : es.lookup id.name with
  | none => rfl
  | some n => rw [hlookup] at hrel; cases hrel

theorem visibleNames_sublist (kind : EntryKind) (es : List (String × Node)) :
    (IsShelf.visibleNames kind es).Sublist (es.map Prod.fst) := by
  induction es with
  | nil => exact List.Sublist.slnil
  | cons e es ih =>
    obtain ⟨name, n⟩ := e
    simp only [IsShelf.visibleNames, List.map_cons, List.filterMap_cons] at ih ⊢
    split
    · exact ih.cons _
    · next shown hshown =>
      split at hshown
      · rw [Option.some.injEq] at hshown
        subst hshown
        exact ih.cons_cons _
      · exact absurd hshown (by simp)

/-- A listing shows each session of the shelf once, and no other one. -/
theorem visibleNames_spec (h : Shows holds es shelf) {kind : EntryKind}
    (hkind : ∀ n b, holds n b → n.kind = kind) :
    ((IsShelf.visibleNames kind es).map SessionId.mk).Nodup ∧
      ∀ id, id ∈ (IsShelf.visibleNames kind es).map SessionId.mk ↔ id ∈ shelf := by
  have hmem : ∀ name, name ∈ IsShelf.visibleNames kind es ↔
      IsVisible name ∧ ∃ n, (name, n) ∈ es ∧ n.kind = kind := by
    intro name
    simp only [IsShelf.visibleNames, List.mem_filterMap, List.mem_map, Option.ite_none_right_eq_some,
      Bool.and_eq_true, decide_eq_true_eq, bne_iff_ne, Option.some.injEq]
    constructor
    · rintro ⟨⟨other, k⟩, ⟨⟨first, n⟩, hn, ⟨⟩⟩, ⟨hk, hvisible⟩, rfl⟩
      exact ⟨hvisible, n, hn, hk⟩
    · rintro ⟨hvisible, n, hn, hk⟩
      exact ⟨(name, n.kind), ⟨(name, n), hn, rfl⟩, ⟨hk, hvisible⟩, rfl⟩
  constructor
  · refine List.Nodup.map (fun a b hab => by cases hab; rfl) ?_
    exact h.nodup.sublist (visibleNames_sublist kind es)
  · intro id
    have hname : id ∈ (IsShelf.visibleNames kind es).map SessionId.mk ↔
        id.name ∈ IsShelf.visibleNames kind es := by
      constructor
      · intro hid
        obtain ⟨name, hname, rfl⟩ := List.mem_map.1 hid
        exact hname
      · exact fun hid => List.mem_map.2 ⟨id.name, hid, rfl⟩
    rw [hname, hmem, Finmap.mem_iff]
    constructor
    · rintro ⟨hvisible, n, hn, -⟩
      have hrel := h.lookup id hvisible
      rw [(lookup_eq_some_iff h.nodup).2 hn] at hrel
      cases hb : shelf.lookup id with
      | none => rw [hb] at hrel; cases hrel
      | some b => exact ⟨b, rfl⟩
    · rintro ⟨b, hb⟩
      have hvisible := (h.isStorable id (Finmap.mem_iff.2 ⟨b, hb⟩)).isVisible
      obtain ⟨n, hn, hholds⟩ := h.lookup_eq_some hvisible hb
      exact ⟨hvisible, n, (lookup_eq_some_iff h.nodup).1 hn, hkind n b hholds⟩

end Shows

namespace IsShelf

/-- A shelf shows what it has. -/
theorem shows (h : IsShelf holds es shelf) : Shows holds es shelf :=
  ⟨h.nodup, h.lookup, h.isStorable⟩

theorem of_shows (h : Shows holds es shelf) (hspare : HasSpareName es) : IsShelf holds es shelf :=
  ⟨h.nodup, h.lookup, h.isStorable, hspare⟩

/-- An empty directory is an empty shelf. -/
theorem nil : IsShelf holds [] (∅ : Finmap fun _ : SessionId => β) :=
  of_shows Shows.nil Node.hasSpareName_nil

theorem setEntry (h : IsShelf holds es shelf) (hid : id.IsStorable) {n : Node} {b : β}
    (hn : holds n b) : IsShelf holds (setEntry id.name n es) (shelf.insert id b) :=
  of_shows (h.shows.setEntry hid hn) (h.hasSpareName.setEntry hid.isVisible n)

theorem dropEntry (h : IsShelf holds es shelf) (id : SessionId) :
    IsShelf holds (dropEntry id.name es) (shelf.erase id) :=
  of_shows (h.shows.dropEntry id) (h.hasSpareName.dropEntry id.name)

end IsShelf

end Shelf

/-! ## Vaults -/

/-- What a node is, as seen from its directory. -/
def Item.ofNode : Node → Item
  | .file contents => .file contents
  | .directory _ => .directory

/-- What the directory of an open session shows. -/
def Files.ofEntries (es : List (String × Node)) : Files := es.map fun e => (e.1, Item.ofNode e.2)

/-- The directory of an open session holds its files. -/
structure HoldsFiles (n : Node) (files : Files) : Prop where
  isDirectory : n = .directory n.entries
  files_eq : files = Files.ofEntries n.entries
  nodup : (n.entries.map Prod.fst).Nodup
  isName : ∀ name ∈ n.entries.map Prod.fst, IsEntryName name
  hasSpareName : HasSpareName n.entries

/-- A file holds a report. -/
def HoldsReport (n : Node) (contents : Bytes) : Prop := n = .file contents

/-- The directory of a store holds the vault. -/
structure Vault.IsHeldIn (v : Vault) (place : Location) (top : Node) : Prop where
  leadsOn_sessions : top.leadsOn (place.names ++ [Store.openSessions]) = true
  leadsOn_tier : ∀ tier : Tier, top.leadsOn (place.names ++ [tier.directory]) = true
  sessions : IsShelf HoldsFiles (top.entriesAt (place.names ++ [Store.openSessions])) v.sessions
  reports : ∀ tier : Tier,
    IsShelf HoldsReport (top.entriesAt (place.names ++ [tier.directory])) (v.reports tier)

/-! ## One vault for one directory -/

section Shelf

variable {holds : Node → β → Prop} {es : List (String × Node)}
  {shelf shelf' : Finmap fun _ : SessionId => β}

/-- What one shelf has, every shelf with the same entries has. -/
theorem IsShelf.lookup_of_lookup (h : IsShelf holds es shelf) (h' : IsShelf holds es shelf')
    (hholds : ∀ n b c, holds n b → holds n c → b = c) {id : SessionId} {b : β}
    (hb : shelf.lookup id = some b) : shelf'.lookup id = some b := by
  have hvisible := (h.isStorable id (Finmap.mem_iff.2 ⟨b, hb⟩)).isVisible
  obtain ⟨n, hn, hnb⟩ := h.shows.lookup_eq_some hvisible hb
  cases hc : shelf'.lookup id with
  | none =>
    have hnone := h'.shows.lookup_eq_none hvisible hc
    exact absurd (hn.symm.trans hnone) (by simp)
  | some c =>
    obtain ⟨n', hn', hnc⟩ := h'.shows.lookup_eq_some hvisible hc
    obtain rfl : n = n' := Option.some.inj (hn.symm.trans hn')
    rw [hholds n b c hnb hnc]

/-- The entries of a directory are a shelf in at most one way. -/
theorem IsShelf.unique (h : IsShelf holds es shelf) (h' : IsShelf holds es shelf')
    (hholds : ∀ n b c, holds n b → holds n c → b = c) : shelf = shelf' :=
  Finmap.ext_lookup fun _ => Option.ext fun _ =>
    ⟨h.lookup_of_lookup h' hholds, h'.lookup_of_lookup h hholds⟩

end Shelf

/-- A directory holds at most one vault. -/
theorem Vault.IsHeldIn.unique {v w : Vault} {place : Location} {top : Node}
    (h : v.IsHeldIn place top) (h' : w.IsHeldIn place top) : v = w := by
  refine Vault.ext ?_ (funext fun tier => ?_)
  · exact h.sessions.unique h'.sessions fun n files files' hn hn' =>
      hn.files_eq.trans hn'.files_eq.symm
  · refine (h.reports tier).unique (h'.reports tier) fun n bytes bytes' hn hn' => ?_
    exact Node.file.inj (hn.symm.trans hn')

end ReportVault
