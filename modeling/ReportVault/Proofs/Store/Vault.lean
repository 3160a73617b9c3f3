import Mathlib.Data.Finmap
import ReportVault.Proofs.FileSystem.Tree
import ReportVault.Proofs.Order
import ReportVault.Store.Directory

/-!
# ReportVault.Proofs.Store.Vault

What a store holds, and what the calls of a store mean.

A `Vault` has the files of the open sessions and, for each tier, the reports in it.  Calls are
answered from it as `Vault.perform` says, whatever the store is made of; that a directory of a
file system answers in the same way is shown in `ReportVault.Proofs.Store.Refinement`.
-/

namespace ReportVault

open FileSystem

/-- What stands under a name in the directory of an open session. -/
inductive Item
  | file (contents : Bytes)
  | directory
  deriving DecidableEq, Repr

/-- Whether the item is a file. -/
def Item.isFile : Item → Bool
  | .file _ => true
  | .directory => false

/-- What an open session has, in the order of its directory. -/
abbrev Files := List (String × Item)

/-- The event files, by ascending sequence number. -/
def Files.slots (files : Files) : List Slot :=
  let names := files.filterMap fun (name, item) =>
    if item.isFile && name.toList.head? != some '.' then some name else none
  (names.filterMap Slot.ofFileName?).mergeSort Slot.ascending

/-- Where a store is: the names that lead to its directory from the working directory.  They leave
room for the three more names of a file of a session. -/
structure Location where
  names : List String
  isName : ∀ name ∈ names, IsEntryName name
  isShort : pathBytes names + 3 * (Node.maxNameBytes + 1) < Node.pathLimit

namespace Location

/-- A store in a directory of the working directory. -/
def named (name : String) (h : IsEntryName name) : Location where
  names := [name]
  isName := by simpa using h
  isShort := by
    have hshort := h.isShort
    simp only [pathBytes, Node.maxNameBytes, Node.pathLimit] at hshort ⊢
    omega

variable (place : Location)

/-- The path of the store. -/
def path : Path := .ofNames place.names

/-- The names that lead to the directory of an open session. -/
def session (id : SessionId) : List String := place.names ++ [Store.openSessions] ++ [id.name]

/-- The path of a file of an open session. -/
def filePath (id : SessionId) (name : String) : Path := .ofNames (place.session id ++ [name])

end Location

/-- How strongly a report is held in the tier. -/
def Tier.level : Tier → Nat
  | .normal => 0
  | .priority => 1
  | .native => 2

/-- What is not there need not be erased. -/
theorem erase_of_lookup_eq_none {shelf : Finmap fun _ : SessionId => β} {id : SessionId}
    (h : shelf.lookup id = none) : shelf.erase id = shelf := by
  refine Finmap.ext_lookup fun other => ?_
  by_cases he : other = id
  · rw [he, Finmap.lookup_erase, h]
  · rw [Finmap.lookup_erase_ne he]

/-- What a store holds. -/
@[ext]
structure Vault where
  sessions : Finmap fun _ : SessionId => Files
  reports : Tier → Finmap fun _ : SessionId => Bytes

namespace Vault

/-- Nothing is stored. -/
def empty : Vault := ⟨∅, fun _ => ∅⟩

variable (v : Vault)

/-- What an open session has; a session that is not open has nothing. -/
def files (id : SessionId) : Files := (v.sessions.lookup id).getD []

/-- What an open session has under a name. -/
def item? (id : SessionId) (name : String) : Option Item := (v.files id).lookup name

/-- The strongest tier that has a report of the session. -/
def tier? (id : SessionId) : Option Tier := Tier.all.find? fun tier => id ∈ v.reports tier

/-- The report of a session, from the strongest tier that has one. -/
def report? (id : SessionId) : Option (Tier × Bytes) :=
  Tier.all.findSome? fun tier => ((v.reports tier).lookup id).map (tier, ·)

/-- The sessions that have a report. -/
def finalized : Finset SessionId :=
  (v.reports .native).keys ∪ (v.reports .priority).keys ∪ (v.reports .normal).keys

/-- The sessions that have a report with their tiers, descending. -/
def reportIds : List (SessionId × Tier) :=
  (v.finalized.sort (· ≥ ·)).filterMap fun id => (v.tier? id).map (id, ·)

/-! ## Changes -/

/-- The session is open and has these files. -/
def setFiles (id : SessionId) (files : Files) : Vault :=
  { v with sessions := v.sessions.insert id files }

/-- The session is not open. -/
def close (id : SessionId) : Vault := { v with sessions := v.sessions.erase id }

/-- The file is there with these contents, and the session is open. -/
def setFile (id : SessionId) (name : String) (contents : Bytes) : Vault :=
  v.setFiles id (setEntry name (.file contents) (v.files id))

/-- The file is not there. -/
def dropFile (id : SessionId) (name : String) : Vault :=
  match v.sessions.lookup id with
  | none => v
  | some files => v.setFiles id (dropEntry name files)

/-- The report is in this tier and in no other one. -/
def setReport (id : SessionId) (tier : Tier) (contents : Bytes) : Vault :=
  { v with reports := fun t =>
      if t = tier then (v.reports t).insert id contents else (v.reports t).erase id }

/-- The session has no report. -/
def dropReport (id : SessionId) : Vault := { v with reports := fun t => (v.reports t).erase id }

variable {v}

theorem files_of_lookup {id : SessionId} {files : Files} (h : v.sessions.lookup id = some files) :
    v.files id = files := by
  rw [Vault.files, h, Option.getD_some]

/-- A session that is not open has no files. -/
theorem files_eq_nil {id : SessionId} (h : id ∉ v.sessions) : v.files id = [] := by
  rw [Vault.files, Finmap.lookup_eq_none.2 h, Option.getD_none]

theorem close_of_lookup_eq_none {id : SessionId} (h : v.sessions.lookup id = none) :
    v.close id = v := by
  rw [close, erase_of_lookup_eq_none h]

/-- To write what is there changes nothing. -/
theorem setFiles_of_lookup {id : SessionId} {files : Files}
    (h : v.sessions.lookup id = some files) : v.setFiles id files = v := by
  have hsame : v.sessions.insert id files = v.sessions := by
    refine Finmap.ext_lookup fun other => ?_
    by_cases he : other = id
    · rw [he, Finmap.lookup_insert, h]
    · rw [Finmap.lookup_insert_of_ne _ he]
  rw [setFiles, hsame]

/-- A file that is not there need not be dropped. -/
theorem dropFile_of_item?_eq_none {id : SessionId} {name : String} (h : v.item? id name = none) :
    v.dropFile id name = v := by
  rw [dropFile]
  cases hopen : v.sessions.lookup id with
  | none => rfl
  | some files =>
    rw [item?, files_of_lookup hopen] at h
    show v.setFiles id (dropEntry name files) = v
    rw [dropEntry_of_lookup_eq_none h, setFiles_of_lookup hopen]

theorem dropFile_of_item?_eq_some {id : SessionId} {name : String} {item : Item}
    (h : v.item? id name = some item) :
    v.dropFile id name = v.setFiles id (dropEntry name (v.files id)) := by
  cases hopen : v.sessions.lookup id with
  | none =>
    rw [item?, files, hopen] at h
    exact absurd h (by simp)
  | some files => rw [dropFile, files_of_lookup hopen, hopen]

/-! ## Listings -/

theorem mem_finalized {id : SessionId} : id ∈ v.finalized ↔ ∃ tier, id ∈ v.reports tier := by
  simp only [finalized, Finset.mem_union, Finmap.mem_keys]
  constructor
  · rintro ((h | h) | h)
    · exact ⟨_, h⟩
    · exact ⟨_, h⟩
    · exact ⟨_, h⟩
  · rintro ⟨tier, h⟩
    cases tier with
    | native => exact Or.inl (Or.inl h)
    | priority => exact Or.inl (Or.inr h)
    | normal => exact Or.inr h

theorem tier?_isSome {id : SessionId} : (v.tier? id).isSome ↔ id ∈ v.finalized := by
  rw [mem_finalized, tier?, List.find?_isSome]
  constructor
  · rintro ⟨tier, -, h⟩
    exact ⟨tier, by simpa using h⟩
  · rintro ⟨tier, h⟩
    exact ⟨tier, tier.mem_all, by simpa using h⟩

/-- A session that has a tier is finalized. -/
theorem mem_finalized_of_tier? {id : SessionId} {tier : Tier} (h : v.tier? id = some tier) :
    id ∈ v.finalized :=
  tier?_isSome.1 (Option.isSome_of_eq_some h)

/-- A listing has each session once, with its strongest tier. -/
theorem mem_reportIds {id : SessionId} {tier : Tier} :
    (id, tier) ∈ v.reportIds ↔ v.tier? id = some tier := by
  simp only [reportIds, List.mem_filterMap, Finset.mem_sort, Option.map_eq_some_iff,
    Prod.mk.injEq]
  constructor
  · rintro ⟨other, -, t, ht, rfl, rfl⟩
    exact ht
  · intro h
    exact ⟨id, mem_finalized_of_tier? h, tier, h, rfl, rfl⟩

theorem pairwise_reportIds : v.reportIds.Pairwise fun a b => b.1 < a.1 := by
  have hsorted : (v.finalized.sort (· ≥ ·)).Pairwise (· > ·) :=
    (Finset.sortedGT_sort v.finalized).pairwise
  refine List.Pairwise.filterMap _ (fun a b hab => ?_) hsorted
  intro e he f hf
  simp only [Option.map_eq_some_iff] at he hf
  obtain ⟨_, -, rfl⟩ := he
  obtain ⟨_, -, rfl⟩ := hf
  exact hab

variable (v)

/-! ## Calls -/

/-- What a call about a session answers, if its identifier can be a name. -/
def ifPlain (id : SessionId) (answer : Except Failure α × Vault) : Except Failure α × Vault :=
  match Store.checkedName id with
  | .error failure => (.error failure, v)
  | .ok _ => answer

/-- What reading a file answers. -/
def readAnswer (place : Location) (id : SessionId) (name : String) :
    Except Failure (Option Bytes) :=
  match v.item? id name with
  | none => .ok none
  | some (.file contents) => .ok (some contents)
  | some .directory => .error (.storage .read (place.filePath id name).text .isADirectory)

/-- The answer to a call, and what the store holds after it. -/
def perform (place : Location) : Store.Call α → Except Failure α × Vault
  | .write id name contents =>
    v.ifPlain id <|
      match v.item? id name with
      | some .directory =>
        (.error (.storage .renameTemporary (place.filePath id name).text .isADirectory), v)
      | _ => (.ok (), v.setFile id name contents)
  | .read id name => v.ifPlain id (v.readAnswer place id name, v)
  | .delete id name =>
    v.ifPlain id <|
      match v.item? id name with
      | some .directory =>
        (.error (.storage .removeFile (place.filePath id name).text .isADirectory), v)
      | _ => (.ok (), v.dropFile id name)
  | .slots id => v.ifPlain id (.ok (v.files id).slots, v)
  | .openIds => (.ok v.sessions.keys.sort, v)
  | .deleteSession id => v.ifPlain id (.ok (), v.close id)
  | .reportIds => (.ok v.reportIds, v)
  | .readReport id => v.ifPlain id (.ok (v.report? id), v)
  | .writeReport id tier contents => v.ifPlain id (.ok (), v.setReport id tier contents)
  | .deleteReport id => v.ifPlain id (.ok (), v.dropReport id)
  | .deleteAll => (.ok (), empty)

/-- The store whose state is a vault. -/
def store (place : Location) : Store (StateM Vault) :=
  ⟨fun call => ExceptT.mk fun v => v.perform place call⟩

end Vault

end ReportVault
