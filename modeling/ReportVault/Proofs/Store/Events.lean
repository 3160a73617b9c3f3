import ReportVault.Event.Json
import ReportVault.Proofs.Codec.RoundTrip
import ReportVault.Proofs.Store.Change

/-!
# ReportVault.Proofs.Store.Events

The event files of a session, as the events that they hold.

What becomes of the slots when one file changes is said first, whether numbers are shared or not:
`slots_setEntry_of_not_slot`, `slots_setEntry_of_greatest` and `slots_dropEntry`.

`Files.Holds` says that the event files, in the order of their numbers, hold given events.  A file
that is no event file does not matter to that (`Holds.setEntry_of_not_slot`); an event with a new
greatest number comes last (`Holds.append`), and the file of the least number holds the oldest event
(`Holds.dropOldest`).
-/

namespace ReportVault

open FileSystem

namespace Files

variable {files : Files} {slots : List Slot} {slot : Slot} {name : String} {events : List Event}

/-! ## Listing event files -/

/-- The slots of a directory are the files that have event names. -/
theorem mem_slots_iff (h : (files.map Prod.fst).Nodup) :
    slot ∈ files.slots ↔
      Slot.ofFileName? slot.fileName = some slot ∧ IsVisible slot.fileName ∧
        ∃ contents, files.lookup slot.fileName = some (.file contents) := by
  rw [Vault.IsWellFormed.mem_slots]
  simp only [lookup_eq_some_iff h]

theorem nodup_slots (h : (files.map Prod.fst).Nodup) : files.slots.Nodup := by
  have hfiles : files.Pairwise fun a b => a.1 ≠ b.1 := List.pairwise_map.1 h
  refine (List.mergeSort_perm _ _).nodup_iff.2 (Slot.nodup_filterMap_ofFileName? ?_)
  refine hfiles.filterMap _ fun a b hab s hs t ht => ?_
  obtain ⟨-, hs⟩ := Option.ite_none_right_eq_some.1 hs
  obtain ⟨-, ht⟩ := Option.ite_none_right_eq_some.1 ht
  rw [← Option.some.inj hs, ← Option.some.inj ht]
  exact hab

/-- They are in the order of their numbers. -/
theorem pairwise_slots (files : Files) :
    files.slots.Pairwise fun a b => a.sequence ≤ b.sequence := Slot.pairwise_le_mergeSort _

/-- What sorting by number gives, if no two slots have the same number. -/
theorem slots_eq_of_mem_iff (h : (files.map Prod.fst).Nodup)
    (hslots : slots.Pairwise fun a b => a.sequence < b.sequence)
    (hmem : ∀ slot, slot ∈ files.slots ↔ slot ∈ slots) : files.slots = slots := by
  have : Std.Irrefl fun a b : Slot => a.sequence < b.sequence :=
    ⟨fun a => UInt64.lt_irrefl a.sequence⟩
  have : Std.Antisymm fun a b : Slot => a.sequence < b.sequence :=
    ⟨fun _ _ hab hba => absurd hab (UInt64.lt_asymm hba)⟩
  have hnumbers : (slots.map (·.sequence)).Nodup :=
    List.pairwise_map.2 (hslots.imp fun hab => UInt64.ne_of_lt hab)
  have hnodup := (List.mergeSort_perm _ _).nodup_iff.1 (nodup_slots h)
  have hstrict : files.slots.Pairwise fun a b => a.sequence < b.sequence :=
    Slot.pairwise_mergeSort hnodup fun a ha b hb =>
      List.inj_on_of_nodup_map hnumbers ((hmem a).1 (List.mem_mergeSort.2 ha))
        ((hmem b).1 (List.mem_mergeSort.2 hb))
  exact hstrict.eq_of_mem_iff hslots hmem

/-- The slot of an entry, if it is an event file. -/
def slot? (name : String) (item : Item) : Option Slot :=
  if item.isFile then Slot.ofFileName? name else none

theorem fileName_of_slot? {item : Item} (h : slot? name item = some slot) : slot.fileName = name :=
  Slot.fileName_of_ofFileName? (Option.ite_none_right_eq_some.1 h).2

/-- The slots are those of the entries, sorted. -/
theorem slots_eq_mergeSort (files : Files) :
    files.slots = (files.filterMap fun e => slot? e.1 e.2).mergeSort Slot.ascending := by
  rw [slots, List.filterMap_filterMap]
  congr 2
  funext e
  obtain ⟨name, item⟩ := e
  dsimp only
  rw [slot?]
  cases hslot : Slot.ofFileName? name with
  | none => split <;> simp [hslot]
  | some slot =>
    have hvisible : (name.toList.head? != some '.') = true := by
      simpa using Slot.visible_of_ofFileName? hslot
    rw [hvisible, Bool.and_true]
    split <;> simp [hslot]

/-- A file that is no event file adds no slot. -/
theorem slots_setEntry_of_not_slot (files : Files) (hname : Slot.ofFileName? name = none)
    (item : Item) : Files.slots (setEntry name item files) = files.slots := by
  have hnone : ∀ item, slot? name item = none := fun item => by rw [slot?, hname, ite_self]
  rw [slots_eq_mergeSort, slots_eq_mergeSort]
  congr 1
  induction files with
  | nil => simp [setEntry, hnone]
  | cons e files ih =>
    obtain ⟨key, value⟩ := e
    by_cases he : key = name
    · subst he
      simp [setEntry, hnone]
    · rw [setEntry, if_neg he, List.filterMap_cons, List.filterMap_cons, ih]

/-- A new event file whose number no other one exceeds has the last slot. -/
theorem slots_setEntry_of_greatest (hslot : Slot.ofFileName? slot.fileName = some slot)
    (hnew : files.lookup slot.fileName = none)
    (hgreatest : ∀ s ∈ files.slots, s.sequence ≤ slot.sequence) (contents : Bytes) :
    Files.slots (setEntry slot.fileName (.file contents) files) = files.slots ++ [slot] := by
  have hadded : slot? slot.fileName (.file contents) = some slot := hslot
  rw [slots_eq_mergeSort] at hgreatest
  rw [setEntry_of_lookup_eq_none hnew, slots_eq_mergeSort, List.filterMap_append,
    slots_eq_mergeSort]
  simp only [List.filterMap_cons, List.filterMap_nil, hadded]
  exact mergeSort_concat Slot.ascending_trans Slot.ascending_total fun s hs =>
    Slot.ascending_iff.2 (hgreatest s (List.mem_mergeSort.2 hs))

/-- A file that is gone has no slot, and the others keep theirs. -/
theorem slots_dropEntry (files : Files) (name : String) :
    Files.slots (dropEntry name files) = files.slots.filter (·.fileName ≠ name) := by
  rw [slots_eq_mergeSort, slots_eq_mergeSort,
    ← mergeSort_filter Slot.ascending_trans Slot.ascending_total, dropEntry,
    List.filterMap_filter, List.filter_filterMap]
  congr 2
  funext e
  cases hslot : slot? e.1 e.2 with
  | none => simp
  | some slot =>
    rw [Option.filter_some, fileName_of_slot? hslot]

/-! ## Events -/

/-- The event that a slot holds, if it can be decoded. -/
def event? (files : Files) (slot : Slot) : Option Event :=
  match files.lookup slot.fileName with
  | some (.file contents) => Event.decode? contents
  | _ => none

/-- The event files have increasing numbers, and hold these events in the order of the numbers. -/
structure Holds (files : Files) (slots : List Slot) (events : List Event) : Prop where
  nodup : (files.map Prod.fst).Nodup
  slots_eq : files.slots = slots
  increasing : slots.Pairwise fun a b => a.sequence < b.sequence
  decoded : slots.map files.event? = events.map some

theorem event?_congr {other : Files} (h : files.lookup slot.fileName = other.lookup slot.fileName) :
    files.event? slot = other.event? slot := by
  rw [event?, event?, h]

/-- The slots from some point on hold the events from that point on. -/
theorem filterMap_drop_of_map_eq (h : slots.map files.event? = events.map some) (n : Nat) :
    (slots.drop n).filterMap files.event? = events.drop n := by
  have hdrop : (slots.drop n).map files.event? = (events.drop n).map some := by
    rw [List.map_drop, h, List.map_drop]
  rw [← Function.id_comp files.event?, ← List.filterMap_map, hdrop, List.filterMap_map]
  exact List.filterMap_some

namespace Holds

theorem nil : Files.Holds [] [] [] :=
  ⟨List.nodup_nil, List.mergeSort_nil, List.Pairwise.nil, rfl⟩

theorem mem_iff (h : files.Holds slots events) :
    slot ∈ slots ↔
      Slot.ofFileName? slot.fileName = some slot ∧ IsVisible slot.fileName ∧
        ∃ contents, files.lookup slot.fileName = some (.file contents) := by
  rw [← h.slots_eq]
  exact mem_slots_iff h.nodup

theorem length_eq (h : files.Holds slots events) : slots.length = events.length := by
  rw [← List.length_map (f := files.event?), h.decoded, List.length_map]

/-- Different slots have different file names. -/
theorem fileName_inj (h : files.Holds slots events) {a b : Slot} (ha : a ∈ slots)
    (hb : Slot.ofFileName? b.fileName = some b) (he : a.fileName = b.fileName) : a = b := by
  have hread := (h.mem_iff.1 ha).1
  rw [he, hb, Option.some.injEq] at hread
  exact hread.symm

/-- A file that is no event file does not matter. -/
theorem setEntry_of_not_slot (h : files.Holds slots events)
    (hname : Slot.ofFileName? name = none) (item : Item) :
    Files.Holds (setEntry name item files) slots events := by
  have hne : ∀ s : Slot, Slot.ofFileName? s.fileName = some s → s.fileName ≠ name := by
    rintro s hs he
    rw [he, hname] at hs
    exact absurd hs (by simp)
  refine ⟨nodup_setEntry h.nodup, ?_, h.increasing, ?_⟩
  · rw [slots_setEntry_of_not_slot files hname, h.slots_eq]
  · rw [← h.decoded]
    refine List.map_congr_left fun s hs => event?_congr ?_
    exact lookup_setEntry_of_ne item files (hne s (h.mem_iff.1 hs).1)

/-- An event with a number above all others comes last. -/
theorem append (h : files.Holds slots events) (hslot : Slot.ofFileName? slot.fileName = some slot)
    (hvisible : IsVisible slot.fileName) (hgreatest : ∀ s ∈ slots, s.sequence < slot.sequence)
    (event : Event) :
    Files.Holds (setEntry slot.fileName (.file event.encode) files) (slots ++ [slot])
      (events ++ [event]) := by
  have hnodup : ((setEntry slot.fileName (.file event.encode) files).map Prod.fst).Nodup :=
    nodup_setEntry h.nodup
  have hincreasing : (slots ++ [slot]).Pairwise fun a b => a.sequence < b.sequence := by
    rw [List.pairwise_append]
    refine ⟨h.increasing, List.pairwise_singleton _ _, fun s hs t ht => ?_⟩
    rw [List.mem_singleton.1 ht]
    exact hgreatest s hs
  have hne : ∀ s ∈ slots, s.fileName ≠ slot.fileName := by
    intro s hs he
    have hless := hgreatest s hs
    rw [h.fileName_inj hs hslot he] at hless
    exact UInt64.lt_irrefl _ hless
  refine ⟨hnodup, slots_eq_of_mem_iff hnodup hincreasing fun s => ?_, hincreasing, ?_⟩
  · rw [mem_slots_iff hnodup, List.mem_append, List.mem_singleton]
    by_cases he : s.fileName = slot.fileName
    · rw [he, lookup_setEntry_self]
      constructor
      · rintro ⟨hread, -, -⟩
        rw [hslot, Option.some.injEq] at hread
        exact Or.inr hread.symm
      · rintro (hs | rfl)
        · exact absurd he (hne s hs)
        · exact ⟨hslot, hvisible, _, rfl⟩
    · rw [lookup_setEntry_of_ne _ files he, h.mem_iff]
      constructor
      · exact Or.inl
      · rintro (hs | rfl)
        · exact hs
        · exact absurd rfl he
  · rw [List.map_append, List.map_append, ← h.decoded]
    congr 1
    · exact List.map_congr_left fun s hs =>
        event?_congr (lookup_setEntry_of_ne _ files (hne s hs))
    · rw [List.map_singleton, List.map_singleton, event?, lookup_setEntry_self]
      exact congrArg (fun e => [e]) (Event.decode?_encode event)

/-- The file of the least number holds the oldest event. -/
theorem dropOldest {event : Event} (h : files.Holds (slot :: slots) (event :: events)) :
    Files.Holds (dropEntry slot.fileName files) slots events := by
  obtain ⟨hleast, hincreasing⟩ := List.pairwise_cons.1 h.increasing
  have hslot := (h.mem_iff.1 List.mem_cons_self).1
  have hne : ∀ s ∈ slots, s.fileName ≠ slot.fileName := by
    intro s hs he
    have hless := hleast s hs
    rw [h.fileName_inj (List.mem_cons_of_mem _ hs) hslot he] at hless
    exact UInt64.lt_irrefl _ hless
  refine ⟨nodup_dropEntry h.nodup, ?_, hincreasing, ?_⟩
  · rw [slots_dropEntry, h.slots_eq, List.filter_cons_of_neg (by simp)]
    exact List.filter_eq_self.2 fun s hs => by simpa using hne s hs
  · have hdecoded := h.decoded
    rw [List.map_cons, List.map_cons, List.cons.injEq] at hdecoded
    rw [← hdecoded.2]
    exact List.map_congr_left fun s hs => event?_congr (lookup_dropEntry_of_ne files (hne s hs))

theorem filterMap_drop (h : files.Holds slots events) (n : Nat) :
    (slots.drop n).filterMap files.event? = events.drop n :=
  filterMap_drop_of_map_eq h.decoded n

end Holds

end Files

end ReportVault
