import ReportVault.Proofs.Engine.Action
import ReportVault.Proofs.Engine.EventChanges
import ReportVault.Proofs.Engine.ReadFailures

/-!
# ReportVault.Proofs.Engine.EventFiles

The event files that a session has when an event was stored.

Where nothing fails the event gets the next number and comes last, and only the oldest event files
go (`event_appended`): `eventChanges_plain` has the changes, and `item?_stored` says what becomes of
each file by them.

Where a note cannot be written, no event file goes.  `event_cap_kept_iff` says when the cap is kept
by one event, and `unmarked_events_pile_up` what happens in a run in which the session can never be
marked; `slots_unmarked` is the step of it.
-/

namespace ReportVault

open FileSystem Retention

/-! ## Where nothing fails -/

/-- Whether the change writes an event file. -/
def Change.writesEvent : Change → Bool
  | .write _ name _ => (Slot.ofFileName? name).isSome
  | _ => false

section Append

variable {place : Location} {tree : Node} {v : Vault} {id : SessionId}

/-- If there is no next number, nothing is done. -/
theorem run_persistEvent_of_exhausted (hheld : v.IsHeldIn place tree) (hid : id.IsStorable)
    (hfull : Slot.greatest (v.files id).slots + 1 = 2 ^ 64) (caps : Caps)
    (correlation : Option String) (event : Event) (high : Bool) (log : List Change) :
    Engine.persistEvent ⟨place.store.logged, .json⟩ caps correlation event id high (tree, log) =
      ((), tree, log) := by
  have hnext : Engine.nextSequence id (v.files id).slots = .error (.sequenceExhausted id) := by
    rw [Engine.nextSequence_eq (v.files id).pairwise_slots, if_neg]
    rw [UInt64.size]
    omega
  have hslots : (place.store.logged.perform (.slots id)).run (tree, log) =
      (.ok (v.files id).slots, tree, log) := by
    rw [Store.run_logged, hheld.perform_slots hid]
    exact congrArg _ (congrArg _ (List.append_nil log))
  have hencode : Codec.json.encodeEvent event = .ok event.encode := rfl
  refine (Medium.run_ignored _ _).trans (congrArg (Prod.mk ()) ?_)
  rw [Engine.tryPersistEvent_eq, run_bind_ok hencode]
  refine (congrArg Prod.snd (run_bind_of_ok hslots)).trans ?_
  rw [run_bind_error hnext]

/-- With a next number the event is stored under it, and the oldest event files go. -/
theorem eventChanges_plain (place : Location) (hv : v.IsWellFormed) (hid : id.IsStorable)
    (hevents : ∀ name, Slot.ofFileName? name ≠ none → v.item? id name ≠ some .directory)
    {high : Bool} {correlation : Option String}
    (hnotes : ∀ note ∈ Engine.notes high correlation, v.item? id note.1 ≠ some .directory)
    (hroom : Slot.greatest (v.files id).slots + 1 < 2 ^ 64) (caps : Caps) (event : Event) :
    let changes := (Medium.plain place).eventChanges v id caps correlation event high
    ∃ slot : Slot, slot.sequence.toNat = Slot.greatest (v.files id).slots + 1 ∧ slot.high = high ∧
      Slot.ofFileName? slot.fileName = some slot ∧ v.item? id slot.fileName = none ∧
      (∀ s ∈ (v.files id).slots, s.sequence < slot.sequence) ∧
      changes =
        Engine.writes id ((slot.fileName, event.encode) :: Engine.notes high correlation) ++
          Engine.trims id ((v.files id).slots ++ [slot]) caps.events ∧
      ((v.after changes).files id).slots =
        keepNewest ((v.files id).slots ++ [slot]) caps.events := by
  intro changes
  have hwrites : ∀ name contents, v.item? id name ≠ some .directory →
      (Medium.plain place).answer v (.write id name contents) = .ok () := fun name contents h =>
    (Medium.answer_write_eq_ok_iff hid).2 ⟨rfl, h⟩
  have hplain : ∀ slot : Slot, Slot.ofFileName? slot.fileName = some slot →
      v.item? id slot.fileName ≠ some .directory := fun slot hslot => hevents _ (by simp [hslot])
  obtain ⟨slot, hnumber, hhigh, hslot, hgreatest, hnoted, -⟩ :=
    Medium.eventChanges_of_room (m := .plain place) hid hv rfl (fun _ => rfl) rfl
      (fun slot hslot => hwrites _ _ (hplain slot hslot)) hroom caps correlation high
  obtain ⟨hchanges, hafter⟩ := hnoted fun note hnote => hwrites _ _ (hnotes note hnote)
  exact ⟨slot, hnumber, hhigh, hslot,
    Medium.item?_of_greatest hv slot hslot hgreatest (hplain slot hslot), hgreatest, hchanges,
    hafter⟩

/-- No note has the name of an event file. -/
theorem fileName_not_mem_notes {slot : Slot} (hslot : Slot.ofFileName? slot.fileName = some slot)
    (high : Bool) (correlation : Option String) :
    slot.fileName ∉ (Engine.notes high correlation).map Prod.fst := by
  intro hmem
  obtain ⟨note, hnote, he⟩ := List.mem_map.1 hmem
  have hnone := Engine.ofFileName?_of_mem_notes hnote
  rw [he, hslot] at hnone
  exact absurd hnone (by simp)

/-- An event file that is kept is not among those that are deleted. -/
theorem sparesFile_trims {slots : List Slot} (hnodup : slots.Nodup)
    (hread : ∀ s ∈ slots, Slot.ofFileName? s.fileName = some s) {cap : Nat} {slot : Slot}
    (hkept : slot ∈ keepNewest slots cap) :
    ∀ c ∈ Engine.trims id slots cap, c.SparesFile id slot.fileName := by
  intro c hc
  obtain ⟨old, hold, rfl⟩ := List.mem_map.1 hc
  intro _ he
  rw [← splitOldest_append slots cap] at hnodup hread
  have hsame := hread old (List.mem_append_left _ hold)
  rw [he, hread slot (List.mem_append_right _ hkept), Option.some.injEq] at hsame
  exact (List.nodup_append.1 hnodup).2.2 old hold slot hkept hsame.symm

/-- The slots of a session read back from their names, and so do they with one more. -/
theorem ofFileName?_of_mem_append (hv : v.IsWellFormed) {slot : Slot}
    (hslot : Slot.ofFileName? slot.fileName = some slot) :
    ∀ s ∈ (v.files id).slots ++ [slot], Slot.ofFileName? s.fileName = some s := by
  intro s hs
  rcases List.mem_append.1 hs with hs | hs
  · exact ((Files.mem_slots_iff (hv.files_of id).nodup).1 hs).1
  · rw [List.mem_singleton.1 hs]
    exact hslot

theorem nodup_append_of_greatest (hv : v.IsWellFormed) {slot : Slot}
    (hgreatest : ∀ s ∈ (v.files id).slots, s.sequence < slot.sequence) :
    ((v.files id).slots ++ [slot]).Nodup := by
  refine List.nodup_append.2 ⟨Files.nodup_slots (hv.files_of id).nodup,
    List.nodup_singleton slot, fun s hs t ht he => ?_⟩
  have hless := hgreatest s hs
  rw [he, List.mem_singleton.1 ht] at hless
  exact UInt64.lt_irrefl _ hless

/-- After the event file itself nothing is done to a file that is neither noted nor trimmed. -/
theorem item?_stored_of_spares {name fileName : String} (contents : Bytes) {high : Bool}
    {correlation : Option String} {slots : List Slot} {cap : Nat}
    (hname : name ∉ (Engine.notes high correlation).map Prod.fst)
    (htrims : ∀ c ∈ Engine.trims id slots cap, c.SparesFile id name) :
    (v.after (Engine.writes id ((fileName, contents) :: Engine.notes high correlation) ++
      Engine.trims id slots cap)).item? id name = (v.setFile id fileName contents).item? id name := by
  refine Vault.item?_after (v := v.setFile id fileName contents) fun c hc => ?_
  rcases List.mem_append.1 hc with hc | hc
  · obtain ⟨note, hnote, rfl⟩ := List.mem_map.1 hc
    exact fun _ he => hname (List.mem_map.2 ⟨note, hnote, he⟩)
  · exact htrims c hc

/-- What becomes of the files when the next event is stored. -/
theorem item?_stored (hv : v.IsWellFormed) {slot : Slot} (contents : Bytes) (high : Bool)
    (correlation : Option String) (cap : Nat)
    (hslot : Slot.ofFileName? slot.fileName = some slot)
    (hgreatest : ∀ s ∈ (v.files id).slots, s.sequence < slot.sequence)
    (hfree : v.item? id slot.fileName = none) :
    let slots := (v.files id).slots ++ [slot]
    let w := v.after
      (Engine.writes id ((slot.fileName, contents) :: Engine.notes high correlation) ++
        Engine.trims id slots cap)
    (slot ∈ keepNewest slots cap → w.item? id slot.fileName = some (.file contents)) ∧
    (∀ old ∈ (v.files id).slots, old ∈ keepNewest slots cap →
      w.item? id old.fileName = v.item? id old.fileName) ∧
    ∀ name, Slot.ofFileName? name = none →
      name ∉ (Engine.notes high correlation).map Prod.fst → w.item? id name = v.item? id name := by
  intro slots w
  have hread : ∀ s ∈ slots, Slot.ofFileName? s.fileName = some s :=
    ofFileName?_of_mem_append hv hslot
  have hspares : ∀ s ∈ keepNewest slots cap, ∀ c ∈ Engine.trims id slots cap,
      c.SparesFile id s.fileName := fun _ hkept =>
    sparesFile_trims (nodup_append_of_greatest hv hgreatest) hread hkept
  refine ⟨fun hkept => ?_, fun old hold hkept => ?_, fun name hname hnote => ?_⟩
  · rw [item?_stored_of_spares contents (fileName_not_mem_notes hslot high correlation)
      (hspares slot hkept), Vault.item?_setFile, if_pos ⟨rfl, rfl⟩]
  · obtain ⟨hold, -, old', hitem⟩ := (Files.mem_slots_iff (hv.files_of id).nodup).1 hold
    rw [item?_stored_of_spares contents (fileName_not_mem_notes hold high correlation)
      (hspares old hkept), Vault.item?_setFile, if_neg]
    rintro ⟨-, he⟩
    rw [he, Vault.item?, hitem] at hfree
    exact absurd hfree (by simp)
  · have hne : ∀ s : Slot, Slot.ofFileName? s.fileName = some s → s.fileName ≠ name := by
      intro s hs he
      rw [he, hname] at hs
      exact absurd hs (by simp)
    rw [item?_stored_of_spares contents hnote, Vault.item?_setFile,
      if_neg fun h => hne slot hslot h.2]
    intro c hc
    obtain ⟨old, hold, rfl⟩ := List.mem_map.1 hc
    rw [splitOldest_fst] at hold
    exact fun _ => hne old (hread old (List.mem_of_mem_take hold))

/-- The one event file that is written is that of the event. -/
theorem filter_writesEvent_stored {slot : Slot}
    (hslot : Slot.ofFileName? slot.fileName = some slot) (id : SessionId) (contents : Bytes)
    (high : Bool) (correlation : Option String) (slots : List Slot) (cap : Nat) :
    (Engine.writes id ((slot.fileName, contents) :: Engine.notes high correlation) ++
      Engine.trims id slots cap).filter Change.writesEvent =
        [.write id slot.fileName contents] := by
  rw [Engine.writes, List.map_cons, List.cons_append,
    List.filter_cons_of_pos (by simp [Change.writesEvent, hslot]), List.cons_inj_right,
    List.filter_eq_nil_iff]
  intro c hc
  rcases List.mem_append.1 hc with hc | hc
  · obtain ⟨note, hnote, rfl⟩ := List.mem_map.1 hc
    simp [Change.writesEvent, Engine.ofFileName?_of_mem_notes hnote]
  · obtain ⟨old, -, rfl⟩ := List.mem_map.1 hc
    simp [Change.writesEvent]

/-- Nothing is done but to the files of the session. -/
theorem lookup_stored (v : Vault) (id : SessionId) (files : List (String × Bytes))
    (slots : List Slot) (cap : Nat) :
    let w := v.after (Engine.writes id files ++ Engine.trims id slots cap)
    (∀ other ≠ id, w.sessions.lookup other = v.sessions.lookup other) ∧
      ∀ tier other, (w.reports tier).lookup other = (v.reports tier).lookup other := by
  intro w
  have honly : ∀ c ∈ Engine.writes id files ++ Engine.trims id slots cap,
      (∃ name contents, c = .write id name contents) ∨ ∃ name, c = .delete id name := by
    intro c hc
    rcases List.mem_append.1 hc with hc | hc
    · obtain ⟨file, -, rfl⟩ := List.mem_map.1 hc
      exact Or.inl ⟨_, _, rfl⟩
    · obtain ⟨old, -, rfl⟩ := List.mem_map.1 hc
      exact Or.inr ⟨_, rfl⟩
  refine ⟨fun other hne => Vault.lookup_after fun c hc => ?_, fun tier other =>
    Vault.lookup_reports_after (fun c hc => ?_) tier⟩
  · obtain ⟨name, contents, rfl⟩ | ⟨name, rfl⟩ := honly c hc
    · exact Ne.symm hne
    · exact Ne.symm hne
  · obtain ⟨name, contents, rfl⟩ | ⟨name, rfl⟩ := honly c hc
    · trivial
    · trivial

/-- The next event comes last and overwrites nothing.  Its number is one more than the greatest that
any event file has, whatever the names of those look like and whether they share numbers or not; if
there is no such number, nothing is done.  Where no directory stands in the way and no call fails,
one event file is written, under a name that was free, and the oldest event files beyond the cap go;
the others stay as they are, as do all other files but the notes. -/
theorem event_appended (hheld : v.IsHeldIn place tree) (hid : id.IsStorable)
    (hevents : ∀ name, Slot.ofFileName? name ≠ none → v.item? id name ≠ some .directory)
    (high : Bool) (correlation : Option String)
    (hnotes : ∀ note ∈ Engine.notes high correlation, v.item? id note.1 ≠ some .directory)
    (caps : Caps) (event : Event) :
    let run := Engine.persistEvent ⟨place.store.logged, .json⟩ caps correlation event id high
      (tree, [])
    let slots := (v.files id).slots
    (Slot.greatest slots + 1 = 2 ^ 64 → run.2 = (tree, [])) ∧
    (Slot.greatest slots + 1 < 2 ^ 64 → ∃ (w : Vault) (slot : Slot), w.IsHeldIn place run.2.1 ∧
      slot.sequence.toNat = Slot.greatest slots + 1 ∧ slot.high = high ∧
      Slot.ofFileName? slot.fileName = some slot ∧ v.item? id slot.fileName = none ∧
      run.2.2.filter Change.writesEvent = [.write id slot.fileName event.encode] ∧
      (w.files id).slots = keepNewest (slots ++ [slot]) caps.events ∧
      (slot ∈ (w.files id).slots → w.item? id slot.fileName = some (.file event.encode)) ∧
      (∀ old ∈ slots, old ∈ (w.files id).slots →
        w.item? id old.fileName = v.item? id old.fileName) ∧
      (∀ name, Slot.ofFileName? name = none →
        name ∉ (Engine.notes high correlation).map Prod.fst →
          w.item? id name = v.item? id name) ∧
      (∀ other ≠ id, w.sessions.lookup other = v.sessions.lookup other) ∧
      ∀ tier other, (w.reports tier).lookup other = (v.reports tier).lookup other) := by
  intro run slots
  refine ⟨fun hfull => ?_, fun hroom => ?_⟩
  · exact congrArg Prod.snd
      (run_persistEvent_of_exhausted hheld hid hfull caps correlation event high [])
  · obtain ⟨slot, hnumber, hhigh, hslot, hfree, hgreatest, hchanges, hslots⟩ :=
      eventChanges_plain place hheld.isWellFormed hid hevents hnotes hroom caps event
    obtain ⟨hw, hlog⟩ := Medium.persistEvent_directory (m := .plain place) hheld hid caps
      correlation event high
    obtain ⟨hnew, hkept, hother⟩ := item?_stored hheld.isWellFormed event.encode high correlation
      caps.events hslot hgreatest hfree
    have hwritten := filter_writesEvent_stored hslot id event.encode high correlation
      (slots ++ [slot]) caps.events
    obtain ⟨hsessions, hreports⟩ := lookup_stored v id
      ((slot.fileName, event.encode) :: Engine.notes high correlation) (slots ++ [slot]) caps.events
    rw [← hchanges] at hnew hkept hother hwritten hsessions hreports
    rw [← hslots] at hnew hkept
    refine ⟨_, slot, hw, hnumber, hhigh, hslot, hfree, ?_, hslots, hnew, hkept, hother, hsessions,
      hreports⟩
    rw [show run.2.2 = _ from hlog]
    exact hwritten

end Append

namespace OneEvent

/-- There is no directory among the files of the session. -/
theorem item?_ne_directory (name : String) : vault.item? session name ≠ some .directory :=
  Engine.item?_setFile_ne_directory
    (Engine.item?_setFile_ne_directory (by simp [Vault.item?, Vault.files, Vault.empty]) _ _) _ _

theorem greatest_vault : Slot.greatest (vault.files session).slots = 1 := by
  rw [slots_vault]
  rfl

end OneEvent

/-- A second event is stored where there is room for one. -/
theorem event_appended_one_event : ∃ (tree : Node) (w : Vault) (slot : Slot),
    OneEvent.vault.IsHeldIn OneEvent.pass.place tree ∧
    w.IsHeldIn OneEvent.pass.place (Engine.persistEvent
      ⟨OneEvent.pass.place.store.logged, .json⟩ { events := 1 } (some "c") (Event.log 0 "y")
      OneEvent.session true (tree, [])).2.1 ∧
    slot.sequence.toNat = 2 ∧ (w.files OneEvent.session).slots = [slot] ∧
    w.item? OneEvent.session slot.fileName = some (.file (Event.log 0 "y").encode) := by
  obtain ⟨tree, hheld⟩ := OneEvent.exists_tree
  obtain ⟨-, happend⟩ := event_appended hheld OneEvent.isStorable
    (fun name _ => OneEvent.item?_ne_directory name) true (some "c")
    (fun note _ => OneEvent.item?_ne_directory note.1) { events := 1 } (Event.log 0 "y")
  obtain ⟨w, slot, hw, hnumber, -, -, -, -, hslots, hnew, -⟩ :=
    happend (by rw [OneEvent.greatest_vault]; decide)
  rw [OneEvent.greatest_vault] at hnumber
  have hone : (w.files OneEvent.session).slots = [slot] := by
    rw [hslots, OneEvent.slots_vault]
    rfl
  exact ⟨tree, w, slot, hheld, hw, hnumber, hone, hnew (hone ▸ List.mem_singleton_self slot)⟩

/-! ## Where a note cannot be written -/

/-- The event cap bounds the event files only as long as the notes can be written.  If the mark of
high priority or the analytics session cannot be, the event is stored all the same and no event file
is deleted: the last ones up to the cap are left iff every note is written or there is room for all.

Event files can be deleted; any other calls may fail. -/
theorem event_cap_kept_iff {m : Medium} {tree : Node} {v : Vault} {id : SessionId}
    (hheld : v.IsHeldIn m.place tree) (hid : id.IsStorable)
    (hdeletes : ∀ name, m.fails (.delete id name) = none) {caps : Caps}
    {correlation : Option String} {event : Event} {high : Bool} {slot : Slot} {contents : Bytes}
    (hslot : Slot.ofFileName? slot.fileName = some slot)
    (hstored : .write id slot.fileName contents ∈
      (Engine.persistEvent ⟨(m.place.store.failing m.fails).logged, m.codec⟩ caps correlation event
        id high (tree, [])).2.2) :
    let slots := (v.files id).slots ++ [slot]
    let noted := ∀ note ∈ Engine.notes high correlation,
      m.answer v (.write id note.1 note.2) = .ok ()
    ∃ w : Vault, w.IsHeldIn m.place
        (Engine.persistEvent ⟨(m.place.store.failing m.fails).logged, m.codec⟩ caps correlation
          event id high (tree, [])).2.1 ∧
      ((w.files id).slots.length ≤ caps.events ∧
          (w.files id).slots = keepNewest slots caps.events ↔
        noted ∨ slots.length ≤ caps.events) ∧
      (¬ noted → (w.files id).slots = slots) := by
  intro slots noted
  obtain ⟨hw, hlog⟩ := Medium.persistEvent_directory hheld hid caps correlation event high
  rw [hlog] at hstored
  obtain ⟨hall, hfailed⟩ := Medium.slots_eventChanges hid hheld.isWellFormed hdeletes hslot hstored
  refine ⟨_, hw, ?_, hfailed⟩
  by_cases hnoted : noted
  · rw [hall hnoted]
    refine iff_of_true ⟨?_, rfl⟩ (Or.inl hnoted)
    exact (length_splitOldest_snd slots caps.events).trans_le (Nat.min_le_right _ _)
  · rw [hfailed hnoted, or_iff_right hnoted]
    exact ⟨And.left, fun hroom => ⟨hroom, (keepNewest_of_length_le hroom).symm⟩⟩

/-! ## Runs in which a note keeps failing -/

/-- Of the calls by which an event of a session is stored, that which marks the session fails, and
no other one does. -/
structure Medium.NeverMarks (m : Medium) (id : SessionId) : Prop where
  mark : m.fails (.write id SessionFile.priority []) ≠ none
  slots : m.fails (.slots id) = none
  event : ∀ (slot : Slot) (contents : Bytes), Slot.ofFileName? slot.fileName = some slot →
    m.fails (.write id slot.fileName contents) = none
  delete : ∀ name, m.fails (.delete id name) = none
  encode : ∀ event, ∃ contents, m.codec.encodeEvent event = .ok contents

/-- There are numbers for so many more events, and no directory stands in their way. -/
structure Vault.HasRoom (v : Vault) (id : SessionId) (n : Nat) : Prop where
  numbers : Slot.greatest (v.files id).slots + n < 2 ^ 64
  isFree : ∀ slot : Slot, Slot.ofFileName? slot.fileName = some slot →
    v.item? id slot.fileName ≠ some .directory

/-- Where files are written no directory is made. -/
theorem Vault.item?_after_writes_ne_directory {v : Vault} {id : SessionId} {name : String}
    (h : v.item? id name ≠ some .directory) {changes : List Change}
    (hwrites : ∀ c ∈ changes, ∃ file contents, c = .write id file contents) :
    (v.after changes).item? id name ≠ some .directory := by
  induction changes generalizing v with
  | nil => exact h
  | cons c rest ih =>
    obtain ⟨file, contents, rfl⟩ := hwrites c List.mem_cons_self
    exact ih (v := v.setFile id file contents)
      (Engine.item?_setFile_ne_directory h file contents)
      fun d hd => hwrites d (List.mem_cons_of_mem _ hd)

section Unmarked

variable {m : Medium} {id : SessionId} (hid : id.IsStorable) (hm : m.NeverMarks id) (caps : Caps)
  (correlation : Option String)

include hid hm

/-- An event of high priority adds an event file, and there is room for the next one. -/
theorem slots_unmarked {v : Vault} (hv : v.IsWellFormed) {n : Nat} (hroom : v.HasRoom id (n + 1))
    (event : Event) :
    let w := v.after (m.eventChanges v id caps correlation event true)
    w.HasRoom id n ∧ ∃ slot, (w.files id).slots = (v.files id).slots ++ [slot] := by
  intro w
  obtain ⟨contents, hencode⟩ := hm.encode event
  have hwrites : ∀ slot : Slot, Slot.ofFileName? slot.fileName = some slot →
      m.answer v (.write id slot.fileName contents) = .ok () := fun slot hslot =>
    (Medium.answer_write_eq_ok_iff hid).2 ⟨hm.event slot contents hslot, hroom.isFree slot hslot⟩
  have hnumber : Slot.greatest (v.files id).slots + 1 < 2 ^ 64 := by
    have hnumbers := hroom.numbers
    omega
  obtain ⟨slot, hnext, -, -, -, -, hfailed⟩ := Medium.eventChanges_of_room hid hv hm.slots
    hm.delete hencode hwrites hnumber caps correlation true
  obtain ⟨hchanges, hslots⟩ := hfailed fun hnoted => hm.mark
    ((Medium.answer_write_eq_ok_iff hid).1
      (hnoted (SessionFile.priority, []) (by simp [Engine.notes]))).1
  refine ⟨⟨?_, fun s hs => ?_⟩, slot, hslots⟩
  · rw [hslots, Slot.greatest_concat (hslots ▸ (w.files id).pairwise_slots), hnext, Nat.add_assoc,
      Nat.add_comm 1 n]
    exact hroom.numbers
  · refine Vault.item?_after_writes_ne_directory (hroom.isFree s hs) fun c hc => ?_
    obtain ⟨file, -, rfl⟩ := List.mem_map.1 (hchanges.subset hc)
    exact ⟨_, _, rfl⟩

/-- As long as the session cannot be marked, its event files pile up: every event of high priority
adds one, whatever the cap. -/
theorem unmarked_events_pile_up {v : Vault} {tree : Node} (hheld : v.IsHeldIn m.place tree)
    (events : List Event) (hroom : v.HasRoom id events.length) :
    ∃ w : Vault, w.IsHeldIn m.place (Engine.after ⟨m.place.store.failing m.fails, m.codec⟩ tree
        (events.map fun event => .persistEvent caps correlation event id true)) ∧
      (v.files id).slots <+: (w.files id).slots ∧
      (w.files id).slots.length = (v.files id).slots.length + events.length := by
  induction events generalizing v tree with
  | nil => exact ⟨v, hheld, List.prefix_rfl, rfl⟩
  | cons event rest ih =>
    obtain ⟨hrest, slot, hslots⟩ :=
      slots_unmarked hid hm caps correlation hheld.isWellFormed hroom event
    obtain ⟨w, hw, hbefore, hlength⟩ := ih
      (Medium.persistEvent_held (m := m) hheld hid caps correlation event true) hrest
    rw [hslots] at hbefore hlength
    refine ⟨w, hw, (List.prefix_append _ _).trans hbefore, hlength.trans ?_⟩
    rw [List.length_append, List.length_singleton, List.length_cons]
    omega

end Unmarked

namespace OneEvent

/-- A store in which the session cannot be marked. -/
def unmarkable : Medium where
  place := pass.place
  fails call :=
    match call with
    | .write id name _ =>
      if id = session ∧ name = SessionFile.priority then
        some (.storage .renameTemporary name .denied)
      else none
    | _ => none
  codec := .json

theorem neverMarks_unmarkable : unmarkable.NeverMarks session where
  mark := by simp [unmarkable]
  slots := rfl
  event slot contents hslot := by
    have hname : slot.fileName ≠ SessionFile.priority := fun h =>
      SessionFile.not_mem_all hslot (h ▸ by decide)
    simp [unmarkable, hname]
  delete _ := rfl
  encode _ := ⟨_, rfl⟩

/-- An event of high priority is stored in it all the same. -/
theorem write_mem_unmarkable :
    .write session (Slot.new 2 true).fileName (Event.log 0 "y").encode ∈
      unmarkable.eventChanges vault session { events := 1 } none (Event.log 0 "y") true := by
  have hslots : unmarkable.answer vault (.slots session) = .ok [slot] := by
    rw [← slots_vault]
    exact congrArg Prod.fst (vault.perform_slots pass.place isStorable)
  have hnext : Engine.nextSequence session [slot] = .ok 2 := rfl
  have hwrites : unmarkable.fails (.write session (Slot.new 2 true).fileName
      (Event.log 0 "y").encode) = none :=
    neverMarks_unmarkable.event _ _ (Slot.ofFileName?_name 2 true)
  rw [Medium.eventChanges_of_next (m := unmarkable) rfl hslots hnext]
  exact Medium.write_mem_storing
    ((Medium.answer_write_eq_ok_iff isStorable).2 ⟨hwrites, item?_ne_directory _⟩)

theorem not_noted_unmarkable : ¬ ∀ note ∈ Engine.notes true none,
    unmarkable.answer vault (.write session note.1 note.2) = .ok () := by
  intro h
  have hmark := h (SessionFile.priority, []) (by simp [Engine.notes])
  have hfails := ((Medium.answer_write_eq_ok_iff isStorable).1 hmark).1
  simp [unmarkable] at hfails

end OneEvent

/-- There is room for one event file, the session cannot be marked, and there are two of them. -/
theorem unmarked_event_exceeds_cap : ∃ (tree : Node) (w : Vault),
    OneEvent.vault.IsHeldIn OneEvent.unmarkable.place tree ∧
    (∀ name, OneEvent.unmarkable.fails (.delete OneEvent.session name) = none) ∧
    let run := Engine.persistEvent
      ⟨(OneEvent.unmarkable.place.store.failing OneEvent.unmarkable.fails).logged,
        OneEvent.unmarkable.codec⟩ { events := 1 } none (Event.log 0 "y") OneEvent.session true
      (tree, [])
    .write OneEvent.session (Slot.new 2 true).fileName (Event.log 0 "y").encode ∈ run.2.2 ∧
      w.IsHeldIn OneEvent.unmarkable.place run.2.1 ∧
      (w.files OneEvent.session).slots = [OneEvent.slot, Slot.new 2 true] ∧
      1 < (w.files OneEvent.session).slots.length := by
  obtain ⟨tree, hheld⟩ : ∃ tree, OneEvent.vault.IsHeldIn OneEvent.unmarkable.place tree :=
    OneEvent.exists_tree
  obtain ⟨hw, hlog⟩ := Medium.persistEvent_directory hheld OneEvent.isStorable { events := 1 } none
    (Event.log 0 "y") true
  have hstored := OneEvent.write_mem_unmarkable
  obtain ⟨-, hfailed⟩ := Medium.slots_eventChanges OneEvent.isStorable hheld.isWellFormed
    (fun _ => rfl) (Slot.ofFileName?_name 2 true) hstored
  have hslots := hfailed OneEvent.not_noted_unmarkable
  rw [OneEvent.slots_vault] at hslots
  rw [← hlog] at hstored
  exact ⟨tree, _, hheld, fun _ => rfl, hstored, hw, hslots, by rw [hslots]; decide⟩

/-- The same store, seen from what the cap needs. -/
theorem event_cap_kept_iff_one_event : ∃ (tree : Node) (w : Vault),
    OneEvent.vault.IsHeldIn OneEvent.unmarkable.place tree ∧
    w.IsHeldIn OneEvent.unmarkable.place (Engine.persistEvent
      ⟨(OneEvent.unmarkable.place.store.failing OneEvent.unmarkable.fails).logged,
        OneEvent.unmarkable.codec⟩ { events := 1 } none (Event.log 0 "y") OneEvent.session true
      (tree, [])).2.1 ∧
    (w.files OneEvent.session).slots =
      (OneEvent.vault.files OneEvent.session).slots ++ [Slot.new 2 true] := by
  obtain ⟨tree, hheld⟩ : ∃ tree, OneEvent.vault.IsHeldIn OneEvent.unmarkable.place tree :=
    OneEvent.exists_tree
  obtain ⟨-, hlog⟩ := Medium.persistEvent_directory hheld OneEvent.isStorable { events := 1 } none
    (Event.log 0 "y") true
  have hstored := OneEvent.write_mem_unmarkable
  rw [← hlog] at hstored
  obtain ⟨w, hw, -, hfailed⟩ := event_cap_kept_iff hheld OneEvent.isStorable (fun _ => rfl)
    (Slot.ofFileName?_name 2 true) hstored
  exact ⟨tree, w, hheld, hw, hfailed OneEvent.not_noted_unmarkable⟩

end ReportVault
