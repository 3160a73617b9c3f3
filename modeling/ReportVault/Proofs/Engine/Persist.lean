import ReportVault.Engine.Persist
import ReportVault.Proofs.Engine.Medium
import ReportVault.Proofs.Store.Events

/-!
# ReportVault.Proofs.Engine.Persist

Storing an event, as what it does to the events that a session has and to its files.

The event comes last, since its number is above all others, and the oldest events beyond the cap are
dropped: `holds_tryPersistEvent`.  Of the other files the mark and the analytics session may be
written, and no others: `files_tryPersistEvent`.
-/

namespace ReportVault

open FileSystem Retention

/-! ## What is written beside an event -/

namespace Files

/-- The files after an event was written: its session is marked if it has high priority, and the
analytics session is noted if there is one. -/
def noted (files : Files) (high : Bool) (correlation : Option String) : Files :=
  let marked := if high then setEntry SessionFile.priority (.file []) files else files
  match correlation with
  | none => marked
  | some value => setEntry SessionFile.correlation (.file (Bytes.ofText value)) marked

/-- The files without those of some slots. -/
def without (files : Files) (gone : List Slot) : Files :=
  gone.foldl (fun files old => dropEntry old.fileName files) files

theorem without_cons (files : Files) (old : Slot) (gone : List Slot) :
    files.without (old :: gone) = Files.without (dropEntry old.fileName files) gone := rfl

/-- What dropping an event file keeps, dropping several ones keeps. -/
theorem without_induction {F : Files → Prop} {files : Files} (h : F files) (gone : List Slot)
    (hdrop : ∀ files : Files, ∀ old ∈ gone, F files → F (dropEntry old.fileName files)) :
    F (files.without gone) := by
  induction gone generalizing files with
  | nil => exact h
  | cons old gone ih =>
    rw [without_cons]
    refine ih (hdrop files old List.mem_cons_self h) fun files old hold => ?_
    exact hdrop files old (List.mem_cons_of_mem _ hold)

/-- The notes of an event do not matter to the events. -/
theorem Holds.noted {files : Files} {slots : List Slot} {events : List Event}
    (h : files.Holds slots events) (high : Bool) (correlation : Option String) :
    (files.noted high correlation).Holds slots events := by
  have hmarked : Files.Holds
      (if high then setEntry SessionFile.priority (.file []) files else files) slots events := by
    cases high with
    | false => exact h
    | true => exact h.setEntry_of_not_slot (by decide) _
  cases correlation with
  | none => exact hmarked
  | some value => exact hmarked.setEntry_of_not_slot (by decide) _

end Files

/-! ## The events after an event -/

namespace Engine

/-- The next number is one more than the greatest, if there is such a number. -/
theorem nextSequence_eq {id : SessionId} {slots : List Slot}
    (h : slots.Pairwise fun a b => a.sequence ≤ b.sequence) :
    nextSequence id slots =
      if Slot.greatest slots + 1 < UInt64.size then .ok (UInt64.ofNat (Slot.greatest slots + 1))
      else .error (.sequenceExhausted id) := by
  rcases List.eq_nil_or_concat slots with rfl | ⟨before, last, rfl⟩
  · rfl
  · rw [List.concat_eq_append] at h ⊢
    rw [nextSequence, List.getLast?_concat, Slot.greatest_concat h, UInt64.ofNat_add, UInt64.ofNat_toNat]
    rfl

theorem toNat_of_nextSequence {id : SessionId} {slots : List Slot} {sequence : UInt64}
    (hslots : slots.Pairwise fun a b => a.sequence ≤ b.sequence)
    (h : nextSequence id slots = .ok sequence) : sequence.toNat = Slot.greatest slots + 1 := by
  rw [nextSequence_eq hslots] at h
  split at h
  · next hroom => rw [← Except.ok.inj h, UInt64.toNat_ofNat_of_lt' hroom]
  · exact absurd h (by simp)

/-- The next number is above those of the slots. -/
theorem lt_of_nextSequence {id : SessionId} {slots : List Slot} {sequence : UInt64}
    (hslots : slots.Pairwise fun a b => a.sequence ≤ b.sequence)
    (h : nextSequence id slots = .ok sequence) : ∀ s ∈ slots, s.sequence < sequence := by
  intro s hs
  rw [UInt64.lt_iff_toNat_lt, toNat_of_nextSequence hslots h]
  exact Nat.lt_succ_of_le (Slot.le_greatest hs)

end Engine

namespace Vault

variable {v w : Vault} {place : Location} {id : SessionId} {name : String}

/-- A write that succeeds sets the file. -/
theorem eq_of_perform_write (hid : id.IsStorable) {contents : Bytes} {u : Unit}
    (h : v.perform place (.write id name contents) = (.ok u, w)) :
    w = v.setFile id name contents := by
  by_cases hitem : v.item? id name = some .directory
  · rw [perform, ifPlain, hid.checkedName] at h
    dsimp only at h
    rw [hitem] at h
    exact absurd (congrArg Prod.fst h) (by simp)
  · rw [v.perform_write place hid hitem] at h
    exact (congrArg Prod.snd h).symm

/-- A file that is there is removed. -/
theorem files_perform_delete (v : Vault) (place : Location) (hid : id.IsStorable) {contents : Bytes}
    (hitem : v.item? id name = some (.file contents)) :
    (v.perform place (.delete id name)).2.files id = dropEntry name (v.files id) := by
  rw [perform, ifPlain, hid.checkedName]
  dsimp only
  rw [hitem, dropFile_of_item?_eq_some hitem]
  exact files_of_lookup (Finmap.lookup_insert _)

end Vault

namespace Engine

variable {v w : Vault} {place : Location} {id : SessionId} {slots : List Slot}
  {events : List Event}

/-- A write that succeeds sets the file among those of its session. -/
theorem files_of_run_write (hid : id.IsStorable) {name : String} {contents : Bytes} {u : Unit}
    (hrun : ((Vault.store place).perform (.write id name contents)).run v = (.ok u, w)) :
    w.files id = setEntry name (.file contents) (v.files id) := by
  have hw : w = v.setFile id name contents := Vault.eq_of_perform_write hid hrun
  rw [hw, Vault.files_setFile_self]

/-- The oldest events are dropped one by one. -/
theorem run_dropOldest (place : Location) (hid : id.IsStorable) (dropped : List Slot)
    (h : (v.files id).Holds (dropped ++ slots) events) :
    ∃ w, (dropped.forM fun old =>
        (liftM (attempt ⟨Vault.store place, .json⟩ (.delete id old.fileName)) :
          ExceptT Failure (StateM Vault) Unit)).run v = (.ok (), w) ∧
      (w.files id).Holds slots (events.drop dropped.length) := by
  induction dropped generalizing v events with
  | nil => exact ⟨v, rfl, h⟩
  | cons old dropped ih =>
    obtain ⟨event, rest, rfl⟩ : ∃ event rest, events = event :: rest := by
      have hdecoded := h.decoded
      cases events with
      | nil => exact absurd hdecoded (by simp)
      | cons event rest => exact ⟨event, rest, rfl⟩
    obtain ⟨-, -, contents, hcontents⟩ := h.mem_iff.1 List.mem_cons_self
    have hfiles := v.files_perform_delete place hid hcontents
    have hdrop := h.dropOldest
    rw [← hfiles] at hdrop
    obtain ⟨w, hrun, hw⟩ := ih hdrop
    refine ⟨w, ?_, hw⟩
    show (liftM (attempt ⟨Vault.store place, .json⟩ (.delete id old.fileName)) >>= fun _ =>
      dropped.forM _ : ExceptT Failure (StateM Vault) Unit).run v = _
    rw [run_bind_of_ok (run_liftM_state _ v)]
    exact hrun

/-- After an event is written the oldest ones beyond the cap are dropped. -/
theorem holds_trim (hid : id.IsStorable) (h : (v.files id).Holds slots events) {cap : Nat}
    (hrun : ((splitOldest slots cap).1.forM fun old =>
        (liftM (attempt ⟨Vault.store place, .json⟩ (.delete id old.fileName)) :
          ExceptT Failure (StateM Vault) Unit)).run v = (.ok (), w)) :
    ∃ left, (w.files id).Holds left (keepNewest events cap) := by
  have hlength := h.length_eq
  rw [← splitOldest_append slots cap] at h
  obtain ⟨after, hafter, hheld⟩ := run_dropOldest place hid _ h
  rw [hrun, Prod.mk.injEq] at hafter
  rw [← hafter.2, splitOldest_fst, List.length_take_of_le (Nat.sub_le _ _), hlength,
    ← keepNewest_eq_drop] at hheld
  exact ⟨_, hheld⟩

/-- What is done once an event is written: the session is marked, and the oldest events beyond the
cap are dropped. -/
def finishEvent [Monad m] (e : Engine m) (cap : Nat) (correlation : Option String)
    (id : SessionId) (high : Bool) (slots : List Slot) : ExceptT Failure m Unit := do
  if high then
    e.store.perform (.write id SessionFile.priority [])
  if let some value := correlation then
    e.store.perform (.write id SessionFile.correlation (Bytes.ofText value))
  (splitOldest slots cap).1.forM fun old => (e.attempt (.delete id old.fileName) : m Unit)

theorem tryPersistEvent_eq [Monad m] (e : Engine m) (caps : Caps) (correlation : Option String)
    (event : Event) (id : SessionId) (high : Bool) :
    e.tryPersistEvent caps correlation event id high = (do
      let contents ← e.codec.encodeEvent event
      let slots ← e.store.perform (.slots id)
      let sequence ← nextSequence id slots
      e.store.perform (.write id (Slot.name sequence high) contents)
      e.finishEvent caps.events correlation id high (slots ++ [Slot.new sequence high])) := rfl

/-- Once an event is written the session is noted, and then the oldest events are dropped. -/
theorem exists_of_run_finishEvent (hid : id.IsStorable) {cap : Nat} {correlation : Option String}
    {high : Bool}
    (hrun : (finishEvent ⟨Vault.store place, .json⟩ cap correlation id high slots).run v =
      (.ok (), w)) :
    ∃ u : Vault, u.files id = (v.files id).noted high correlation ∧
      ((splitOldest slots cap).1.forM fun old =>
        (liftM (attempt ⟨Vault.store place, .json⟩ (.delete id old.fileName)) :
          ExceptT Failure (StateM Vault) Unit)).run u = (.ok (), w) := by
  have hunmarked : ∀ t : Vault,
      (finishEvent ⟨Vault.store place, .json⟩ cap correlation id false slots).run t = (.ok (), w) →
      ∃ u : Vault, u.files id = (t.files id).noted false correlation ∧
        ((splitOldest slots cap).1.forM fun old =>
          (liftM (attempt ⟨Vault.store place, .json⟩ (.delete id old.fileName)) :
            ExceptT Failure (StateM Vault) Unit)).run u = (.ok (), w) := by
    intro t hrun
    cases correlation with
    | none => exact ⟨t, rfl, hrun⟩
    | some value =>
      obtain ⟨_, u, hwrite, hrun⟩ := exists_of_run_bind hrun
      exact ⟨u, files_of_run_write hid hwrite, hrun⟩
  cases high with
  | false => exact hunmarked v hrun
  | true =>
    obtain ⟨_, t, hmark, hrun⟩ := exists_of_run_bind hrun
    obtain ⟨u, hu, hrun⟩ := hunmarked t hrun
    refine ⟨u, ?_, hrun⟩
    rw [hu, files_of_run_write hid hmark]
    rfl

/-- An event that is stored is written under the next number, and the rest is done after that. -/
theorem exists_of_run_tryPersistEvent (hid : id.IsStorable) {caps : Caps}
    {correlation : Option String} {event : Event} {high : Bool}
    (hrun : (tryPersistEvent ⟨Vault.store place, .json⟩ caps correlation event id high).run v =
      (.ok (), w)) :
    ∃ (sequence : UInt64) (u : Vault), nextSequence id (v.files id).slots = .ok sequence ∧
      u.files id = setEntry (Slot.name sequence high) (.file event.encode) (v.files id) ∧
      (finishEvent ⟨Vault.store place, .json⟩ caps.events correlation id high
        ((v.files id).slots ++ [Slot.new sequence high])).run u = (.ok (), w) := by
  rw [tryPersistEvent_eq] at hrun
  obtain ⟨contents, u, hencode, hrun⟩ := exists_of_run_bind hrun
  obtain ⟨rfl, rfl⟩ : event.encode = contents ∧ v = u := by cases hencode; exact ⟨rfl, rfl⟩
  obtain ⟨slots, u, hslots, hrun⟩ := exists_of_run_bind hrun
  obtain ⟨rfl, rfl⟩ : (v.files id).slots = slots ∧ v = u := by
    cases (v.perform_slots place hid).symm.trans hslots
    exact ⟨rfl, rfl⟩
  obtain ⟨sequence, u, hsequence, hrun⟩ := exists_of_run_bind hrun
  rw [run_liftM_except, Prod.mk.injEq] at hsequence
  obtain ⟨hsequence, rfl⟩ := hsequence
  obtain ⟨_, written, hwrite, hrun⟩ := exists_of_run_bind hrun
  exact ⟨sequence, written, hsequence, files_of_run_write hid hwrite, hrun⟩

/-- What an event that is stored does to the events of its session: it comes last, and the oldest
ones beyond the cap are gone. -/
theorem holds_tryPersistEvent (hid : id.IsStorable) (h : (v.files id).Holds slots events)
    {caps : Caps} {correlation : Option String} {event : Event} {high : Bool}
    (hrun : (tryPersistEvent ⟨Vault.store place, .json⟩ caps correlation event id high).run v =
      (.ok (), w)) :
    ∃ left, (w.files id).Holds left (keepNewest (events ++ [event]) caps.events) := by
  obtain ⟨sequence, u, hsequence, hu, hrun⟩ := exists_of_run_tryPersistEvent hid hrun
  rw [h.slots_eq] at hsequence hrun
  have hname : Slot.ofFileName? (Slot.new sequence high).fileName =
      some (Slot.new sequence high) := Slot.ofFileName?_name sequence high
  have hwritten : (u.files id).Holds (slots ++ [Slot.new sequence high]) (events ++ [event]) := by
    rw [hu]
    exact h.append hname (Slot.isEntryName_name sequence high).2
      (lt_of_nextSequence (h.increasing.imp UInt64.le_of_lt) hsequence) event
  obtain ⟨t, ht, hrun⟩ := exists_of_run_finishEvent hid hrun
  exact holds_trim hid (ht ▸ hwritten.noted high correlation) hrun

/-! ## The files after an event -/

/-- The files of a session after one of them was deleted. -/
theorem files_delete (v : Vault) (place : Location) (id : SessionId) (name : String) :
    (v.perform place (.delete id name)).2.files id = v.files id ∨
      (v.perform place (.delete id name)).2.files id = dropEntry name (v.files id) := by
  rcases v.perform_snd place (.delete id name) with hsame | ⟨c, hc, hdone⟩
  · exact Or.inl (congrArg (Vault.files · id) hsame)
  · obtain rfl : Change.delete id name = c := Option.some.inj hc
    rw [hdone, Change.apply, Vault.dropFile]
    cases hopen : v.sessions.lookup id with
    | none => exact Or.inl rfl
    | some files =>
      rw [Vault.files_of_lookup hopen]
      exact Or.inr (Vault.files_of_lookup (Finmap.lookup_insert _))

/-- Of the files that are to be dropped some are, and nothing else happens. -/
theorem files_dropOldest (dropped : List Slot)
    (hrun : (dropped.forM fun old =>
        (liftM (attempt ⟨Vault.store place, .json⟩ (.delete id old.fileName)) :
          ExceptT Failure (StateM Vault) Unit)).run v = (.ok (), w)) :
    ∃ gone ⊆ dropped, w.files id = (v.files id).without gone := by
  induction dropped generalizing v with
  | nil =>
    obtain rfl : v = w := congrArg Prod.snd hrun
    exact ⟨[], List.Subset.refl _, rfl⟩
  | cons old dropped ih =>
    obtain ⟨_, u, hfirst, hrest⟩ := exists_of_run_bind hrun
    obtain rfl : (v.perform place (.delete id old.fileName)).2 = u := congrArg Prod.snd hfirst
    obtain ⟨gone, hgone, hfiles⟩ := ih hrest
    rcases files_delete v place id old.fileName with hsame | hdrop
    · exact ⟨gone, List.subset_cons_of_subset _ hgone, by rw [hfiles, hsame]⟩
    · exact ⟨old :: gone, List.cons_subset_cons _ hgone, by rw [hfiles, hdrop, Files.without_cons]⟩

/-- What an event that is stored does to the files of its session: its own file is written, it is
noted, and some event files are dropped. -/
theorem files_tryPersistEvent (hid : id.IsStorable) {caps : Caps} {correlation : Option String}
    {event : Event} {high : Bool}
    (hrun : (tryPersistEvent ⟨Vault.store place, .json⟩ caps correlation event id high).run v =
      (.ok (), w)) :
    ∃ (sequence : UInt64) (gone : List Slot),
      (∀ old ∈ gone, Slot.ofFileName? old.fileName = some old) ∧
      w.files id = (Files.noted (setEntry (Slot.name sequence high) (.file event.encode)
        (v.files id)) high correlation).without gone := by
  obtain ⟨sequence, u, -, hu, hrun⟩ := exists_of_run_tryPersistEvent hid hrun
  obtain ⟨t, ht, hrun⟩ := exists_of_run_finishEvent hid hrun
  obtain ⟨gone, hgone, hfiles⟩ := files_dropOldest _ hrun
  rw [ht, hu] at hfiles
  refine ⟨sequence, gone, fun old hold => ?_, hfiles⟩
  have hold := hgone hold
  rw [splitOldest_fst] at hold
  rcases List.mem_append.1 (List.mem_of_mem_take hold) with hslot | hslot
  · exact (Vault.IsWellFormed.mem_slots.1 hslot).1
  · rw [List.mem_singleton.1 hslot]
    exact Slot.ofFileName?_name sequence high

/-! ## Without failures -/

/-- A file is written where no directory stands in the way. -/
theorem run_write (place : Location) (hid : id.IsStorable) {name : String}
    (h : v.item? id name ≠ some .directory) (contents : Bytes) :
    ((Vault.store place).perform (.write id name contents)).run v =
      (.ok (), v.setFile id name contents) :=
  v.perform_write place hid h contents

/-- A file that is written is no directory. -/
theorem item?_setFile_ne_directory {other : String} (h : v.item? id other ≠ some .directory)
    (name : String) (contents : Bytes) :
    (v.setFile id name contents).item? id other ≠ some .directory := by
  rw [Vault.item?_setFile]
  split
  · simp
  · exact h

/-- A file can be written, and others after it. -/
theorem exists_write (place : Location) (hid : id.IsStorable)
    (h : ∀ name, v.item? id name ≠ some .directory) (name : String) (contents : Bytes) :
    ∃ w : Vault, ((Vault.store place).perform (.write id name contents)).run v = (.ok (), w) ∧
      ∀ name, w.item? id name ≠ some .directory :=
  ⟨_, run_write place hid (h name) contents, fun other =>
    item?_setFile_ne_directory (h other) name contents⟩

/-- Nothing can fail once an event is written, if no directory stands in the way. -/
theorem finishEvent_ok (place : Location) (hid : id.IsStorable)
    (h : ∀ name, v.item? id name ≠ some .directory) (cap : Nat) (correlation : Option String)
    (high : Bool) (slots : List Slot) :
    ((finishEvent ⟨Vault.store place, .json⟩ cap correlation id high slots).run v).1 =
      .ok () := by
  have htrim : ∀ u : Vault,
      ((finishEvent ⟨Vault.store place, .json⟩ cap none id false slots).run u).1 = .ok () := by
    intro u
    obtain ⟨t, ht⟩ := exists_run_forM (ε := Failure)
      (fun old : Slot => attempt ⟨Vault.store place, .json⟩ (.delete id old.fileName))
      (splitOldest slots cap).1 u
    exact congrArg Prod.fst ht
  have hunmarked : ∀ u : Vault, (∀ name, u.item? id name ≠ some .directory) →
      ((finishEvent ⟨Vault.store place, .json⟩ cap correlation id false slots).run u).1 =
        .ok () := by
    intro u hu
    cases correlation with
    | none => exact htrim u
    | some value =>
      obtain ⟨marked, hmark, -⟩ := exists_write place hid hu SessionFile.correlation
        (Bytes.ofText value)
      exact (congrArg Prod.fst (run_bind_of_ok hmark)).trans (htrim marked)
  cases high with
  | false => exact hunmarked v h
  | true =>
    obtain ⟨marked, hmark, hmarked⟩ := exists_write place hid h SessionFile.priority []
    exact (congrArg Prod.fst (run_bind_of_ok hmark)).trans (hunmarked marked hmarked)

/-- An event is stored if no directory stands in the way and there is a next number. -/
theorem tryPersistEvent_ok (place : Location) (hid : id.IsStorable)
    (h : ∀ name, v.item? id name ≠ some .directory) {sequence : UInt64}
    (hsequence : nextSequence id (v.files id).slots = .ok sequence) (caps : Caps)
    (correlation : Option String) (event : Event) (high : Bool) :
    ((tryPersistEvent ⟨Vault.store place, .json⟩ caps correlation event id high).run v).1 =
      .ok () := by
  have hslots : ((Vault.store place).perform (.slots id)).run v = (.ok (v.files id).slots, v) :=
    v.perform_slots place hid
  obtain ⟨written, hwrite, hwritten⟩ := exists_write place hid h (Slot.name sequence high)
    event.encode
  have hencode : Codec.json.encodeEvent event = .ok event.encode := rfl
  rw [tryPersistEvent_eq, run_bind_ok hencode]
  refine (congrArg Prod.fst (run_bind_of_ok hslots)).trans ?_
  rw [run_bind_ok hsequence]
  refine (congrArg Prod.fst (run_bind_of_ok hwrite)).trans ?_
  exact finishEvent_ok place hid hwritten caps.events correlation high _

end Engine

end ReportVault
