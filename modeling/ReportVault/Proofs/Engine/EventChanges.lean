import ReportVault.Proofs.Engine.Persist

/-!
# ReportVault.Proofs.Engine.EventChanges

Storing an event as a list of changes.

The event file and what is noted beside it are written one after the other, and the first write that
fails ends that (`Medium.begun`).  If none fails, the oldest event files beyond the cap are deleted,
and what cannot be deleted is passed over (`Medium.tried`).  `Medium.eventChanges` puts both
together, and `persistEvent_directory` says that these changes are made and no others.

`storing_eq` has the changes for a next number and the event files after them.
`slots_eventChanges` and `eventChanges_of_room` say the same of an event that was stored and of one
that can be.  Numbers may be shared by several files.
-/

namespace ReportVault

open FileSystem Retention

namespace Engine

/-- The files that are written beside that of an event, with their contents: the mark of high
priority, and the analytics session if there is one. -/
def notes (high : Bool) (correlation : Option String) : List (String × Bytes) :=
  (if high then [(SessionFile.priority, [])] else []) ++
    (correlation.map fun value => (SessionFile.correlation, Bytes.ofText value)).toList

theorem mem_all_of_mem_notes {high : Bool} {correlation : Option String} {note : String × Bytes}
    (h : note ∈ notes high correlation) : note.1 ∈ SessionFile.all := by
  rcases List.mem_append.1 h with h | h
  · cases high with
    | false => exact absurd h List.not_mem_nil
    | true =>
      rw [List.mem_singleton.1 h]
      decide
  · cases correlation with
    | none => exact absurd h List.not_mem_nil
    | some value =>
      rw [List.mem_singleton.1 h]
      simp [SessionFile.all]

/-- None of them is an event file. -/
theorem ofFileName?_of_mem_notes {high : Bool} {correlation : Option String}
    {note : String × Bytes} (h : note ∈ notes high correlation) :
    Slot.ofFileName? note.1 = none :=
  SessionFile.ofFileName?_eq_none note.1 (mem_all_of_mem_notes h)

/-- The writes of files of a session. -/
def writes (id : SessionId) (files : List (String × Bytes)) : List Change :=
  files.map fun file => .write id file.1 file.2

/-- The deletes by which event files beyond the cap are removed. -/
def trims (id : SessionId) (slots : List Slot) (cap : Nat) : List Change :=
  (splitOldest slots cap).1.map fun old => .delete id old.fileName

/-- An event is stored by writes, and then files are deleted. -/
theorem tryPersistEvent_eq_writes [Monad m] [LawfulMonad m] (e : Engine m) (caps : Caps)
    (correlation : Option String) (event : Event) (id : SessionId) (high : Bool) :
    e.tryPersistEvent caps correlation event id high = (do
      let contents ← e.codec.encodeEvent event
      let slots ← e.store.perform (.slots id)
      let sequence ← nextSequence id slots
      let slot := Slot.new sequence high
      (writes id ((slot.fileName, contents) :: notes high correlation)).forM fun c =>
        e.store.perform c.call
      (trims id (slots ++ [slot]) caps.events).forM fun c => (e.attempt c.call : m Unit)) := by
  rw [tryPersistEvent_eq]
  refine bind_congr fun contents => bind_congr fun slots => bind_congr fun sequence => ?_
  rw [finishEvent]
  cases high <;> cases correlation <;> simp [notes, writes, trims, Change.call, Slot.new]

end Engine

/-! ## Runs -/

namespace Medium

variable (m : Medium)

/-- The changes of a list up to the first that fails. -/
def begun (v : Vault) : List Change → List Change
  | [] => []
  | c :: rest =>
    match m.answer v c.call with
    | .ok _ => c :: begun (c.apply v) rest
    | .error _ => []

/-- The changes of a list that do not fail. -/
def tried (v : Vault) : List Change → List Change
  | [] => []
  | c :: rest =>
    match m.answer v c.call with
    | .ok _ => c :: tried (c.apply v) rest
    | .error _ => tried v rest

/-- The changes by which the last of some slots is stored with its event: its file is written with
the notes, and then the oldest of the slots go. -/
def storing (v : Vault) (id : SessionId) (cap : Nat) (correlation : Option String)
    (contents : Bytes) (slots : List Slot) (slot : Slot) : List Change :=
  let writes := Engine.writes id ((slot.fileName, contents) :: Engine.notes slot.high correlation)
  let written := m.begun v writes
  if written = writes then
    written ++ m.tried (v.after written) (Engine.trims id (slots ++ [slot]) cap)
  else written

/-- The changes by which an event is stored. -/
def eventChanges (v : Vault) (id : SessionId) (caps : Caps) (correlation : Option String)
    (event : Event) (high : Bool) : List Change :=
  match m.codec.encodeEvent event, m.answer v (.slots id) with
  | .ok contents, .ok slots =>
    match Engine.nextSequence id slots with
    | .ok sequence =>
      m.storing v id caps.events correlation contents slots (Slot.new sequence high)
    | .error _ => []
  | _, _ => []

variable {m} {v : Vault} {id : SessionId}

/-- A call is answered, and what it does is written down. -/
theorem run_logged_perform (call : Store.Call α) (v : Vault) (log : List Change) :
    (m.logged.store.perform call).run (v, log) =
      (m.answer v call, v.after (call.logs (m.answer v call)),
        log ++ call.logs (m.answer v call)) := by
  rw [logged, Store.run_logged, answer]
  cases hfails : m.fails call with
  | some failure =>
    have hrun : (m.store.perform call).run v = (.error failure, v) := by
      simp only [store, Store.failing, hfails]
      rfl
    rw [hrun]
    rfl
  | none =>
    have hrun : (m.store.perform call).run v = v.perform m.place call := by
      simp only [store, Store.failing, hfails]
      rfl
    rw [hrun, ← v.perform_snd_eq_after]

/-- A loop over changes ends with the first that fails. -/
theorem run_begun (changes : List Change) (v : Vault) (log : List Change) :
    ∃ answer, (changes.forM fun c => m.logged.store.perform c.call).run (v, log) =
        (answer, v.after (m.begun v changes), log ++ m.begun v changes) ∧
      (answer = .ok () ↔ m.begun v changes = changes) := by
  induction changes generalizing v log with
  | nil => exact ⟨.ok (), by rw [begun, List.append_nil]; rfl, by simp [begun]⟩
  | cons c rest ih =>
    have hrun := run_logged_perform (m := m) c.call v log
    have hcons : (c :: rest).forM (fun c => m.logged.store.perform c.call) =
        m.logged.store.perform c.call >>= fun _ =>
          rest.forM fun c => m.logged.store.perform c.call := rfl
    rw [hcons, begun]
    cases hanswer : m.answer v c.call with
    | error failure =>
      rw [hanswer, Store.Call.logs, List.append_nil] at hrun
      exact ⟨.error failure, by rw [run_bind_of_error hrun, List.append_nil], by simp⟩
    | ok done =>
      rw [hanswer, Store.Call.logs, c.change?_call, Option.toList_some] at hrun
      obtain ⟨answer, hrest, hiff⟩ := ih (c.apply v) (log ++ [c])
      refine ⟨answer, ?_, by simp [hiff]⟩
      rw [run_bind_of_ok hrun]
      refine hrest.trans ?_
      rw [List.append_assoc]
      rfl

/-- A loop over changes that are tried goes on. -/
theorem run_tried (changes : List Change) (v : Vault) (log : List Change) :
    (changes.forM fun c =>
        (liftM (m.logged.attempt c.call) : ExceptT Failure (StateM (Vault × List Change)) Unit)).run
        (v, log) = (.ok (), v.after (m.tried v changes), log ++ m.tried v changes) := by
  induction changes generalizing v log with
  | nil =>
    rw [tried, List.append_nil]
    rfl
  | cons c rest ih =>
    have hrun : m.logged.attempt c.call (v, log) = _ :=
      run_bind (run_logged_perform (m := m) c.call v log) _
    show ((liftM (m.logged.attempt c.call) :
      ExceptT Failure (StateM (Vault × List Change)) Unit) >>= fun _ => rest.forM _).run _ = _
    rw [run_bind_lift hrun, tried]
    cases hanswer : m.answer v c.call with
    | error failure =>
      rw [Store.Call.logs, List.append_nil]
      exact ih v log
    | ok done =>
      rw [Store.Call.logs, c.change?_call, Option.toList_some]
      refine (ih (c.apply v) (log ++ [c])).trans ?_
      rw [List.append_assoc]
      rfl

/-- What is written and then tried. -/
theorem run_storing (v : Vault) (id : SessionId) (cap : Nat) (correlation : Option String)
    (contents : Bytes) (slots : List Slot) (slot : Slot) (log : List Change) :
    (((Engine.writes id ((slot.fileName, contents) :: Engine.notes slot.high correlation)).forM
        (fun c => m.logged.store.perform c.call) >>= fun _ =>
      (Engine.trims id (slots ++ [slot]) cap).forM fun c =>
        (liftM (m.logged.attempt c.call) :
          ExceptT Failure (StateM (Vault × List Change)) Unit)).run (v, log)).2 =
      (v.after (m.storing v id cap correlation contents slots slot),
        log ++ m.storing v id cap correlation contents slots slot) := by
  obtain ⟨answer, hwrites, hiff⟩ := run_begun (m := m)
    (Engine.writes id ((slot.fileName, contents) :: Engine.notes slot.high correlation)) v log
  rw [storing]
  split
  · next hall =>
    rw [hiff.2 hall] at hwrites
    rw [run_bind_of_ok hwrites, run_tried, Vault.after_append, List.append_assoc]
  · next hfailed =>
    cases answer with
    | ok done => exact absurd (hiff.1 rfl) hfailed
    | error failure => rw [run_bind_of_error hwrites]

/-- Storing an event makes its changes. -/
theorem run_persistEvent (v : Vault) (id : SessionId) (caps : Caps) (correlation : Option String)
    (event : Event) (high : Bool) (log : List Change) :
    m.logged.persistEvent caps correlation event id high (v, log) =
      ((), v.after (m.eventChanges v id caps correlation event high),
        log ++ m.eventChanges v id caps correlation event high) := by
  have hnone : (v, log) = (v.after [], log ++ []) := by rw [List.append_nil, Vault.after_nil]
  refine (run_ignored _ _).trans (congrArg (Prod.mk ()) ?_)
  rw [Engine.tryPersistEvent_eq_writes, eventChanges, show m.logged.codec = m.codec from rfl]
  cases m.codec.encodeEvent event with
  | error failure =>
    rw [run_bind_error rfl]
    exact hnone
  | ok contents =>
    have hslots := run_logged_perform (m := m) (.slots id) v log
    rw [Store.Call.logs_of_isRead rfl, ← hnone] at hslots
    rw [run_bind_ok rfl]
    cases hanswer : m.answer v (.slots id) with
    | error failure =>
      rw [hanswer] at hslots
      rw [run_bind_of_error hslots]
      exact hnone
    | ok slots =>
      rw [hanswer] at hslots
      rw [run_bind_of_ok hslots]
      dsimp only
      cases Engine.nextSequence id slots with
      | error failure =>
        rw [run_bind_error rfl]
        exact hnone
      | ok sequence =>
        rw [run_bind_ok rfl]
        exact run_storing v id caps.events correlation contents slots (Slot.new sequence high) log

/-- Storing an event over a directory leaves what the changes make. -/
theorem persistEvent_held {top : Node} (h : v.IsHeldIn m.place top) (hid : id.IsStorable)
    (caps : Caps) (correlation : Option String) (event : Event) (high : Bool) :
    (v.after (m.eventChanges v id caps correlation event high)).IsHeldIn m.place
      (Engine.persistEvent ⟨m.place.store.failing m.fails, m.codec⟩ caps correlation event id high
        top).2 := by
  obtain ⟨-, -, hheld⟩ := Engine.agree_persistEvent (k := m.codec) m.agrees_directory
    (Engine.allowsStoring_isProper hid.isShort) caps correlation event high top (v, []) h
  have hrun : Engine.persistEvent ⟨m.store.logged, m.codec⟩ caps correlation event id high
      (v, []) = _ := run_persistEvent (m := m) v id caps correlation event high []
  rw [hrun] at hheld
  exact hheld

/-- Over a directory with a log it has logged the changes. -/
theorem persistEvent_directory {top : Node} (h : v.IsHeldIn m.place top) (hid : id.IsStorable)
    (caps : Caps) (correlation : Option String) (event : Event) (high : Bool) :
    let run := Engine.persistEvent ⟨(m.place.store.failing m.fails).logged, m.codec⟩ caps
      correlation event id high (top, [])
    (v.after (m.eventChanges v id caps correlation event high)).IsHeldIn m.place run.2.1 ∧
      run.2.2 = m.eventChanges v id caps correlation event high := by
  obtain ⟨-, -, hheld, hlog⟩ := Engine.agree_persistEvent (k := m.codec) m.agrees_logged_directory
    (Engine.allowsStoring_isProper hid.isShort) caps correlation event high (top, []) (v, [])
    ⟨h, rfl⟩
  have hrun : Engine.persistEvent ⟨m.store.logged, m.codec⟩ caps correlation event id high
      (v, []) = _ := run_persistEvent (m := m) v id caps correlation event high []
  rw [hrun] at hheld hlog
  exact ⟨hheld, hlog⟩

/-! ## The event files afterwards -/

theorem begun_prefix_changes (changes : List Change) (v : Vault) :
    m.begun v changes <+: changes := by
  induction changes generalizing v with
  | nil => exact List.prefix_refl []
  | cons c rest ih =>
    rw [begun]
    cases m.answer v c.call with
    | ok done => exact List.cons_prefix_cons.2 ⟨rfl, ih _⟩
    | error failure => exact List.nil_prefix

/-- If anything is done, so is the first change. -/
theorem answer_of_mem_begun {c d : Change} {rest : List Change} (h : d ∈ m.begun v (c :: rest)) :
    m.answer v c.call = .ok () := by
  rw [begun] at h
  cases hanswer : m.answer v c.call with
  | ok done => rfl
  | error failure =>
    rw [hanswer] at h
    exact absurd h List.not_mem_nil

theorem mem_begun_of_answer {c : Change} {rest : List Change} (h : m.answer v c.call = .ok ()) :
    c ∈ m.begun v (c :: rest) := by
  rw [begun, h]
  exact List.mem_cons_self

theorem tried_sublist (changes : List Change) (v : Vault) :
    (m.tried v changes).Sublist changes := by
  induction changes generalizing v with
  | nil => exact List.Sublist.refl []
  | cons c rest ih =>
    rw [tried]
    cases m.answer v c.call with
    | ok done => exact (ih _).cons_cons c
    | error failure => exact (ih v).cons c

/-- The event file is written, if it can be. -/
theorem write_mem_storing {cap : Nat} {correlation : Option String} {contents : Bytes}
    {slots : List Slot} {slot : Slot}
    (h : m.answer v (.write id slot.fileName contents) = .ok ()) :
    .write id slot.fileName contents ∈ m.storing v id cap correlation contents slots slot := by
  have hmem : .write id slot.fileName contents ∈ m.begun v
      (Engine.writes id ((slot.fileName, contents) :: Engine.notes slot.high correlation)) :=
    mem_begun_of_answer h
  rw [storing]
  split
  · exact List.mem_append_left _ hmem
  · exact hmem

/-- What is written of an event file is that of the event that is stored. -/
theorem eq_of_write_mem_storing {cap : Nat} {correlation : Option String} {contents : Bytes}
    {slots : List Slot} {slot : Slot} {name : String} {written : Bytes}
    (h : .write id name written ∈ m.storing v id cap correlation contents slots slot)
    (hname : Slot.ofFileName? name ≠ none) :
    name = slot.fileName ∧ written = contents ∧
      m.answer v (.write id slot.fileName contents) = .ok () := by
  have hbegun : .write id name written ∈ m.begun v
      (Engine.writes id ((slot.fileName, contents) :: Engine.notes slot.high correlation)) := by
    rw [storing] at h
    split at h
    · rcases List.mem_append.1 h with h | h
      · exact h
      · obtain ⟨old, -, he⟩ := List.mem_map.1 ((tried_sublist _ _).subset h)
        exact absurd he (by simp)
    · exact h
  obtain ⟨file, hfile, he⟩ := List.mem_map.1 ((begun_prefix_changes _ _).subset hbegun)
  rw [Change.write.injEq] at he
  obtain ⟨-, rfl, rfl⟩ := he
  rcases List.mem_cons.1 hfile with rfl | hnote
  · exact ⟨rfl, rfl, answer_of_mem_begun hbegun⟩
  · exact absurd (Engine.ofFileName?_of_mem_notes hnote) hname

section Storable

variable (hid : id.IsStorable)

include hid

/-- A write succeeds unless it fails or a directory stands in the way. -/
theorem answer_write_eq_ok_iff {name : String} {contents : Bytes} :
    m.answer v (.write id name contents) = .ok () ↔
      m.fails (.write id name contents) = none ∧ v.item? id name ≠ some .directory := by
  rw [answer]
  cases m.fails (.write id name contents) with
  | some failure => simp
  | none =>
    by_cases hitem : v.item? id name = some .directory
    · simp [Vault.perform, Vault.ifPlain, hid.checkedName, hitem]
    · simp [v.perform_write m.place hid hitem, hitem]

/-- One write does not get in the way of another one. -/
theorem answer_write_setFile {name other : String} {contents written : Bytes}
    (h : v.item? id name ≠ some .directory) :
    m.answer (v.setFile id name written) (.write id other contents) = .ok () ↔
      m.answer v (.write id other contents) = .ok () := by
  rw [answer_write_eq_ok_iff hid, answer_write_eq_ok_iff hid, Vault.item?_setFile]
  by_cases he : id = id ∧ name = other
  · rw [if_pos he, ← he.2]
    simp [h]
  · rw [if_neg he]

/-- All files are written if each of them can be. -/
theorem begun_writes_eq_iff (files : List (String × Bytes)) (v : Vault) :
    m.begun v (Engine.writes id files) = Engine.writes id files ↔
      ∀ file ∈ files, m.answer v (.write id file.1 file.2) = .ok () := by
  induction files generalizing v with
  | nil => simp [Engine.writes, begun]
  | cons file rest ih =>
    have hrest := ih (v.setFile id file.1 file.2)
    rw [Engine.writes, List.map_cons, begun, List.forall_mem_cons]
    cases hanswer : m.answer v (.write id file.1 file.2) with
    | error failure => simp [Change.call, hanswer]
    | ok done =>
      have hplain := ((answer_write_eq_ok_iff hid).1 hanswer).2
      simp only [answer_write_setFile hid hplain] at hrest
      simp only [Change.call, hanswer, List.cons.injEq, true_and]
      exact hrest

omit hid in
/-- Files that are no event files can be written before or after. -/
theorem slots_after_writes {changes : List Change} (v : Vault)
    (h : ∀ c ∈ changes, ∃ name contents, c = .write id name contents ∧
      Slot.ofFileName? name = none) :
    ((v.after changes).files id).slots = (v.files id).slots := by
  induction changes generalizing v with
  | nil => rfl
  | cons c rest ih =>
    obtain ⟨name, contents, rfl, hname⟩ := h c List.mem_cons_self
    rw [Vault.after_cons, ih _ fun d hd => h d (List.mem_cons_of_mem _ hd), Change.apply,
      Vault.files_setFile_self, Files.slots_setEntry_of_not_slot _ hname]

/-- Event files that are there can be deleted. -/
theorem tried_deletes (hdeletes : ∀ name, m.fails (.delete id name) = none)
    {dropped kept : List Slot}
    {v : Vault} (hv : v.IsWellFormed) (h : (v.files id).slots = dropped ++ kept) :
    let deletes := dropped.map fun old => Change.delete id old.fileName
    m.tried v deletes = deletes ∧ ((v.after deletes).files id).slots = kept := by
  induction dropped generalizing v with
  | nil => exact ⟨rfl, h⟩
  | cons old rest ih =>
    have hnodup := (hv.files_of id).nodup
    have hslots := Files.nodup_slots hnodup
    have hfile : ∀ s ∈ (v.files id).slots, Slot.ofFileName? s.fileName = some s ∧
        ∃ contents, v.item? id s.fileName = some (.file contents) := fun s hs =>
      ⟨((Files.mem_slots_iff hnodup).1 hs).1, ((Files.mem_slots_iff hnodup).1 hs).2.2⟩
    rw [h, List.cons_append, List.nodup_cons] at hslots
    have hold : old ∈ (v.files id).slots := h ▸ List.mem_cons_self
    obtain ⟨contents, hcontents⟩ := (hfile old hold).2
    have hanswer : m.answer v (Change.delete id old.fileName).call = .ok () := by
      rw [answer, Change.call, hdeletes, v.perform_delete m.place hid (by simp [hcontents])]
    have hrest : ((v.dropFile id old.fileName).files id).slots = rest ++ kept := by
      rw [Vault.dropFile_of_item?_eq_some hcontents,
        Vault.files_of_lookup (Finmap.lookup_insert _), Files.slots_dropEntry, h, List.cons_append,
        List.filter_cons_of_neg (by simp)]
      refine List.filter_eq_self.2 fun s hs => ?_
      rw [decide_eq_true_iff]
      intro he
      have hread := (hfile s (h ▸ List.mem_cons_of_mem _ hs)).1
      rw [he, (hfile old hold).1, Option.some.injEq] at hread
      exact hslots.1 (hread ▸ hs)
    obtain ⟨htried, hafter⟩ := ih (hv.dropFile id old.fileName) hrest
    refine ⟨?_, hafter⟩
    rw [List.map_cons, tried, hanswer]
    exact congrArg _ htried

omit hid in
/-- The name of an event file with a new greatest number is not in use. -/
theorem item?_of_greatest (hv : v.IsWellFormed) (slot : Slot)
    (hslot : Slot.ofFileName? slot.fileName = some slot)
    (hgreatest : ∀ s ∈ (v.files id).slots, s.sequence < slot.sequence)
    (hplain : v.item? id slot.fileName ≠ some .directory) : v.item? id slot.fileName = none := by
  cases hitem : v.item? id slot.fileName with
  | none => rfl
  | some item =>
    cases item with
    | directory => exact absurd hitem hplain
    | file contents =>
      have hmem : slot ∈ (v.files id).slots := (Files.mem_slots_iff (hv.files_of id).nodup).2
        ⟨hslot, Slot.visible_of_ofFileName? hslot, contents, hitem⟩
      exact absurd (hgreatest slot hmem) (UInt64.lt_irrefl _)

/-- Once the file of an event is written, its slot is the last one, whatever is noted. -/
theorem slots_begun (hv : v.IsWellFormed) {slot : Slot} {contents : Bytes}
    {correlation : Option String} (hslot : Slot.ofFileName? slot.fileName = some slot)
    (hgreatest : ∀ s ∈ (v.files id).slots, s.sequence < slot.sequence)
    (hwritten : m.answer v (.write id slot.fileName contents) = .ok ()) :
    ((v.after (m.begun v (Engine.writes id
      ((slot.fileName, contents) :: Engine.notes slot.high correlation)))).files id).slots =
      (v.files id).slots ++ [slot] := by
  have hplain := ((answer_write_eq_ok_iff hid).1 hwritten).2
  have hfree := item?_of_greatest hv slot hslot hgreatest hplain
  rw [Engine.writes, List.map_cons, begun, Change.call, hwritten]
  dsimp only
  rw [Vault.after_cons, slots_after_writes, Change.apply, Vault.files_setFile_self,
    Files.slots_setEntry_of_greatest hslot hfree fun s hs => UInt64.le_of_lt (hgreatest s hs)]
  intro c hc
  obtain ⟨note, hnote, rfl⟩ := List.mem_map.1 ((begun_prefix_changes _ _).subset hc)
  exact ⟨_, _, rfl, Engine.ofFileName?_of_mem_notes hnote⟩

/-- The changes by which the next event is stored, and the event files after them. -/
theorem storing_eq (hv : v.IsWellFormed) (hdeletes : ∀ name, m.fails (.delete id name) = none)
    (slot : Slot) {contents : Bytes} (cap : Nat) (correlation : Option String)
    (hslot : Slot.ofFileName? slot.fileName = some slot) (hname : IsEntryName slot.fileName)
    (hgreatest : ∀ s ∈ (v.files id).slots, s.sequence < slot.sequence)
    (hwritten : m.answer v (.write id slot.fileName contents) = .ok ()) :
    let slots := (v.files id).slots ++ [slot]
    let writes := Engine.writes id ((slot.fileName, contents) :: Engine.notes slot.high correlation)
    let changes := m.storing v id cap correlation contents (v.files id).slots slot
    let noted := ∀ note ∈ Engine.notes slot.high correlation,
      m.answer v (.write id note.1 note.2) = .ok ()
    (noted → changes = writes ++ Engine.trims id slots cap ∧
      ((v.after changes).files id).slots = keepNewest slots cap) ∧
    (¬ noted → changes <+: writes ∧ ((v.after changes).files id).slots = slots) := by
  intro slots writes changes noted
  have hslots : ((v.after (m.begun v writes)).files id).slots = slots :=
    slots_begun hid hv hslot hgreatest hwritten
  have hall : m.begun v writes = writes ↔ noted := by
    rw [begun_writes_eq_iff hid, List.forall_mem_cons]
    exact and_iff_right hwritten
  have hchanges : changes = if m.begun v writes = writes then
      m.begun v writes ++ m.tried (v.after (m.begun v writes)) (Engine.trims id slots cap)
    else m.begun v writes := rfl
  constructor
  · intro hnoted
    rw [hchanges, if_pos (hall.2 hnoted), hall.2 hnoted]
    rw [hall.2 hnoted, ← splitOldest_append slots cap] at hslots
    have hproper : (v.after writes).IsWellFormed := hv.after fun c hc => by
      obtain ⟨file, hfile, rfl⟩ := List.mem_map.1 hc
      rcases List.mem_cons.1 hfile with rfl | hnote
      · exact ⟨hid, hname⟩
      · exact ⟨hid, (isEntryName_sessionFile _ (Engine.mem_all_of_mem_notes hnote)).1⟩
    obtain ⟨htried, hkept⟩ := tried_deletes hid hdeletes hproper hslots
    have htrims : m.tried (v.after writes) (Engine.trims id slots cap) =
        Engine.trims id slots cap := htried
    rw [htrims, Vault.after_append]
    exact ⟨rfl, hkept⟩
  · intro hnoted
    rw [hchanges, if_neg fun h => hnoted (hall.1 h)]
    exact ⟨begun_prefix_changes _ _, hslots⟩

omit hid in
/-- With a next number the event is stored under it. -/
theorem eventChanges_of_next {caps : Caps} {correlation : Option String} {event : Event}
    {high : Bool} {contents : Bytes} {slots : List Slot} {sequence : UInt64}
    (hencode : m.codec.encodeEvent event = .ok contents)
    (hslots : m.answer v (.slots id) = .ok slots)
    (hnext : Engine.nextSequence id slots = .ok sequence) :
    m.eventChanges v id caps correlation event high =
      m.storing v id caps.events correlation contents slots (Slot.new sequence high) := by
  simp only [eventChanges, hencode, hslots, hnext]

/-- If an event file is written, it is that of the next event. -/
theorem next_of_write_mem {caps : Caps} {correlation : Option String} {event : Event}
    {high : Bool} {slot : Slot} {contents : Bytes}
    (hslot : Slot.ofFileName? slot.fileName = some slot)
    (h : .write id slot.fileName contents ∈ m.eventChanges v id caps correlation event high) :
    slot = Slot.new slot.sequence high ∧
      Engine.nextSequence id (v.files id).slots = .ok slot.sequence ∧
      m.answer v (.write id slot.fileName contents) = .ok () ∧
      m.eventChanges v id caps correlation event high =
        m.storing v id caps.events correlation contents (v.files id).slots slot := by
  have hslots : ∀ slots, m.answer v (.slots id) = .ok slots → slots = (v.files id).slots := by
    intro slots hanswer
    rw [answer] at hanswer
    cases hfails : m.fails (.slots id) with
    | some failure => simp [hfails] at hanswer
    | none =>
      rw [hfails, v.perform_slots m.place hid] at hanswer
      exact (Except.ok.inj hanswer).symm
  rw [eventChanges] at h ⊢
  split at h
  · next written slots hencode hanswer =>
    obtain rfl := hslots slots hanswer
    split at h
    · next sequence hnext =>
      obtain ⟨hfile, rfl, hwritten⟩ := eq_of_write_mem_storing h (by simp [hslot])
      have hread := Slot.ofFileName?_name sequence high
      obtain rfl : slot = Slot.new sequence high := by
        rw [show Slot.name sequence high = slot.fileName from hfile.symm, hslot] at hread
        exact Option.some.inj hread
      exact ⟨rfl, hnext, hwritten, rfl⟩
    · exact absurd h List.not_mem_nil
  · exact absurd h List.not_mem_nil

/-- The event files after an event is stored.  If a note cannot be written, none is deleted. -/
theorem slots_eventChanges (hv : v.IsWellFormed)
    (hdeletes : ∀ name, m.fails (.delete id name) = none) {caps : Caps}
    {correlation : Option String} {event : Event} {high : Bool} {slot : Slot} {contents : Bytes}
    (hslot : Slot.ofFileName? slot.fileName = some slot)
    (h : .write id slot.fileName contents ∈ m.eventChanges v id caps correlation event high) :
    let slots := (v.files id).slots ++ [slot]
    let w := v.after (m.eventChanges v id caps correlation event high)
    let noted := ∀ note ∈ Engine.notes high correlation,
      m.answer v (.write id note.1 note.2) = .ok ()
    (noted → (w.files id).slots = keepNewest slots caps.events) ∧
      (¬ noted → (w.files id).slots = slots) := by
  intro slots w noted
  obtain ⟨hnew, hnext, hwritten, hchanges⟩ := next_of_write_mem hid hslot h
  have hname : IsEntryName slot.fileName := by
    rw [hnew]
    exact (Slot.isEntryName_name slot.sequence high).1
  have hhigh : slot.high = high := congrArg Slot.high hnew
  obtain ⟨hall, hfailed⟩ := storing_eq hid hv hdeletes slot caps.events correlation hslot hname
    (Engine.lt_of_nextSequence (v.files id).pairwise_slots hnext) hwritten
  rw [← hchanges, hhigh] at hall hfailed
  exact ⟨fun hnoted => (hall hnoted).2, fun hnoted => (hfailed hnoted).2⟩

/-- An event that can be encoded and written is stored, as long as there is a next number. -/
theorem eventChanges_of_room (hv : v.IsWellFormed) (hslots : m.fails (.slots id) = none)
    (hdeletes : ∀ name, m.fails (.delete id name) = none) {event : Event} {contents : Bytes}
    (hencode : m.codec.encodeEvent event = .ok contents)
    (hwrites : ∀ slot : Slot, Slot.ofFileName? slot.fileName = some slot →
      m.answer v (.write id slot.fileName contents) = .ok ())
    (hroom : Slot.greatest (v.files id).slots + 1 < 2 ^ 64) (caps : Caps)
    (correlation : Option String) (high : Bool) :
    let changes := m.eventChanges v id caps correlation event high
    let noted := ∀ note ∈ Engine.notes high correlation,
      m.answer v (.write id note.1 note.2) = .ok ()
    ∃ slot : Slot, slot.sequence.toNat = Slot.greatest (v.files id).slots + 1 ∧ slot.high = high ∧
      Slot.ofFileName? slot.fileName = some slot ∧
      (∀ s ∈ (v.files id).slots, s.sequence < slot.sequence) ∧
      let slots := (v.files id).slots ++ [slot]
      let writes := Engine.writes id ((slot.fileName, contents) :: Engine.notes high correlation)
      (noted → changes = writes ++ Engine.trims id slots caps.events ∧
        ((v.after changes).files id).slots = keepNewest slots caps.events) ∧
      (¬ noted → changes <+: writes ∧ ((v.after changes).files id).slots = slots) := by
  intro changes noted
  have hsorted := (v.files id).pairwise_slots
  have hnext : Engine.nextSequence id (v.files id).slots =
      .ok (UInt64.ofNat (Slot.greatest (v.files id).slots + 1)) := by
    rw [Engine.nextSequence_eq hsorted, if_pos (by rwa [UInt64.size])]
  have hanswer : m.answer v (.slots id) = .ok (v.files id).slots := by
    rw [answer, hslots, v.perform_slots m.place hid]
  have hstoring : changes = m.storing v id caps.events correlation contents (v.files id).slots
      (Slot.new (UInt64.ofNat (Slot.greatest (v.files id).slots + 1)) high) :=
    eventChanges_of_next hencode hanswer hnext
  have hgreatest := Engine.lt_of_nextSequence hsorted hnext
  have hnumber := Engine.toNat_of_nextSequence hsorted hnext
  generalize UInt64.ofNat (Slot.greatest (v.files id).slots + 1) = sequence at *
  have hslot := Slot.ofFileName?_name sequence high
  have hname := Slot.isEntryName_name sequence high
  refine ⟨Slot.new sequence high, hnumber, rfl, hslot, hgreatest, ?_⟩
  rw [hstoring]
  exact storing_eq hid hv hdeletes (.new sequence high) caps.events correlation hslot hname.1
    hgreatest (hwrites _ hslot)

end Storable

end Medium

end ReportVault
