import ReportVault.Proofs.Engine.Opening

/-!
# ReportVault.Proofs.Engine.Priority

The tier of a session, over any run of operations.

`Engine.raised` writes down whether an open session was given an event of high priority.  The file of
such an event may be dropped by any later one, but its mark is written with it and stays: the mark is
there if the session was raised, and event files of high priority are there only then
(`Files.IsRaised`).  Each operation keeps that (`raised_step`), and so does a run (`raised_after`);
what a pass looks at is therefore what the history says, and `tier_eq_history` what it makes of it.
-/

namespace ReportVault

open FileSystem Retention
open Engine (Assembled)

/-! ## Marks -/

namespace Files

variable {files : Files} {marked high : Bool} {name : String} {slot : Slot}

/-- The mark is there or not, and event files of high priority only if they may be. -/
structure Shows (files : Files) (marked high : Bool) : Prop where
  mark : (files.contents? SessionFile.priority).isSome = marked
  slots : ∀ slot ∈ files.slots, slot.high = true → high = true

/-- The mark is there if the session had an event of high priority, and only then event files of high
priority may be there. -/
abbrev IsRaised (files : Files) (raised : Bool) : Prop := files.Shows raised raised

/-- An event file after a file was written: the new one, or one that was there. -/
theorem mem_slots_setEntry {contents : Bytes}
    (h : slot ∈ Files.slots (setEntry name (.file contents) files)) :
    slot.fileName = name ∨ slot ∈ files.slots := by
  obtain ⟨hread, hvisible, found, hmem⟩ := Vault.IsWellFormed.mem_slots.1 h
  rcases mem_setEntry hmem with he | hmem
  · exact Or.inl (congrArg Prod.fst he)
  · exact Or.inr (Vault.IsWellFormed.mem_slots.2 ⟨hread, hvisible, found, hmem⟩)

theorem mem_slots_dropEntry (h : slot ∈ Files.slots (dropEntry name files)) :
    slot ∈ files.slots := by
  obtain ⟨hread, hvisible, found, hmem⟩ := Vault.IsWellFormed.mem_slots.1 h
  exact Vault.IsWellFormed.mem_slots.2 ⟨hread, hvisible, found, List.mem_of_mem_filter hmem⟩

namespace Shows

/-- A session that is not open shows nothing. -/
theorem nil : Files.Shows [] false false where
  mark := rfl
  slots slot h := absurd h (by rw [Files.slots]; simp)

/-- A pass goes by the event files and the mark. -/
theorem isMarked_eq (h : files.IsRaised marked) : files.isMarked = marked := by
  rw [isMarked, h.mark]
  cases marked with
  | true => exact Bool.or_true _
  | false =>
    rw [Bool.or_false, List.any_eq_false]
    exact fun slot hslot hhigh => Bool.false_ne_true (h.slots slot hslot hhigh)

/-- What is neither the mark nor an event file does not matter. -/
theorem setEntry_of_not_slot (h : files.Shows marked high) (hname : Slot.ofFileName? name = none)
    (hmark : name ≠ SessionFile.priority) (contents : Bytes) :
    Files.Shows (setEntry name (.file contents) files) marked high where
  mark := by rw [contents?_congr (lookup_setEntry_of_ne _ files hmark.symm), h.mark]
  slots := by
    rw [slots_setEntry_of_not_slot files hname]
    exact h.slots

/-- The mark is written. -/
theorem setMark (h : files.Shows marked high) (contents : Bytes) :
    Files.Shows (setEntry SessionFile.priority (.file contents) files) true high where
  mark := by rw [contents?_eq_some.2 (lookup_setEntry_self _ _ files), Option.isSome_some]
  slots := by
    rw [slots_setEntry_of_not_slot files (SessionFile.ofFileName?_eq_none _ (by decide))]
    exact h.slots

theorem name_ne_priority (hslot : Slot.ofFileName? name = some slot) :
    name ≠ SessionFile.priority :=
  fun he => SessionFile.not_mem_all hslot (he ▸ by decide)

/-- An event file is written. -/
theorem setSlot (h : files.Shows marked high) (hslot : Slot.ofFileName? slot.fileName = some slot)
    (contents : Bytes) :
    Files.Shows (setEntry slot.fileName (.file contents) files) marked (high || slot.high) where
  mark := by
    rw [contents?_congr (lookup_setEntry_of_ne _ files (name_ne_priority hslot).symm), h.mark]
  slots other hother hhigh := by
    rcases mem_slots_setEntry hother with he | hother'
    · have hread := (Vault.IsWellFormed.mem_slots.1 hother).1
      rw [he, hslot, Option.some.injEq] at hread
      rw [hread, hhigh, Bool.or_true]
    · rw [h.slots other hother' hhigh, Bool.true_or]

/-- The mark is written with an event of high priority. -/
theorem noted (h : files.Shows marked (marked || high)) (correlation : Option String) :
    (files.noted high correlation).IsRaised (marked || high) := by
  have hmarked : Files.IsRaised
      (if high then setEntry SessionFile.priority (.file []) files else files)
      (marked || high) := by
    cases high with
    | false => simpa using h
    | true => simpa using h.setMark []
  cases correlation with
  | none => exact hmarked
  | some value => exact hmarked.setEntry_of_not_slot (by decide) (by decide) _

/-- A file other than the mark is dropped. -/
theorem dropEntry (h : files.Shows marked high) (hmark : name ≠ SessionFile.priority) :
    Files.Shows (dropEntry name files) marked high where
  mark := by rw [contents?_congr (lookup_dropEntry_of_ne files hmark.symm), h.mark]
  slots slot hslot := h.slots slot (mem_slots_dropEntry hslot)

end Shows

end Files

/-! ## Storing an event -/

namespace Engine

variable {place : Location} {v w : Vault} {id : SessionId}

/-- An event that is stored raises its session if it has high priority: the mark is written with it,
and nothing else of the session changes that. -/
theorem isRaised_tryPersistEvent (hid : id.IsStorable) {raised raise : Bool}
    (h : (v.files id).IsRaised raised) {caps : Caps} {correlation : Option String} {event : Event}
    (hrun : (tryPersistEvent ⟨Vault.store place, .json⟩ caps correlation event id raise).run v =
      (.ok (), w)) : (w.files id).IsRaised (raised || raise) := by
  obtain ⟨sequence, gone, hgone, hfiles⟩ := files_tryPersistEvent hid hrun
  have hname : Slot.ofFileName? (Slot.new sequence raise).fileName =
      some (Slot.new sequence raise) := Slot.ofFileName?_name sequence raise
  have hwritten : Files.Shows (setEntry (Slot.name sequence raise) (.file event.encode)
      (v.files id)) raised (raised || raise) := h.setSlot hname event.encode
  rw [hfiles]
  exact Files.without_induction (F := fun files => files.IsRaised (raised || raise))
    (hwritten.noted correlation) gone fun files old hold hfiles =>
      hfiles.dropEntry (Files.Shows.name_ne_priority (hgone old hold))

/-! ## Histories -/

/-- The operation gives the session an event of high priority. -/
def Action.raises (id : SessionId) : Action → Bool
  | .persistEvent _ _ _ other high => other = id && high
  | _ => false

/-- Whether the session was given an event of high priority since it was last opened, or before the
run if it has been open since then. -/
def raised (e : Engine (StateM σ)) (id : SessionId) (s : σ) (before : Bool) : List Action → Bool
  | [] => before
  | a :: actions =>
    let next := (a.run e s).2
    e.raised id next (if id ∈ (e.openIds next).1 then before || a.raises id else false) actions

end Engine

section Runs

variable {place : Location} {id : SessionId} {top : Node} {raised : Bool}

/-- An operation raises the session by the event that it gives to it, and by no other one; it may
close the session. -/
theorem raised_step (hid : id.IsStorable)
    (h : FilesAre place id (Files.IsRaised · raised) top) (a : Engine.Action)
    (hstored : a.Stores place.engine id top) :
    OpenFilesAre place id (Files.IsRaised · (raised || a.raises id))
      (a.run place.engine top).2 := by
  have hother : a.raises id = false → (∀ caps correlation event high,
      a ≠ .persistEvent caps correlation event id high) →
      OpenFilesAre place id (Files.IsRaised · (raised || a.raises id))
        (a.run place.engine top).2 := by
    intro hraises ha
    rw [hraises, Bool.or_false]
    refine h.step (fun files name hname contents hfiles => ?_) a ha
    refine hfiles.setEntry_of_not_slot (ofFileName?_of_quiet hname) ?_ contents
    rintro rfl
    exact absurd hname (by decide)
  cases a with
  | persistEvent caps correlation event other high =>
    by_cases he : other = id
    · subst he
      have hraises : (Engine.Action.persistEvent caps correlation event other high).raises other =
          high := by simp [Engine.Action.raises]
      rw [hraises]
      exact (h.persistEvent hid.isShort (hstored rfl) fun v w hv hrun =>
        Engine.isRaised_tryPersistEvent hid hv hrun).openFilesAre
    · exact hother (by simp [Engine.Action.raises, he]) fun _ _ _ _ heq => he (by cases heq; rfl)
  | _ => exact hother rfl fun _ _ _ _ => by simp

/-- After a run the files of the session show what the history says. -/
theorem raised_after (hid : id.IsStorable) (h : FilesAre place id (Files.IsRaised · raised) top)
    (actions : List Engine.Action) (hstored : place.engine.Stores id top actions) :
    FilesAre place id (Files.IsRaised · (place.engine.raised id top raised actions))
      (place.engine.after top actions) := by
  induction actions generalizing top raised with
  | nil => exact h
  | cons a actions ih =>
    obtain ⟨hfirst, hrest⟩ := hstored
    refine ih ?_ hrest
    obtain ⟨v, hheld, hfiles⟩ := (raised_step hid h a hfirst).listed
    refine ⟨v, hheld, ?_⟩
    split at hfiles
    · next hopen => rwa [if_pos hopen]
    · next hclosed =>
      rw [if_neg hclosed, hfiles]
      exact Files.Shows.nil

end Runs

/-! ## Reports -/

namespace Engine.Assembled

variable (id : SessionId) (time : Int64) (marked : Bool) (header : Report) (events : List Event)
  (user correlation : Option String) (recorded : Option Report)

/-- A report says of its session what its tier says, whatever the header said. -/
theorem highPriority_ofParts :
    let a := ofParts id time marked header events user correlation recorded
    (a.report.session.highPriority = true ↔ a.tier ≠ .normal) ∧
      (a.report.session.crashed = true ↔ a.tier = .native) := by
  unfold ofParts
  cases recorded.filter fun r => r.nativePayload.isSome with
  | some native => simp
  | none => cases marked <;> simp [Report.withEvents, Report.correlated, Report.ended]

end Engine.Assembled

section Reports

variable {place : Location} {id : SessionId} {top : Node} {v : Vault} {caps : Caps}
  {current : Option SessionId} {time : Int64} {tier : Tier} {contents : Bytes}

/-- The report that is read from a directory. -/
theorem readFinalized_directory (hheld : v.IsHeldIn place top) (hid : id.IsStorable) :
    (place.engine.readFinalized id top).1 = v.recorded? id := by
  obtain ⟨hanswer, -⟩ := Engine.agree_readFinalized (k := .json) (Store.Agrees.held place)
    (show Store.Call.IsProper (.readReport id) from hid.isShort) top v hheld
  have hrun : Engine.readFinalized ⟨Vault.store place, .json⟩ id v =
      ((Medium.plain place).recorded? v id, v) :=
    Medium.run_readFinalized (m := Medium.plain place)
  rw [hrun, Medium.recorded?_plain place hid] at hanswer
  exact hanswer

/-- The tier of a report that a pass writes, and what the report says of it. -/
theorem tier_of_writeReport (hv : v.IsWellFormed)
    (h : .writeReport id tier contents ∈ (Pass.plain place caps current time).changes v) :
    id.IsStorable ∧
      tier = (if ((v.recorded? id).bind (·.nativePayload)).isSome then .native
        else if (v.files id).isMarked then .priority else .normal) ∧
      ∃ report, Codec.json.decodeReport contents = .ok report ∧
        (report.session.highPriority = true ↔ tier ≠ .normal) ∧
        (report.session.crashed = true ↔ tier = .native) := by
  obtain ⟨a, ⟨ha, -, -⟩, rfl, rfl, hwritten⟩ := Pass.writeReport_mem_changes_iff.1 h
  obtain rfl : a.report.encode = contents := Except.ok.inj hwritten
  have hid := Pass.isStorable_of_mem_assembled hv ha
  obtain ⟨-, header, -, hassembled, -⟩ :=
    (Pass.outcome_plain_eq_some_iff hid).1 (Pass.mem_assembled.1 ha).2
  refine ⟨hid, ?_, a.report, Codec.decodeReport_json_eq_ok_iff.2 a.report.decode?_encode, ?_⟩
  · rw [← congrArg Assembled.tier hassembled, Files.assembled, Assembled.tier_ofParts]
  · rw [← hassembled]
    exact Assembled.highPriority_ofParts ..

/-- Which tier it is of three. -/
theorem tier_cases {crashed raised : Bool}
    (h : tier = if crashed then .native else if raised then .priority else .normal) :
    (tier = .native ↔ crashed = true) ∧ (tier = .priority ↔ ¬ crashed = true ∧ raised = true) ∧
      (tier = .normal ↔ ¬ crashed = true ∧ ¬ raised = true) := by
  subst h
  cases crashed <;> cases raised <;> simp

/-- The tier of a report that a pass writes, over any run of operations on a store that was empty.
It is the native one if the session had a report with a native crash when the pass began; else the
priority one if the session was given an event of high priority since it was last opened, be the
event still there or not; and else the normal one.  The report says the same of its session. -/
theorem tier_eq_history {tree : Node} (hempty : Vault.empty.IsHeldIn place tree)
    (actions : List Engine.Action) (hstored : place.engine.Stores id tree actions)
    (hwrite : .writeReport id tier contents ∈
      (Engine.finalize ⟨place.store.logged, .json⟩ caps current time
        (place.engine.after tree actions, [])).2.2) :
    let crashed := ∃ r, (place.engine.readFinalized id (place.engine.after tree actions)).1 = some r ∧
      r.nativePayload.isSome = true
    let raised := place.engine.raised id tree false actions = true
    (tier = .native ↔ crashed) ∧ (tier = .priority ↔ ¬ crashed ∧ raised) ∧
      (tier = .normal ↔ ¬ crashed ∧ ¬ raised) ∧
      ∃ report, Codec.json.decodeReport contents = .ok report ∧
        (report.session.highPriority = true ↔ tier ≠ .normal) ∧
        (report.session.crashed = true ↔ tier = .native) := by
  intro crashed raised
  obtain ⟨v, hheld⟩ := hempty.exists_run actions
  rw [Pass.log_finalize_plain hheld] at hwrite
  obtain ⟨hid, htier, hreport⟩ := tier_of_writeReport hheld.isWellFormed hwrite
  obtain ⟨w, hw, hraised⟩ := raised_after hid
    ⟨Vault.empty, hempty, Files.Shows.nil⟩ actions hstored
  obtain rfl := hheld.unique hw
  have hcrashed : crashed ↔ ((v.recorded? id).bind (·.nativePayload)).isSome = true := by
    rw [Option.isSome_bind, Option.any_eq_true]
    show (∃ r, (place.engine.readFinalized id _).1 = some r ∧ _) ↔ _
    rw [readFinalized_directory hheld hid]
  rw [hraised.isMarked_eq] at htier
  rw [hcrashed]
  obtain ⟨hnative, hpriority, hnormal⟩ := tier_cases htier
  exact ⟨hnative, hpriority, hnormal, hreport⟩

/-- A session that is opened with an event of high priority is finalized in the priority tier. -/
theorem tier_eq_history_high_event :
    ∃ (tree : Node) (r : Report),
      let run := Engine.opening {} OneEvent.header (Event.log 0 "x") true
      let opened := OneEvent.pass.place.engine.after tree run
      .writeReport OneEvent.session .priority r.encode ∈
        (Engine.finalize ⟨OneEvent.pass.place.store.logged, .json⟩ {} none 5 (opened, [])).2.2 ∧
      OneEvent.pass.place.engine.raised OneEvent.session tree false run = true ∧
      ∃ report, Codec.json.decodeReport r.encode = .ok report ∧
        (report.session.highPriority = true ↔ Tier.priority ≠ .normal) ∧
        (report.session.crashed = true ↔ Tier.priority = .native) := by
  obtain ⟨tree, hheld⟩ : ∃ tree, Vault.empty.IsHeldIn OneEvent.pass.place tree :=
    ⟨_, Vault.IsHeldIn.empty_named OneEvent.isEntryName_data⟩
  have hcap : 1 ≤ ({} : Caps).events := by decide
  have hopen : 1 ≤ ({} : Caps).openSessions := by decide
  have hreports : 1 ≤ ({} : Caps).reports := by decide
  obtain ⟨hstores, hwrites, -⟩ := hheld.finalize_opened (Event.log 0 "x") true
    (Vault.hasOnly_empty OneEvent.header.id) OneEvent.isStorable hopen hcap hreports 5
  have hpayload : (Vault.empty.recorded? OneEvent.session).bind (·.nativePayload) = none := by
    rw [Vault.recorded?_eq_none (Finset.notMem_empty _), Option.bind_none]
  rw [tier_made (Pass.files_of_hasOnly (Vault.hasOnly_empty _)) hpayload, if_pos rfl] at hwrites
  obtain ⟨-, hpriority, -, hreport⟩ := tier_eq_history hheld _ hstores hwrites
  exact ⟨tree, _, hwrites, (hpriority.1 rfl).2, hreport⟩

end Reports

end ReportVault
