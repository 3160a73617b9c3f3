import ReportVault.Proofs.Engine.History
import ReportVault.Proofs.Engine.ReadFailures

/-!
# ReportVault.Proofs.Engine.Opening

A session that is opened with one event, and finalized.

`Vault.opened` is what is stored when a session starts and is given its first event.  If there is
nothing else in the store but an earlier report of the session, then a pass makes its new report from
that: `Vault.IsHeldIn.finalize_opened`.
-/

namespace ReportVault

open FileSystem Retention
open Engine (Assembled)

/-! ## What is stored -/

variable {place : Location} {top : Node} {v : Vault} {header : Report} {event : Event}
  {high : Bool} {caps : Caps}

/-- What is stored when a session starts. -/
def Vault.started (v : Vault) (header : Report) : Vault :=
  (v.setFile header.id SessionFile.header header.encode).setFile header.id SessionFile.startTime
    (Bytes.ofText (Text.ofInt header.session.startTimeMillis.toInt))

/-- What is stored when a session starts and has its first event. -/
def Vault.opened (v : Vault) (header : Report) (event : Event) (high : Bool) : Vault :=
  let w := (v.started header).setFile header.id (Slot.name 1 high) event.encode
  if high then w.setFile header.id SessionFile.priority [] else w

/-- The operations that store that. -/
def Engine.opening (caps : Caps) (header : Report) (event : Event) (high : Bool) :
    List Engine.Action :=
  [.persistReport header, .persistEvent caps none event header.id high]

/-- A session can start where no directory stands in the way of its files. -/
theorem run_tryPersistReport (place : Location) (hid : header.id.IsStorable)
    (hfree : ∀ name, v.item? header.id name ≠ some .directory) :
    (Engine.tryPersistReport ⟨Vault.store place, .json⟩ header).run v =
      (.ok (), v.started header) := by
  have hfirst := fun name =>
    Engine.item?_setFile_ne_directory (hfree name) SessionFile.header header.encode
  have hencode : Codec.json.encodeReport header = .ok header.encode := rfl
  rw [Engine.tryPersistReport, run_bind_ok hencode]
  refine (run_bind_of_ok (Engine.run_write place hid (hfree _) _)).trans ?_
  exact Engine.run_write place hid (hfirst _) _

theorem reports_opened : (v.opened header event high).reports = v.reports := by
  cases high <;> rfl

theorem finalized_opened : (v.opened header event high).finalized = v.finalized := by
  cases high <;> rfl

theorem mem_opened {other : SessionId} :
    other ∈ (v.opened header event high).sessions ↔ other = header.id ∨ other ∈ v.sessions := by
  have hset : ∀ (u : Vault) name contents,
      other ∈ (u.setFile header.id name contents).sessions ↔
        other = header.id ∨ other ∈ u.sessions := fun u name contents => Finmap.mem_insert
  rw [Vault.opened, Vault.started]
  cases high <;> simp only [Bool.false_eq_true, if_false, if_true, hset, or_self_left]

/-- A session that is opened does not show in the files of another one. -/
theorem files_opened_of_ne {other : SessionId} (hne : other ≠ header.id) :
    (v.opened header event high).files other = v.files other := by
  have hset : ∀ (u : Vault) name contents,
      (u.setFile header.id name contents).files other = u.files other := fun u name contents =>
    Vault.files_eq_of_lookup (Finmap.lookup_insert_of_ne _ hne)
  rw [Vault.opened, Vault.started]
  cases high <;> simp only [Bool.false_eq_true, if_false, if_true, hset]

section Closed

variable (hclosed : v.files header.id = [])

include hclosed

theorem holds_started : ((v.started header).files header.id).Holds [] [] := by
  have hempty : (v.files header.id).Holds [] [] := hclosed ▸ Files.Holds.nil
  rw [Vault.started, Vault.files_setFile_self, Vault.files_setFile_self]
  exact (hempty.setEntry_of_not_slot (by decide) _).setEntry_of_not_slot (by decide) _

theorem files_opened :
    (v.opened header event high).files header.id =
      (SessionFile.header, .file header.encode) ::
      (SessionFile.startTime,
        .file (Bytes.ofText (Text.ofInt header.session.startTimeMillis.toInt))) ::
      (Slot.name 1 high, .file event.encode) ::
      if high then [(SessionFile.priority, .file [])] else [] := by
  rw [Vault.opened, Vault.started]
  cases high <;>
    simp only [Bool.false_eq_true, if_false, if_true, Vault.files_setFile_self, hclosed] <;> rfl

theorem header?_opened : ((v.opened header event high).files header.id).header? = some header := by
  rw [Files.header?, Files.contents?, files_opened hclosed]
  exact header.decode?_encode

theorem holds_opened :
    ((v.opened header event high).files header.id).Holds [Slot.new 1 high] [event] := by
  have hname : Slot.ofFileName? (Slot.new 1 high).fileName = some (Slot.new 1 high) :=
    Slot.ofFileName?_name 1 high
  have hevent := (holds_started hclosed).append hname (Slot.isEntryName_name 1 high).2 (by simp)
    event
  rw [Vault.opened]
  cases high with
  | false =>
    simp only [Bool.false_eq_true, if_false, Vault.files_setFile_self]
    exact hevent
  | true =>
    simp only [if_true, Vault.files_setFile_self]
    exact hevent.setEntry_of_not_slot (by decide) _

variable (hid : header.id.IsStorable)

include hid

/-- A session can start, and no directory stands in the way of its files then. -/
theorem run_persistReport (place : Location) :
    Engine.persistReport ⟨Vault.store place, .json⟩ header v = ((), v.started header) ∧
      ∀ name, (v.started header).item? header.id name ≠ some .directory := by
  have hfree : ∀ name, v.item? header.id name ≠ some .directory := fun name => by
    rw [Vault.item?, hclosed]
    simp
  have hfirst := fun name =>
    Engine.item?_setFile_ne_directory (hfree name) SessionFile.header header.encode
  refine ⟨?_, fun name => Engine.item?_setFile_ne_directory (hfirst name) _ _⟩
  rw [Engine.persistReport, Medium.run_ignored, run_tryPersistReport place hid hfree]

/-- Its first event is stored as number one. -/
theorem run_tryPersistEvent (place : Location) (hcap : 1 ≤ caps.events) :
    (Engine.tryPersistEvent ⟨Vault.store place, .json⟩ caps none event header.id high).run
      (v.started header) = (.ok (), v.opened header event high) := by
  have hstarted := (run_persistReport hclosed hid place).2
  have hwritten := fun name =>
    Engine.item?_setFile_ne_directory (hstarted name) (Slot.name 1 high) event.encode
  have hslots : ((Vault.store place).perform (.slots header.id)).run (v.started header) =
      (.ok [], v.started header) := by
    rw [← (holds_started hclosed).slots_eq]
    exact (v.started header).perform_slots place hid
  have hdropped : (splitOldest ([] ++ [Slot.new 1 high]) caps.events).1 = [] := by
    rw [splitOldest_fst]
    simp [hcap]
  have hencode : Codec.json.encodeEvent event = .ok event.encode := rfl
  have hnext : Engine.nextSequence header.id [] = .ok 1 := rfl
  rw [Engine.tryPersistEvent_eq, run_bind_ok hencode]
  refine (run_bind_of_ok hslots).trans ?_
  rw [run_bind_ok hnext]
  refine (run_bind_of_ok (Engine.run_write place hid (hstarted _) _)).trans ?_
  rw [Engine.finishEvent, hdropped, Vault.opened]
  cases high with
  | false => rfl
  | true => exact run_bind_of_ok (Engine.run_write place hid (hwritten _) _)

variable (event high) in
/-- The operations store that in a directory. -/
theorem Vault.IsHeldIn.opening (hheld : v.IsHeldIn place top) (hcap : 1 ≤ caps.events) :
    (v.opened header event high).IsHeldIn place
        (place.engine.after top (Engine.opening caps header event high)) ∧
      place.engine.Stores header.id top (Engine.opening caps header event high) := by
  obtain ⟨-, -, hfirst⟩ := Engine.agree_persistReport (k := .json) (Store.Agrees.held place)
    (Engine.allowsStoring_isProper hid.isShort).records top v hheld
  rw [(run_persistReport hclosed hid place).1] at hfirst
  obtain ⟨hanswer, -, hsecond⟩ := Engine.agree_tryPersistEvent (k := .json)
    (Store.Agrees.held place) (Engine.allowsStoring_isProper hid.isShort) caps none event high _ _
    hfirst
  rw [run_tryPersistEvent hclosed hid place hcap] at hanswer hsecond
  refine ⟨?_, trivial, fun _ => hanswer, trivial⟩
  show (v.opened header event high).IsHeldIn place
    (place.engine.persistEvent caps none event header.id high
      (place.engine.persistReport header top).2).2
  rw [Engine.persistEvent, Medium.run_ignored]
  exact hsecond

end Closed

/-! ## A pass over that -/

/-- There is nothing in the store, but a report of the session may be. -/
structure Vault.HasOnly (v : Vault) (id : SessionId) : Prop where
  sessions : v.sessions = ∅
  finalized : ∀ other ∈ v.finalized, other = id

theorem Vault.hasOnly_empty (id : SessionId) : Vault.empty.HasOnly id where
  sessions := rfl
  finalized _ h := absurd h (Finset.notMem_empty _)

/-- What is made of the session by a pass. -/
def Vault.made (v : Vault) (header : Report) (event : Event) (high : Bool) (time : Int64)
    (cap : Nat) : Assembled :=
  ((v.opened header event high).files header.id).assembled header.id time cap header
    ((v.opened header event high).recorded? header.id)

section Made

variable {time : Int64} {cap : Nat} (hclosed : v.files header.id = [])
  (hpayload : (v.recorded? header.id).bind (·.nativePayload) = none)

theorem recorded?_opened : (v.opened header event high).recorded? header.id =
    v.recorded? header.id := by
  cases high <;> rfl

include hpayload

/-- A report without a native crash before makes none with one. -/
theorem nativePayload_made :
    (v.made header event high time cap).report.nativePayload = header.nativePayload := by
  rw [Vault.made, Files.assembled, Assembled.nativePayload_ofParts, recorded?_opened, hpayload,
    Option.none_or]

include hclosed

/-- The tier goes by the event then. -/
theorem tier_made :
    (v.made header event high time cap).tier = if high then .priority else .normal := by
  have hmarked : ((v.opened header event high).files header.id).isMarked = high := by
    rw [Files.isMarked, (holds_opened hclosed).slots_eq, Files.contents?, files_opened hclosed]
    cases high <;> rfl
  rw [Vault.made, Files.assembled, Assembled.tier_ofParts, recorded?_opened, hpayload, hmarked]
  rfl

end Made

/-- Without failures a pass makes its changes. -/
theorem Vault.IsHeldIn.finalize (hheld : v.IsHeldIn place top) (caps : Caps)
    (current : Option SessionId) (time : Int64) :
    (v.after ((Pass.plain place caps current time).changes v)).IsHeldIn place
      ((Engine.Action.finalize caps current time).run place.engine top).2 := by
  rw [Engine.Action.run_finalize]
  exact (Pass.finalize_directory (p := .plain place caps current time) hheld).2

namespace Pass

/-- The report is complete. -/
theorem outcome_opened {current : Option SessionId} {time : Int64}
    (hclosed : v.files header.id = []) (hid : header.id.IsStorable) (hcap : 1 ≤ caps.events) :
    (plain place caps current time).outcome (v.opened header event high) header.id =
      .ok (some (v.made header event high time caps.events)) := by
  have hholds : ((v.opened header event high).files header.id).Holds [Slot.new 1 high] [event] :=
    holds_opened hclosed
  refine (outcome_plain_eq_some_iff hid).2
    ⟨by rw [hholds.slots_eq]; simp, header, header?_opened hclosed, rfl, ?_⟩
  have hevents : keepNewest [event] caps.events ≠ [] := keepNewest_ne_nil (by simp) hcap
  have hcomplete : (v.made header event high time caps.events).report.events ≠ [] := by
    rwa [Vault.made, Files.assembled, Assembled.events_ofParts, hholds.newestEvents_eq]
  show (v.made header event high time caps.events).report.isComplete = true
  simp [Report.isComplete, hcomplete]

variable {time : Int64} (honly : v.HasOnly header.id) (hid : header.id.IsStorable)
  (hopen : 1 ≤ caps.openSessions) (hcap : 1 ≤ caps.events) (hreports : 1 ≤ caps.reports)

include honly

theorem files_of_hasOnly : v.files header.id = [] := by
  rw [Vault.files, honly.sessions]
  rfl

theorem not_evicts_opened (hreports : 1 ≤ caps.reports) :
    ¬ (plain place caps none time).Evicts (v.opened header event high) header.id := by
  refine not_evicts_of_alone rfl ?_ hreports
  rintro other (hother | hother)
  · rw [mem_opened, honly.sessions] at hother
    exact hother.resolve_right Finmap.notMem_empty
  · exact honly.finalized other (finalized_opened ▸ hother)

theorem newest_opened (hopen : 1 ≤ caps.openSessions) :
    (v.opened header event high).newest none caps.openSessions = {header.id} := by
  have hkeys : (v.opened header event high).sessions.keys = {header.id} := by
    ext other
    rw [Finmap.mem_keys, mem_opened, honly.sessions, Finset.mem_singleton]
    exact or_iff_left Finmap.notMem_empty
  rw [Vault.newest, hkeys, Finset.filter_singleton, if_pos (by simp),
    top_of_card_le (by rwa [Finset.card_singleton])]

include hid hopen hcap

/-- A pass makes the report. -/
theorem made_mem_assembled :
    v.made header event high time caps.events ∈
      (plain place caps none time).assembled (v.opened header event high) := by
  have haid : (v.made header event high time caps.events).id = header.id :=
    Assembled.id_ofParts ..
  refine mem_assembled.2 ?_
  rw [haid]
  refine ⟨mem_kept_plain.2 ?_, outcome_opened (files_of_hasOnly honly) hid hcap⟩
  rw [newest_opened honly hopen]
  exact Finset.mem_singleton_self _

include hreports

/-- It is written. -/
theorem writes_opened :
    (plain place caps none time).Writes (v.opened header event high)
      (v.made header event high time caps.events) := by
  refine ⟨made_mem_assembled honly hid hopen hcap, Bool.eq_false_iff.2 fun hevicted => ?_,
    _, written_plain _⟩
  have haid : (v.made header event high time caps.events).id = header.id :=
    Assembled.id_ofParts ..
  exact not_evicts_opened honly hreports (Or.inl (haid ▸ hevicted))

omit hid hcap hreports in
/-- After the pass there is no other report, and no session is open. -/
theorem hasOnly_changes (hv : (v.opened header event high).IsWellFormed) :
    ((v.opened header event high).after
      ((plain place caps none time).changes (v.opened header event high))).HasOnly header.id where
  sessions := by
    refine Finmap.ext_lookup fun other => ?_
    rw [Finmap.lookup_empty, Finmap.lookup_eq_none]
    refine fun hother => absurd (closed_plain hv (fun found hfound _ => ?_) hother) (by simp)
    rw [newest_opened honly hopen, Finset.mem_singleton] at hfound
    rw [hfound, Vault.item?, files_opened (files_of_hasOnly honly)]
    simp
  finalized other hother := by
    obtain ⟨r, hr, rfl⟩ := (mem_finalized_changes (p := plain place caps none time)
      (fun _ => rfl) rfl).1 hother
    rcases id_of_mem_contenders (ranks_settling_subset (top_subset hr)) with hopen | hmem
    · rw [mem_opened, honly.sessions] at hopen
      exact hopen.resolve_right Finmap.notMem_empty
    · exact honly.finalized r.id (finalized_opened ▸ hmem)

end Pass

variable (event high) in
/-- A session that is opened alone and then finalized has its new report, whatever report it had
before, and there is nothing else then. -/
theorem Vault.IsHeldIn.finalize_opened (hheld : v.IsHeldIn place top) (honly : v.HasOnly header.id)
    (hid : header.id.IsStorable) (hopen : 1 ≤ caps.openSessions) (hcap : 1 ≤ caps.events)
    (hreports : 1 ≤ caps.reports) (time : Int64) :
    let a := v.made header event high time caps.events
    let opened := place.engine.after top (Engine.opening caps header event high)
    place.engine.Stores header.id top (Engine.opening caps header event high) ∧
      .writeReport header.id a.tier a.report.encode ∈
        (Engine.finalize ⟨place.store.logged, .json⟩ caps none time (opened, [])).2.2 ∧
      ∃ w : Vault, w.IsHeldIn place ((Engine.Action.finalize caps none time).run place.engine
          opened).2 ∧
        w.HasOnly header.id ∧ w.HasReport header.id a.tier a.report := by
  intro a opened
  obtain ⟨hopened, hstores⟩ := hheld.opening event high (Pass.files_of_hasOnly honly) hid hcap
  have haid : a.id = header.id := Assembled.id_ofParts ..
  have hwrites : (Pass.plain place caps none time).Writes (v.opened header event high) a :=
    Pass.writes_opened honly hid hopen hcap hreports
  refine ⟨hstores, ?_, _, hopened.finalize caps none time,
    Pass.hasOnly_changes honly hopen hopened.isWellFormed, ?_⟩
  · rw [Pass.log_finalize_plain hopened]
    exact Pass.writeReport_mem_changes_iff.2 ⟨a, hwrites, haid, rfl, Pass.written_plain a⟩
  · exact Pass.hasReport_of_assembled rfl Pass.failsReadsOf_plain
      (Pass.not_evicts_opened honly hreports) hwrites.1 haid

end ReportVault
