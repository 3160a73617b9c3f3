import ReportVault.Proofs.Engine.ReadFailures

/-!
# ReportVault.Proofs.Engine.NativeCrash

What passes make of a session with a native crash.

The crash is attached after a pass has finalized the session, or before any pass.  Attached
afterwards it goes into the report that the pass wrote, and attached before it goes into one that is
made from the files of the session: `withNativeCrash_assembled` says that these are the same but for
the time of the end, and that an exit record states that time as well.

If the session could not be closed when the crash was attached, the next pass assembles it again.
Then the payload and the exit record come from the report and the rest from the files, which have no
event of the exit (`native_crash_kept_iff`).
-/

namespace ReportVault

open FileSystem Retention
open Engine (Assembled withNativeCrash)

/-- What a native crash is attached to, made from the files of an open session. -/
def Files.nativeBase (files : Files) (header : Report) : Report :=
  (header.correlated (files.text? SessionFile.correlation)).withEvents
    (files.slots.filterMap files.event?)

/-- The events of a report with a native crash: an exit record adds one. -/
theorem Engine.events_withNativeCrash (report : Report) (payload : NativePayload)
    (user : Option String) (info : Option ExitInfo) (cap : Nat) :
    (withNativeCrash report payload user info cap).events =
      keepNewest (report.events ++ (info.map Event.nativeExit).toList) cap := by
  cases info with
  | none => simp [withNativeCrash, Report.withNativePayload]
  | some info => rfl

/-- What a pass trims and ends is trimmed and ended again by a native crash. -/
theorem withNativeCrash_assembled {files : Files} {events : List Event}
    (hevents : files.slots.map files.event? = events.map some) (id : SessionId) (time : Int64)
    (cap : Nat) (header : Report) (payload : NativePayload) (info : Option ExitInfo) :
    let first := withNativeCrash (files.assembled id time cap header none).report payload none info
      cap
    let direct := withNativeCrash (files.nativeBase header) payload (files.text? SessionFile.user)
      info cap
    first = { direct with session :=
        { direct.session with endTimeMillis := first.session.endTimeMillis } } ∧
      (info.isSome → first = direct) := by
  intro first direct
  have htrimmed : first.events = direct.events := by
    rw [Engine.events_withNativeCrash, Engine.events_withNativeCrash, Files.assembled,
      Assembled.events_ofParts, files.newestEvents_eq hevents, keepNewest_append_keepNewest,
      Files.nativeBase, Report.withEvents, files.filterMap_slots_eq hevents]
  have hsame : first = { direct with
      events := first.events, session :=
        { direct.session with endTimeMillis := first.session.endTimeMillis } } := by
    cases info <;> simp only [first, direct, withNativeCrash, Files.assembled, Assembled.ofParts,
      Option.filter_none, Report.withNativePayload, Files.nativeBase, Report.withEvents,
      Report.correlated, Report.ended, Option.none_or, Report.withExitInfo]
  rw [htrimmed] at hsame
  refine ⟨hsame, fun hinfo => ?_⟩
  obtain ⟨record, rfl⟩ := Option.isSome_iff_exists.1 hinfo
  exact hsame

namespace Medium

variable (place : Location) {v : Vault} {id : SessionId} (hid : id.IsStorable)

include hid

/-- A session with a header gives what its files say. -/
theorem nativeBase_plain_of_header {header : Report} (h : (v.files id).header? = some header) :
    (plain place).nativeBase v id = .ok ((v.files id).nativeBase header, true) := by
  rw [nativeBase, (header_plain_eq_ok_iff place hid).2 h]
  dsimp only
  rw [answer_slots_plain place hid, Except.map, events_plain place hid, text?_plain place hid]
  rfl

/-- One without gives the report that it was finalized with. -/
theorem nativeBase_plain_of_recorded (h : (v.files id).header? = none) {r : Report}
    (hr : v.recorded? id = some r) : (plain place).nativeBase v id = .ok (r, false) := by
  have hheader : ∀ header, (plain place).header v id ≠ .ok header := fun header he => by
    rw [header_plain_eq_ok_iff place hid, h] at he
    exact absurd he (by simp)
  rw [nativeBase]
  cases he : (plain place).header v id with
  | ok header => exact absurd he (hheader header)
  | error failure =>
    dsimp only
    rw [recorded?_plain place hid, hr]

variable {place}

theorem nativeChanges_plain {base : Report} {fromOpen : Bool}
    (h : (plain place).nativeBase v id = .ok (base, fromOpen)) (caps : Caps)
    (payload : NativePayload) (info : Option ExitInfo) :
    (plain place).nativeChanges v id caps payload info =
      .writeReport id .native (withNativeCrash base payload
        ((v.files id).text? SessionFile.user) info caps.events).encode ::
          if fromOpen then [.deleteSession id] else [] := by
  have hfails : (plain place).FailsReadsOf id := fun _ _ he => absurd he (by simp [plain])
  rw [nativeChanges_eq rfl hfails, h, text?_plain place hid]

/-- The report with the crash in it is there, and no other one of the session. -/
theorem hasReport_nativeChanges_plain {base : Report} {fromOpen : Bool}
    (h : (plain place).nativeBase v id = .ok (base, fromOpen)) (caps : Caps)
    (payload : NativePayload) (info : Option ExitInfo) :
    (v.after ((plain place).nativeChanges v id caps payload info)).HasReport id .native
      (withNativeCrash base payload ((v.files id).text? SessionFile.user) info caps.events) := by
  intro t
  rw [nativeChanges_plain hid h]
  cases fromOpen <;> exact Vault.lookup_setReport_self .native t _

end Medium

/-! ## Both orders -/

section Orders

variable {place : Location} {tree : Node} {v : Vault} {id : SessionId}

/-- A native crash makes the same report whether it is attached to an open session or to the report
that a pass has made of it, if there is an exit record; else the reports may differ in the time of
the end.

The session had no report before, its event files hold `events`, and the caps leave it a place. -/
theorem native_crash_after_pass (hheld : v.IsHeldIn place tree) {caps : Caps}
    {current : Option SessionId} {time : Int64} (hnewest : id ∈ v.newest current caps.openSessions)
    (hreport : id ∉ v.finalized) {header : Report}
    (hheader : (v.files id).header? = some header) {events : List Event}
    (hevents : (v.files id).slots.map (v.files id).event? = events.map some)
    (hne : events ≠ []) (hcap : 1 ≤ caps.events)
    (hplace : ¬ (Pass.plain place caps current time).Evicts v id) (payload : NativePayload)
    (info : Option ExitInfo) :
    ∃ (w direct : Vault) (r s : Report),
      w.IsHeldIn place (place.engine.finalizeNative caps id payload info
        (place.engine.finalize caps current time tree).2).2 ∧
      direct.IsHeldIn place (place.engine.finalizeNative caps id payload info tree).2 ∧
      w.HasReport id .native r ∧ direct.HasReport id .native s ∧
      r = { s with session := { s.session with endTimeMillis := r.session.endTimeMillis } } ∧
      (info.isSome → r = s) := by
  let p := Pass.plain place caps current time
  have hkept : id ∈ p.kept v := Pass.mem_kept_plain.2 hnewest
  have hopen := (Pass.open_of_mem_kept hkept).1
  have hid := hheld.isWellFormed.isStorable_open id hopen
  have hslots : (v.files id).slots ≠ [] := by
    intro he
    rw [he] at hevents
    exact hne (List.map_eq_nil_iff.1 hevents.symm)
  let a := (v.files id).assembled id time caps.events header none
  have hcomplete : a.report.isComplete = true := by
    have hnonempty : a.report.events ≠ [] := by
      rw [show a.report.events = _ from Assembled.events_ofParts .., Files.newestEvents_eq hevents]
      exact keepNewest_ne_nil hne hcap
    simp [Report.isComplete, hnonempty]
  have hnone : v.recorded? id = none := Vault.recorded?_eq_none hreport
  -- the session after the pass: it is closed, and its report is the one that was assembled
  let u := v.after (p.changes v)
  have hu : u.IsHeldIn place (place.engine.finalize caps current time tree).2 :=
    (Pass.finalize_directory (p := p) hheld).2
  have hfirst : u.HasReport id a.tier a.report := by
    have hreports := Pass.hasReport_of_isComplete hid hnewest hplace hslots hheader
      (by rwa [hnone])
    rwa [hnone] at hreports
  have hclosed : u.files id = [] := by
    have hdeleted : .deleteSession id ∈ p.changes v := by
      have houtcome : p.outcome v id = .ok (some a) :=
        (Pass.outcome_plain_eq_some_iff hid).2 ⟨hslots, header, hheader, by rw [hnone], hcomplete⟩
      refine (Pass.deleteSession_mem_changes_iff rfl Pass.failsReadsOf_plain hkept).2 ?_
      rw [houtcome]
      simp
    rw [Vault.files, Vault.lookup_after_of_finalizes fun c hc => Pass.finalizes_of_mem_changes hc,
      if_pos hdeleted, Option.getD_none]
  have hbase : (Medium.plain place).nativeBase u id = .ok (a.report, false) :=
    Medium.nativeBase_plain_of_recorded place hid (by rw [hclosed]; rfl) hfirst.recorded?_eq
  have hdirect := Medium.nativeBase_plain_of_header place hid hheader
  obtain ⟨hsame, hequal⟩ :=
    withNativeCrash_assembled hevents id time caps.events header payload info
  have hw := Medium.hasReport_nativeChanges_plain hid hbase caps payload info
  rw [hclosed] at hw
  exact ⟨_, _, _, _,
    Medium.finalizeNative_directory (m := .plain place) hu hid caps payload info,
    Medium.finalizeNative_directory (m := .plain place) hheld hid caps payload info, hw,
    Medium.hasReport_nativeChanges_plain hid hdirect caps payload info, hsame, hequal⟩

/-- Both orders for a session with one event. -/
theorem native_crash_after_pass_one_event :
    ∃ tree : Node, ∃ payload : NativePayload, ∃ info : ExitInfo, ∃ r : Report,
      (∃ w : Vault, w.IsHeldIn OneEvent.pass.place
        (OneEvent.pass.place.engine.finalizeNative {} OneEvent.session payload (some info)
          (OneEvent.pass.place.engine.finalize {} none 0 tree).2).2 ∧
        w.HasReport OneEvent.session .native r) ∧
      ∃ direct : Vault, direct.IsHeldIn OneEvent.pass.place
        (OneEvent.pass.place.engine.finalizeNative {} OneEvent.session payload (some info) tree).2 ∧
        direct.HasReport OneEvent.session .native r := by
  obtain ⟨tree, hheld⟩ := OneEvent.exists_tree
  have hfinalized : OneEvent.vault.finalized = ∅ := rfl
  have hplace : ¬ (Pass.plain OneEvent.pass.place {} none 0).Evicts OneEvent.vault
      OneEvent.session := Pass.not_evicts_of_alone rfl OneEvent.alone (by decide)
  have hnewest : OneEvent.session ∈ OneEvent.vault.newest none ({} : Caps).openSessions :=
    OneEvent.mem_newest
  have hreport : OneEvent.session ∉ OneEvent.vault.finalized := by
    rw [hfinalized]
    exact Finset.notMem_empty _
  obtain ⟨w, direct, r, s, hw, hdirect, hr, hs, -, hequal⟩ :=
    native_crash_after_pass hheld hnewest hreport OneEvent.header?_vault OneEvent.events_vault
      (by simp) (by decide) hplace { files := [] } (some ⟨1, "app", 6, 100, 9, 0, 0, none⟩)
  exact ⟨tree, _, _, r, ⟨w, hw, hr⟩, direct, hdirect, hequal rfl ▸ hs⟩

end Orders

/-! ## A session that stays open -/

/-- An open session that was finalized with a native crash is assembled, whatever its events. -/
theorem Pass.hasReport_of_nativePayload {place : Location} {caps : Caps}
    {current : Option SessionId} {time : Int64} {v : Vault} {id : SessionId} {tier : Tier}
    {r : Report} (hid : id.IsStorable) (h : v.HasReport id tier r)
    (hpayload : r.nativePayload.isSome = true)
    (hnewest : id ∈ v.newest current caps.openSessions)
    (hplace : ¬ (plain place caps current time).Evicts v id) (hslots : (v.files id).slots ≠ [])
    {header : Report} (hheader : (v.files id).header? = some header) :
    (v.after ((plain place caps current time).changes v)).HasReport id .native
      ((v.files id).assembled id time caps.events header (some r)).report := by
  have hcomplete :
      ((v.files id).assembled id time caps.events header (some r)).report.isComplete = true := by
    rw [Report.isComplete, Files.assembled, Assembled.nativePayload_ofParts, Option.bind_some,
      Option.isSome_or, hpayload, Bool.true_or, Bool.or_true]
  have htier : ((v.files id).assembled id time caps.events header (some r)).tier = .native :=
    (Assembled.tier_ofParts ..).trans (if_pos (by simpa using hpayload))
  rw [← h.recorded?_eq] at hcomplete htier ⊢
  exact htier ▸ hasReport_of_isComplete hid hnewest hplace hslots hheader hcomplete

section Open

variable {place : Location} {tree : Node} {v : Vault} {id : SessionId}

/-- What becomes of a native crash that was written for an open session, if the session could not be
closed after that.  A pass that does not evict the session leaves its report in the native tier with
the payload and the exit record.  If it assembles the session again, the report has the events and
the end of the session itself: the event of the exit is lost, and so is its time, unless there is
such an event in the session and the pass runs at that time. -/
theorem native_crash_kept_iff (hheld : v.IsHeldIn place tree) (hopen : id ∈ v.sessions)
    {header : Report} (hheader : (v.files id).header? = some header) {caps : Caps}
    (hcap : 1 ≤ caps.events) {payload : NativePayload} {info : Option ExitInfo} {contents : Bytes}
    (hwritten : [.writeReport id .native contents] <+:
      (Engine.finalizeNative ⟨place.store.logged, .json⟩ caps id payload info (tree, [])).2.2)
    {cut : Node} (hcut : (v.after [.writeReport id .native contents]).IsHeldIn place cut)
    {later : Caps} {current : Option SessionId} {time : Int64}
    (hplace : ¬ (Pass.plain place later current time).Evicts
      (v.after [.writeReport id .native contents]) id) :
    ∃ (w : Vault) (r : Report),
      w.IsHeldIn place (place.engine.finalize later current time cut).2 ∧
      w.HasReport id .native r ∧ r.nativePayload = some payload ∧
      ∀ record, info = some record → r.exitInfo = some record ∧
        (Event.nativeExit record ∈ r.events ∧
            r.session.endTimeMillis = some record.timestampMillis ↔
          id ∉ v.newest current later.openSessions ∨ (v.files id).slots = [] ∨
            Event.nativeExit record ∈ (v.files id).newestEvents later.events ∧
              time = record.timestampMillis) := by
  have hid := hheld.isWellFormed.isStorable_open id hopen
  let first := withNativeCrash ((v.files id).nativeBase header) payload
    ((v.files id).text? SessionFile.user) info caps.events
  obtain rfl : contents = first.encode := by
    have hbase := Medium.nativeBase_plain_of_header place hid hheader
    rw [Medium.log_finalizeNative_plain hheld hid, Medium.nativeChanges_plain hid hbase] at hwritten
    have hmem := hwritten.subset (List.mem_singleton_self _)
    simpa [first] using hmem
  let u := v.after [.writeReport id .native first.encode]
  have hreport : u.HasReport id .native first := fun t => Vault.lookup_setReport_self .native t _
  have hpayload : first.nativePayload = some payload := by
    cases info <;> rfl
  have hexit : ∀ record, info = some record → first.exitInfo = some record ∧
      Event.nativeExit record ∈ first.events ∧
        first.session.endTimeMillis = some record.timestampMillis := by
    rintro record rfl
    refine ⟨rfl, ?_, rfl⟩
    rw [Engine.events_withNativeCrash, keepNewest_eq_drop, Option.map_some, Option.toList_some,
      List.length_append, List.drop_append_of_le_length (by simp; omega)]
    exact List.mem_append_right _ (List.mem_singleton_self _)
  have hheldEnd := (Pass.finalize_directory (p := .plain place later current time) hcut).2
  by_cases hagain : id ∈ v.newest current later.openSessions ∧ (v.files id).slots ≠ []
  · obtain ⟨hnewest, hslots⟩ := hagain
    refine ⟨_, _, hheldEnd, Pass.hasReport_of_nativePayload (v := u) hid hreport
      (by rw [hpayload]; rfl) hnewest hplace hslots hheader, ?_, fun record hrecord => ⟨?_, ?_⟩⟩
    · rw [Files.assembled, Assembled.nativePayload_ofParts, Option.bind_some, hpayload,
        Option.some_or]
    · rw [Files.assembled, Assembled.exitInfo_ofParts_some (h := by rw [hpayload]; rfl)]
      exact (hexit record hrecord).1
    · rw [Files.assembled, Assembled.events_ofParts, Assembled.endTimeMillis_ofParts,
        Option.some.injEq, or_iff_right (not_not.2 hnewest), or_iff_right hslots]
      rfl
  · have hnone : ∀ a ∈ (Pass.plain place later current time).assembled u, a.id ≠ id := by
      rintro a ha rfl
      refine hagain ⟨Pass.mem_kept_plain.1 (Pass.mem_assembled.1 ha).1, fun hslots => ?_⟩
      exact Pass.id_ne_of_slots_eq_nil (v := u) hid hslots ha rfl
    refine ⟨_, first, hheldEnd, Pass.hasReport_of_not_mem hreport hplace hnone, hpayload,
      fun record hrecord => ⟨(hexit record hrecord).1, iff_of_true (hexit record hrecord).2 ?_⟩⟩
    rw [not_and_or, not_not] at hagain
    exact hagain.imp_right Or.inl

namespace OneEvent

/-- A store that does not let close the session. -/
def stuck : Medium where
  place := pass.place
  fails call :=
    match call with
    | .deleteSession id =>
      if id = session then some (.storage .removeDirectory id.name .denied) else none
    | _ => none
  codec := .json

/-- What the system says of the end of the application. -/
def exit : ExitInfo := ⟨1, "app", 6, 100, 9, 0, 0, none⟩

/-- The report of the session with a native crash in it. -/
def crashed : Report :=
  withNativeCrash ((vault.files session).nativeBase header) { files := [] }
    ((vault.files session).text? SessionFile.user) (some exit) 8

/-- What is stored when that was written and the session could not be closed. -/
def written : Vault := vault.after [.writeReport session .native crashed.encode]

theorem hasReport_written : written.HasReport session .native crashed := fun t =>
  Vault.lookup_setReport_self .native t _

theorem nativeChanges_stuck :
    stuck.nativeChanges vault session {} { files := [] } (some exit) =
      [.writeReport session .native crashed.encode] := by
  have hbase : stuck.nativeBase vault session =
      .ok ((vault.files session).nativeBase header, true) :=
    Medium.nativeBase_plain_of_header pass.place isStorable header?_vault
  have huser : stuck.text? vault session SessionFile.user =
      (vault.files session).text? SessionFile.user :=
    Medium.text?_plain (v := vault) pass.place isStorable SessionFile.user
  rw [Medium.nativeChanges, hbase]
  dsimp only
  rw [huser]
  rfl

theorem not_evicts_written :
    ¬ (Pass.plain pass.place {} none 20).Evicts written session := by
  have hfinalized : written.finalized = {session} := rfl
  have halone : ∀ other, other ∈ written.sessions ∨ other ∈ written.finalized →
      other = session := by
    rintro other (hopen | hmem)
    · exact alone other (Or.inl hopen)
    · rwa [hfinalized, Finset.mem_singleton] at hmem
  exact Pass.not_evicts_of_alone rfl halone (by decide)

end OneEvent

/-- The event of the exit is lost, and so is its time, if the session could not be closed when the
native crash was attached. -/
theorem native_exit_is_lost : ∃ tree : Node,
    OneEvent.vault.IsHeldIn OneEvent.pass.place tree ∧
    (OneEvent.vault.files OneEvent.session).header? = some OneEvent.header ∧
    let cut := (Engine.finalizeNative
      ⟨OneEvent.pass.place.store.failing OneEvent.stuck.fails, .json⟩ {} OneEvent.session
      { files := [] } (some OneEvent.exit) tree).2
    OneEvent.written.IsHeldIn OneEvent.pass.place cut ∧
    OneEvent.written.HasReport OneEvent.session .native OneEvent.crashed ∧
    ¬ (Pass.plain OneEvent.pass.place {} none 20).Evicts OneEvent.written OneEvent.session ∧
    ∃ (w : Vault) (r : Report),
      w.IsHeldIn OneEvent.pass.place (OneEvent.pass.place.engine.finalize {} none 20 cut).2 ∧
      w.HasReport OneEvent.session .native r ∧
      Event.nativeExit OneEvent.exit ∉ r.events ∧
      r.session.endTimeMillis ≠ some OneEvent.exit.timestampMillis := by
  obtain ⟨tree, hheld⟩ := OneEvent.exists_tree
  have hcut := Medium.finalizeNative_directory (m := OneEvent.stuck) hheld OneEvent.isStorable {}
    { files := [] } (some OneEvent.exit)
  rw [OneEvent.nativeChanges_stuck] at hcut
  refine ⟨tree, hheld, OneEvent.header?_vault, hcut, OneEvent.hasReport_written,
    OneEvent.not_evicts_written, _, _,
    (Pass.finalize_directory (p := .plain OneEvent.pass.place {} none 20) hcut).2,
    Pass.hasReport_of_nativePayload OneEvent.isStorable OneEvent.hasReport_written rfl
      OneEvent.mem_newest OneEvent.not_evicts_written ?_ OneEvent.header?_vault, ?_, ?_⟩
  · show (OneEvent.vault.files OneEvent.session).slots ≠ []
    rw [OneEvent.slots_vault]
    simp
  · rw [Files.assembled, Assembled.events_ofParts]
    show Event.nativeExit OneEvent.exit ∉
      (OneEvent.vault.files OneEvent.session).newestEvents 8
    rw [Files.newestEvents_eq OneEvent.events_vault]
    decide
  · rw [Files.assembled, Assembled.endTimeMillis_ofParts]
    decide

/-- The same store, seen from what is kept. -/
theorem native_crash_kept_iff_one_event : ∃ cut : Node,
    OneEvent.written.IsHeldIn OneEvent.pass.place cut ∧
    ∃ (w : Vault) (r : Report),
      w.IsHeldIn OneEvent.pass.place (OneEvent.pass.place.engine.finalize {} none 20 cut).2 ∧
      w.HasReport OneEvent.session .native r ∧ r.nativePayload = some { files := [] } ∧
      r.exitInfo = some OneEvent.exit := by
  obtain ⟨tree, hheld⟩ := OneEvent.exists_tree
  obtain ⟨cut, hcut⟩ : ∃ cut, OneEvent.written.IsHeldIn OneEvent.pass.place cut :=
    hheld.exists_setReport OneEvent.isStorable .native OneEvent.crashed.encode
  have hopen : OneEvent.session ∈ OneEvent.vault.sessions :=
    Finmap.mem_keys.1 (Finset.mem_filter.1 (top_subset OneEvent.mem_newest)).1
  have hwritten : [.writeReport OneEvent.session .native OneEvent.crashed.encode] <+:
      (Engine.finalizeNative ⟨OneEvent.pass.place.store.logged, .json⟩ {} OneEvent.session
        { files := [] } (some OneEvent.exit) (tree, [])).2.2 := by
    have hbase := Medium.nativeBase_plain_of_header OneEvent.pass.place
      OneEvent.isStorable OneEvent.header?_vault
    rw [Medium.log_finalizeNative_plain hheld OneEvent.isStorable,
      Medium.nativeChanges_plain OneEvent.isStorable hbase]
    exact List.prefix_append [_] _
  obtain ⟨w, r, hw, hr, hpayload, hrecord⟩ := native_crash_kept_iff hheld hopen
    OneEvent.header?_vault (by decide) hwritten hcut OneEvent.not_evicts_written
  exact ⟨cut, hcut, w, r, hw, hr, hpayload, (hrecord _ rfl).1⟩

end Open

end ReportVault
