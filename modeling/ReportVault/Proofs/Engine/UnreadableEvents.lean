import ReportVault.Proofs.Engine.Leftovers
import ReportVault.Proofs.Engine.NativeCrash

/-!
# ReportVault.Proofs.Engine.UnreadableEvents

Sessions some of whose event files cannot be decoded.

A pass takes the newest event files up to the cap and reports what it can decode of them.  A native
crash is attached to what can be decoded of all event files, and the newest of that are kept.
`unreadable_events_iff` says when both give the same events.
-/

namespace ReportVault

open FileSystem Retention
open Engine (Assembled withNativeCrash)

/-- The events of the report that a pass writes for a session are those of the newest event files
that can be decoded; a native crash without an exit record has the newest of all events that can be.
They are the same iff nothing that is older than the newest files can be decoded, or every one of
the newest files can. -/
theorem unreadable_events_iff {place : Location} {tree : Node} {v : Vault} {id : SessionId}
    (hheld : v.IsHeldIn place tree) {caps : Caps} {current : Option SessionId} {time : Int64}
    {tier : Tier} {contents : Bytes}
    (hwrites : .writeReport id tier contents ∈
      (Engine.finalize ⟨place.store.logged, .json⟩ caps current time (tree, [])).2.2)
    (payload : NativePayload) :
    let slots := (v.files id).slots
    let event? := (v.files id).event?
    ∃ (report crash : Report) (w : Vault),
      Report.decode? contents = some report ∧
      report.events = (keepNewest slots caps.events).filterMap event? ∧
      w.IsHeldIn place (place.engine.finalizeNative caps id payload none tree).2 ∧
      w.HasReport id .native crash ∧
      crash.events = keepNewest (slots.filterMap event?) caps.events ∧
      (report.events = crash.events ↔
        (∀ slot ∈ (splitOldest slots caps.events).1, event? slot = none) ∨
          ∀ slot ∈ keepNewest slots caps.events, (event? slot).isSome = true) := by
  intro slots event?
  rw [Pass.log_finalize_plain hheld] at hwrites
  obtain ⟨a, ha, rfl, hwritten⟩ := Pass.exists_of_writeReport_mem_changes hwrites
  have hid := Pass.isStorable_of_mem_assembled hheld.isWellFormed ha
  obtain ⟨-, header, hheader, hassembled, -⟩ :=
    (Pass.outcome_plain_eq_some_iff hid).1 (Pass.mem_assembled.1 ha).2
  obtain rfl : a.report.encode = contents := Except.ok.inj hwritten
  have hreport : a.report.events = (keepNewest slots caps.events).filterMap event? := by
    rw [← hassembled, Files.assembled, Assembled.events_ofParts]
    rfl
  have hbase := Medium.nativeBase_plain_of_header place hid hheader
  have hcrash := Medium.hasReport_nativeChanges_plain hid hbase caps payload none
  have hevents : (withNativeCrash ((v.files a.id).nativeBase header) payload
      ((v.files a.id).text? SessionFile.user) none caps.events).events =
        keepNewest (slots.filterMap event?) caps.events := by
    rw [Engine.events_withNativeCrash, Option.map_none, Option.toList_none, List.append_nil]
    rfl
  refine ⟨a.report, _, _, a.report.decode?_encode, hreport,
    Medium.finalizeNative_directory (m := .plain place) hheld hid caps payload none, hcrash,
    hevents, ?_⟩
  rw [hreport, hevents]
  exact filterMap_keepNewest_eq_iff event? slots caps.events

namespace BadEvent

open OneEvent (session header)

/-- The third event file, which holds no event. -/
def slot : Slot := .new 3 false

def bad : Bytes := Bytes.ofText "x"

/-- The session has two events and the bad file. -/
def vault : Vault := TwoEvents.vault.setFile session slot.fileName bad

theorem ofFileName?_slot : Slot.ofFileName? slot.fileName = some slot :=
  Slot.ofFileName?_name 3 false

theorem lookup_slot : (TwoEvents.vault.files session).lookup slot.fileName = none := by
  rw [TwoEvents.files_vault]
  decide

theorem files_vault : vault.files session =
    setEntry slot.fileName (.file bad) (TwoEvents.vault.files session) :=
  Vault.files_setFile_self _ _

theorem slots_vault : (vault.files session).slots = [OneEvent.slot, TwoEvents.later, slot] := by
  rw [files_vault, Files.slots_setEntry_of_greatest ofFileName?_slot lookup_slot,
    TwoEvents.holds_vault.slots_eq]
  · rfl
  · rw [TwoEvents.holds_vault.slots_eq]
    decide

theorem event?_vault : (vault.files session).slots.map (vault.files session).event? =
    [some (Event.log 0 "x"), some (Event.log 0 "y"), none] := by
  have hold : ∀ s ∈ [OneEvent.slot, TwoEvents.later],
      (vault.files session).event? s = (TwoEvents.vault.files session).event? s := by
    intro s hs
    have hne : s.fileName ≠ slot.fileName := by
      revert s
      decide
    rw [files_vault]
    exact Files.event?_congr (lookup_setEntry_of_ne _ _ hne)
  have hbad : (vault.files session).event? slot = none := by
    rw [files_vault, Files.event?, lookup_setEntry_self]
    decide
  rw [slots_vault]
  show ([OneEvent.slot, TwoEvents.later] ++ [slot]).map _ = _
  rw [List.map_append, List.map_congr_left hold, TwoEvents.holds_vault.decoded, List.map_singleton,
    hbad]
  rfl

/-- Of the last two files one can be decoded, and of all files two can be. -/
theorem events_vault :
    (keepNewest (vault.files session).slots 2).filterMap (vault.files session).event? =
        [Event.log 0 "y"] ∧
      (vault.files session).slots.filterMap (vault.files session).event? =
        [Event.log 0 "x", Event.log 0 "y"] := by
  have hread : ∀ slots : List Slot, slots.filterMap (vault.files session).event? =
      (slots.map (vault.files session).event?).filterMap id := fun slots => by
    rw [List.filterMap_map, Function.id_comp]
  rw [hread, hread, keepNewest_eq_drop, List.map_drop, event?_vault, slots_vault]
  exact ⟨rfl, rfl⟩

theorem header?_vault : (vault.files session).header? = some header := by
  have hne : SessionFile.header ≠ slot.fileName := by decide
  rw [files_vault, Files.header?, Files.contents?, lookup_setEntry_of_ne _ _ hne]
  exact TwoEvents.header?_vault

theorem exists_tree : ∃ tree, vault.IsHeldIn OneEvent.pass.place tree := by
  obtain ⟨tree, -, hheld, -⟩ := TwoEvents.exists_tree
  refine hheld.exists_setFile OneEvent.isStorable (Slot.isEntryName_name 3 false) ?_ bad
  rw [Vault.item?, show Slot.name 3 false = slot.fileName from rfl, lookup_slot]
  simp

/-- What a pass makes of it. -/
def made : Assembled := (vault.files session).assembled session 0 2 header none

theorem events_made : made.report.events = [Event.log 0 "y"] := by
  rw [made, Files.assembled, Assembled.events_ofParts]
  exact events_vault.1

/-- A pass writes that, as there is no other session. -/
theorem writeReport_mem_changes :
    .writeReport session made.tier made.report.encode ∈
      (Pass.plain OneEvent.pass.place { events := 2 } none 0).changes vault := by
  have hkeys : vault.sessions.keys = {session} := rfl
  have hfinalized : vault.finalized = ∅ := rfl
  have halone : ∀ other, other ∈ vault.sessions ∨ other ∈ vault.finalized → other = session := by
    intro other h
    rw [← Finmap.mem_keys, hkeys, hfinalized] at h
    simpa using h
  refine Pass.writeReport_mem_changes_of_alone ?_ (by simp) halone (by decide) (by decide) ?_
  · rw [← Finmap.mem_keys, hkeys]
    exact Finset.mem_singleton_self session
  · refine (Pass.outcome_plain_eq_some_iff OneEvent.isStorable).2
      ⟨by rw [slots_vault]; simp, header, header?_vault, rfl, ?_⟩
    show made.report.isComplete = true
    rw [Report.isComplete, events_made]
    rfl

end BadEvent

/-- There is room for two events.  Of three event files the last one cannot be decoded: a pass
reports one event, where a native crash keeps two. -/
theorem bad_event_costs_event : ∃ (tree : Node) (tier : Tier) (report crash : Report) (w : Vault),
    BadEvent.vault.IsHeldIn OneEvent.pass.place tree ∧
    .writeReport OneEvent.session tier report.encode ∈
      (Engine.finalize ⟨OneEvent.pass.place.store.logged, .json⟩ { events := 2 } none 0
        (tree, [])).2.2 ∧
    report.events = [Event.log 0 "y"] ∧
    keepNewest ((BadEvent.vault.files OneEvent.session).slots.filterMap
      (BadEvent.vault.files OneEvent.session).event?) 2 = [Event.log 0 "x", Event.log 0 "y"] ∧
    w.IsHeldIn OneEvent.pass.place (OneEvent.pass.place.engine.finalizeNative { events := 2 }
      OneEvent.session { files := [] } none tree).2 ∧
    w.HasReport OneEvent.session .native crash ∧
    crash.events = [Event.log 0 "x", Event.log 0 "y"] := by
  obtain ⟨tree, hheld⟩ := BadEvent.exists_tree
  have hbase := Medium.nativeBase_plain_of_header OneEvent.pass.place OneEvent.isStorable
    BadEvent.header?_vault
  have hkept : keepNewest ((BadEvent.vault.files OneEvent.session).slots.filterMap
      (BadEvent.vault.files OneEvent.session).event?) 2 = [Event.log 0 "x", Event.log 0 "y"] := by
    rw [BadEvent.events_vault.2]
    rfl
  refine ⟨tree, BadEvent.made.tier, BadEvent.made.report, _, _, hheld, ?_, BadEvent.events_made,
    hkept,
    Medium.finalizeNative_directory (m := .plain OneEvent.pass.place) hheld OneEvent.isStorable
      { events := 2 } { files := [] } none,
    Medium.hasReport_nativeChanges_plain OneEvent.isStorable hbase { events := 2 } { files := [] }
      none, ?_⟩
  · rw [Pass.log_finalize_plain hheld]
    exact BadEvent.writeReport_mem_changes
  · rw [Engine.events_withNativeCrash, Option.map_none, Option.toList_none, List.append_nil]
    exact hkept

/-- The same files, seen from what can be decoded. -/
theorem unreadable_events_iff_bad_event : ∃ (tree : Node) (report crash : Report) (w : Vault),
    BadEvent.vault.IsHeldIn OneEvent.pass.place tree ∧
    Report.decode? BadEvent.made.report.encode = some report ∧
    w.IsHeldIn OneEvent.pass.place (OneEvent.pass.place.engine.finalizeNative { events := 2 }
      OneEvent.session { files := [] } none tree).2 ∧
    w.HasReport OneEvent.session .native crash ∧
    report.events = [Event.log 0 "y"] ∧ crash.events = [Event.log 0 "x", Event.log 0 "y"] := by
  obtain ⟨tree, hheld⟩ := BadEvent.exists_tree
  have hwrites := BadEvent.writeReport_mem_changes
  rw [← Pass.log_finalize_plain hheld] at hwrites
  obtain ⟨report, crash, w, hreport, hevents, hw, hcrash, hkept, -⟩ :=
    unreadable_events_iff hheld hwrites { files := [] }
  refine ⟨tree, report, crash, w, hheld, hreport, hw, hcrash, ?_, ?_⟩
  · rw [hevents]
    exact BadEvent.events_vault.1
  · rw [hkept, BadEvent.events_vault.2]
    rfl

end ReportVault
