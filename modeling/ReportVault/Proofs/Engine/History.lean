import Mathlib.Data.List.DropRight
import ReportVault.Proofs.Engine.OpenFiles
import ReportVault.Proofs.Engine.Persist
import ReportVault.Proofs.Engine.Plain

/-!
# ReportVault.Proofs.Engine.History

The events of a session, over any run of operations.

`Engine.history` writes down which events an open session was given, each with the cap that was in
force, and `left` what such a history leaves: after each event, the last ones within the cap.  No
operation but `persistEvent` on the session changes its event files while it stays open
(`Tracks.step`), so a run keeps it that they hold what the history leaves (`Tracks.after`).
-/

namespace ReportVault

open FileSystem Retention

/-! ## Histories -/

namespace Engine

/-- The event that an operation gives to a session, with the cap in force. -/
def Action.given (id : SessionId) : Action → List (Event × Nat)
  | .persistEvent caps _ event other _ => if other = id then [(event, caps.events)] else []
  | _ => []

/-- The events that a session was given since it was last opened, after those of `given`. -/
def history (e : Engine (StateM σ)) (id : SessionId) (s : σ) (given : List (Event × Nat)) :
    List Action → List (Event × Nat)
  | [] => given
  | a :: actions =>
    let next := (a.run e s).2
    e.history id next (if id ∈ (e.openIds next).1 then given ++ a.given id else []) actions

/-- What events leave, when after each of them only the last ones within a cap are kept. -/
def left (events : List Event) (given : List (Event × Nat)) : List Event :=
  given.foldl (fun events g => (events ++ [g.1]).rtake g.2) events

/-- An event that the operation gives to the session is stored. -/
def Action.Stores (e : Engine (StateM σ)) (id : SessionId) (s : σ) : Action → Prop
  | .persistEvent caps correlation event other high => other = id →
    ((e.tryPersistEvent caps correlation event other high).run s).1 = .ok ()
  | _ => True

/-- Every event that a run gives to the session is stored. -/
def Stores (e : Engine (StateM σ)) (id : SessionId) (s : σ) : List Action → Prop
  | [] => True
  | a :: actions => a.Stores e id s ∧ e.Stores id (a.run e s).2 actions

theorem left_append (events : List Event) (given more : List (Event × Nat)) :
    left events (given ++ more) = left (left events given) more := List.foldl_append

end Engine

/-! ## Directories in which a session has events -/

variable {place : Location} {id : SessionId} {events : List Event} {top : Node}

/-- The directory holds a vault in which the session has these events. -/
def Tracks (place : Location) (id : SessionId) (events : List Event) (top : Node) : Prop :=
  ∃ (v : Vault) (slots : List Slot), v.IsHeldIn place top ∧ (v.files id).Holds slots events

/-- The same, unless the session is closed. -/
def TracksOpen (place : Location) (id : SessionId) (events : List Event) (top : Node) : Prop :=
  ∃ v : Vault, v.IsHeldIn place top ∧
    (id ∈ v.sessions → ∃ slots, (v.files id).Holds slots events)

theorem tracks_iff :
    Tracks place id events top ↔
      FilesAre place id (fun files => ∃ slots, files.Holds slots events) top :=
  ⟨fun ⟨v, slots, hheld, hholds⟩ => ⟨v, hheld, slots, hholds⟩,
    fun ⟨v, hheld, slots, hholds⟩ => ⟨v, slots, hheld, hholds⟩⟩

theorem Tracks.tracksOpen (h : Tracks place id events top) : TracksOpen place id events top :=
  (tracks_iff.1 h).openFilesAre

/-! ## What operations do to the events of a session -/

/-- The files that are written when nothing happens in a session are no event files. -/
theorem ofFileName?_of_quiet {name : String} (h : name ∈ SessionFile.quiet) :
    Slot.ofFileName? name = none :=
  SessionFile.ofFileName?_eq_none name (SessionFile.mem_all_of_quiet name h)

namespace Tracks

/-- An event that is stored comes last, and the last ones within the cap are kept. -/
theorem persistEvent (hid : id.IsStorable) (h : Tracks place id events top) {caps : Caps}
    {correlation : Option String} {event : Event} {high : Bool}
    (hstored : ((place.engine.tryPersistEvent caps correlation event id high).run top).1 =
      .ok ()) :
    Tracks place id ((events ++ [event]).rtake caps.events)
      (place.engine.persistEvent caps correlation event id high top).2 := by
  refine tracks_iff.2 ((tracks_iff.1 h).persistEvent hid.isShort hstored ?_)
  rintro v w ⟨slots, hholds⟩ hrun
  obtain ⟨left, hleft⟩ := Engine.holds_tryPersistEvent hid hholds hrun
  rw [keepNewest_eq_drop] at hleft
  exact ⟨left, hleft⟩

/-- An operation adds the event that it gives to the session, and no other one; it may close the
session. -/
theorem step (hid : id.IsStorable) (h : Tracks place id events top) (a : Engine.Action)
    (hstored : a.Stores place.engine id top) :
    TracksOpen place id (Engine.left events (a.given id)) (a.run place.engine top).2 := by
  have hother : a.given id = [] → (∀ caps correlation event high,
      a ≠ .persistEvent caps correlation event id high) →
      TracksOpen place id (Engine.left events (a.given id)) (a.run place.engine top).2 := by
    intro hgiven ha
    rw [hgiven]
    refine (tracks_iff.1 h).step (fun files name hname contents ⟨slots, hholds⟩ => ?_) a ha
    exact ⟨slots, hholds.setEntry_of_not_slot (ofFileName?_of_quiet hname) _⟩
  cases a with
  | persistEvent caps correlation event other high =>
    by_cases he : other = id
    · subst he
      rw [Engine.Action.given, if_pos rfl]
      exact (h.persistEvent hid (hstored rfl)).tracksOpen
    · exact hother (if_neg he) fun _ _ _ _ heq => he (by cases heq; rfl)
  | _ => exact hother rfl fun _ _ _ _ => by simp

end Tracks

/-- A session that is not listed as open has no events. -/
theorem TracksOpen.listed (h : TracksOpen place id events top) :
    Tracks place id (if id ∈ (place.engine.openIds top).1 then events else []) top := by
  obtain ⟨v, hheld, hfiles⟩ := OpenFilesAre.listed
    (F := fun files => ∃ slots, files.Holds slots events) h
  refine tracks_iff.2 ⟨v, hheld, ?_⟩
  split at hfiles
  · next hopen => rwa [if_pos hopen]
  · next hclosed =>
    rw [if_neg hclosed, hfiles]
    exact ⟨[], Files.Holds.nil⟩

/-- After a run the event files hold what the history leaves. -/
theorem Tracks.after (hid : id.IsStorable) {given : List (Event × Nat)}
    (h : Tracks place id (Engine.left [] given) top) (actions : List Engine.Action)
    (hstored : place.engine.Stores id top actions) :
    Tracks place id (Engine.left [] (place.engine.history id top given actions))
      (place.engine.after top actions) := by
  induction actions generalizing top given with
  | nil => exact h
  | cons a actions ih =>
    obtain ⟨hfirst, hrest⟩ := hstored
    have hnext := (h.step hid a hfirst).listed
    have hleft : (if id ∈ (place.engine.openIds (a.run place.engine top).2).1 then
        Engine.left (Engine.left [] given) (a.given id) else []) =
        Engine.left [] (if id ∈ (place.engine.openIds (a.run place.engine top).2).1 then
          given ++ a.given id else []) := by
      split
      · rw [Engine.left_append]
      · rfl
    rw [hleft] at hnext
    exact ih hnext hrest

/-! ## Reading the events of a session -/

variable {v : Vault} {slots : List Slot}

/-- The events that are read from a directory. -/
theorem readEvent_directory (hheld : v.IsHeldIn place top) (hid : id.IsStorable) {slot : Slot}
    (hslot : IsEntryName slot.fileName) :
    (place.engine.readEvent id slot top).1 = (v.files id).event? slot := by
  obtain ⟨hanswer, -⟩ := Engine.agree_readEvent (k := .json) (Store.Agrees.held place)
    (Engine.allowsFiles_isProper hid.isShort) hslot top v hheld
  have hrun : Engine.readEvent ⟨Vault.store place, .json⟩ id slot v =
      ((Medium.plain place).event? v id slot, v) :=
    Medium.run_readEvent (m := Medium.plain place) slot
  rw [hrun, Medium.event?_plain place hid] at hanswer
  exact hanswer

/-- The events of a report that a pass writes. -/
theorem events_of_writeReport (hheld : v.IsHeldIn place top)
    (hholds : (v.files id).Holds slots events) {caps : Caps} {current : Option SessionId}
    {time : Int64} {tier : Tier} {contents : Bytes}
    (h : .writeReport id tier contents ∈ (Pass.plain place caps current time).changes v) :
    ∃ report, Codec.json.decodeReport contents = .ok report ∧
      report.events = events.rtake caps.events := by
  obtain ⟨a, ha, rfl, hwritten⟩ := Pass.exists_of_writeReport_mem_changes h
  have hid := Pass.isStorable_of_mem_assembled hheld.isWellFormed ha
  obtain ⟨found, header, hslots, -, hparts⟩ := Medium.eq_of_outcome (Pass.mem_assembled.1 ha).2
  have hanswer : (Pass.plain place caps current time).answer v (.slots a.id) = .ok slots := by
    rw [← hholds.slots_eq]
    exact congrArg Prod.fst (v.perform_slots place hid)
  obtain rfl : slots = found := Except.ok.inj (hanswer.symm.trans hslots)
  obtain rfl : a.report.encode = contents := Except.ok.inj hwritten
  refine ⟨a.report, Codec.decodeReport_json_eq_ok_iff.2 a.report.decode?_encode, ?_⟩
  · have hevents : (Pass.plain place caps current time).event? v a.id = (v.files a.id).event? :=
      funext fun slot => Medium.event?_plain place hid slot
    rw [hparts, Engine.Assembled.events_ofParts, Medium.events, keepNewest_eq_drop, hevents,
      hholds.filterMap_drop, hholds.length_eq, List.rtake]
    rfl

/-- What is left of the events that a session was given, over any run of operations on a store that
was empty: its event files have increasing numbers and hold, in the order of the numbers, what is
left of the events since the session was last opened; and a pass that writes a report of the session
writes the last of these that its cap allows.  The operations may be about any sessions, and the
caps may be others at every one of them. -/
theorem events_eq_left_history {tree : Node} (hempty : Vault.empty.IsHeldIn place tree)
    (hid : id.IsStorable) (actions : List Engine.Action)
    (hstored : place.engine.Stores id tree actions) :
    let stored := place.engine.after tree actions
    let events := Engine.left [] (place.engine.history id tree [] actions)
    (∃ slots, ((place.store.perform (.slots id)).run stored).1 = .ok slots ∧
      (slots.Pairwise fun a b => a.sequence < b.sequence) ∧
      slots.map (fun slot => (place.engine.readEvent id slot stored).1) = events.map some) ∧
    ∀ (caps : Caps) (current : Option SessionId) (time : Int64) (tier : Tier) (contents : Bytes),
      .writeReport id tier contents ∈
        (Engine.finalize ⟨place.store.logged, .json⟩ caps current time (stored, [])).2.2 →
      ∃ report, Codec.json.decodeReport contents = .ok report ∧
        report.events = events.rtake caps.events := by
  intro stored events
  have hfirst : Tracks place id (Engine.left [] []) tree :=
    ⟨Vault.empty, [], hempty, Files.Holds.nil⟩
  obtain ⟨v, slots, hheld, hholds⟩ : Tracks place id events stored :=
    hfirst.after hid actions hstored
  clear_value stored events
  refine ⟨⟨slots, ?_, hholds.increasing, ?_⟩, fun caps current time tier contents hmem => ?_⟩
  · rw [hheld.perform_slots hid, hholds.slots_eq]
  · rw [← hholds.decoded]
    refine List.map_congr_left fun slot hslot => readEvent_directory hheld hid ?_
    obtain ⟨-, -, contents, hcontents⟩ := hholds.mem_iff.1 hslot
    have hmem := (lookup_eq_some_iff hholds.nodup).1 hcontents
    exact (hheld.isWellFormed.files_of id).isName _ (List.mem_map.2 ⟨_, hmem, rfl⟩)
  · rw [Pass.log_finalize_plain hheld] at hmem
    exact events_of_writeReport hheld hholds hmem

/-- The same for one event in a store whose directory is not there yet. -/
theorem events_eq_left_history_one_event :
    let place := Location.named Store.openSessions isEntryName_openSessions
    let event := Event.log 0 "x"
    let actions := [Engine.Action.persistEvent {} none event ⟨"a"⟩ true]
    let stored := place.engine.after (.directory []) actions
    ∃ slots, ((place.store.perform (.slots ⟨"a"⟩)).run stored).1 = .ok slots ∧
      (slots.Pairwise fun a b => a.sequence < b.sequence) ∧
      slots.map (fun slot => (place.engine.readEvent ⟨"a"⟩ slot stored).1) =
        (Engine.left [] (place.engine.history ⟨"a"⟩ (.directory []) [] actions)).map some := by
  have hid : SessionId.IsStorable ⟨"a"⟩ := ⟨by decide, by decide⟩
  have hempty := Vault.IsHeldIn.empty_named isEntryName_openSessions
  obtain ⟨hanswer, -⟩ := Engine.agree_tryPersistEvent (k := .json)
    (Store.Agrees.held (.named Store.openSessions isEntryName_openSessions))
    (Engine.allowsStoring_isProper hid.isShort) {} none (Event.log 0 "x") true _ _ hempty
  have hsequence : Engine.nextSequence ⟨"a"⟩ (Vault.empty.files ⟨"a"⟩).slots = .ok 1 := by
    rw [show (Vault.empty.files ⟨"a"⟩).slots = [] from Files.Holds.nil.slots_eq]
    rfl
  have hstored := hanswer.trans (Engine.tryPersistEvent_ok _ hid (v := Vault.empty)
    (fun _ => by simp [Vault.item?, Vault.files, Vault.empty]) hsequence {} none
    (Event.log 0 "x") true)
  exact (events_eq_left_history hempty hid [.persistEvent {} none (Event.log 0 "x") ⟨"a"⟩ true]
    ⟨fun _ => hstored, trivial⟩).1

end ReportVault
