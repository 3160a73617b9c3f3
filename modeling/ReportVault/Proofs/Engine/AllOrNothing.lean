import ReportVault.Proofs.Engine.Identity
import ReportVault.Proofs.Engine.NativeCrash

/-!
# ReportVault.Proofs.Engine.AllOrNothing

A native crash is attached in full or not at all, whatever calls fail.

`Vault.CrashAttached` says what there is when it was attached; otherwise the directory is as it was
(`native_crash_all_or_nothing`).  Up to the write of the report all calls only look, and by these
the directory stays the same (`keeps_tree`): a failure of one of them costs an event or the name of
the user, or it ends the operation.  What was read to attach the crash to is in the vault
(`agree_nativeBase_early`).  Then there are two calls, and `run_writeNative_early` goes through
their failures.
-/

namespace ReportVault

open FileSystem Retention
open Engine (withNativeCrash)

/-! ## What is attached -/

/-- What a native crash may be attached to, and whether it was made from an open session: what a
header gives, with any events and any analytics session, or the report that the session has. -/
def Vault.IsNativeBase (v : Vault) (id : SessionId) : Report × Bool → Prop
  | (base, true) => ∃ header correlation events, (v.files id).header? = some header ∧
      base = (header.correlated correlation).withEvents events
  | (base, false) => v.recorded? id = some base

/-- A native crash was attached to a session, and nothing else was done.  The session has one
report, in the native tier, with the crash in it.  Its files are as they were, or they are gone
after the report was made from its header. -/
structure Vault.CrashAttached (v w : Vault) (id : SessionId) (payload : NativePayload)
    (info : Option ExitInfo) (cap : Nat) (r : Report) : Prop where
  report : w.HasReport id .native r
  recorded : w.recorded? id = some r
  nativePayload : r.nativePayload = some payload
  marked : r.session.crashed = true ∧ r.session.highPriority = true
  exit : ∀ record, info = some record → r.exitInfo = some record ∧
    r.session.endTimeMillis = some record.timestampMillis ∧
    (1 ≤ cap → r.events.getLast? = some (.nativeExit record))
  events : r.events.length ≤ cap
  made : ∃ base user, v.IsNativeBase id base ∧ r = withNativeCrash base.1 payload user info cap ∧
    (w.sessions.lookup id = v.sessions.lookup id ∨
      base.2 = true ∧ w.sessions.lookup id = none)
  otherSessions : ∀ other ≠ id, w.sessions.lookup other = v.sessions.lookup other
  otherReports : ∀ other ≠ id, ∀ tier,
    (w.reports tier).lookup other = (v.reports tier).lookup other

/-- An exit record ends the session, and its event is the last one if there is room for any. -/
theorem Engine.exit_withNativeCrash (report : Report) (payload : NativePayload)
    (user : Option String) (record : ExitInfo) (cap : Nat) :
    let r := withNativeCrash report payload user (some record) cap
    r.exitInfo = some record ∧ r.session.endTimeMillis = some record.timestampMillis ∧
      (1 ≤ cap → r.events.getLast? = some (.nativeExit record)) := by
  refine ⟨rfl, rfl, fun hcap => ?_⟩
  rw [Engine.events_withNativeCrash, Option.map_some, Option.toList_some, keepNewest_eq_drop,
    List.getLast?_drop, if_neg, List.getLast?_concat]
  rw [List.length_append, List.length_singleton]
  omega

namespace Vault.IsNativeBase

variable {v w : Vault} {id : SessionId} {base : Report × Bool}

/-- A session that can have a native crash can be stored. -/
theorem isStorable (hv : v.IsWellFormed) (h : v.IsNativeBase id base) : id.IsStorable := by
  obtain ⟨base, _ | _⟩ := base
  · obtain ⟨found, hfound, -⟩ := Option.bind_eq_some_iff.1 h
    obtain ⟨tier, -, hlookup⟩ := List.exists_of_findSome?_eq_some hfound
    obtain ⟨contents, hcontents, -⟩ := Option.map_eq_some_iff.1 hlookup
    exact hv.isStorable_report tier id (Finmap.mem_iff.2 ⟨contents, hcontents⟩)
  · obtain ⟨header, -, -, hheader, -⟩ := h
    refine hv.isStorable_open id (Finmap.mem_iff.2 ⟨v.files id, ?_⟩)
    cases hopen : v.sessions.lookup id with
    | none => simp [Vault.files, hopen, Files.header?, Files.contents?] at hheader
    | some files => rw [Vault.files_of_lookup hopen]

/-- To write the report attaches the crash, whether the session is closed or not. -/
theorem attached (h : v.IsNativeBase id base) (payload : NativePayload) (user : Option String)
    (info : Option ExitInfo) (cap : Nat)
    (hreports : w.reports = (v.setReport id .native
      (withNativeCrash base.1 payload user info cap).encode).reports)
    (hfiles : w.sessions.lookup id = v.sessions.lookup id ∨
      base.2 = true ∧ w.sessions.lookup id = none)
    (hothers : ∀ other ≠ id, w.sessions.lookup other = v.sessions.lookup other) :
    v.CrashAttached w id payload info cap (withNativeCrash base.1 payload user info cap) := by
  have hreport : w.HasReport id .native (withNativeCrash base.1 payload user info cap) :=
    fun tier => by rw [hreports, Vault.lookup_setReport_self]
  refine ⟨hreport, hreport.recorded?_eq, ?_, ?_, ?_, ?_, ⟨base, user, h, rfl, hfiles⟩, hothers, ?_⟩
  · cases info <;> rfl
  · exact ⟨rfl, rfl⟩
  · rintro record rfl
    exact Engine.exit_withNativeCrash base.1 payload user record cap
  · rw [Engine.events_withNativeCrash]
    exact (length_splitOldest_snd _ cap).trans_le (Nat.min_le_right _ _)
  · intro other hne tier
    rw [hreports, Vault.lookup_setReport_of_ne hne]

end Vault.IsNativeBase

/-- Where no call fails it is attached to what the header gives, or else to the report. -/
theorem Vault.IsHeldIn.exists_nativeBase {v : Vault} {place : Location} {tree : Node}
    {id : SessionId} (hheld : v.IsHeldIn place tree)
    (h : (v.files id).header?.isSome = true ∨ (v.recorded? id).isSome = true) :
    ∃ base, (Medium.plain place).nativeBase v id = .ok base ∧ v.IsNativeBase id base := by
  cases hheader : (v.files id).header? with
  | some header =>
    have hbase : v.IsNativeBase id ((v.files id).nativeBase header, true) :=
      ⟨header, _, _, hheader, rfl⟩
    have hid := hbase.isStorable hheld.isWellFormed
    exact ⟨_, Medium.nativeBase_plain_of_header place hid hheader, hbase⟩
  | none =>
    rw [hheader] at h
    obtain ⟨report, hreport⟩ := Option.isSome_iff_exists.1 (h.resolve_left (by simp))
    have hbase : v.IsNativeBase id (report, false) := hreport
    have hid := hbase.isStorable hheld.isWellFormed
    exact ⟨_, Medium.nativeBase_plain_of_recorded place hid hheader hreport, hbase⟩

/-! ## Runs with failures -/

section Failures

variable {place : Location} {tree : Node} {v : Vault} {id : SessionId} {k : Codec}

/-- From the directory a computation fails and leaves it, or it answers and leaves it. -/
theorem AgreeExcept.run_same {α : Type} {Q : α → Prop}
    {x : ExceptT Failure (StateM (Node × Nat)) α}
    (h : AgreeExcept (fun y z => y = z ∧ y.1 = tree) Q x x) (n : Nat) :
    (∃ failure m, x.run (tree, n) = (.error failure, tree, m)) ∨
      ∃ a m, x.run (tree, n) = (.ok a, tree, m) ∧ Q a := by
  obtain ⟨-, hanswer, -, hsame⟩ := h (tree, n) (tree, n) ⟨rfl, rfl⟩
  cases hrun : x.run (tree, n) with
  | mk r after =>
    obtain ⟨top, m⟩ := after
    rw [hrun] at hanswer hsame
    obtain rfl : top = tree := hsame
    cases r with
    | error failure => exact Or.inl ⟨failure, m, rfl⟩
    | ok a => exact Or.inr ⟨a, m, rfl, hanswer a rfl⟩

/-- The call names what can be there, and it only looks. -/
def Store.Call.Looks (call : Store.Call α) : Prop := call.NamesEntries ∧ call.isRead = true

theorem allowsFiles_looks (id : SessionId) : Engine.AllowsFiles Store.Call.Looks id :=
  ⟨⟨trivial, rfl⟩, fun _ hname => ⟨hname, rfl⟩⟩

variable (hheld : v.IsHeldIn place tree)
  (fails : Nat → {α : Type} → Store.Call α → Option Failure)

include hheld

/-- Such calls leave the directory as it is, whether they fail or not. -/
theorem keeps_tree :
    (place.store.faulty (.early fails)).Keeps (fun x => x.1 = tree) Store.Call.Looks := by
  rintro α call ⟨hnames, hread⟩ ⟨top, n⟩ rfl
  rcases place.store.run_early fails call top n with ⟨failure, hrun⟩ | hrun
  · rw [hrun]
    exact ⟨rfl, fun _ ha => absurd ha (by simp)⟩
  · rw [hrun]
    exact ⟨hheld.perform_looking hnames hread, (hheld.exists_after call hnames).2⟩

theorem agrees_tree :
    Store.Agrees (fun y z => y = z ∧ y.1 = tree) Store.Call.Looks
      (place.store.faulty (.early fails)) (place.store.faulty (.early fails)) :=
  Store.Keeps.agrees (keeps_tree hheld fails)

/-- What can be read to attach a native crash to is in the vault. -/
theorem agree_nativeBase_early (hk : k.FollowsJson) :
    AgreeExcept (fun y z => y = z ∧ y.1 = tree) (v.IsNativeBase id)
      (Engine.nativeBase ⟨place.store.faulty (.early fails), k⟩ id)
      (Engine.nativeBase ⟨place.store.faulty (.early fails), k⟩ id) := by
  have hname := isEntryName_sessionFile SessionFile.header (by decide)
  have hread : (Store.Call.read id SessionFile.header).Looks := ⟨hname.1, rfl⟩
  have hreadReport : (Store.Call.readReport id).Looks := ⟨trivial, rfl⟩
  have hheader := Engine.agree_readHeader_of_read (k := k)
    (C := fun contents => v.item? id SessionFile.header = some (.file contents))
    (Store.Keeps.answers (keeps_tree hheld fails) hread (by
      rintro ⟨top, n⟩ rfl _ hanswer contents rfl
      exact hheld.item?_of_read hname.1 (Store.answer_of_faulty hanswer)))
  have hreport := Engine.agree_readFinalized_of_read (k := k)
    (C := fun contents => ∃ tier, v.report? id = some (tier, contents))
    (Store.Keeps.answers (keeps_tree hheld fails) hreadReport (by
      rintro ⟨top, n⟩ rfl _ hanswer found rfl
      exact ⟨found.1, hheld.report?_of_readReport (Store.answer_of_faulty hanswer)⟩))
  refine (Engine.agree_nativeBase_of_header (agrees_tree hheld fails) (allowsFiles_looks id)
    hheader hreport).mono ?_
  rintro ⟨base, fromOpen⟩ (⟨rfl, contents, ⟨tier, hfound⟩, hdecode⟩ |
    ⟨rfl, header, correlation, events, ⟨contents, hitem, hdecode⟩, hmade⟩)
  · show v.recorded? id = some base
    rw [Vault.recorded?, hfound]
    exact hk.decode contents base hdecode
  · refine ⟨header, correlation, events, ?_, hmade⟩
    rw [Files.header?, Files.contents?_eq_some.2 hitem]
    exact hk.decode contents header hdecode

/-- The report is written, or nothing is done. -/
theorem writeReport_early (hid : id.IsStorable) (tier : Tier) (contents : Bytes) (n : Nat) :
    let run := ((place.store.faulty (.early fails)).perform (.writeReport id tier contents)).run
      (tree, n)
    (∃ failure, run = (.error failure, tree, n + 1)) ∨
      ∃ top, run = (.ok (), top, n + 1) ∧ (v.setReport id tier contents).IsHeldIn place top := by
  intro run
  rcases place.store.run_early fails (.writeReport id tier contents) tree n with hfailed | hwrite
  · exact Or.inl hfailed
  · obtain ⟨top, hperform, hwritten⟩ := hheld.perform_writeReport hid tier contents
    rw [hperform] at hwrite
    exact Or.inr ⟨top, hwrite, hwritten⟩

/-- The session is closed, or nothing is done. -/
theorem deleteSession_early (hid : id.IsStorable) (n : Nat) :
    let run := ((place.store.faulty (.early fails)).perform (.deleteSession id)).run (tree, n)
    v.IsHeldIn place run.2.1 ∨ (v.close id).IsHeldIn place run.2.1 := by
  intro run
  rcases place.store.run_early fails (.deleteSession id) tree n with ⟨failure, hfailed⟩ | hdelete
  · refine Or.inl ?_
    rw [show run = _ from hfailed]
    exact hheld
  · refine Or.inr ?_
    obtain ⟨top, hperform, hclosed⟩ := hheld.perform_deleteSession hid
    rw [show run = _ from hdelete, hperform]
    exact hclosed

/-- What is done when the report was encoded: it is written or not, and if it was, its session is
closed or not. -/
theorem run_writeNative_early {base : Report × Bool} (hbase : v.IsNativeBase id base)
    (payload : NativePayload) (user : Option String) (info : Option ExitInfo) (cap n : Nat) :
    let e : Engine (StateM (Node × Nat)) := ⟨place.store.faulty (.early fails), k⟩
    let r := withNativeCrash base.1 payload user info cap
    let after := ((e.store.perform (.writeReport id .native r.encode) >>= fun _ =>
      if base.2 then liftM (e.attempt (.deleteSession id)) else pure () :
        ExceptT Failure (StateM (Node × Nat)) Unit).run (tree, n)).2.1
    after = tree ∨
      ∃ w : Vault, w.IsHeldIn place after ∧ v.CrashAttached w id payload info cap r := by
  intro e r after
  have hid := hbase.isStorable hheld.isWellFormed
  rcases writeReport_early hheld fails hid .native r.encode n with
    ⟨failure, hwrite⟩ | ⟨top, hwrite, hwritten⟩
  · refine Or.inl ?_
    simp only [after]
    rw [run_bind_of_error hwrite]
  · refine Or.inr ?_
    simp only [after]
    rw [run_bind_of_ok hwrite]
    have hopen := hbase.attached payload user info cap (w := v.setReport id .native r.encode) rfl
      (Or.inl rfl) fun _ _ => rfl
    cases hfrom : base.2 with
    | false => exact ⟨_, hwritten, hopen⟩
    | true =>
      have hclosed := hbase.attached payload user info cap
        (w := (v.setReport id .native r.encode).close id) rfl
        (Or.inr ⟨hfrom, Vault.lookup_close_self⟩) fun _ hne => Vault.lookup_close_of_ne hne
      rcases deleteSession_early hwritten fails hid (n + 1) with hkept | hgone
      · exact ⟨_, hkept, hopen⟩
      · exact ⟨_, hgone, hclosed⟩

/-- The directory stays as it is, or the native crash is attached. -/
theorem run_tryFinalizeNative_early (hk : k.FollowsJson) (caps : Caps) (payload : NativePayload)
    (info : Option ExitInfo) (n : Nat) :
    let after := ((Engine.tryFinalizeNative ⟨place.store.faulty (.early fails), k⟩ caps id payload
      info).run (tree, n)).2.1
    after = tree ∨
      ∃ w r, w.IsHeldIn place after ∧ v.CrashAttached w id payload info caps.events r := by
  intro after
  simp only [after]
  rw [Engine.tryFinalizeNative]
  rcases (agree_nativeBase_early hheld fails hk).run_same n with
    ⟨failure, m, hread⟩ | ⟨base, m, hread, hbase⟩
  · rw [run_bind_of_error hread]
    exact Or.inl rfl
  rw [run_bind_of_ok hread]
  dsimp only
  have huser := isEntryName_sessionFile SessionFile.user (by decide)
  have hreads := Engine.agree_readText (k := k) (agrees_tree hheld fails) (allowsFiles_looks id)
    huser.1
  rcases (AgreeExcept.lift hreads).run_same m with ⟨failure, l, huser⟩ | ⟨user, l, huser, -⟩
  · rw [run_bind_of_error huser]
    exact Or.inl rfl
  rw [run_bind_of_ok huser]
  cases hencode : k.encodeReport (withNativeCrash base.1 payload user info caps.events) with
  | error failure =>
    rw [run_bind_error rfl]
    exact Or.inl rfl
  | ok contents =>
    rw [run_bind_ok rfl]
    obtain rfl := hk.encode _ contents hencode
    rcases run_writeNative_early hheld fails hbase payload user info caps.events l with
      hsame | ⟨w, hw, hattached⟩
    · exact Or.inl hsame
    · exact Or.inr ⟨w, _, hw, hattached⟩

omit hheld in
/-- Where a call fails every time or never, the changes are known. -/
theorem finalizeNative_same_faults {m : Medium} (hheld : v.IsHeldIn m.place tree)
    (hfails : ∀ (n : Nat) {α : Type} (call : Store.Call α), fails n call = m.fails call)
    (hid : id.IsStorable) (caps : Caps) (payload : NativePayload) (info : Option ExitInfo) :
    (v.after (m.nativeChanges v id caps payload info)).IsHeldIn m.place
      (Engine.finalizeNative ⟨m.place.store.faulty (.early fails), m.codec⟩ caps id payload info
        (tree, 0)).2.1 := by
  have hallowed : Engine.AllowsFinalizing Store.Call.NamesEntries id :=
    ⟨⟨trivial, fun _ hname => hname⟩, trivial, fun _ _ => trivial, trivial⟩
  obtain ⟨-, -, hsame, -⟩ := Engine.agree_finalizeNative (k := m.codec)
    (agrees_of_same_faults hfails) hallowed caps payload info (tree, 0) tree ⟨rfl, v, hheld⟩
  rw [hsame]
  exact Medium.finalizeNative_directory hheld hid caps payload info

/-- Where no call fails a session with something to attach the crash to has it attached. -/
theorem attached_of_no_fault
    (hfails : ∀ (n : Nat) {α : Type} (call : Store.Call α), fails n call = none)
    (hbase : (v.files id).header?.isSome = true ∨ (v.recorded? id).isSome = true) (caps : Caps)
    (payload : NativePayload) (info : Option ExitInfo) :
    ∃ w r, w.IsHeldIn place (Engine.finalizeNative ⟨place.store.faulty (.early fails), .json⟩ caps
        id payload info (tree, 0)).2.1 ∧
      v.CrashAttached w id payload info caps.events r := by
  obtain ⟨base, hread, hbase⟩ := hheld.exists_nativeBase hbase
  have hid := hbase.isStorable hheld.isWellFormed
  refine ⟨_, withNativeCrash base.1 payload ((v.files id).text? SessionFile.user) info caps.events,
    finalizeNative_same_faults (m := .plain place) fails hheld hfails hid caps payload info, ?_⟩
  rw [Medium.nativeChanges_plain hid hread]
  cases hfrom : base.2 with
  | false => exact hbase.attached payload _ info caps.events rfl (Or.inl rfl) fun _ _ => rfl
  | true =>
    exact hbase.attached payload _ info caps.events rfl (Or.inr ⟨hfrom, Vault.lookup_close_self⟩)
      fun _ hne => Vault.lookup_close_of_ne hne

/-- A native crash is attached in full or not at all, whatever calls fail: the directory is as it
was, or the session has one report, which is native and has the crash in it, and nothing else is
done but that its files may be gone if the report was made from them.

It is attached if no call fails and there is a header or a report to attach it to.  A record that
cannot be decoded or encoded at one call only is as if the call to read or write it failed. -/
theorem native_crash_all_or_nothing (hk : k.FollowsJson) (caps : Caps) (id : SessionId)
    (payload : NativePayload) (info : Option ExitInfo) :
    let after := (Engine.finalizeNative ⟨place.store.faulty (.early fails), k⟩ caps id payload info
      (tree, 0)).2.1
    let attached := ∃ w r, w.IsHeldIn place after ∧
      v.CrashAttached w id payload info caps.events r
    (after = tree ∨ attached) ∧
    (k = .json → (∀ (n : Nat) {α : Type} (call : Store.Call α), fails n call = none) →
      (attached ↔ (v.files id).header?.isSome = true ∨ (v.recorded? id).isSome = true)) := by
  intro after attached
  have hafter : after = ((Engine.tryFinalizeNative ⟨place.store.faulty (.early fails), k⟩ caps id
      payload info).run (tree, 0)).2.1 :=
    congrArg (fun x : Unit × Node × Nat => x.2.1) (Medium.run_ignored _ _)
  refine ⟨?_, ?_⟩
  · simp only [attached]
    rw [hafter]
    exact run_tryFinalizeNative_early hheld fails hk caps payload info 0
  · rintro rfl hfails
    refine ⟨?_, fun hbase => attached_of_no_fault hheld fails hfails hbase caps payload info⟩
    rintro ⟨w, r, -, hattached⟩
    obtain ⟨⟨base, _ | _⟩, user, hbase, -⟩ := hattached.made
    · exact Or.inr (Option.isSome_iff_exists.2 ⟨base, hbase⟩)
    · obtain ⟨header, -, -, hheader, -⟩ := hbase
      exact Or.inl (Option.isSome_iff_exists.2 ⟨header, hheader⟩)

end Failures

/-- If no call fails the crash is attached with its exit record, and the session is closed.  If the
session cannot be closed the crash is attached all the same, and the files are as they were. -/
theorem native_crash_all_or_nothing_one_event : ∃ tree : Node,
    OneEvent.vault.IsHeldIn OneEvent.pass.place tree ∧
    (∃ (w : Vault) (r : Report),
      w.IsHeldIn OneEvent.pass.place (Engine.finalizeNative
        ⟨OneEvent.pass.place.store.faulty (.early fun _ _ _ => none), .json⟩ { events := 1 }
        OneEvent.session { files := [] } (some OneEvent.exit) (tree, 0)).2.1 ∧
      w.HasReport OneEvent.session .native r ∧ r.exitInfo = some OneEvent.exit ∧
      r.events = [Event.nativeExit OneEvent.exit]) ∧
    ∃ (w : Vault) (r : Report),
      w.IsHeldIn OneEvent.pass.place (Engine.finalizeNative
        ⟨OneEvent.pass.place.store.faulty (.early fun _ _ call => OneEvent.stuck.fails call),
          .json⟩ {} OneEvent.session { files := [] } (some OneEvent.exit) (tree, 0)).2.1 ∧
      w.HasReport OneEvent.session .native r ∧ r.exitInfo = some OneEvent.exit ∧
      w.files OneEvent.session = OneEvent.vault.files OneEvent.session := by
  obtain ⟨tree, hheld⟩ := OneEvent.exists_tree
  refine ⟨tree, hheld, ?_, ?_⟩
  · obtain ⟨-, hattached⟩ := native_crash_all_or_nothing hheld (fun _ _ _ => none)
      Codec.followsJson_json { events := 1 } OneEvent.session { files := [] } (some OneEvent.exit)
    have hheader : ((OneEvent.vault.files OneEvent.session).header?).isSome = true := by
      rw [OneEvent.header?_vault]
      rfl
    obtain ⟨w, r, hw, hr⟩ := (hattached rfl fun _ _ _ => rfl).2 (Or.inl hheader)
    obtain ⟨hexit, -, hlast⟩ := hr.exit OneEvent.exit rfl
    -- There is room for one event, so the last one is the only one.
    obtain ⟨before, hevents⟩ := List.getLast?_eq_some_iff.1 (hlast (Nat.le_refl 1))
    have hroom : (before ++ [Event.nativeExit OneEvent.exit]).length ≤ 1 := hevents ▸ hr.events
    rw [List.length_append, List.length_singleton] at hroom
    obtain rfl : before = [] := List.length_eq_zero_iff.1 (by omega)
    exact ⟨w, r, hw, hr.report, hexit, hevents⟩
  · obtain ⟨hdone, -⟩ := native_crash_all_or_nothing hheld
      (fun _ _ call => OneEvent.stuck.fails call) Codec.followsJson_json {} OneEvent.session
      { files := [] } (some OneEvent.exit)
    have hwritten := finalizeNative_same_faults (m := OneEvent.stuck)
      (fun _ _ call => OneEvent.stuck.fails call) hheld (fun _ _ _ => rfl) OneEvent.isStorable {}
      { files := [] } (some OneEvent.exit)
    rw [OneEvent.nativeChanges_stuck] at hwritten
    rcases hdone with hsame | ⟨w, r, hw, hr⟩
    · -- The report is there, and it was not before.
      have hkept : OneEvent.written.IsHeldIn OneEvent.pass.place tree := hsame ▸ hwritten
      have hvault : OneEvent.written = OneEvent.vault := hkept.unique hheld
      have hreport := OneEvent.hasReport_written .native
      rw [hvault] at hreport
      cases hreport
    · obtain rfl : w = OneEvent.written := hw.unique hwritten
      exact ⟨_, r, hw, hr.report, (hr.exit OneEvent.exit rfl).1, rfl⟩

end ReportVault
