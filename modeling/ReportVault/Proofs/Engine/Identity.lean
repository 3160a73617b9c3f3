import ReportVault.Proofs.Engine.Faults
import ReportVault.Proofs.Engine.ReadFailures

/-!
# ReportVault.Proofs.Engine.Identity

The identifier of a session is stored twice: in the name of its directory or of its report, and in
the record itself.  `ids_coherent` says that both are always the same, whatever fails.

A vault is coherent if every header and every report in it is a record of its session.  No call of
an engine writes anything else (`Change.IsOwn`), as what is written is made from a header or from a
report that was read of the same session; so every operation keeps a vault coherent
(`coherent_run`), with failures at any of its calls, and so do all operations together.
-/

namespace ReportVault

open FileSystem Retention
open Engine (Action Assembled withNativeCrash)

/-! ## Records of a session -/

/-- The contents are those of a report of the session. -/
def IsRecordOf (id : SessionId) (contents : Bytes) : Prop :=
  ∃ r : Report, r.id = id ∧ contents = r.encode

/-- Such contents are read as a report of the session. -/
theorem IsRecordOf.id_eq {id : SessionId} {contents : Bytes} {r : Report}
    (h : IsRecordOf id contents) (hr : Report.decode? contents = some r) : r.id = id := by
  obtain ⟨s, hs, rfl⟩ := h
  obtain rfl : s = r := Option.some.inj (s.decode?_encode.symm.trans hr)
  exact hs

/-- The headers and the reports of a vault are records of their sessions. -/
structure Vault.IsCoherent (v : Vault) : Prop where
  header : ∀ id contents, v.item? id SessionFile.header = some (.file contents) →
    IsRecordOf id contents
  report : ∀ tier id contents, (v.reports tier).lookup id = some contents →
    IsRecordOf id contents

theorem Vault.isCoherent_empty : Vault.empty.IsCoherent where
  header id contents h := by cases h
  report tier id contents h := by cases h

/-- The change writes no header and no report but those of its session. -/
def Change.IsOwn : Change → Prop
  | .write id name contents => name = SessionFile.header → IsRecordOf id contents
  | .writeReport id _ contents => IsRecordOf id contents
  | _ => True

/-- And so does the call. -/
def Store.Call.WritesOwn (call : Store.Call α) : Prop :=
  call.NamesEntries ∧ ∀ c, call.change? = some c → c.IsOwn

theorem Store.Call.writesOwn_of_isRead {call : Store.Call α} (hnames : call.NamesEntries)
    (hread : call.isRead = true) : call.WritesOwn :=
  ⟨hnames, fun c hc => by simp [change?_of_isRead hread] at hc⟩

theorem allowsFiles_writesOwn (id : SessionId) : Engine.AllowsFiles Store.Call.WritesOwn id :=
  ⟨Store.Call.writesOwn_of_isRead trivial rfl, fun _ hname =>
    Store.Call.writesOwn_of_isRead hname rfl⟩

theorem writesOwn_write {id : SessionId} {name : String} {contents : Bytes}
    (hname : IsEntryName name ∧ IsVisible name) (hne : name ≠ SessionFile.header) :
    (Store.Call.write id name contents).WritesOwn := by
  refine ⟨hname, fun c hc => ?_⟩
  obtain rfl : Change.write id name contents = c := Option.some.inj hc
  exact fun he => absurd he hne

theorem writesOwn_deleteSession (id : SessionId) : (Store.Call.deleteSession id).WritesOwn :=
  ⟨trivial, by simp [Store.Call.change?, Change.IsOwn]⟩

theorem writesOwn_writeReport {id : SessionId} (tier : Tier) {contents : Bytes}
    (h : IsRecordOf id contents) : (Store.Call.writeReport id tier contents).WritesOwn := by
  refine ⟨trivial, fun c hc => ?_⟩
  obtain rfl : Change.writeReport id tier contents = c := Option.some.inj hc
  exact h

/-- Whatever such a call leaves is coherent. -/
theorem Vault.IsCoherent.leaves {v w : Vault} {call : Store.Call α} (h : v.IsCoherent)
    (hcall : call.WritesOwn) (hw : v.Leaves call w) : w.IsCoherent where
  header id contents hitem := by
    rcases hw.files id _ contents hitem with hold | hnew
    · exact h.header id contents hold
    · exact hcall.2 _ hnew rfl
  report tier id contents hlookup := by
    rcases hw.reports tier id contents hlookup with ⟨t, hold⟩ | ⟨t, hnew⟩
    · exact h.report t id contents hold
    · exact hcall.2 _ hnew

/-- Records are JSON texts, where encoding and decoding them succeeds. -/
structure Codec.FollowsJson (k : Codec) : Prop where
  encode : ∀ r contents, k.encodeReport r = .ok contents → contents = r.encode
  decode : ∀ contents r, k.decodeReport contents = .ok r → Report.decode? contents = some r

theorem Codec.followsJson_json : Codec.json.FollowsJson where
  encode _ _ h := (Except.ok.inj h).symm
  decode _ _ h := decodeReport_json_eq_ok_iff.1 h

/-! ## Records are made from records of the same session -/

/-- An assembled report is about the session of its header. -/
theorem Engine.Assembled.id_report_ofParts (id : SessionId) (time : Int64) (marked : Bool)
    (header : Report) (events : List Event) (user correlation : Option String)
    (recorded : Option Report) :
    (Assembled.ofParts id time marked header events user correlation recorded).report.id =
      header.id := by
  unfold Assembled.ofParts
  cases recorded.filter fun r => r.nativePayload.isSome <;> rfl

/-- A native crash does not change whom a report is about. -/
theorem Engine.id_withNativeCrash (report : Report) (payload : NativePayload)
    (user : Option String) (info : Option ExitInfo) (cap : Nat) :
    (withNativeCrash report payload user info cap).id = report.id := by
  cases info <;> rfl

/-! ## Operations -/

variable {place : Location} {faults : Faults Node} {k : Codec} {id : SessionId}

/-- The directory of a store holds a coherent vault; calls are counted beside it. -/
def IsCoherentIn (place : Location) (x : Node × Nat) : Prop :=
  ∃ v : Vault, v.IsHeldIn place x.1 ∧ v.IsCoherent

/-- A computation over a store in which some calls fail keeps the store coherent. -/
abbrev Coherent (place : Location) (Q : α → Prop) (x : StateM (Node × Nat) α) : Prop :=
  Agree (fun y z => y = z ∧ IsCoherentIn place y) Q x x

/-- The same of one that may fail. -/
abbrev CoherentExcept (place : Location) (Q : α → Prop)
    (x : ExceptT Failure (StateM (Node × Nat)) α) : Prop :=
  AgreeExcept (fun y z => y = z ∧ IsCoherentIn place y) Q x x

section Operations

variable (hfaults : faults.AreSafe place)

include hfaults

theorem keeps_coherent :
    (place.store.faulty faults).Keeps (IsCoherentIn place) Store.Call.WritesOwn := by
  rintro α call hcall ⟨top, n⟩ ⟨v, hheld, hv⟩
  obtain ⟨⟨w, hw, hleaves⟩, hanswer⟩ := hheld.exists_leaves hfaults hcall.1 n
  exact ⟨⟨w, hw, hv.leaves hcall hleaves⟩, hanswer⟩

theorem agrees_coherent :
    Store.Agrees (fun y z => y = z ∧ IsCoherentIn place y) Store.Call.WritesOwn
      (place.store.faulty faults) (place.store.faulty faults) :=
  Store.Keeps.agrees (keeps_coherent hfaults)

variable (hk : k.FollowsJson)

include hk

/-- A header that is read is that of the session. -/
theorem coherent_readHeader (id : SessionId) :
    CoherentExcept place (fun header => header.id = id)
      (Engine.readHeader ⟨place.store.faulty faults, k⟩ id) := by
  have hname := isEntryName_sessionFile SessionFile.header (by decide)
  have hcall : (Store.Call.read id SessionFile.header).WritesOwn :=
    Store.Call.writesOwn_of_isRead hname.1 rfl
  refine (Engine.agree_readHeader_of_read (C := IsRecordOf id)
    (Store.Keeps.answers (keeps_coherent hfaults) hcall ?_)).mono ?_
  · rintro ⟨top, n⟩ ⟨v, hheld, hv⟩ _ hanswer contents rfl
    exact hv.header id contents (hheld.item?_of_read hname.1 (Store.answer_of_faulty hanswer))
  · rintro header ⟨contents, hown, hdecode⟩
    exact hown.id_eq (hk.decode contents header hdecode)

/-- A report that is read is that of the session. -/
theorem coherent_readFinalized (id : SessionId) :
    Coherent place (fun r => ∀ report, r = some report → report.id = id)
      (Engine.readFinalized ⟨place.store.faulty faults, k⟩ id) := by
  have hcall : (Store.Call.readReport id).WritesOwn :=
    Store.Call.writesOwn_of_isRead trivial rfl
  refine (Engine.agree_readFinalized_of_read (C := IsRecordOf id)
    (Store.Keeps.answers (keeps_coherent hfaults) hcall ?_)).mono ?_
  · rintro ⟨top, n⟩ ⟨v, hheld, hv⟩ _ hanswer found rfl
    have hreport := hheld.report?_of_readReport (Store.answer_of_faulty hanswer)
    obtain ⟨tier, -, hlookup⟩ := List.exists_of_findSome?_eq_some hreport
    obtain ⟨contents, hcontents, rfl⟩ := Option.map_eq_some_iff.1 hlookup
    exact hv.report tier id contents hcontents
  · rintro r hr report hreport
    obtain ⟨contents, hown, hdecode⟩ := hr report hreport
    exact hown.id_eq (hk.decode contents report hdecode)

/-- An assembled report is about the session that it is written for. -/
theorem coherent_assembleOrDelete (id : SessionId) (time : Int64) (cap : Nat) :
    Coherent place (fun r => ∀ a, r.1 = some a → a.report.id = a.id)
      (Engine.assembleOrDelete ⟨place.store.faulty faults, k⟩ id time cap) := by
  have hassemble := Engine.agree_assemble_of_header (agrees_coherent hfaults)
    (allowsFiles_writesOwn id) (coherent_readHeader hfaults hk id)
    (Store.Call.writesOwn_of_isRead trivial rfl) time cap
  refine Engine.agree_assembleOrDelete_of_assemble (agrees_coherent hfaults)
    (hassemble.mono fun r hr a ha => ?_) (writesOwn_deleteSession id)
  obtain ⟨marked, header, events, user, correlation, recorded, hheader, rfl⟩ := hr a ha
  rw [Assembled.id_report_ofParts, Engine.Assembled.id_ofParts, hheader]

theorem coherent_place (verdict : Verdict) {a : Assembled} (ha : a.report.id = a.id) :
    Coherent place Whatever (Engine.place ⟨place.store.faulty faults, k⟩ verdict a) := by
  refine Engine.agree_place (agrees_coherent hfaults) verdict (fun contents hcontents => ?_)
    (writesOwn_deleteSession a.id)
  exact writesOwn_writeReport a.tier ⟨a.report, ha, hk.encode a.report contents hcontents⟩

theorem coherent_finalize (caps : Caps) (current : Option SessionId) (time : Int64) :
    Coherent place Whatever
      (Engine.finalize ⟨place.store.faulty faults, k⟩ caps current time) := by
  refine Engine.agree_finalize_of_settle (agrees_coherent hfaults)
    (Engine.agree_settle_of_assemble (Q := fun a => a.report.id = a.id) (agrees_coherent hfaults)
      ?_ ?_ ?_ caps current time
      (fun id _ => coherent_assembleOrDelete hfaults hk id time caps.events)
      fun verdict a ha => coherent_place hfaults hk verdict ha) ?_ ?_
  all_goals simp [Store.Call.WritesOwn, Store.Call.NamesEntries, Store.Call.change?, Change.IsOwn]

theorem coherent_finalizeNative (caps : Caps) (id : SessionId) (payload : NativePayload)
    (info : Option ExitInfo) :
    Coherent place Whatever
      (Engine.finalizeNative ⟨place.store.faulty faults, k⟩ caps id payload info) := by
  have hbase := Engine.agree_nativeBase_of_header (agrees_coherent hfaults)
    (allowsFiles_writesOwn id) (coherent_readHeader hfaults hk id)
    (coherent_readFinalized hfaults hk id)
  refine Engine.agree_finalizeNative_of_base (B := fun base => base.id = id)
    (agrees_coherent hfaults) (allowsFiles_writesOwn id) (hbase.mono fun base h => ?_)
    (writesOwn_deleteSession id) caps payload info fun base user contents hid hcontents => ?_
  · rcases h with ⟨-, h⟩ | ⟨-, header, correlation, events, hheader, h⟩
    · exact h
    · rw [h]
      exact hheader
  · exact writesOwn_writeReport .native
      ⟨_, (Engine.id_withNativeCrash ..).trans hid, hk.encode _ contents hcontents⟩

theorem coherent_persistReport (report : Report) :
    Coherent place Whatever (Engine.persistReport ⟨place.store.faulty faults, k⟩ report) := by
  refine Engine.agree_persistReport_of_encode (agrees_coherent hfaults)
    (fun contents hcontents => ?_) fun contents => ?_
  · refine ⟨isEntryName_sessionFile SessionFile.header (by decide), fun c hc => ?_⟩
    obtain rfl : Change.write report.id SessionFile.header contents = c := Option.some.inj hc
    exact fun _ => ⟨report, rfl, hk.encode report contents hcontents⟩
  · exact writesOwn_write (isEntryName_sessionFile SessionFile.startTime (by decide)) (by decide)

/-- Every operation keeps a store coherent, whatever fails. -/
theorem coherent_run (a : Action) :
    Coherent place Whatever (a.run ⟨place.store.faulty faults, k⟩) := by
  have h : Store.Agrees (fun y z => y = z ∧ IsCoherentIn place y) Store.Call.WritesOwn
      (place.store.faulty faults) (place.store.faulty faults) := agrees_coherent hfaults
  have hdelete : ∀ id name, IsEntryName name → (Store.Call.delete id name).WritesOwn :=
    fun id name hname => ⟨hname, by simp [Store.Call.change?, Change.IsOwn]⟩
  cases a with
  | persistReport report => exact coherent_persistReport hfaults hk report
  | persistEvent caps correlation event id high =>
    have hslot : ∀ sequence high, Slot.name sequence high ≠ SessionFile.header :=
      fun sequence high he =>
        SessionFile.not_mem_all (Slot.ofFileName?_name sequence high) (he ▸ by decide)
    have hpriority := isEntryName_sessionFile SessionFile.priority (by decide)
    have hcorrelation := isEntryName_sessionFile SessionFile.correlation (by decide)
    have htry := Engine.agree_tryPersistEvent_of_writes (k := k) h (allowsFiles_writesOwn id).1
      (fun sequence high _ => writesOwn_write (Slot.isEntryName_name sequence high)
        (hslot sequence high))
      (fun _ => writesOwn_write hpriority (by decide))
      (fun _ => writesOwn_write hcorrelation (by decide)) (fun name _ hname _ => hdelete id name hname)
      caps correlation event high
    exact Agree.bind (Engine.agree_succeeds? htry) fun _ _ => Agree.pure trivial
  | persistUser id user =>
    exact Engine.agree_attempt h
      (writesOwn_write (isEntryName_sessionFile SessionFile.user (by decide)) (by decide))
  | finalize caps current time =>
    exact Agree.bind (coherent_finalize hfaults hk caps current time) fun _ _ => Agree.pure trivial
  | finalizeNative caps id payload info =>
    exact coherent_finalizeNative hfaults hk caps id payload info
  | openIds => exact Action.agree_run h .openIds (Store.Call.writesOwn_of_isRead trivial rfl)
  | hasFinalized =>
    exact Action.agree_run h .hasFinalized (Store.Call.writesOwn_of_isRead trivial rfl)
  | loadFinalized =>
    exact Action.agree_run h .loadFinalized ⟨Store.Call.writesOwn_of_isRead trivial rfl,
      fun _ _ => Store.Call.writesOwn_of_isRead trivial rfl⟩
  | startTime id => exact Action.agree_run h (.startTime id) (allowsFiles_writesOwn id)
  | deleteReport id =>
    exact Engine.agree_attempt h ⟨trivial, by simp [Store.Call.change?, Change.IsOwn]⟩
  | deleteAll => exact Engine.agree_attempt h ⟨trivial, by simp [Store.Call.change?, Change.IsOwn]⟩

/-- Every report that is loaded is that of the session it is listed for. -/
theorem coherent_loadFinalized :
    Coherent place (fun reports => ∀ e ∈ reports, e.2.id = e.1)
      (Engine.loadFinalized ⟨place.store.faulty faults, k⟩) := by
  have hload : ∀ id, Coherent place (fun r => ∀ e, r = some e → e.2.id = e.1)
      (Engine.loadReport ⟨place.store.faulty faults, k⟩ id) := by
    intro id
    refine Agree.bind (coherent_readFinalized hfaults hk id) fun r hr => Agree.pure ?_
    rintro e he
    obtain ⟨report, hreport, rfl⟩ := Option.map_eq_some_iff.1 he
    exact hr report (Option.filter_eq_some_iff.1 hreport).1
  refine Agree.bind (Engine.agree_finalizedIds (agrees_coherent hfaults)
    (Store.Call.writesOwn_of_isRead trivial rfl)) fun ids _ => ?_
  refine Agree.bind (Agree.mapM ids fun e _ => hload e.1) fun reports hreports => Agree.pure ?_
  intro e he
  obtain ⟨r, hr, rfl⟩ := List.mem_filterMap.1 (List.mem_mergeSort.1 he)
  exact hreports _ hr e rfl

end Operations

/-! ## Runs -/

/-- What may be stored after a run of operations on an empty store.  At each operation any calls may
fail, and the record format may. -/
inductive Reachable (place : Location) : Node → Prop
  | empty {top : Node} : Vault.empty.IsHeldIn place top → Reachable place top
  | step {top : Node} {faults : Faults Node} {k : Codec} (a : Action) : Reachable place top →
      faults.AreSafe place → k.FollowsJson →
      Reachable place (a.run ⟨place.store.faulty faults, k⟩ (top, 0)).2.1

/-- A run keeps the store coherent. -/
theorem Reachable.isCoherentIn {top : Node} (h : Reachable place top) (n : Nat) :
    IsCoherentIn place (top, n) := by
  induction h with
  | empty hempty => exact ⟨Vault.empty, hempty, Vault.isCoherent_empty⟩
  | step a _ hfaults hk ih =>
    exact (coherent_run hfaults hk a).keeps ih

/-- The identifiers in the records are those in the names: an open session whose header can be
decoded has its own header, every finalized session has its own report, and every report that is
loaded is that of its session.  Any calls may have failed before, and any may fail now. -/
theorem ids_coherent {top : Node} (h : Reachable place top) :
    (∃ v : Vault, v.IsHeldIn place top ∧
      (∀ id header, (v.files id).header? = some header → header.id = id) ∧
      ∀ tier id contents, (v.reports tier).lookup id = some contents →
        ∃ report, Report.decode? contents = some report ∧ report.id = id) ∧
    ∀ (faults : Faults Node) (k : Codec), faults.AreSafe place → k.FollowsJson →
      ∀ e ∈ (Engine.loadFinalized ⟨place.store.faulty faults, k⟩ (top, 0)).1, e.2.id = e.1 := by
  have hcoherent := h.isCoherentIn 0
  constructor
  · obtain ⟨v, hheld, hv⟩ := hcoherent
    refine ⟨v, hheld, fun id header hheader => ?_, fun tier id contents hcontents => ?_⟩
    · obtain ⟨contents, hcontents, hdecode⟩ := Option.bind_eq_some_iff.1 hheader
      exact (hv.header id contents (Files.contents?_eq_some.1 hcontents)).id_eq hdecode
    · obtain ⟨report, hid, rfl⟩ := hv.report tier id contents hcontents
      exact ⟨report, report.decode?_encode, hid⟩
  · intro faults k hfaults hk
    exact (coherent_loadFinalized hfaults hk (top, 0) (top, 0) ⟨rfl, hcoherent⟩).2.1

namespace OneEvent

/-- The second call fails. -/
def second : Faults Node :=
  .early fun n _ _ => if n = 1 then some (.storage .renameTemporary "start-time" .denied) else none

/-- When a session starts its header is written by the first call, and its start time by the second
one. -/
theorem isHeldIn_started {tree : Node} (hempty : Vault.empty.IsHeldIn pass.place tree) :
    (Vault.empty.setFile session SessionFile.header header.encode).IsHeldIn pass.place
      (Action.run ⟨pass.place.store.faulty second, .json⟩ (.persistReport header)
        (tree, 0)).2.1 := by
  obtain ⟨hanswer, hheld⟩ := hempty.perform (.write session SessionFile.header header.encode)
    ⟨isStorable.isShort, isEntryName_sessionFile SessionFile.header (by decide)⟩
  have hfree : Vault.empty.item? session SessionFile.header ≠ some .directory := by
    simp [Vault.item?, Vault.files, Vault.empty]
  rw [Vault.empty.perform_write pass.place isStorable hfree header.encode] at hanswer hheld
  let e : Engine (StateM (Node × Nat)) := ⟨pass.place.store.faulty second, .json⟩
  have hfirst : (e.store.perform (.write header.id SessionFile.header header.encode)).run
      (tree, 0) = (.ok (), ((pass.place.store.perform
        (.write session SessionFile.header header.encode)).run tree).2, 1) := Prod.ext hanswer rfl
  rw [Action.run, Engine.persistReport, Medium.run_ignored, Engine.tryPersistReport,
    run_bind_ok (x := e.codec.encodeReport header) rfl, run_bind_of_ok hfirst]
  exact hheld

end OneEvent

/-- A session whose start time could not be written has its header. -/
theorem ids_coherent_one_header :
    ∃ (top : Node) (v : Vault), Reachable OneEvent.pass.place top ∧
      v.IsHeldIn OneEvent.pass.place top ∧
      (v.files OneEvent.session).header? = some OneEvent.header ∧
      OneEvent.header.id = OneEvent.session := by
  obtain ⟨tree, hempty⟩ : ∃ tree, Vault.empty.IsHeldIn OneEvent.pass.place tree :=
    ⟨_, Vault.IsHeldIn.empty_named OneEvent.isEntryName_data⟩
  have hheld := OneEvent.isHeldIn_started hempty
  have hreach := Reachable.step (.persistReport OneEvent.header) (.empty hempty)
    (Faults.areSafe_early _ _ : OneEvent.second.AreSafe _) Codec.followsJson_json
  obtain ⟨⟨v, hv, hheaders, -⟩, -⟩ := ids_coherent hreach
  obtain rfl := hv.unique hheld
  have hheader : (Vault.files (Vault.empty.setFile OneEvent.session SessionFile.header
      OneEvent.header.encode) OneEvent.session).header? = some OneEvent.header := by
    rw [Vault.files_setFile_self, Files.header?,
      Files.contents?_eq_some.2 (lookup_setEntry_self _ _ _)]
    exact OneEvent.header.decode?_encode
  exact ⟨_, _, hreach, hheld, hheader, hheaders _ _ hheader⟩

end ReportVault
