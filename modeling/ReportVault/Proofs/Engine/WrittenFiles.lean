import ReportVault.Proofs.Engine.Confined
import ReportVault.Proofs.Store.WrittenFiles

/-!
# ReportVault.Proofs.Engine.WrittenFiles

The files that operations write in the directories of sessions.

In any tree and whichever calls fail, a file with the name of an event file is written only where an
event is stored, and then it has the name that is made for the event (`givesSlot_of_written`).  The
names of all other files are refused.  `event_names_exact` puts this beside the grammar of the
names.
-/

namespace ReportVault

open FileSystem

variable {σ : Type} {files : FileSystem (StateM σ)} {root : Path} {k : Codec}
  {G : SessionId → String → Prop}

namespace Engine.Action

/-- The paths of the files that an operation asks for, temporary ones included. -/
def written (a : Action) (files : FileSystem (StateM σ)) (root : Path) (k : Codec) (s : σ) :
    List Path :=
  (a.run ⟨Store.inDirectory files.recording root, k⟩ (s, [])).2.2

/-- The operation stores an event in the session, and the slot is one that is made for it. -/
def GivesSlot (a : Action) (id : SessionId) (slot : Slot) : Prop :=
  (∃ caps correlation event, a = .persistEvent caps correlation event id slot.high) ∧
    slot = Slot.new slot.sequence slot.high

end Engine.Action

/-! ## Calls -/

/-- The call lists nothing, and if it writes a file of a session then one with a name like these. -/
def Store.Call.WritesOnly (G : SessionId → String → Prop) (call : Store.Call α) : Prop :=
  (∀ id name contents, call.change? = some (.write id name contents) → IsPart name ∧ G id name) ∧
    ∀ answer, call.IsProperAnswer answer

theorem Store.Call.writesOnly_of_change? {call : Store.Call α}
    (hanswer : ∀ answer, call.IsProperAnswer answer)
    (h : ∀ id name contents, call.change? ≠ some (.write id name contents)) : call.WritesOnly G :=
  ⟨fun id name contents hwrite => absurd hwrite (h id name contents), hanswer⟩

theorem Store.Call.writesOnly_write {id : SessionId} {name : String} (contents : Bytes)
    (hpart : IsPart name) (hG : G id name) : (Store.Call.write id name contents).WritesOnly G := by
  refine ⟨fun other file written hwrite => ?_, fun _ => trivial⟩
  cases hwrite
  exact ⟨hpart, hG⟩

theorem Store.Call.writesOnly_delete (id : SessionId) (name : String) :
    (Store.Call.delete id name).WritesOnly G :=
  Store.Call.writesOnly_of_change? (fun _ => trivial) (by simp [Store.Call.change?])

theorem Store.Call.writesOnly_writeReport (id : SessionId) (tier : Tier) (contents : Bytes) :
    (Store.Call.writeReport id tier contents).WritesOnly G :=
  Store.Call.writesOnly_of_change? (fun _ => trivial) (by simp [Store.Call.change?])

theorem agrees_noted (hfiles : files.HidesTemporary) (root : Path)
    (G : SessionId → String → Prop) :
    Store.Agrees (Store.AreNotedIn root G) (Store.Call.WritesOnly G)
      (Store.inDirectory files.recording root) (Store.inDirectory files.recording root) :=
  fun _ hcall => (Store.agree_written hfiles hcall.1).mono fun answer _ => hcall.2 answer

/-- A call that lists writes nothing. -/
theorem agreeExcept_noted (hfiles : files.HidesTemporary) {call : Store.Call α}
    (h : call.isRead = true) :
    AgreeExcept (Store.AreNotedIn root G) Whatever
      ((Store.inDirectory files.recording root).perform call)
      ((Store.inDirectory files.recording root).perform call) :=
  Store.agree_written hfiles fun id name contents hwrite => by
    rw [Store.Call.change?_of_isRead h] at hwrite
    cases hwrite

/-! ## Operations -/

section Operations

variable (hrecord : ∀ id, ∀ name ∈ SessionFile.all, G id name)

include hrecord

/-- No call about a session writes other files, but for those that store events. -/
theorem allowsOwn_writesOnly (id : SessionId) :
    Engine.AllowsOwn (Store.Call.WritesOnly G) id where
  read _ := Store.Call.writesOnly_of_change? (fun _ => trivial) (by simp [Store.Call.change?])
  records name hname contents :=
    Store.Call.writesOnly_write contents (SessionFile.isPart hname) (hrecord id name hname)
  delete sequence high := Store.Call.writesOnly_delete id (Slot.name sequence high)
  deleteSession := Store.Call.writesOnly_of_change? (fun _ => trivial) (by simp [Store.Call.change?])
  readReport := Store.Call.writesOnly_of_change? (fun _ => trivial) (by simp [Store.Call.change?])
  deleteReport := Store.Call.writesOnly_of_change? (fun _ => trivial) (by simp [Store.Call.change?])

/-- An operation writes the files of fixed names, and the file of the event that it stores. -/
theorem agree_run_noted (hfiles : files.HidesTemporary) (k : Codec) (a : Engine.Action)
    (hevent : ∀ caps correlation event id high sequence,
      a = .persistEvent caps correlation event id high → G id (Slot.name sequence high)) :
    Agree (Store.AreNotedIn root G) Whatever
      (a.run ⟨Store.inDirectory files.recording root, k⟩)
      (a.run ⟨Store.inDirectory files.recording root, k⟩) := by
  have h : Store.Agrees (Store.AreNotedIn root G) (Store.Call.WritesOnly G)
      (Store.inDirectory files.recording root) (Store.inDirectory files.recording root) :=
    agrees_noted hfiles root G
  have hP := allowsOwn_writesOnly hrecord
  have hlist : AgreeExcept (Store.AreNotedIn root G) (fun entries => ∀ e ∈ entries, Whatever e.1)
      ((Store.inDirectory files.recording root).perform .reportIds)
      ((Store.inDirectory files.recording root).perform .reportIds) :=
    (agreeExcept_noted hfiles rfl).mono fun _ _ _ _ => trivial
  have hopen : AgreeExcept (Store.AreNotedIn root G) (fun ids => ∀ id ∈ ids, Whatever id)
      ((Store.inDirectory files.recording root).perform .openIds)
      ((Store.inDirectory files.recording root).perform .openIds) :=
    (agreeExcept_noted hfiles rfl).mono fun _ _ _ _ => trivial
  have hslots : ∀ {Q : String → Prop} (id), (∀ name, Q name) →
      AgreeExcept (Store.AreNotedIn root G) (fun found => ∀ slot ∈ found, Q slot.fileName)
        ((Store.inDirectory files.recording root).perform (.slots id))
        ((Store.inDirectory files.recording root).perform (.slots id)) := fun id hQ =>
    (agreeExcept_noted hfiles rfl).mono fun _ _ slot _ => hQ slot.fileName
  -- An operation about one session asks for its files only; the others go by what is listed.
  cases hsession : a.session? with
  | some id =>
    exact Engine.Action.agree_run_of_session? h (hP id) hsession
      (fun caps correlation event high ha sequence contents => Store.Call.writesOnly_write contents
        (Slot.isEntryName_name sequence high).1.isPart (hevent _ _ _ _ _ sequence ha))
      (fun _ => Store.Call.writesOnly_writeReport id .native)
      (hslots id (Store.Call.writesOnly_delete id))
  | none =>
    cases a <;> simp only [Engine.Action.session?, reduceCtorEq] at hsession
    case finalize caps current time =>
      have hassemble := fun id => Engine.agree_assembleOrDelete_of_assemble (Q := Whatever) h
        ((Engine.agree_assemble_of_slots (k := k) h (hslots id (hP id).read)
          (fun name _ => (hP id).read name) ((hP id).agree_readHeader h) (hP id).readReport time
          caps.events).mono fun _ _ _ _ => trivial) (hP id).deleteSession
      have hsettle := Engine.agree_settle_of_lists h hopen (hlist.mono fun _ _ => trivial)
        (fun id _ => (hP id).deleteSession) caps current time (fun id _ => hassemble id)
        fun verdict a _ => Engine.agree_place h verdict
          (fun contents _ => Store.Call.writesOnly_writeReport a.id a.tier contents)
          (hP a.id).deleteSession
      exact Agree.bind (Engine.agree_finalize_of_lists h hsettle hlist
        fun id _ => (hP id).deleteReport) fun _ _ => Agree.pure trivial
    case openIds =>
      exact Agree.bind (Engine.agree_openIds_of_list hopen) fun _ _ => Agree.pure trivial
    case hasFinalized =>
      exact Agree.bind (Engine.agree_hasFinalized_of_list (hlist.mono fun _ _ => trivial))
        fun _ _ => Agree.pure trivial
    case loadFinalized =>
      exact Agree.bind (Engine.agree_loadFinalized_of_list h hlist fun id _ => (hP id).readReport)
        fun _ _ => Agree.pure trivial
    case deleteAll =>
      exact Engine.agree_attempt h
        (Store.Call.writesOnly_of_change? (fun _ => trivial) (by simp [Store.Call.change?]))

end Operations

/-- A file of a session that is read as an event file is written only if it is that of the event
that is stored. -/
theorem givesSlot_of_written (hfiles : files.HidesTemporary) {a : Engine.Action} {s : σ}
    {path : Path} (hpath : path ∈ a.written files root k s) {id : SessionId} {name : String}
    {slot : Slot} (hof : Store.IsFileOf root id name path)
    (hread : Slot.ofFileName? name = some slot) : a.GivesSlot id slot := by
  let G : SessionId → String → Prop := fun id name =>
    ∀ slot, Slot.ofFileName? name = some slot → a.GivesSlot id slot
  have hrun : Agree (Store.AreNotedIn root G) Whatever
      (a.run ⟨Store.inDirectory files.recording root, k⟩)
      (a.run ⟨Store.inDirectory files.recording root, k⟩) := by
    refine agree_run_noted (fun id name hname slot hslot => ?_) hfiles k a
      fun caps correlation event id high sequence ha slot hslot => ?_
    · rw [SessionFile.ofFileName?_eq_none name hname] at hslot
      cases hslot
    · rw [Slot.ofFileName?_name] at hslot
      cases hslot
      exact ⟨⟨caps, correlation, event, ha⟩, rfl⟩
  obtain ⟨-, -, -, hnoted⟩ := hrun (s, []) (s, []) ⟨rfl, fun _ hno => absurd hno (by simp)⟩
  exact hnoted path hpath id name (Slot.isPart_of_ofFileName? hread)
    (Slot.visible_of_ofFileName? hread) hof slot hread

/-- The names of event files are exact.  What is made for a number and a mark reads back, and is
different for each.  A name is read if and only if it is the stem, one ASCII digit or more with a
value below 2^64, and the mark or nothing; the slot then has that value, the mark, and the name as
it is.  And whatever an operation writes in the directory of a session, in any tree and whichever
calls fail, it is not read as an event file unless it was made for the event that is stored. -/
theorem event_names_exact :
    (∀ sequence high,
      Slot.ofFileName? (Slot.new sequence high).fileName = some (Slot.new sequence high)) ∧
    (Function.Injective fun event : UInt64 × Bool => (Slot.new event.1 event.2).fileName) ∧
    (∀ fileName, (Slot.ofFileName? fileName).isSome = true ↔
      ∃ digits high, Slot.Spells fileName digits high ∧ Text.decimalValue digits < 2 ^ 64) ∧
    (∀ fileName digits high slot, Slot.Spells fileName digits high →
      Slot.ofFileName? fileName = some slot →
        slot.sequence.toNat = Text.decimalValue digits ∧ slot.high = high ∧
          slot.fileName = fileName) ∧
    ∀ (fails : {α : Type} → FileSystem.Call α → Node → Option Cause) (root : Path) (k : Codec)
      (a : Engine.Action) (top : Node), ∀ path ∈ a.written (inMemory.failing fails) root k top,
      ∀ id name slot, Store.IsFileOf root id name path → Slot.ofFileName? name = some slot →
        a.GivesSlot id slot :=
  ⟨Slot.ofFileName?_name, Slot.name_injective, Slot.isSome_ofFileName?_iff,
    fun _ _ _ _ hspells hread => hspells.eq_of_ofFileName? hread,
    fun fails _ _ _ _ _ hpath _ _ _ hof hread =>
      givesSlot_of_written (hidesTemporary_inMemory.failing fails) hpath hof hread⟩

/-- A short name with zeros in front is read, though none like it is made.  The first event of a
session, of high priority, gets the name that is made for the number 1 and the mark. -/
theorem event_names_exact_one_event :
    let root : Path := .ofNames ["data"]
    let path : Path := .ofNames ["data", "open-sessions", "s", "event0000000001_"]
    let store : Engine.Action := .persistEvent {} none (.log 0 "m") ⟨"s"⟩ true
    Slot.Spells "event007_" ['0', '0', '7'] true ∧
      Slot.ofFileName? "event007_" = some ⟨7, true, "event007_"⟩ ∧
      Text.decimalValue ['0', '0', '7'] = 7 ∧
      path ∈ store.written (inMemory.failing fun _ _ => none) root Codec.json (.directory []) ∧
      Store.IsFileOf root ⟨"s"⟩ "event0000000001_" path ∧
      store.GivesSlot ⟨"s"⟩ (Slot.new 1 true) := by
  intro root path store
  obtain ⟨hread, -, -, hvalue, hwritten⟩ := event_names_exact
  have hspells : Slot.Spells "event007_" ['0', '0', '7'] true := ⟨by decide, by decide, by simp⟩
  have hslot : Slot.ofFileName? "event007_" = some ⟨7, true, "event007_"⟩ := by decide +kernel
  have hpath : path ∈ store.written (inMemory.failing fun _ _ => none) root Codec.json
      (.directory []) := by decide +kernel
  have hof : Store.IsFileOf root ⟨"s"⟩ "event0000000001_" path :=
    Store.isFileOf_iff.2 ⟨by decide, by decide⟩
  exact ⟨hspells, hslot, (hvalue _ _ _ _ hspells hslot).1.symm, hpath, hof,
    hwritten _ root Codec.json store _ path hpath _ _ _ hof (hread 1 true)⟩

end ReportVault
