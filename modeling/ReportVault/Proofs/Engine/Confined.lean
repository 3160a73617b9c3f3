import ReportVault.Proofs.Engine.Interleaving
import ReportVault.Proofs.Store.Places

/-!
# ReportVault.Proofs.Engine.Confined

No identifier leads an operation out of the place of its session.

Operations about a session are run in any tree, which may have names that no store gives to its
files, and whichever calls fail.  `Action.agree_run_of_session?` is about such runs: what is asked
for are files of fixed names and event files that are listed.  `Action.asked` is all that is asked of
the file system: it is of the session, but for the temporary file by which a native report is
written (`run_confined`).  `session_confined` puts this beside what the tree is like afterwards.
-/

namespace ReportVault

open FileSystem

/-! ## Names -/

theorem SessionFile.isPart {name : String} (h : name ∈ SessionFile.all) : IsPart name :=
  (isEntryName_sessionFile name h).1.isPart

/-! ## Operations about one session -/

namespace Engine

/-- Whether the operation attaches a native crash, by which alone a report is written. -/
def Action.isNativeCrash : Action → Bool
  | .finalizeNative .. => true
  | _ => false

variable {σ τ : Type} {S : σ → τ → Prop} {P : {α : Type} → Store.Call α → Prop} {k : Codec}
  {s : Store (StateM σ)} {t : Store (StateM τ)} {id : SessionId} {a : Action}

/-- The calls about a session are allowed, for files of any names, other than the one that lists its
event files and those that write them or a report. -/
structure AllowsOwn (P : {α : Type} → Store.Call α → Prop) (id : SessionId) : Prop where
  read : ∀ name, P (.read id name)
  records : AllowsRecords P id
  delete : ∀ sequence high, P (.delete id (Slot.name sequence high))
  deleteSession : P (.deleteSession id)
  readReport : P (.readReport id)
  deleteReport : P (.deleteReport id)

section Session

variable (h : Store.Agrees S P s t) (hP : AllowsOwn P id)

include h hP

theorem AllowsOwn.agree_readHeader :
    AgreeExcept S Whatever (readHeader ⟨s, k⟩ id) (readHeader ⟨t, k⟩ id) :=
  (agree_readHeader_of_read (C := Whatever)
    ((h _ (hP.read _)).mono fun _ _ _ _ => trivial)).mono fun _ _ => trivial

/-- An operation about a session does the same over two stores that agree on what is listed of it
and on all other calls about it, those by which it stores an event or a native report included. -/
theorem Action.agree_run_of_session? (ha : a.session? = some id)
    (hevent : ∀ caps correlation event high, a = .persistEvent caps correlation event id high →
      ∀ sequence contents, P (.write id (Slot.name sequence high) contents))
    (hreport : a.isNativeCrash = true → ∀ contents, P (.writeReport id .native contents))
    (hslots : AgreeExcept S (fun found => ∀ slot ∈ found, P (.delete id slot.fileName))
      (s.perform (.slots id)) (t.perform (.slots id))) :
    Agree S Whatever (a.run ⟨s, k⟩) (a.run ⟨t, k⟩) := by
  have hheader := hP.agree_readHeader (k := k) h
  cases a <;> simp only [Action.session?, Option.some.injEq, reduceCtorEq] at ha <;> subst ha
  case persistReport report =>
    exact agree_persistReport_of_writes h (hP.records _ (by decide)) (hP.records _ (by decide))
  case persistEvent caps correlation event id high =>
    exact Agree.bind (agree_succeeds? (agree_tryPersistEvent_of_slots h hslots
      (hevent _ _ _ _ rfl) (hP.records _ (by decide)) (hP.records _ (by decide))
      (fun sequence => hP.delete sequence high) caps correlation event))
      fun _ _ => Agree.pure trivial
  case persistUser id user => exact agree_attempt h (hP.records _ (by decide) _)
  case finalizeNative caps id payload info =>
    have hrecorded := (agree_readFinalized (k := k) h hP.readReport).mono
      (R := fun r => ∀ report, r = some report → Whatever report) fun _ _ _ _ => trivial
    exact agree_finalizeNative_of_user (B := Whatever) h (hP.read _)
      ((agree_nativeBase_of_slots h (hslots.mono fun _ _ slot _ => hP.read slot.fileName)
        (hP.read _) hheader hrecorded).mono fun _ _ => trivial) hP.deleteSession caps payload info
      fun _ _ contents _ _ => hreport rfl contents
  case startTime id =>
    exact Agree.bind (agree_startTime_of_reads h (hP.read _) hheader) fun _ _ => Agree.pure trivial
  case deleteReport id => exact agree_attempt h hP.deleteReport

end Session

end Engine

/-! ## What is asked for -/

/-- All that an operation asks the file system to do, in order. -/
def Engine.Action.asked (a : Engine.Action) (files : FileSystem (StateM σ)) (root : Path)
    (k : Codec) (s : σ) : List Effect :=
  (a.run ⟨Store.inDirectory files.tracing root, k⟩ (s, [])).2.2

section Asked

variable {σ τ : Type} {S : σ → τ → Prop} {files : FileSystem (StateM σ)}
  {others : FileSystem (StateM τ)} {F : Effect → Prop} {root : Path} {id : SessionId}
  {a : Engine.Action}

theorem Engine.allowsOwn_permitted (hF : ∀ effect, Store.IsOfSession root id effect → F effect)
    (hdraw : Store.isPlainName id.name = true →
      Store.MayDrawIn S files F ((root.child Store.openSessions).child id.name)) :
    AllowsOwn (fun call => call.IsPermitted S files F root ∧
      ∀ answer, call.IsProperAnswer answer) id where
  read _ := ⟨.of_session? hF rfl trivial fun _ hno => hno.elim, fun _ => trivial⟩
  records _ hname _ := ⟨.of_session? hF rfl (SessionFile.isPart hname)
    fun _ hdirectory => hdirectory.2 ▸ hdraw hdirectory.1, fun _ => trivial⟩
  delete sequence high := ⟨.of_session? hF rfl
    (Slot.isEntryName_name sequence high).1.isPart fun _ hno => hno.elim, fun _ => trivial⟩
  deleteSession := ⟨.of_session? hF rfl trivial fun _ hno => hno.elim, fun _ => trivial⟩
  readReport := ⟨.of_session? hF rfl trivial fun _ hno => hno.elim, fun _ => trivial⟩
  deleteReport := ⟨.of_session? hF rfl trivial fun _ hno => hno.elim, fun _ => trivial⟩

/-- An operation about a session asks for what is of the session, and draws names of temporary files
in its directory; a native crash draws a name among the native reports, too. -/
theorem agree_run_of_session (h : files.Agrees S F others) (hfiles : files.HidesTemporary)
    (hF : ∀ effect, Store.IsOfSession root id effect → F effect) (ha : a.session? = some id)
    (hnative : a.isNativeCrash = true → Store.isPlainName id.name = true →
      Store.MayDrawIn S files F (root.child Tier.native.directory)) (k : Codec) :
    Agree S Whatever (a.run ⟨Store.inDirectory files root, k⟩)
      (a.run ⟨Store.inDirectory others root, k⟩) := by
  have hdraw : Store.isPlainName id.name = true →
      Store.MayDrawIn S files F ((root.child Store.openSessions).child id.name) :=
    fun hid => Store.mayDrawIn_session hfiles hid hF
  have hagrees : Store.Agrees S
      (fun call => call.IsPermitted S files F root ∧ ∀ answer, call.IsProperAnswer answer)
      (Store.inDirectory files root) (Store.inDirectory others root) :=
    fun _ hcall => (Store.agree_perform h hcall.1).mono fun answer _ => hcall.2 answer
  exact Engine.Action.agree_run_of_session? hagrees (Engine.allowsOwn_permitted hF hdraw) ha
    (fun _ _ _ high _ sequence _ => ⟨.of_session? hF rfl
      (Slot.isEntryName_name sequence high).1.isPart
      fun _ hdirectory => hdirectory.2 ▸ hdraw hdirectory.1, fun _ => trivial⟩)
    (fun hcrash _ => ⟨.of_session? hF rfl trivial
      fun _ hdirectory => hdirectory.2 ▸ hnative hcrash hdirectory.1, fun _ => trivial⟩)
    ((Store.agree_slots h id).mono fun found hfound slot hslot =>
      ⟨.of_session? hF rfl (Slot.isPart_of_ofFileName? (hfound slot hslot))
        fun _ hno => hno.elim, fun _ => trivial⟩)

/-- Noting what is asked for makes no difference to where an operation leads. -/
theorem run_tracing (hfiles : files.HidesTemporary) (ha : a.session? = some id) (k : Codec)
    (s : σ) :
    (a.run ⟨Store.inDirectory files.tracing root, k⟩ (s, [])).2 =
      ((a.run ⟨Store.inDirectory files root, k⟩ s).2, a.asked files root k s) := by
  have hsame : Agree (fun s t => s.1 = t) Whatever (a.run ⟨Store.inDirectory files.tracing root, k⟩)
      (a.run ⟨Store.inDirectory files root, k⟩) :=
    agree_run_of_session files.agrees_tracing hfiles.tracing (fun _ _ => trivial) ha
      (fun _ _ _ _ _ _ _ => ⟨trivial, trivial⟩) k
  exact Prod.ext (hsame (s, []) s rfl).2.2 rfl

/-- What is kept by all that an operation may ask for is kept by the operation, and nothing else is
asked for. -/
theorem keeps_run {I : σ → Prop} (h : files.Keeps I F) (hfiles : files.HidesTemporary)
    (hF : ∀ effect, Store.IsOfSession root id effect → F effect) (ha : a.session? = some id)
    (hnative : a.isNativeCrash = true → Store.isPlainName id.name = true →
      Store.MayDrawIn (fun y z => y = z ∧ I y) files F (root.child Tier.native.directory))
    (k : Codec) {s : σ} (hs : I s) :
    I (a.run ⟨Store.inDirectory files root, k⟩ s).2 ∧
      ∀ effect ∈ a.asked files root k s, F effect := by
  have hrun := agree_run_of_session (FileSystem.Keeps.agrees (FileSystem.Keeps.tracing h))
    hfiles.tracing hF ha
    (fun hcrash hid s _ name hs hname => hnative hcrash hid s.1 s.1 name ⟨rfl, hs.2.1⟩ hname) k
  have hkept := hrun.keeps (s := (s, [])) ⟨hs, by simp⟩
  rw [run_tracing hfiles ha] at hkept
  exact hkept

end Asked

/-! ## Any tree -/

section Anywhere

variable {root : Path} {top : Node} {id : SessionId} {a : Engine.Action}

theorem Engine.allowsOwn_staysIn (id : SessionId) :
    AllowsOwn (fun call => call.session? = some id ∧ call.NamesParts ∧
      ∀ answer, call.IsProperAnswer answer) id where
  read _ := ⟨rfl, trivial, fun _ => trivial⟩
  records _ hname _ := ⟨rfl, SessionFile.isPart hname, fun _ => trivial⟩
  delete sequence high := ⟨rfl, (Slot.isEntryName_name sequence high).1.isPart, fun _ => trivial⟩
  deleteSession := ⟨rfl, trivial, fun _ => trivial⟩
  readReport := ⟨rfl, trivial, fun _ => trivial⟩
  deleteReport := ⟨rfl, trivial, fun _ => trivial⟩

/-- Where no call fails an operation about a session leaves no temporary file. -/
theorem staysIn_run (root : Path) (k : Codec) (ha : a.session? = some id) (top : Node) :
    Node.StaysIn (Store.regionOf root id) top
      (a.run ⟨Store.inDirectory inMemory root, k⟩ top).2 := by
  have hkeeps : (Store.inDirectory inMemory root).Keeps
      (Node.StaysIn (Store.regionOf root id) top)
      (fun call => call.session? = some id ∧ call.NamesParts ∧
        ∀ answer, call.IsProperAnswer answer) :=
    fun _ ⟨hcall, hnames, hanswer⟩ made hmade =>
      ⟨hmade.trans (Store.staysIn_perform root made hcall hnames), fun answer _ => hanswer answer⟩
  exact (Engine.Action.agree_run_of_session? (Store.Keeps.agrees hkeeps)
    (Engine.allowsOwn_staysIn id) ha
    (fun _ _ _ high _ sequence _ =>
      ⟨rfl, (Slot.isEntryName_name sequence high).1.isPart, fun _ => trivial⟩)
    (fun _ _ => ⟨rfl, trivial, fun _ => trivial⟩)
    ((Store.agree_slots (FileSystem.Keeps.agrees (Store.keeps_region root id top)) id).mono
      fun found hfound slot hslot =>
        ⟨rfl, Slot.isPart_of_ofFileName? (hfound slot hslot), fun _ => trivial⟩)).keeps (.refl _ top)

/-- What an identifier is refused for. -/
theorem isPlainName_eq_false_iff {name : String} :
    Store.isPlainName name = false ↔
      name = "" ∨ name.toList.head? = some '.' ∨ '/' ∈ name.toList ∨ '\\' ∈ name.toList ∨
        '\x00' ∈ name.toList := by
  simp [Store.isPlainName, imp_iff_not_or, or_assoc, and_or_left, exists_or]

section Failing

variable (fails : {α : Type} → FileSystem.Call α → Node → Option Cause)

/-- An operation about a session whose identifier is refused asks for nothing, and does nothing. -/
theorem run_of_not_plain (root : Path) (k : Codec) (ha : a.session? = some id)
    (hid : Store.isPlainName id.name = false) (top : Node) :
    a.asked (inMemory.failing fails) root k top = [] ∧
      (a.run ⟨Store.inDirectory (inMemory.failing fails) root, k⟩ top).2 = top := by
  have hrefused : ¬ Store.isPlainName id.name = true := by simp [hid]
  obtain ⟨htop, hnone⟩ := keeps_run (FileSystem.Keeps.failing (keeps_eq top) fails)
    (hidesTemporary_inMemory.failing fails) (fun _ hof => absurd hof.isPlain hrefused) ha
    (fun _ hplain => absurd hplain hrefused) k rfl
  exact ⟨List.eq_nil_iff_forall_not_mem.2 hnone, htop⟩

/-- What an operation about a session asks for is of the session, but for temporary files of native
crashes, and so is what changes. -/
theorem run_confined (root : Path) (k : Codec) (ha : a.session? = some id) (top : Node) :
    Node.StaysIn (Store.regionWhile root id top a.isNativeCrash) top
        (a.run ⟨Store.inDirectory (inMemory.failing fails) root, k⟩ top).2 ∧
      ∀ effect ∈ a.asked (inMemory.failing fails) root k top,
        Store.IsOfSession root id effect ∨
          a.isNativeCrash = true ∧ Store.IsOfTemporary root top effect := by
  refine keeps_run (FileSystem.Keeps.failing (FileSystem.keeps_staysIn
    (fun _ hF => Store.region_isPartOf_regionWhile hF) top) fails)
    (hidesTemporary_inMemory.failing fails) (fun _ => Or.inl) ha ?_ k (.refl _ top)
  rintro hcrash hid made _ name ⟨rfl, hmade⟩ hname
  have htemporary := Store.isTemporary_of_spareName hid hmade (FileSystem.answer_of_failing hname)
  exact ⟨Or.inr ⟨hcrash, htemporary⟩, Or.inr ⟨hcrash, htemporary⟩⟩

end Failing

/-- Identifiers cannot escape.  Whichever calls fail, an operation about a session asks the file
system for nothing but what is of the session, which is one part of a path, and, if it attaches a
native crash, for a temporary file among the native reports, whose name was free; the tree changes
there only.  If no call fails the temporary file is gone in the end.  For an identifier that is
empty, begins with a dot, or has a slash, a backslash or a NUL nothing at all is asked for. -/
theorem session_confined (fails : {α : Type} → FileSystem.Call α → Node → Option Cause)
    (root : Path) (k : Codec) (a : Engine.Action) (id : SessionId) (ha : a.session? = some id)
    (top : Node) :
    let asked := a.asked (inMemory.failing fails) root k top
    let after := (a.run ⟨Store.inDirectory (inMemory.failing fails) root, k⟩ top).2
    (id.name = "" ∨ id.name.toList.head? = some '.' ∨ '/' ∈ id.name.toList ∨
        '\\' ∈ id.name.toList ∨ '\x00' ∈ id.name.toList → asked = [] ∧ after = top) ∧
      (asked ≠ [] → IsPart id.name) ∧
      (∀ effect ∈ asked, Store.IsOfSession root id effect ∨
        a.isNativeCrash = true ∧ Store.IsOfTemporary root top effect) ∧
      Node.StaysIn (Store.regionWhile root id top a.isNativeCrash) top after ∧
      Node.StaysIn (Store.regionOf root id) top
        (a.run ⟨Store.inDirectory inMemory root, k⟩ top).2 := by
  intro asked after
  obtain ⟨hstays, hasked⟩ := run_confined fails root k ha top
  refine ⟨fun hrefused => ?_, fun hsome => ?_, hasked, hstays, staysIn_run root k ha top⟩
  · exact run_of_not_plain fails root k ha (isPlainName_eq_false_iff.2 hrefused) top
  · cases hid : Store.isPlainName id.name with
    | true => exact Store.isPart_of_isPlainName hid
    | false => exact absurd (run_of_not_plain fails root k ha hid top).1 hsome

end Anywhere

/-! A session that is open, in a tree with another file. -/

namespace Beside

def root : Path := .ofNames ["data"]

/-- The session is open, and there is a file outside of the store. -/
def top : Node :=
  ((Engine.Action.persistReport (.header "1.0" ⟨"app", "1", "1.0"⟩ ⟨"a"⟩ 0)).run
    ⟨Store.inDirectory inMemory root, Codec.json⟩
    (.directory [("other", .directory [("user", .file [1])])])).2

/-- A native crash is attached to the session. -/
def crash : Engine.Action := .finalizeNative {} ⟨"a"⟩ { files := [] } none

/-- The temporary file that is written first. -/
def temporary : Path := (root.child Tier.native.directory).child (Node.temporaryName 0)

/-- The temporary file can neither be moved nor removed. -/
def stuck (call : FileSystem.Call α) (_ : Node) : Option Cause :=
  if .drops temporary ∈ call.effects then some .denied else none

theorem names?_root : root.names? = some ["data"] := by decide

theorem at?_other : top.at? ["other", "user"] = some (.file [1]) := by
  rw [top]
  have hstays := staysIn_run root Codec.json
    (rfl : (Engine.Action.persistReport (.header "1.0" ⟨"app", "1", "1.0"⟩ ⟨"a"⟩ 0)).session? = _)
    (.directory [("other", .directory [("user", .file [1])])])
  refine (hstays.at?_eq_file_iff fun hown => ?_).2 rfl
  exact absurd (Store.prefix_of_own names?_root hown) (by decide)

theorem not_isPlaceOf_temporary : ¬ Store.IsPlaceOf root ⟨"a"⟩ temporary :=
  Store.not_isPlaceOf_temporary names?_root .native 0

end Beside

/-- An identifier that would lead to another file asks for nothing.  A native crash leaves its
temporary file if that can neither be moved nor removed; the name was free before, and a file outside
of the store is as it was. -/
theorem session_confined_other :
    let outside : Engine.Action := .persistUser ⟨"../../other"⟩ "u"
    let asked := Beside.crash.asked (inMemory.failing Beside.stuck) Beside.root Codec.json Beside.top
    let after := (Beside.crash.run
      ⟨Store.inDirectory (inMemory.failing Beside.stuck) Beside.root, Codec.json⟩ Beside.top).2
    outside.asked (inMemory.failing Beside.stuck) Beside.root Codec.json Beside.top = [] ∧
      .writes Beside.temporary ∈ asked ∧
      Store.IsTemporary Beside.root Beside.top Beside.temporary ∧
      (after.at? ["data", "native-reports", Node.temporaryName 0]).isSome = true ∧
      after.at? ["other", "user"] = some (.file [1]) := by
  intro outside asked after
  have houtside := (session_confined Beside.stuck Beside.root Codec.json outside ⟨"../../other"⟩ rfl
    Beside.top).1 (Or.inr (Or.inl (by decide)))
  obtain ⟨-, -, hasked, hstays, -⟩ := session_confined Beside.stuck Beside.root Codec.json
    Beside.crash ⟨"a"⟩ rfl Beside.top
  have hwritten : .writes Beside.temporary ∈ asked := by decide +kernel
  refine ⟨houtside.1, hwritten, ?_, by decide +kernel, ?_⟩
  · exact (hasked _ hwritten).elim (fun hplace => absurd hplace Beside.not_isPlaceOf_temporary)
      And.right
  · have hown : ¬ (Store.regionWhile Beside.root ⟨"a"⟩ Beside.top true).own ["other", "user"] :=
      fun hown => absurd (Store.prefix_of_own_regionWhile Beside.names?_root hown) (by decide)
    exact (hstays.at?_eq_file_iff hown).2 Beside.at?_other

/-- What is not of the session is made, too: a native crash writes a temporary file among the native
reports, and for the first file of a session the directory of all open sessions is made. -/
theorem session_writes_outside :
    (.writes Beside.temporary ∈
        Beside.crash.asked inMemory Beside.root Codec.json Beside.top ∧
      ¬ Store.IsPlaceOf Beside.root ⟨"a"⟩ Beside.temporary) ∧
    let after := ((Engine.Action.persistUser ⟨"a"⟩ "u").run
      ⟨Store.inDirectory inMemory Beside.root, Codec.json⟩ (.directory [])).2
    (after.at? ["data", "open-sessions"]).isSome = true ∧
      ¬ (Store.regionOf Beside.root ⟨"a"⟩).own ["data", "open-sessions"] := by
  refine ⟨⟨by decide +kernel, Beside.not_isPlaceOf_temporary⟩, by decide +kernel, ?_⟩
  rintro (⟨session, hsession, hprefix, -⟩ | ⟨tier, htier⟩)
  · cases hsession
    exact absurd hprefix.length_le (by decide)
  · exact absurd (congrArg (Option.map List.length) htier) (by cases tier <;> decide)

end ReportVault
