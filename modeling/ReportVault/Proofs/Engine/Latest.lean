import ReportVault.Proofs.Engine.Demotion

/-!
# ReportVault.Proofs.Engine.Latest

Whom a finalized report is about, over any run of operations.

A session says of itself who and where it is in three files, which different operations write: its
header, its user and its analytics session.  `Engine.sinceOpened` are the operations of a run since
the session was last opened, and of these the latest one that gives a value decides
(`Engine.latest`): each operation keeps it that the files hold the latest values
(`records_step`), and so does a run (`FilesAre.sinceOpened`).  Both ways to finalize a session read
these files, and `metadata_eq_latest` says what they make of them.
-/

namespace ReportVault

open FileSystem Retention
open Engine (Assembled withNativeCrash)

/-! ## Since a session was opened -/

namespace Engine

/-- The operations of a run since the session was last opened, after those of `before`. -/
def sinceOpened (e : Engine (StateM σ)) (id : SessionId) (s : σ) (before : List Action) :
    List Action → List Action
  | [] => before
  | a :: actions =>
    let next := (a.run e s).2
    e.sinceOpened id next (if id ∈ (e.openIds next).1 then before ++ [a] else []) actions

theorem sinceOpened_cons {e : Engine (StateM σ)} {id : SessionId} {s : σ}
    {before actions : List Action} {a : Action} (h : id ∈ (e.openIds (a.run e s).2).1) :
    e.sinceOpened id s before (a :: actions) =
      e.sinceOpened id (a.run e s).2 (before ++ [a]) actions :=
  congrArg (e.sinceOpened id _ · actions) (if_pos h)

/-- The latest of the values that operations give. -/
def latest (value? : Action → Option α) (actions : List Action) : Option α :=
  (actions.filterMap value?).getLast?

theorem latest_concat (value? : Action → Option α) (actions : List Action) (a : Action) :
    latest value? (actions ++ [a]) = (value? a).or (latest value? actions) := by
  rw [latest, latest, List.filterMap_append]
  cases h : value? a <;> simp [h]

namespace Action

/-- The header that an operation gives to the session. -/
def header? (id : SessionId) : Action → Option Report
  | .persistReport report => if report.id = id then some report else none
  | _ => none

/-- The user that an operation gives to the session. -/
def user? (id : SessionId) : Action → Option String
  | .persistUser other user => if other = id then some user else none
  | _ => none

/-- The analytics session that an operation gives to the session, if it knows one. -/
def correlation? (id : SessionId) : Action → Option String
  | .persistEvent _ correlation _ other _ => if other = id then correlation else none
  | _ => none

/-- An operation that stores nothing in the session gives it nothing. -/
theorem gives_nothing {id : SessionId} {a : Action} (h : ¬ a.StoresIn id) :
    a.header? id = none ∧ a.user? id = none ∧ a.correlation? id = none := by
  cases a with
  | persistReport report => exact ⟨if_neg h, rfl, rfl⟩
  | persistEvent caps correlation event other high => exact ⟨rfl, rfl, if_neg h⟩
  | persistUser other user => exact ⟨rfl, if_neg h, rfl⟩
  | _ => exact ⟨rfl, rfl, rfl⟩

end Action

end Engine

variable {place : Location} {id : SessionId} {top : Node}

/-- What holds of the files of a session if it is open, holds of them for the operations since it was
last opened. -/
theorem OpenFilesAre.sinceOpened {F : List Engine.Action → Files → Prop} (hclosed : F [] [])
    {since : List Engine.Action} (h : OpenFilesAre place id (F since) top) :
    FilesAre place id (F (if id ∈ (place.engine.openIds top).1 then since else [])) top := by
  obtain ⟨v, hheld, hfiles⟩ := h.listed
  refine ⟨v, hheld, ?_⟩
  split at hfiles
  · next hopen => rwa [if_pos hopen]
  · next hnone => rwa [if_neg hnone, hfiles]

/-- What is kept by every operation while the session is open holds of its files after a run, for
the operations since the session was last opened. -/
theorem FilesAre.sinceOpened {F : List Engine.Action → Files → Prop} (hclosed : F [] [])
    (hstep : ∀ (since : List Engine.Action) (a : Engine.Action) (top : Node),
      FilesAre place id (F since) top → a.Stores place.engine id top →
        OpenFilesAre place id (F (since ++ [a])) (a.run place.engine top).2)
    {since : List Engine.Action} (h : FilesAre place id (F since) top)
    (actions : List Engine.Action) (hstored : place.engine.Stores id top actions) :
    FilesAre place id (F (place.engine.sinceOpened id top since actions))
      (place.engine.after top actions) := by
  induction actions generalizing top since with
  | nil => exact h
  | cons a actions ih =>
    obtain ⟨hfirst, hrest⟩ := hstored
    exact ih ((hstep since a top h hfirst).sinceOpened hclosed) hrest

/-- A header that is stored is written with its start time, if no directory is in the way. -/
theorem FilesAre.persistReport {F G : Files → Prop} {report : Report}
    (hid : report.id.IsStorable) (h : FilesAre place report.id F top)
    (hfile : ∀ files, F files → ∀ name, files.lookup name ≠ some .directory)
    (hG : ∀ files, F files → G (setEntry SessionFile.startTime
      (.file (Bytes.ofText (Text.ofInt report.session.startTimeMillis.toInt)))
        (setEntry SessionFile.header (.file report.encode) files))) :
    FilesAre place report.id G (place.engine.persistReport report top).2 := by
  obtain ⟨v, hheld, hfiles⟩ := h
  obtain ⟨-, -, hafter⟩ := Engine.agree_persistReport (k := .json) (Store.Agrees.held place)
    (Engine.allowsStoring_isProper hid.isShort).records top v hheld
  rw [Engine.persistReport, Medium.run_ignored,
    run_tryPersistReport place hid fun name => hfile _ hfiles name] at hafter
  refine ⟨_, hafter, ?_⟩
  rw [Vault.started, Vault.files_setFile_self, Vault.files_setFile_self]
  exact hG _ hfiles

/-! ## The records of a session -/

/-- The files are the records of a session with this header, this user and this analytics session,
each if it was given, and no directory is among them. -/
structure Files.Record (files : Files) (header : Option Report) (user correlation : Option String) :
    Prop where
  header : files.contents? SessionFile.header = header.map Report.encode
  user : files.contents? SessionFile.user = user.map Bytes.ofText
  correlation : files.contents? SessionFile.correlation = correlation.map Bytes.ofText
  isFile : ∀ name, files.lookup name ≠ some .directory

namespace Files

variable {files : Files} {header : Option Report} {user correlation : Option String}
  {name : String}

theorem contents?_setEntry (files : Files) (name other : String) (contents : Bytes) :
    Files.contents? (setEntry name (.file contents) files) other =
      if other = name then some contents else files.contents? other := by
  split
  · next he => rw [he, contents?_eq_some.2 (lookup_setEntry_self _ _ files)]
  · next hne => exact contents?_congr (lookup_setEntry_of_ne _ files hne)

/-- A file that is written puts no directory among the files. -/
theorem ne_directory_setEntry (h : ∀ name, files.lookup name ≠ some .directory)
    (name : String) (contents : Bytes) (other : String) :
    (setEntry name (.file contents) files).lookup other ≠ some .directory := by
  by_cases he : other = name
  · simp [he]
  · rw [lookup_setEntry_of_ne _ _ he]
    exact h other

theorem ne_directory_dropEntry (h : ∀ name, files.lookup name ≠ some .directory)
    (name other : String) : (dropEntry name files).lookup other ≠ some .directory := by
  by_cases he : other = name
  · simp [he]
  · rw [lookup_dropEntry_of_ne _ he]
    exact h other

namespace Record

theorem nil : Files.Record [] none none none where
  header := rfl
  user := rfl
  correlation := rfl
  isFile _ := by simp

theorem setHeader (h : files.Record header user correlation) (report : Report) :
    Files.Record (setEntry SessionFile.header (.file report.encode) files) (some report) user
      correlation where
  header := by simp [contents?_setEntry]
  user := by simpa [contents?_setEntry, SessionFile.user, SessionFile.header] using h.user
  correlation := by
    simpa [contents?_setEntry, SessionFile.correlation, SessionFile.header] using h.correlation
  isFile := ne_directory_setEntry h.isFile _ _

theorem setUser (h : files.Record header user correlation) (value : String) :
    Files.Record (setEntry SessionFile.user (.file (Bytes.ofText value)) files) header (some value)
      correlation where
  header := by simpa [contents?_setEntry, SessionFile.user, SessionFile.header] using h.header
  user := by simp [contents?_setEntry]
  correlation := by
    simpa [contents?_setEntry, SessionFile.correlation, SessionFile.user] using h.correlation
  isFile := ne_directory_setEntry h.isFile _ _

theorem setCorrelation (h : files.Record header user correlation) (value : String) :
    Files.Record (setEntry SessionFile.correlation (.file (Bytes.ofText value)) files) header user
      (some value) where
  header := by
    simpa [contents?_setEntry, SessionFile.correlation, SessionFile.header] using h.header
  user := by simpa [contents?_setEntry, SessionFile.correlation, SessionFile.user] using h.user
  correlation := by simp [contents?_setEntry]
  isFile := ne_directory_setEntry h.isFile _ _

/-- A file that says nothing of the session itself does not matter. -/
theorem setEntry_of_not_mem (h : files.Record header user correlation)
    (hname : name ∉ [SessionFile.header, SessionFile.user, SessionFile.correlation])
    (contents : Bytes) :
    Files.Record (setEntry name (.file contents) files) header user correlation := by
  simp only [List.mem_cons, List.not_mem_nil, or_false, not_or] at hname
  obtain ⟨hheader, huser, hcorrelation⟩ := hname
  exact
    { header := by rw [contents?_setEntry, if_neg (Ne.symm hheader), h.header]
      user := by rw [contents?_setEntry, if_neg (Ne.symm huser), h.user]
      correlation := by rw [contents?_setEntry, if_neg (Ne.symm hcorrelation), h.correlation]
      isFile := ne_directory_setEntry h.isFile _ _ }

theorem dropEntry_of_not_mem (h : files.Record header user correlation)
    (hname : name ∉ [SessionFile.header, SessionFile.user, SessionFile.correlation]) :
    Files.Record (dropEntry name files) header user correlation := by
  simp only [List.mem_cons, List.not_mem_nil, or_false, not_or] at hname
  obtain ⟨hheader, huser, hcorrelation⟩ := hname
  exact
    { header := by rw [contents?_congr (lookup_dropEntry_of_ne _ (Ne.symm hheader)), h.header]
      user := by rw [contents?_congr (lookup_dropEntry_of_ne _ (Ne.symm huser)), h.user]
      correlation := by
        rw [contents?_congr (lookup_dropEntry_of_ne _ (Ne.symm hcorrelation)), h.correlation]
      isFile := ne_directory_dropEntry h.isFile _ }

/-- An event file says nothing of the session itself. -/
theorem not_mem_of_slot {slot : Slot} (hslot : Slot.ofFileName? name = some slot) :
    name ∉ [SessionFile.header, SessionFile.user, SessionFile.correlation] := by
  have hrecords : ∀ other ∈ [SessionFile.header, SessionFile.user, SessionFile.correlation],
      other ∈ SessionFile.all := by decide
  exact fun hmem => SessionFile.not_mem_all hslot (hrecords name hmem)

/-- An event notes the analytics session if there is one. -/
theorem noted (h : files.Record header user correlation) (high : Bool) (value : Option String) :
    (files.noted high value).Record header user (value.or correlation) := by
  have hmarked : Files.Record
      (if high then setEntry SessionFile.priority (.file []) files else files) header user
      correlation := by
    cases high with
    | false => exact h
    | true => exact h.setEntry_of_not_mem (by decide) []
  cases value with
  | none => exact hmarked
  | some value => exact hmarked.setCorrelation value

/-! ### Reading -/

theorem header?_eq (h : files.Record header user correlation) : files.header? = header := by
  rw [Files.header?, h.header]
  cases header with
  | none => rfl
  | some report => exact report.decode?_encode

theorem text?_eq {value : Option String} (h : files.contents? name = value.map Bytes.ofText) :
    files.text? name = value.filter fun s => !s.isEmpty := by
  rw [Files.text?, h]
  cases value <;> simp

end Record

end Files

/-- The files are the records of what operations gave last. -/
abbrev Files.RecordOf (id : SessionId) (since : List Engine.Action) (files : Files) : Prop :=
  files.Record (Engine.latest (Engine.Action.header? id) since)
    (Engine.latest (Engine.Action.user? id) since)
    (Engine.latest (Engine.Action.correlation? id) since)

section Steps

variable {since : List Engine.Action} (hid : id.IsStorable)

include hid

/-- A header replaces the one before it. -/
theorem records_persistReport (report : Report) (hreport : report.id = id)
    (h : FilesAre place id (Files.RecordOf id since) top) :
    FilesAre place id (Files.RecordOf id (since ++ [.persistReport report]))
      (place.engine.persistReport report top).2 := by
  subst hreport
  refine h.persistReport hid (fun _ hfiles => hfiles.isFile) fun files hfiles => ?_
  simp only [Files.RecordOf, Engine.latest_concat, Engine.Action.header?, Engine.Action.user?,
    Engine.Action.correlation?, if_true, Option.some_or, Option.none_or]
  exact (hfiles.setHeader report).setEntry_of_not_mem (by decide) _

/-- A user replaces the one before. -/
theorem records_persistUser (user : String) (h : FilesAre place id (Files.RecordOf id since) top) :
    FilesAre place id (Files.RecordOf id (since ++ [.persistUser id user]))
      (place.engine.persistUser id user top).2 := by
  obtain ⟨v, hheld, hfiles⟩ := h
  obtain ⟨-, -, hafter⟩ := Engine.agree_persistUser (k := .json) (Store.Agrees.held place)
    (Engine.allowsStoring_isProper hid.isShort).records user top v hheld
  have hrun : (Engine.persistUser ⟨Vault.store place, .json⟩ id user v).2 =
      v.setFile id SessionFile.user (Bytes.ofText user) :=
    congrArg Prod.snd
      (v.perform_write place hid (hfiles.isFile SessionFile.user) (Bytes.ofText user))
  rw [hrun] at hafter
  refine ⟨_, hafter, ?_⟩
  simp only [Files.RecordOf, Engine.latest_concat, Engine.Action.header?, Engine.Action.user?,
    Engine.Action.correlation?, if_true, Option.some_or, Option.none_or]
  rw [Vault.files_setFile_self]
  exact hfiles.setUser user

/-- An event replaces the analytics session if it knows one. -/
theorem records_persistEvent {caps : Caps} {correlation : Option String} {event : Event}
    {high : Bool} (h : FilesAre place id (Files.RecordOf id since) top)
    (hstored : ((place.engine.tryPersistEvent caps correlation event id high).run top).1 = .ok ()) :
    FilesAre place id (Files.RecordOf id (since ++ [.persistEvent caps correlation event id high]))
      (place.engine.persistEvent caps correlation event id high top).2 := by
  refine h.persistEvent hid.isShort hstored fun v w hfiles hrun => ?_
  obtain ⟨sequence, gone, hgone, hw⟩ := Engine.files_tryPersistEvent hid hrun
  simp only [Files.RecordOf, Engine.latest_concat, Engine.Action.header?, Engine.Action.user?,
    Engine.Action.correlation?, if_true, Option.none_or]
  rw [hw]
  have hwritten := hfiles.setEntry_of_not_mem
    (Files.Record.not_mem_of_slot (Slot.ofFileName?_name sequence high)) event.encode
  exact Files.without_induction (F := fun files => files.Record _ _ _)
    (hwritten.noted high correlation) gone fun files old hold hfiles =>
      hfiles.dropEntry_of_not_mem (Files.Record.not_mem_of_slot (hgone old hold))

/-- Every operation keeps it that the files are the records of what was given last, or it closes the
session. -/
theorem records_step (h : FilesAre place id (Files.RecordOf id since) top) (a : Engine.Action)
    (hstored : a.Stores place.engine id top) :
    OpenFilesAre place id (Files.RecordOf id (since ++ [a])) (a.run place.engine top).2 := by
  obtain ⟨report, rfl, hreport⟩ | ⟨caps, correlation, event, high, rfl⟩ | ⟨user, rfl⟩ | hspares :=
    a.storesIn_cases id
  · exact (records_persistReport hid report hreport h).openFilesAre
  · exact (records_persistEvent hid h (hstored rfl)).openFilesAre
  · exact (records_persistUser hid user h).openFilesAre
  · obtain ⟨hheader, huser, hcorrelation⟩ := Engine.Action.gives_nothing hspares
    have hsame : Files.RecordOf id (since ++ [a]) = Files.RecordOf id since := by
      funext files
      simp only [Files.RecordOf, Engine.latest_concat, hheader, huser, hcorrelation, Option.none_or]
    rw [hsame]
    exact h.openFilesAre.step_of_not_storesIn hspares

end Steps

/-- A session with a header is open. -/
theorem FilesAre.mem_openIds_of_latest {since : List Engine.Action}
    (h : FilesAre place id (Files.RecordOf id since) top) {r : Report}
    (hheader : Engine.latest (Engine.Action.header? id) since = some r) :
    id ∈ (place.engine.openIds top).1 := by
  refine h.mem_openIds fun hclosed => ?_
  have hnone := hclosed.header
  rw [hheader] at hnone
  exact absurd hnone (by simp [Files.contents?])

/-! ## Reports -/

/-- What the report says of who and where it is about is what the header says, but for the user, if
one is given, and for the analytics session. -/
structure Report.IsAbout (report header : Report) (user correlation : Option String) : Prop where
  sdkVersion : report.sdkVersion = header.sdkVersion
  app : report.app = header.app
  installationId : report.installationId = header.installationId
  generator : report.session.generator = header.session.generator
  startTimeMillis : report.session.startTimeMillis = header.session.startTimeMillis
  userId : report.session.userId = user.or header.session.userId
  correlationId : report.session.correlationId = correlation

/-- A pass takes that over from the files. -/
theorem Files.isAbout_assembled (files : Files) (id : SessionId) (time : Int64) (cap : Nat)
    (header : Report) (recorded : Option Report) :
    (files.assembled id time cap header recorded).report.IsAbout header
      (files.text? SessionFile.user) (files.text? SessionFile.correlation) := by
  rw [Files.assembled]
  unfold Assembled.ofParts
  cases recorded.filter fun r => r.nativePayload.isSome <;>
    exact ⟨rfl, rfl, rfl, rfl, rfl, rfl, rfl⟩

/-- And so does attaching a native crash to an open session. -/
theorem Files.isAbout_native (files : Files) (header : Report) (payload : NativePayload)
    (info : Option ExitInfo) (cap : Nat) :
    (withNativeCrash (files.nativeBase header) payload (files.text? SessionFile.user) info
      cap).IsAbout header (files.text? SessionFile.user) (files.text? SessionFile.correlation) := by
  cases info <;> exact ⟨rfl, rfl, rfl, rfl, rfl, rfl, rfl⟩

section Reports

variable {v : Vault} {header : Option Report} {user correlation : Option String} {caps : Caps}

/-- The report of a session that a pass writes. -/
theorem Files.Record.isAbout_of_writeReport (hv : v.IsWellFormed)
    (h : (v.files id).Record header user correlation) {current : Option SessionId} {time : Int64}
    {tier : Tier} {contents : Bytes}
    (hwrite : .writeReport id tier contents ∈ (Pass.plain place caps current time).changes v) :
    ∃ r report, header = some r ∧ Codec.json.decodeReport contents = .ok report ∧
      report.IsAbout r (user.filter fun s => !s.isEmpty)
        (correlation.filter fun s => !s.isEmpty) := by
  obtain ⟨a, ⟨ha, -, -⟩, rfl, rfl, hwritten⟩ := Pass.writeReport_mem_changes_iff.1 hwrite
  obtain rfl : a.report.encode = contents := Except.ok.inj hwritten
  obtain ⟨-, r, hr, hassembled, -⟩ := (Pass.outcome_plain_eq_some_iff
    (Pass.isStorable_of_mem_assembled hv ha)).1 (Pass.mem_assembled.1 ha).2
  have habout := (v.files a.id).isAbout_assembled a.id time caps.events r (v.recorded? a.id)
  rw [hassembled, Record.text?_eq h.user, Record.text?_eq h.correlation] at habout
  exact ⟨r, a.report, h.header?_eq ▸ hr,
    Codec.decodeReport_json_eq_ok_iff.2 a.report.decode?_encode, habout⟩

variable (hid : id.IsStorable) (payload : NativePayload) (info : Option ExitInfo)

include hid

/-- A native crash makes the report of an open session that has a header. -/
theorem Files.Record.nativeChanges_of_header {r : Report}
    (h : (v.files id).Record (some r) user correlation) :
    ∃ contents report,
      (Medium.plain place).nativeChanges v id caps payload info =
        [.writeReport id .native contents, .deleteSession id] ∧
      Codec.json.decodeReport contents = .ok report ∧
      report.IsAbout r (user.filter fun s => !s.isEmpty)
        (correlation.filter fun s => !s.isEmpty) := by
  have habout := (v.files id).isAbout_native r payload info caps.events
  have hchanges := Medium.nativeChanges_plain hid
    (Medium.nativeBase_plain_of_header place hid h.header?_eq) caps payload info
  rw [Record.text?_eq h.user, Record.text?_eq h.correlation] at habout
  rw [Record.text?_eq h.user, if_pos rfl] at hchanges
  exact ⟨_, _, hchanges, Codec.decodeReport_json_eq_ok_iff.2 (Report.decode?_encode _), habout⟩

/-- Without a header it goes into the report that the session was finalized with before, if it
was, and the open files stay. -/
theorem Files.Record.nativeChanges_of_not_header (h : (v.files id).Record none user correlation)
    {c : Change} (hc : c ∈ (Medium.plain place).nativeChanges v id caps payload info) :
    ∃ r, v.recorded? id = some r ∧ c = .writeReport id .native (withNativeCrash r payload
      (user.filter fun s => !s.isEmpty) info caps.events).encode := by
  cases hr : v.recorded? id with
  | some r =>
    rw [Medium.nativeChanges_plain hid
      (Medium.nativeBase_plain_of_recorded place hid h.header?_eq hr), Record.text?_eq h.user] at hc
    exact ⟨r, rfl, by simpa using hc⟩
  | none =>
    have hbase : ∃ failure, (Medium.plain place).nativeBase v id = .error failure := by
      rw [Medium.nativeBase, Medium.recorded?_plain place hid, hr]
      cases hheader : (Medium.plain place).header v id with
      | error failure => exact ⟨failure, rfl⟩
      | ok r =>
        rw [Medium.header_plain_eq_ok_iff place hid, h.header?_eq] at hheader
        exact absurd hheader (by simp)
    obtain ⟨failure, hbase⟩ := hbase
    rw [Medium.nativeChanges, hbase] at hc
    exact absurd hc List.not_mem_nil

end Reports

/-- What a report says of whom it is about is what was given last, over any run of operations on a
store that was empty in which the events of the session are stored.  Of the operations since the
session was last opened, the latest header gives the versions, the application, the installation,
the generator and the time of the start; the latest user replaces that of the header unless it is
empty; and the analytics session is the latest that an event knew of unless that is empty, whatever
the header says.  This holds of a report that a pass makes of an open session, and of one that a
native crash makes of it.

A session without a header makes no report: a native crash then goes into the report that the
session was finalized with before. -/
theorem metadata_eq_latest {tree : Node} (hempty : Vault.empty.IsHeldIn place tree)
    (actions : List Engine.Action) (hstored : place.engine.Stores id tree actions) :
    let stored := place.engine.after tree actions
    let since := place.engine.sinceOpened id tree [] actions
    let header := Engine.latest (Engine.Action.header? id) since
    let user := (Engine.latest (Engine.Action.user? id) since).filter fun s => !s.isEmpty
    let correlation :=
      (Engine.latest (Engine.Action.correlation? id) since).filter fun s => !s.isEmpty
    (∀ (caps : Caps) (current : Option SessionId) (time : Int64) (tier : Tier) (contents : Bytes),
      .writeReport id tier contents ∈
        (Engine.finalize ⟨place.store.logged, .json⟩ caps current time (stored, [])).2.2 →
      ∃ r report, header = some r ∧ Codec.json.decodeReport contents = .ok report ∧
        report.IsAbout r user correlation) ∧
    (id ∈ (place.engine.openIds stored).1 →
      ∀ (caps : Caps) (payload : NativePayload) (info : Option ExitInfo),
      let log := (Engine.finalizeNative ⟨place.store.logged, .json⟩ caps id payload info
        (stored, [])).2.2
      (∀ r, header = some r → ∃ contents report,
        log = [.writeReport id .native contents, .deleteSession id] ∧
          Codec.json.decodeReport contents = .ok report ∧ report.IsAbout r user correlation) ∧
      (header = none → ∀ c ∈ log, ∃ r, (place.engine.readFinalized id stored).1 = some r ∧
        c = .writeReport id .native (withNativeCrash r payload user info caps.events).encode)) := by
  intro stored since header user correlation
  obtain ⟨v, hheld⟩ : ∃ v : Vault, v.IsHeldIn place stored := hempty.exists_run actions
  have hfirst : FilesAre place id (Files.RecordOf id []) tree :=
    ⟨Vault.empty, hempty, Files.Record.nil⟩
  have hrecord : id.IsStorable → (v.files id).RecordOf id since := fun hid => by
    obtain ⟨w, hw, hfiles⟩ := FilesAre.sinceOpened (F := Files.RecordOf id) Files.Record.nil
      (fun _ a _ h ha => records_step hid h a ha) hfirst actions hstored
    rwa [hheld.unique hw]
  refine ⟨fun caps current time tier contents hwrite => ?_, fun hopen caps payload info => ?_⟩
  · rw [Pass.log_finalize_plain hheld] at hwrite
    obtain ⟨hid, -⟩ := tier_of_writeReport hheld.isWellFormed hwrite
    exact (hrecord hid).isAbout_of_writeReport hheld.isWellFormed hwrite
  · have hid := hheld.isWellFormed.isStorable_open id (hheld.mem_openIds.1 hopen)
    have hfiles := hrecord hid
    rw [Medium.log_finalizeNative_plain hheld hid, readFinalized_directory hheld hid]
    refine ⟨fun r hr => ?_, fun hnone c hc => ?_⟩
    · rw [Files.RecordOf, show Engine.latest _ since = some r from hr] at hfiles
      exact hfiles.nativeChanges_of_header hid payload info
    · rw [Files.RecordOf, show Engine.latest _ since = none from hnone] at hfiles
      exact hfiles.nativeChanges_of_not_header hid payload info hc

/-- A session that starts, is given an event while an analytics session is known, and is given a
user. -/
def Engine.starting (caps : Caps) (header : Report) (correlation : String) (event : Event)
    (user : String) : List Engine.Action :=
  [.persistReport header, .persistEvent caps (some correlation) event header.id false,
    .persistUser header.id user]

/-- The event is stored, and the session is open after each of these operations. -/
theorem Vault.IsHeldIn.starting {v : Vault} {header : Report} (hheld : v.IsHeldIn place top)
    (hclosed : v.files header.id = []) (hid : header.id.IsStorable) (caps : Caps)
    (correlation : String) (event : Event) (user : String) :
    let run := Engine.starting caps header correlation event user
    place.engine.Stores header.id top run ∧ place.engine.sinceOpened header.id top [] run = run ∧
      header.id ∈ (place.engine.openIds (place.engine.after top run)).1 := by
  intro run
  have hfirst : FilesAre place header.id (Files.RecordOf header.id []) top :=
    ⟨v, hheld, hclosed ▸ Files.Record.nil⟩
  have hpersist := run_persistReport hclosed hid place
  obtain ⟨-, -, hstarted⟩ := Engine.agree_persistReport (k := .json) (Store.Agrees.held place)
    (Engine.allowsStoring_isProper hid.isShort).records top v hheld
  rw [hpersist.1] at hstarted
  have hsequence : Engine.nextSequence header.id ((v.started header).files header.id).slots =
      .ok 1 := by
    rw [(holds_started hclosed).slots_eq]
    rfl
  obtain ⟨hanswer, -⟩ := Engine.agree_tryPersistEvent (k := .json) (Store.Agrees.held place)
    (Engine.allowsStoring_isProper hid.isShort) caps (some correlation) event false _ _ hstarted
  have hevent := hanswer.trans (Engine.tryPersistEvent_ok place hid hpersist.2 hsequence caps
    (some correlation) event false)
  have hone := records_persistReport hid header rfl hfirst
  have htwo := records_persistEvent hid hone hevent
  have hthree := records_persistUser hid user htwo
  have hopenOne := hone.mem_openIds_of_latest (r := header) (by simp [Engine.latest, Engine.Action.header?])
  have hopenTwo := htwo.mem_openIds_of_latest (r := header)
    (by simp [Engine.latest, List.filterMap_cons, Engine.Action.header?])
  have hopenThree := hthree.mem_openIds_of_latest (r := header)
    (by simp [Engine.latest, List.filterMap_cons, Engine.Action.header?])
  refine ⟨⟨trivial, fun _ => hevent, trivial, trivial⟩, ?_, hopenThree⟩
  exact (Engine.sinceOpened_cons (a := .persistReport header) hopenOne).trans <|
    (Engine.sinceOpened_cons
      (a := .persistEvent caps (some correlation) event header.id false) hopenTwo).trans
      (Engine.sinceOpened_cons (a := .persistUser header.id user) hopenThree)

/-- Such a session with a native crash: the report is about what was given last. -/
theorem metadata_eq_latest_one_event :
    ∃ tree : Node,
      let place := OneEvent.pass.place
      let run := Engine.starting {} OneEvent.header "y" (Event.log 0 "x") "z"
      ∃ contents report,
        (Engine.finalizeNative ⟨place.store.logged, .json⟩ {} OneEvent.header.id { files := [] }
          none (place.engine.after tree run, [])).2.2 =
            [.writeReport OneEvent.header.id .native contents,
              .deleteSession OneEvent.header.id] ∧
        Codec.json.decodeReport contents = .ok report ∧
        report.IsAbout OneEvent.header (some "z") (some "y") := by
  obtain ⟨tree, hheld⟩ : ∃ tree, Vault.empty.IsHeldIn OneEvent.pass.place tree :=
    ⟨_, Vault.IsHeldIn.empty_named OneEvent.isEntryName_data⟩
  have hclosed : Vault.empty.files OneEvent.header.id = [] := rfl
  obtain ⟨hstored, hsince, hopen⟩ := hheld.starting hclosed OneEvent.isStorable {} "y"
    (Event.log 0 "x") "z"
  obtain ⟨-, hnative⟩ := metadata_eq_latest hheld _ hstored
  rw [hsince] at hnative
  obtain ⟨hmade, -⟩ := hnative hopen {} { files := [] } none
  obtain ⟨contents, report, hlog, hdecode, habout⟩ := hmade OneEvent.header
    (by simp [Engine.starting, Engine.latest, List.filterMap_cons, Engine.Action.header?])
  refine ⟨tree, contents, report, hlog, hdecode, ?_⟩
  simpa [Engine.starting, Engine.latest, List.filterMap_cons, Engine.Action.user?,
    Engine.Action.correlation?, Option.filter_some] using habout

end ReportVault
