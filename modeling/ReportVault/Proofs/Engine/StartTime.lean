import ReportVault.Proofs.Engine.Latest

/-!
# ReportVault.Proofs.Engine.StartTime

The start time of an open session, over any run of operations.

A session has its start time twice: in the header, and as a decimal text in a file of its own, which
is read first.  Only a header that is stored writes either, and it writes both; a file of another
name, an event that is stored and whatever happens to another session leave them
(`keeps_started`).  So both say the same after every operation (`started_step`) and after every
run, which is `startTime_eq_latest`.
-/

namespace ReportVault

open FileSystem Retention

/-! ## Reading a start time -/

/-- Every start time that is written reads back, one before the epoch as well. -/
theorem Engine.millisOfText?_ofInt (x : Int64) :
    Engine.millisOfText? (Text.ofInt x.toInt) = some x := by
  have hblank : ∀ c ∈ (Text.ofInt x.toInt).toList, Text.isBlank c = false := by
    intro c hc
    rcases Text.eq_or_isDigit_of_mem_ofInt hc with rfl | hdigit
    · decide
    · exact Text.isBlank_of_isDigit hdigit
  rw [Engine.millisOfText?, Text.trim_of_forall hblank, Text.intOfDecimal?_ofInt,
    Option.bind_some, Text.int64?_toInt]

theorem Text.isEmpty_ofInt (i : Int) : (Text.ofInt i).isEmpty = false := by
  refine Bool.eq_false_iff.2 fun he => ?_
  have hread := Text.intOfDecimal?_ofInt i
  rw [String.isEmpty_iff.1 he, show Text.intOfDecimal? "".toList = none by decide] at hread
  exact absurd hread (by simp)

/-! ## Files that say when a session started -/

/-- The files that say when a session started. -/
def SessionFile.starts : List String := [header, startTime]

theorem SessionFile.mem_all_of_starts : ∀ name ∈ starts, name ∈ all := by decide

/-- The files have this header, if there is one, and its start time, and no directory is among
them. -/
structure Files.Started (files : Files) (report : Option Report) : Prop where
  header : files.contents? SessionFile.header = report.map Report.encode
  startTime : files.contents? SessionFile.startTime =
    report.map fun r => Bytes.ofText (Text.ofInt r.session.startTimeMillis.toInt)
  isFile : ∀ name, files.lookup name ≠ some .directory

namespace Files.Started

variable {files after : Files} {header : Option Report} {name : String}

theorem nil : Files.Started [] none where
  header := rfl
  startTime := rfl
  isFile _ := by simp

/-- A header comes with its start time. -/
theorem setHeader (h : files.Started header) (report : Report) :
    Files.Started (setEntry SessionFile.startTime
      (.file (Bytes.ofText (Text.ofInt report.session.startTimeMillis.toInt)))
        (setEntry SessionFile.header (.file report.encode) files)) (some report) where
  header := by simp [contents?_setEntry, SessionFile.header, SessionFile.startTime]
  startTime := by simp [contents?_setEntry]
  isFile := ne_directory_setEntry (ne_directory_setEntry h.isFile _ _) _ _

/-- Other files say nothing of it. -/
theorem of_contents? (h : files.Started header)
    (hsame : ∀ name ∈ SessionFile.starts, after.contents? name = files.contents? name)
    (hfile : ∀ name, after.lookup name ≠ some .directory) : after.Started header where
  header := (hsame _ (by decide)).trans h.header
  startTime := (hsame _ (by decide)).trans h.startTime
  isFile := hfile

theorem setEntry (h : files.Started header) (hname : name ∉ SessionFile.starts)
    (contents : Bytes) : Files.Started (FileSystem.setEntry name (.file contents) files) header :=
  h.of_contents? (fun other hother => by
    have hne : other ≠ name := fun he => hname (he ▸ hother)
    rw [contents?_setEntry, if_neg hne])
    (ne_directory_setEntry h.isFile _ _)

theorem dropEntry (h : files.Started header) (hname : name ∉ SessionFile.starts) :
    Files.Started (FileSystem.dropEntry name files) header :=
  h.of_contents? (fun _ hother =>
    contents?_congr (lookup_dropEntry_of_ne _ fun he => hname (he ▸ hother)))
    (ne_directory_dropEntry h.isFile _)

/-- What is read from them. -/
theorem header?_eq (h : files.Started header) : files.header? = header := by
  rw [Files.header?, h.header]
  cases header with
  | none => rfl
  | some report => exact report.decode?_encode

theorem text?_startTime (h : files.Started header) :
    files.text? SessionFile.startTime =
      header.map fun r => Text.ofInt r.session.startTimeMillis.toInt := by
  rw [Files.text?, h.startTime]
  cases header <;> simp [Text.isEmpty_ofInt]

end Files.Started

/-! ## Calls -/

variable {place : Location} {id : SessionId} {top : Node} {header : Option Report}

/-- The call leaves the files of the session alone but for one that does not say when it started. -/
def Store.Call.SparesStart (id : SessionId) (call : Store.Call α) : Prop :=
  call.NamesEntries ∧ ∀ c, call.change? = some c → c.SparesFiles id ∨
    ∃ name, name ∉ SessionFile.starts ∧
      (c = .delete id name ∨ ∃ contents, c = .write id name contents)

theorem keeps_started (place : Location) (id : SessionId) (header : Option Report) :
    place.store.Keeps (FilesAre place id (Files.Started · header))
      (Store.Call.SparesStart id) := by
  refine keeps_filesAre_of_changes place (P := Store.Call.SparesStart id)
    (fun _ hcall => hcall.1) fun _ hcall c hc v hfiles => ?_
  rcases hcall.2 c hc with hsame | ⟨name, hname, rfl | ⟨contents, rfl⟩⟩
  · rwa [Vault.files_apply hsame]
  · show ((v.dropFile id name).files id).Started header
    rw [Vault.files_dropFile_self]
    exact hfiles.dropEntry hname
  · show ((v.setFile id name contents).files id).Started header
    rw [Vault.files_setFile_self]
    exact hfiles.setEntry hname contents

namespace Engine

theorem sparesStart_write {name : String} (hentry : IsEntryName name ∧ IsVisible name)
    (hname : name ∉ SessionFile.starts) (contents : Bytes) :
    (Store.Call.write id name contents).SparesStart id :=
  ⟨hentry, fun _ hc => Or.inr ⟨name, hname, Or.inr ⟨contents, (Option.some.inj hc).symm⟩⟩⟩

theorem not_mem_starts_of_slot {name : String} {slot : Slot}
    (hslot : Slot.ofFileName? name = some slot) : name ∉ SessionFile.starts := fun hmem =>
  SessionFile.not_mem_all hslot (SessionFile.mem_all_of_starts name hmem)

end Engine

/-! ## Operations -/

/-- An event that is given to the session does not show, whether it is stored or not. -/
theorem started_persistEvent (h : FilesAre place id (Files.Started · header) top) (caps : Caps)
    (correlation : Option String) (event : Event) (high : Bool) :
    FilesAre place id (Files.Started · header)
      (place.engine.persistEvent caps correlation event id high top).2 := by
  have hkeeps : place.store.Keeps (FilesAre place id (Files.Started · header))
      (Store.Call.SparesStart id) := keeps_started place id header
  have hslots : (Store.Call.slots id).SparesStart id := ⟨trivial, by simp [Store.Call.change?]⟩
  have htry := Engine.agree_tryPersistEvent_of_writes (k := .json) hkeeps.agrees hslots
    (fun sequence high => Engine.sparesStart_write (Slot.isEntryName_name sequence high)
      (Engine.not_mem_starts_of_slot (Slot.ofFileName?_name sequence high)))
    (Engine.sparesStart_write (isEntryName_sessionFile SessionFile.priority (by decide)) (by decide))
    (Engine.sparesStart_write (isEntryName_sessionFile SessionFile.correlation (by decide))
      (by decide))
    (fun name slot hname hslot => ⟨hname, fun _ hc => Or.inr ⟨name,
      Engine.not_mem_starts_of_slot hslot, Or.inl (Option.some.inj hc).symm⟩⟩)
    caps correlation event high
  have hagree : Agree _ Whatever (place.engine.persistEvent caps correlation event id high)
      (place.engine.persistEvent caps correlation event id high) :=
    Agree.bind (Engine.agree_succeeds? htry) fun _ _ => Agree.pure trivial
  exact hagree.keeps h

/-- Nor does a user. -/
theorem started_persistUser (h : FilesAre place id (Files.Started · header) top) (user : String) :
    FilesAre place id (Files.Started · header) (place.engine.persistUser id user top).2 := by
  have hkeeps : place.store.Keeps (FilesAre place id (Files.Started · header))
      (Store.Call.SparesStart id) := keeps_started place id header
  exact Agree.keeps (Engine.agree_attempt (k := .json) hkeeps.agrees
    (Engine.sparesStart_write (isEntryName_sessionFile SessionFile.user (by decide)) (by decide) _))
    h

/-- A header that is given to the session replaces the one before it. -/
theorem started_persistReport (hid : id.IsStorable)
    (h : FilesAre place id (Files.Started · header) top) (report : Report) (hreport : report.id = id) :
    FilesAre place id (Files.Started · (some report)) (place.engine.persistReport report top).2 := by
  subst hreport
  exact h.persistReport hid (fun _ hfiles => hfiles.isFile) fun _ hfiles => hfiles.setHeader report

/-- A session with a header is open. -/
theorem mem_openIds_of_started {report : Report}
    (h : FilesAre place id (Files.Started · (some report)) top) :
    id ∈ (place.engine.openIds top).1 :=
  h.mem_openIds fun hclosed => absurd hclosed.header (by simp [Files.contents?])

/-- Every operation keeps it that the files say the start of the session as it was given last, or it
closes the session. -/
theorem started_step {since : List Engine.Action}
    (h : FilesAre place id (Files.Started · (Engine.latest (Engine.Action.header? id) since)) top)
    (a : Engine.Action) :
    OpenFilesAre place id
      (Files.Started · (Engine.latest (Engine.Action.header? id) (since ++ [a])))
      (a.run place.engine top).2 := by
  rw [Engine.latest_concat]
  obtain ⟨report, rfl, hreport⟩ | ⟨caps, correlation, event, high, rfl⟩ | ⟨user, rfl⟩ | hspares :=
    a.storesIn_cases id
  · rw [Engine.Action.header?, if_pos hreport, Option.some_or]
    by_cases hid : id.IsStorable
    · exact (started_persistReport hid h report hreport).openFilesAre
    · -- a session that cannot be stored is not open, whatever is given to it
      obtain ⟨v, hheld, -⟩ := h
      obtain ⟨w, hw⟩ := hheld.exists_run [.persistReport report]
      exact ⟨w, hw, fun hopen => absurd (hw.isWellFormed.isStorable_open id hopen) hid⟩
  · exact (started_persistEvent h caps correlation event high).openFilesAre
  · exact (started_persistUser h user).openFilesAre
  · rw [(Engine.Action.gives_nothing hspares).1, Option.none_or]
    exact h.openFilesAre.step_of_not_storesIn hspares

/-- After a run the files say the start of the session as it was given last since it was opened. -/
theorem started_after {since : List Engine.Action}
    (h : FilesAre place id (Files.Started · (Engine.latest (Engine.Action.header? id) since)) top)
    (actions : List Engine.Action) :
    FilesAre place id (Files.Started · (Engine.latest (Engine.Action.header? id)
      (place.engine.sinceOpened id top since actions))) (place.engine.after top actions) := by
  induction actions generalizing top since with
  | nil => exact h
  | cons a actions ih =>
    refine ih ((started_step h a).sinceOpened
      (F := fun since files => files.Started (Engine.latest (Engine.Action.header? id) since)) ?_)
    exact Files.Started.nil

/-! ## What is answered -/

section Answers

variable {v : Vault}

namespace Vault.IsHeldIn

/-- What is read of a file of any session: a session that cannot be stored has none. -/
theorem exists_read (hheld : v.IsHeldIn place top) (id : SessionId) {name : String}
    (hname : IsEntryName name) :
    ∃ answer, (place.store.perform (.read id name)).run top = (answer, top) ∧
      answer.toOption.join = (v.files id).contents? name := by
  obtain ⟨answer, hrun⟩ : ∃ answer, (place.store.perform (.read id name)).run top = (answer, top) :=
    ⟨_, Prod.ext rfl (hheld.perform_looking hname rfl)⟩
  refine ⟨answer, hrun, ?_⟩
  by_cases hid : id.IsStorable
  · obtain rfl : _ = answer := congrArg Prod.fst ((hheld.perform_read hid hname).symm.trans hrun)
    exact Medium.toOption_answer_read_plain place hid name
  · have hnone : v.files id = [] :=
      Vault.files_eq_nil fun hopen => hid (hheld.isWellFormed.isStorable_open id hopen)
    rw [hnone]
    rcases answer with failure | _ | contents
    · rfl
    · rfl
    · have hitem := hheld.item?_of_read hname (congrArg Prod.fst hrun)
      rw [Vault.item?, hnone] at hitem
      exact absurd hitem (by simp)

theorem run_readText (hheld : v.IsHeldIn place top) (id : SessionId) {name : String}
    (hname : IsEntryName name) :
    place.engine.readText id name top = ((v.files id).text? name, top) := by
  obtain ⟨answer, hread, hcontents⟩ := hheld.exists_read id hname
  rw [Files.text?, ← hcontents]
  exact run_bind (Medium.run_succeeds? hread) _

theorem exists_readHeader (hheld : v.IsHeldIn place top) (id : SessionId) :
    ∃ answer, (place.engine.readHeader id).run top = (answer, top) ∧
      answer.toOption = (v.files id).header? := by
  have hname := isEntryName_sessionFile SessionFile.header (by decide)
  obtain ⟨answer, hread, hcontents⟩ := hheld.exists_read id hname.1
  rw [Files.header?, ← hcontents]
  rcases answer with failure | _ | contents
  · exact ⟨_, run_bind_of_error hread, rfl⟩
  · exact ⟨_, (run_bind_of_ok hread).trans rfl, rfl⟩
  · exact ⟨_, (run_bind_of_ok hread).trans rfl, Codec.toOption_decodeReport_json contents⟩

/-- The start time is read from its own file, and it is that of the header. -/
theorem run_startTime (hheld : v.IsHeldIn place top) (h : (v.files id).Started header) :
    place.engine.startTime id top = (header.map (·.session.startTimeMillis), top) := by
  have hname := isEntryName_sessionFile SessionFile.startTime (by decide)
  refine (run_bind (hheld.run_readText id hname.1) _).trans ?_
  rw [h.text?_startTime]
  cases header with
  | some report =>
    simp only [Option.map_some, Option.bind_some, Engine.millisOfText?_ofInt]
    rfl
  | none =>
    obtain ⟨answer, hread, hheader⟩ := hheld.exists_readHeader id
    rw [h.header?_eq] at hheader
    refine (run_bind (Medium.run_succeeds? hread) _).trans ?_
    rw [hheader]
    rfl

end Vault.IsHeldIn

end Answers

/-- The start time of a session agrees with its header, over any run of operations on a store that
was empty: it is the one of the last header that was given to the session since it was last opened,
which is the header that is read from its file.  There is none without such a header, and none for a
session that is not open. -/
theorem startTime_eq_latest {tree : Node} (hempty : Vault.empty.IsHeldIn place tree)
    (actions : List Engine.Action) (id : SessionId) :
    let stored := place.engine.after tree actions
    let header := Engine.latest (Engine.Action.header? id)
      (place.engine.sinceOpened id tree [] actions)
    place.engine.startTime id stored = (header.map (·.session.startTimeMillis), stored) ∧
      ((place.engine.readHeader id).run stored).1.toOption = header ∧
      (id ∉ (place.engine.openIds stored).1 → header = none) := by
  intro stored header
  have hfirst : FilesAre place id (Files.Started · (Engine.latest (Engine.Action.header? id) []))
      tree := ⟨Vault.empty, hempty, Files.Started.nil⟩
  obtain ⟨v, hheld, hfiles⟩ : FilesAre place id (Files.Started · header) stored :=
    started_after hfirst actions
  obtain ⟨answer, hread, hheader⟩ := hheld.exists_readHeader id
  refine ⟨hheld.run_startTime hfiles, ?_, fun hclosed => ?_⟩
  · rw [hread, hheader, hfiles.header?_eq]
  · rw [← hfiles.header?_eq,
      Vault.files_eq_nil fun hopen => hclosed (hheld.mem_openIds.2 hopen)]
    rfl

/-- A session that starts twice, the second time before the epoch. -/
theorem startTime_eq_latest_two_headers :
    ∃ tree : Node,
      let place := OneEvent.pass.place
      let again := { OneEvent.header with
        session := { OneEvent.header.session with startTimeMillis := -5 } }
      let stored := place.engine.after tree [.persistReport OneEvent.header, .persistReport again]
      (place.engine.startTime OneEvent.header.id stored).1 = some (-5) ∧
        ((place.engine.readHeader OneEvent.header.id).run stored).1.toOption = some again := by
  obtain ⟨tree, hheld⟩ : ∃ tree, Vault.empty.IsHeldIn OneEvent.pass.place tree :=
    ⟨_, Vault.IsHeldIn.empty_named OneEvent.isEntryName_data⟩
  refine ⟨tree, ?_⟩
  intro place again stored
  have hfirst : FilesAre place OneEvent.header.id (Files.Started · none) tree :=
    ⟨Vault.empty, hheld, Files.Started.nil⟩
  have hone := started_persistReport OneEvent.isStorable hfirst OneEvent.header rfl
  have htwo := started_persistReport OneEvent.isStorable hone again rfl
  have hsince : place.engine.sinceOpened OneEvent.header.id tree []
      [.persistReport OneEvent.header, .persistReport again] =
        [.persistReport OneEvent.header, .persistReport again] :=
    (Engine.sinceOpened_cons (a := .persistReport OneEvent.header)
      (mem_openIds_of_started hone)).trans
      (Engine.sinceOpened_cons (a := .persistReport again) (mem_openIds_of_started htwo))
  obtain ⟨hstart, hheader, -⟩ := startTime_eq_latest hheld
    [.persistReport OneEvent.header, .persistReport again] OneEvent.header.id
  have hlatest : Engine.latest (Engine.Action.header? OneEvent.header.id)
      [.persistReport OneEvent.header, .persistReport again] = some again := by
    refine (Engine.latest_concat _ [.persistReport OneEvent.header] (.persistReport again)).trans ?_
    rw [Engine.Action.header?, if_pos (show again.id = OneEvent.header.id from rfl), Option.some_or]
  rw [hsince, hlatest] at hstart hheader
  exact ⟨congrArg Prod.fst hstart, hheader⟩

end ReportVault
