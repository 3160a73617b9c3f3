import ReportVault.Proofs.Engine.Action
import ReportVault.Proofs.Engine.Medium
import ReportVault.Proofs.Store.Unstorable

/-!
# ReportVault.Proofs.Engine.OpenFiles

What operations leave of the files of an open session.

Only `persistEvent` on the session touches its event files and its marks while it stays open; a
header, a start time or a user may be written by others.  A property of the files that these three
do not matter to is therefore kept by every other operation, unless the session is closed
(`FilesAre.step`), and a session that is not listed as open has no files (`OpenFilesAre.listed`).
-/

namespace ReportVault

open FileSystem

variable {place : Location} {id : SessionId} {F : Files → Prop} {top : Node}

/-- The directory holds a vault in which the files of the session are such. -/
def FilesAre (place : Location) (id : SessionId) (F : Files → Prop) (top : Node) : Prop :=
  ∃ v : Vault, v.IsHeldIn place top ∧ F (v.files id)

/-- The same, unless the session is closed. -/
def OpenFilesAre (place : Location) (id : SessionId) (F : Files → Prop) (top : Node) : Prop :=
  ∃ v : Vault, v.IsHeldIn place top ∧ (id ∈ v.sessions → F (v.files id))

theorem FilesAre.openFilesAre (h : FilesAre place id F top) : OpenFilesAre place id F top := by
  obtain ⟨v, hheld, hfiles⟩ := h
  exact ⟨v, hheld, fun _ => hfiles⟩

/-! ## Calls -/

/-- The files that are written when nothing happens in the session. -/
def SessionFile.quiet : List String := [header, startTime, user]

theorem SessionFile.mem_all_of_quiet : ∀ name ∈ quiet, name ∈ all := by decide

/-- The call leaves the files of the session alone, or it writes one of those that are written when
nothing happens in it. -/
def Store.Call.SparesOrWrites (id : SessionId) (call : Store.Call α) : Prop :=
  call.NamesEntries ∧ ∀ c, call.change? = some c →
    c.SparesFiles id ∨ ∃ name ∈ SessionFile.quiet, ∃ contents, c = .write id name contents

/-- The call leaves the files of the session alone or closes it. -/
def Store.Call.SparesOrCloses (id : SessionId) (call : Store.Call α) : Prop :=
  call.NamesEntries ∧ ∀ c, call.change? = some c →
    c.SparesFiles id ∨ c = .deleteSession id ∨ c = .deleteAll

/-- Calls keep of the files what the changes keep that they make. -/
theorem keeps_filesAre_of_changes (place : Location) {P : {α : Type} → Store.Call α → Prop}
    (hnames : ∀ {α : Type} (call : Store.Call α), P call → call.NamesEntries)
    (hchange : ∀ {α : Type} (call : Store.Call α), P call → ∀ c, call.change? = some c →
      ∀ v : Vault, F (v.files id) → F ((c.apply v).files id)) :
    place.store.Keeps (FilesAre place id F) P := by
  rintro α call hcall top ⟨v, hheld, hfiles⟩
  obtain ⟨⟨w, hw, hafter⟩, hanswer⟩ := hheld.exists_after call (hnames call hcall)
  refine ⟨⟨w, hafter, ?_⟩, hanswer⟩
  rcases hw with rfl | ⟨c, hc, rfl⟩
  · exact hfiles
  · exact hchange call hcall c hc v hfiles

theorem keeps_filesAre (place : Location) (id : SessionId)
    (hF : ∀ (files : Files), ∀ name ∈ SessionFile.quiet, ∀ contents : Bytes, F files →
      F (setEntry name (.file contents) files)) :
    place.store.Keeps (FilesAre place id F) (Store.Call.SparesOrWrites id) := by
  refine keeps_filesAre_of_changes place (P := Store.Call.SparesOrWrites id)
    (fun _ hcall => hcall.1) fun _ hcall c hc v hfiles => ?_
  rcases hcall.2 c hc with hsame | ⟨name, hname, contents, rfl⟩
  · rwa [Vault.files_apply hsame]
  · show F ((v.setFile id name contents).files id)
    rw [Vault.files_setFile_self]
    exact hF _ name hname contents hfiles

theorem keeps_openFilesAre (place : Location) (id : SessionId) (F : Files → Prop) :
    place.store.Keeps (OpenFilesAre place id F) (Store.Call.SparesOrCloses id) := by
  rintro α call ⟨hnames, hspares⟩ top ⟨v, hheld, hfiles⟩
  obtain ⟨⟨w, hw, hafter⟩, hanswer⟩ := hheld.exists_after call hnames
  refine ⟨⟨w, hafter, fun hopen => ?_⟩, hanswer⟩
  rcases hw with rfl | ⟨c, hc, rfl⟩
  · exact hfiles hopen
  · rcases hspares c hc with hsame | rfl | rfl
    · have hlookup := Vault.lookup_apply (v := v) hsame
      rw [Vault.files_eq_of_lookup hlookup]
      exact hfiles (Finmap.mem_iff.2 (hlookup ▸ Finmap.mem_iff.1 hopen))
    · exact absurd hopen (by simp [Change.apply, Vault.close])
    · exact absurd hopen Finmap.notMem_empty

namespace Engine

/-- Reading and removing reports leave all files alone. -/
theorem sparesOrCloses_of_change? {call : Store.Call α} (hnames : call.NamesEntries)
    (h : ∀ c, call.change? = some c → c.SparesFiles id) : call.SparesOrCloses id :=
  ⟨hnames, fun c hc => Or.inl (h c hc)⟩

theorem sparesOrCloses_deleteSession (other : SessionId) :
    (Store.Call.deleteSession other).SparesOrCloses id := by
  refine ⟨trivial, fun c hc => ?_⟩
  obtain rfl : Change.deleteSession other = c := Option.some.inj hc
  by_cases he : other = id
  · exact Or.inr (Or.inl (he ▸ rfl))
  · exact Or.inl he

theorem allowsFiles_spares (other : SessionId) :
    AllowsFiles (Store.Call.SparesOrCloses id) other :=
  ⟨sparesOrCloses_of_change? trivial (by simp [Store.Call.change?]), fun _ hname =>
    sparesOrCloses_of_change? hname (by simp [Store.Call.change?])⟩

theorem allowsFinalizing_spares (other : SessionId) :
    AllowsFinalizing (Store.Call.SparesOrCloses id) other where
  files := allowsFiles_spares other
  readReport := sparesOrCloses_of_change? trivial (by simp [Store.Call.change?])
  writeReport _ _ := sparesOrCloses_of_change? trivial fun c hc => Option.some.inj hc ▸ trivial
  deleteSession := sparesOrCloses_deleteSession other

theorem allowsPass_spares : AllowsPass (Store.Call.SparesOrCloses id) where
  openIds := sparesOrCloses_of_change? trivial (by simp [Store.Call.change?])
  reportIds := sparesOrCloses_of_change? trivial (by simp [Store.Call.change?])
  session other _ := allowsFinalizing_spares other
  deleteReport _ _ := sparesOrCloses_of_change? trivial fun c hc => Option.some.inj hc ▸ trivial

theorem sparesOrWrites_write (other : SessionId) {name : String} (hname : name ∈ SessionFile.quiet)
    (contents : Bytes) : (Store.Call.write other name contents).SparesOrWrites id := by
  refine ⟨isEntryName_sessionFile name (SessionFile.mem_all_of_quiet name hname), fun c hc => ?_⟩
  obtain rfl : Change.write other name contents = c := Option.some.inj hc
  by_cases he : other = id
  · exact Or.inr ⟨name, hname, contents, he ▸ rfl⟩
  · exact Or.inl he

end Engine

/-! ## Operations -/

/-- The calls of every operation name files that entries can have. -/
theorem Engine.Action.allowed_namesEntries (a : Engine.Action) :
    a.Allowed Store.Call.NamesEntries := by
  have hfiles : ∀ id, AllowsFiles Store.Call.NamesEntries id := fun _ => ⟨trivial, fun _ h => h⟩
  have hstoring : ∀ id, AllowsStoring Store.Call.NamesEntries id := fun _ =>
    ⟨trivial, fun _ _ h => h, fun _ h => h⟩
  have hfinalizing : ∀ id, AllowsFinalizing Store.Call.NamesEntries id := fun id =>
    ⟨hfiles id, trivial, fun _ _ => trivial, trivial⟩
  cases a with
  | persistReport report => exact (hstoring report.id).records
  | persistEvent caps correlation event id high => exact hstoring id
  | persistUser id user => exact (hstoring id).records
  | finalize caps current time =>
    exact ⟨trivial, trivial, fun id _ => hfinalizing id, fun _ _ => trivial⟩
  | finalizeNative caps id payload info => exact hfinalizing id
  | openIds => trivial
  | hasFinalized => trivial
  | loadFinalized => exact ⟨trivial, fun _ _ => trivial⟩
  | startTime id => exact hfiles id
  | deleteReport id => trivial
  | deleteAll => trivial

/-- After any run the directory holds some vault. -/
theorem Vault.IsHeldIn.exists_run {v : Vault} (h : v.IsHeldIn place top)
    (actions : List Engine.Action) :
    ∃ w : Vault, w.IsHeldIn place (place.engine.after top actions) := by
  have hkeeps : place.store.Keeps (fun top => ∃ w : Vault, w.IsHeldIn place top)
      Store.Call.NamesEntries := by
    rintro α call hnames top ⟨w, hw⟩
    obtain ⟨⟨after, -, hafter⟩, hanswer⟩ := hw.exists_after call hnames
    exact ⟨⟨after, hafter⟩, hanswer⟩
  induction actions generalizing v top with
  | nil => exact ⟨v, h⟩
  | cons a actions ih =>
    obtain ⟨w, hw⟩ := hkeeps.run .json a.allowed_namesEntries ⟨v, h⟩
    exact ih hw

namespace Engine.Action

/-- The operation stores something in the session. -/
def StoresIn (id : SessionId) : Action → Prop
  | .persistReport report => report.id = id
  | .persistEvent _ _ _ other _ => other = id
  | .persistUser other _ => other = id
  | _ => False

/-- An operation stores a header, an event or a user in the session, or nothing. -/
theorem storesIn_cases (a : Action) (id : SessionId) :
    (∃ report, a = .persistReport report ∧ report.id = id) ∨
    (∃ caps correlation event high, a = .persistEvent caps correlation event id high) ∨
    (∃ user, a = .persistUser id user) ∨ ¬ a.StoresIn id := by
  by_cases h : a.StoresIn id
  · cases a with
    | persistReport report => exact Or.inl ⟨report, rfl, h⟩
    | persistEvent caps correlation event other high =>
      obtain rfl : other = id := h
      exact Or.inr (Or.inl ⟨caps, correlation, event, high, rfl⟩)
    | persistUser other user =>
      obtain rfl : other = id := h
      exact Or.inr (Or.inr (Or.inl ⟨user, rfl⟩))
    | _ => exact h.elim
  · exact Or.inr (Or.inr (Or.inr h))

/-- An operation that stores nothing in a session leaves its files alone or closes it. -/
theorem allowed_sparesOrCloses {a : Action} (ha : ¬ a.StoresIn id) :
    a.Allowed (Store.Call.SparesOrCloses id) := by
  have hstoring : ∀ {other : SessionId}, other ≠ id →
      AllowsStoring (Store.Call.SparesOrCloses id) other := fun hne =>
    { slots := ⟨trivial, by simp [Store.Call.change?]⟩
      write := fun _ _ hname => ⟨hname, fun _ hc => Or.inl (Option.some.inj hc ▸ hne)⟩
      delete := fun _ hname => ⟨hname, fun _ hc => Or.inl (Option.some.inj hc ▸ hne)⟩ }
  cases a with
  | persistReport report => exact (hstoring ha).records
  | persistEvent caps correlation event other high => exact hstoring ha
  | persistUser other user => exact (hstoring ha).records
  | finalize caps current time => exact allowsPass_spares
  | finalizeNative caps other payload info => exact allowsFinalizing_spares other
  | openIds => exact allowsPass_spares.openIds
  | hasFinalized => exact allowsPass_spares.reportIds
  | loadFinalized =>
    exact ⟨allowsPass_spares.reportIds, fun other hshort =>
      (allowsPass_spares.session other hshort).readReport⟩
  | startTime other => exact allowsFiles_spares other
  | deleteReport other =>
    exact sparesOrCloses_of_change? trivial fun c hc => Option.some.inj hc ▸ trivial
  | deleteAll => exact ⟨trivial, fun c hc => Or.inr (Or.inr (Option.some.inj hc).symm)⟩

end Engine.Action

/-- An operation that stores nothing in the session keeps everything of its files, or it closes the
session. -/
theorem OpenFilesAre.step_of_not_storesIn (h : OpenFilesAre place id F top) {a : Engine.Action}
    (ha : ¬ a.StoresIn id) : OpenFilesAre place id F (a.run place.engine top).2 :=
  Store.Keeps.run (keeps_openFilesAre place id F) .json (Engine.Action.allowed_sparesOrCloses ha) h

/-- An operation that gives no event to the session keeps what does not depend on its header, its
start time and its user, or it closes the session. -/
theorem FilesAre.step
    (hF : ∀ (files : Files), ∀ name ∈ SessionFile.quiet, ∀ contents : Bytes, F files →
      F (setEntry name (.file contents) files))
    (h : FilesAre place id F top) (a : Engine.Action)
    (ha : ∀ caps correlation event high,
      a ≠ .persistEvent caps correlation event id high) :
    OpenFilesAre place id F (a.run place.engine top).2 := by
  have hkeeps : place.store.Keeps (FilesAre place id F) (Store.Call.SparesOrWrites id) :=
    keeps_filesAre place id hF
  obtain ⟨report, rfl, -⟩ | ⟨caps, correlation, event, high, rfl⟩ | ⟨user, rfl⟩ | hspares :=
    a.storesIn_cases id
  · refine (Agree.keeps (Engine.agree_persistReport_of_writes (k := .json) hkeeps.agrees ?_ ?_)
      h).openFilesAre
    · exact Engine.sparesOrWrites_write report.id (by decide)
    · exact Engine.sparesOrWrites_write report.id (by decide)
  · exact absurd rfl (ha caps correlation event high)
  · exact (Agree.keeps (Engine.agree_attempt (k := .json) hkeeps.agrees
      (Engine.sparesOrWrites_write id (by decide) _)) h).openFilesAre
  · exact h.openFilesAre.step_of_not_storesIn hspares

/-- An event that is stored does to the files what storing it in a vault does to them. -/
theorem FilesAre.persistEvent {G : Files → Prop} {caps : Retention.Caps}
    {correlation : Option String} {event : Event} {high : Bool} (hid : id.IsShort)
    (h : FilesAre place id F top)
    (hstored : ((place.engine.tryPersistEvent caps correlation event id high).run top).1 = .ok ())
    (hG : ∀ v w : Vault, F (v.files id) →
      (Engine.tryPersistEvent ⟨Vault.store place, .json⟩ caps correlation event id high).run v =
        (.ok (), w) → G (w.files id)) :
    FilesAre place id G (place.engine.persistEvent caps correlation event id high top).2 := by
  obtain ⟨v, hheld, hfiles⟩ := h
  obtain ⟨hanswer, -, hafter⟩ := Engine.agree_tryPersistEvent (k := .json)
    (Store.Agrees.held place) (Engine.allowsStoring_isProper hid) caps correlation event high top v
    hheld
  have hrun : (place.engine.persistEvent caps correlation event id high top).2 =
      ((place.engine.tryPersistEvent caps correlation event id high).run top).2 :=
    congrArg Prod.snd (Medium.run_ignored _ top)
  rw [hrun]
  exact ⟨_, hafter, hG v _ hfiles (Prod.ext (hanswer.symm.trans hstored) rfl)⟩

/-- The sessions that are listed as open are those of the vault. -/
theorem Vault.IsHeldIn.mem_openIds {v : Vault} (h : v.IsHeldIn place top) :
    id ∈ (place.engine.openIds top).1 ↔ id ∈ v.sessions := by
  have hlisted : place.engine.openIds top = (v.sessions.keys.sort, top) :=
    (run_bind (Medium.run_succeeds? h.perform_openIds) _).trans rfl
  rw [hlisted, Finset.mem_sort, Finmap.mem_keys]

/-- A session whose files are not those of a closed one is listed as open. -/
theorem FilesAre.mem_openIds (h : FilesAre place id F top) (hclosed : ¬ F []) :
    id ∈ (place.engine.openIds top).1 := by
  obtain ⟨v, hheld, hfiles⟩ := h
  refine hheld.mem_openIds.2 (by_contra fun hnot => hclosed ?_)
  rwa [Vault.files_eq_nil hnot] at hfiles

/-- A session that is listed as open has its files, and any other one has none. -/
theorem OpenFilesAre.listed (h : OpenFilesAre place id F top) :
    FilesAre place id (if id ∈ (place.engine.openIds top).1 then F else (· = [])) top := by
  obtain ⟨v, hheld, hfiles⟩ := h
  refine ⟨v, hheld, ?_⟩
  split
  · next hopen => exact hfiles (hheld.mem_openIds.1 hopen)
  · next hclosed => exact Vault.files_eq_nil fun hopen => hclosed (hheld.mem_openIds.2 hopen)

end ReportVault
