import ReportVault.Proofs.Engine.Native
import ReportVault.Proofs.Engine.Survivors

/-!
# ReportVault.Proofs.Engine.ReadFailures

What becomes of an open session when the storage does not let read some of its files.

Only a session whose event files cannot be listed, or whose header cannot be read, stays open for a
later pass.  Where any other file cannot be read, the session is finalized without it and closed.
-/

namespace ReportVault

open FileSystem Retention
open Engine (Assembled rankOf withNativeCrash)

namespace Medium

variable {m : Medium} {v : Vault} {id : SessionId}

/-- Only calls that look at the session fail, and with failures of the storage. -/
def FailsReadsOf (m : Medium) (id : SessionId) : Prop :=
  ∀ {α : Type} (call : Store.Call α) failure, m.fails call = some failure →
    call.isRead = true ∧ call.session? = some id ∧ failure.isStorage = true

/-- The call fails. -/
def Fails (m : Medium) (v : Vault) (call : Store.Call α) : Prop :=
  ∃ failure, m.answer v call = .error failure

namespace FailsReadsOf

theorem eq_none (h : m.FailsReadsOf id) {call : Store.Call α}
    (hcall : call.isRead = false ∨ call.session? = none) : m.fails call = none := by
  cases hfails : m.fails call with
  | none => rfl
  | some failure =>
    obtain ⟨hread, hsession, -⟩ := h call failure hfails
    rcases hcall with hcall | hcall
    · rw [hread] at hcall
      exact absurd hcall (by simp)
    · rw [hsession] at hcall
      exact absurd hcall (by simp)

theorem made_eq (h : m.FailsReadsOf id) {c : Change} (hc : c.call.isRead = false) :
    m.made c = [c] := by
  rw [made, h.eq_none (Or.inl hc)]
  rfl

/-- Reads of a session that can be stored fail as the storage does. -/
theorem isStorage (h : m.FailsReadsOf id) (hid : id.IsStorable) {name : String}
    {failure : Failure} (hanswer : m.answer v (.read id name) = .error failure) :
    failure.isStorage = true := by
  rw [answer] at hanswer
  cases hfails : m.fails (.read id name) with
  | some cause =>
    rw [hfails, Except.error.injEq] at hanswer
    rw [← hanswer]
    exact (h _ cause hfails).2.2
  | none =>
    rw [hfails, v.perform_read m.place hid] at hanswer
    have hread : v.readAnswer m.place id name = .error failure := hanswer
    rw [Vault.readAnswer] at hread
    split at hread
    · exact absurd hread (by simp)
    · exact absurd hread (by simp)
    · rw [← Except.error.inj hread]
      rfl

theorem answer_slots (h : m.FailsReadsOf id) (hid : id.IsStorable) :
    (∃ failure, m.answer v (.slots id) = .error failure ∧ failure.isStorage = true) ∨
      m.answer v (.slots id) = .ok (v.files id).slots := by
  rw [answer]
  cases hfails : m.fails (.slots id) with
  | some cause => exact Or.inl ⟨cause, rfl, (h _ cause hfails).2.2⟩
  | none =>
    rw [v.perform_slots m.place hid]
    exact Or.inr rfl

/-- A header that cannot be used is either not let read, or it is bad. -/
theorem header_error (h : m.FailsReadsOf id) (hid : id.IsStorable) (hjson : m.codec = .json)
    {failure : Failure} (hheader : m.header v id = .error failure) :
    failure.isStorage = true ↔ m.Fails v (.read id SessionFile.header) := by
  rw [header] at hheader
  rw [Fails]
  split at hheader
  · next contents hanswer =>
    rw [hjson] at hheader
    simp [Codec.isStorage_of_decodeReport_json hheader, hanswer]
  · next hanswer =>
    rw [← Except.error.inj hheader]
    simp [hanswer, Failure.isStorage]
  · next cause hanswer =>
    obtain rfl : cause = failure := Except.error.inj hheader
    simp [h.isStorage hid hanswer, hanswer]

/-- A session stays when its event files cannot be listed or its header cannot be read. -/
theorem outcome_isStorage_iff (h : m.FailsReadsOf id) (hid : id.IsStorable)
    (hjson : m.codec = .json) (time : Int64) (cap : Nat) :
    (∃ failure, m.outcome v id time cap = .error failure ∧ failure.isStorage = true) ↔
      m.Fails v (.slots id) ∨
        (v.files id).slots ≠ [] ∧ m.Fails v (.read id SessionFile.header) := by
  rcases h.answer_slots (v := v) hid with ⟨cause, hslots, hstorage⟩ | hslots
  · have hfails : m.Fails v (.slots id) := ⟨cause, hslots⟩
    simp [outcome, hslots, hstorage, hfails]
  · have hfails : ¬ m.Fails v (.slots id) := by
      rintro ⟨failure, hfailure⟩
      rw [hslots] at hfailure
      exact absurd hfailure (by simp)
    cases hempty : (v.files id).slots.isEmpty with
    | true => simp [outcome, hslots, hfails, List.isEmpty_iff.1 hempty]
    | false =>
      have hne : (v.files id).slots ≠ [] := by
        intro he
        simp [he] at hempty
      cases hheader : m.header v id with
      | error failure =>
        have hiff := h.header_error hid hjson hheader
        simp [outcome, hslots, hfails, hempty, hne, hheader, Except.map, hiff]
      | ok header =>
        have hread : ¬ m.Fails v (.read id SessionFile.header) := by
          rintro ⟨failure, hfailure⟩
          rw [Medium.header, hfailure] at hheader
          exact absurd hheader (by simp)
        simp [outcome, hslots, hfails, hempty, hheader, Except.map, hread]

end FailsReadsOf

end Medium

/-! ## Finalization passes -/

namespace Pass

variable {p : Pass} {v : Vault} {id : SessionId}

/-- The report cap costs the session its place or its report. -/
def Evicts (p : Pass) (v : Vault) (id : SessionId) : Prop :=
  (p.verdict v).isEvicted id = true ∨ id ∈ p.losers (v.after (p.settling v))

/-- A session that is kept is closed, unless the storage does not let assemble it. -/
theorem deleteSession_mem_changes_iff (hjson : p.codec = .json) (hfails : p.FailsReadsOf id)
    (hkept : id ∈ p.kept v) :
    .deleteSession id ∈ p.changes v ↔
      ¬ ∃ failure, p.outcome v id = .error failure ∧ failure.isStorage = true := by
  constructor
  · rintro hmem ⟨failure, hout, hstorage⟩
    cases mem_changes_iff.1 hmem with
    | settle h =>
      cases h with
      | discard hid => exact lt_irrefl id (lt_of_mem_surplus_of_mem_kept hid hkept)
      | close _ _ hread _ => exact absurd hstorage (by simp [hread failure hout])
  · intro hout
    refine mem_changes_iff.2 (.settle (.close hkept (hfails.eq_none (Or.inl rfl)) ?_ ?_))
    · intro failure hfailure
      exact Bool.eq_false_iff.2 fun hstorage => hout ⟨failure, hfailure, hstorage⟩
    · rintro a - rfl - failure hfailure
      rw [p.written_of_fails_eq_none hjson (hfails.eq_none (Or.inl rfl))] at hfailure
      exact absurd hfailure (by simp)

/-- A session that is assembled and not evicted has its new report. -/
theorem hasReport_of_assembled (hjson : p.codec = .json) (hfails : p.FailsReadsOf id)
    (hplace : ¬ p.Evicts v id) {a : Assembled} (ha : a ∈ p.assembled v) (hid : a.id = id) :
    (v.after (p.changes v)).HasReport id a.tier a.report := by
  subst hid
  intro t
  rw [lookup_changes fun other => hfails.eq_none (Or.inl rfl),
    if_neg fun hloser => hplace (Or.inr hloser)]
  have hwritten : p.written a = .ok a.report.encode :=
    p.written_of_fails_eq_none hjson (hfails.eq_none (Or.inl rfl))
  exact lookup_settling ha (Bool.eq_false_iff.2 fun h => hplace (Or.inl h)) hwritten t

/-- A session that is neither assembled nor evicted keeps the report that it was finalized with. -/
theorem lookup_reports_of_not_mem (hfails : p.FailsReadsOf id) (hplace : ¬ p.Evicts v id)
    (hnone : ∀ a ∈ p.assembled v, a.id ≠ id) (t : Tier) :
    ((v.after (p.changes v)).reports t).lookup id = (v.reports t).lookup id := by
  rw [lookup_changes fun other => hfails.eq_none (Or.inl rfl),
    if_neg fun hloser => hplace (Or.inr hloser)]
  exact lookup_settling_of_not_written (fun a ha hid => absurd hid (hnone a ha)) t

theorem lookup_reports_of_not_assembled (hfails : p.FailsReadsOf id) (hplace : ¬ p.Evicts v id)
    {failure : Failure} (hout : p.outcome v id = .error failure) (t : Tier) :
    ((v.after (p.changes v)).reports t).lookup id = (v.reports t).lookup id := by
  refine lookup_reports_of_not_mem hfails hplace (fun a ha hid => ?_) t
  rw [← hid, (mem_assembled.1 ha).2] at hout
  exact absurd hout (by simp)

/-- As long as there are places for all sessions, none is evicted. -/
theorem not_evicts_of_card_le
    (hlist : p.fails (α := List (SessionId × Tier)) .reportIds = none)
    (hcard : ((p.contenders v).image Rank.id).card ≤ p.caps.reports) : ¬ p.Evicts v id := by
  rintro (hevicted | hloser)
  · obtain ⟨r, hr, -⟩ : ∃ r ∈ (p.verdict v).evict, r.id = id := by
      simpa [Verdict.isEvicted] using hevicted
    have hout := mem_selectSurvivors_evict.1 hr
    rw [toFinset_contenders hlist, top_of_card_le ((card_best_le _).trans hcard)] at hout
    exact hout.2 hout.1
  · obtain ⟨tier, htier, hout⟩ := (mem_losers hlist).1 hloser
    have hrank := Vault.mem_ranks (r := rankOf id tier).2 ⟨tier, htier, rfl⟩
    have hranks : (v.after (p.settling v)).ranks.card ≤ p.caps.reports := by
      rw [← Finset.card_image_of_injOn (f := Rank.id) fun r hr c hc hid =>
        Vault.eq_of_mem_ranks hc hr hid]
      exact (Finset.card_le_card (Finset.image_subset_image ranks_settling_subset)).trans hcard
    rw [top_of_card_le hranks] at hout
    exact hout hrank

/-- Nor is the only session that there is. -/
theorem not_evicts_of_alone
    (hlist : p.fails (α := List (SessionId × Tier)) .reportIds = none)
    (halone : ∀ other, other ∈ v.sessions ∨ other ∈ v.finalized → other = id)
    (hcap : 1 ≤ p.caps.reports) : ¬ p.Evicts v id := by
  have hids : (p.contenders v).image Rank.id ⊆ {id} := by
    intro other hother
    obtain ⟨r, hr, rfl⟩ := Finset.mem_image.1 hother
    exact Finset.mem_singleton.2 (halone r.id (id_of_mem_contenders hr))
  refine not_evicts_of_card_le hlist ((Finset.card_le_card hids).trans ?_)
  rwa [Finset.card_singleton]

section Plain

variable {place : Location} {caps : Caps} {current : Option SessionId} {time : Int64} {tier : Tier}
  {r : Report}

theorem failsReadsOf_plain : (plain place caps current time).FailsReadsOf id :=
  fun _ _ h => absurd h (by simp [plain, Medium.plain])

/-- A report stays if its session is neither assembled nor evicted. -/
theorem hasReport_of_not_mem (h : v.HasReport id tier r)
    (hplace : ¬ (plain place caps current time).Evicts v id)
    (hnone : ∀ a ∈ (plain place caps current time).assembled v, a.id ≠ id) :
    (v.after ((plain place caps current time).changes v)).HasReport id tier r := fun t => by
  rw [lookup_reports_of_not_mem failsReadsOf_plain hplace hnone, h t]

/-- What is made of the files of a session is its report after the pass, if it is complete. -/
theorem hasReport_of_isComplete (hid : id.IsStorable)
    (hnewest : id ∈ v.newest current caps.openSessions)
    (hplace : ¬ (plain place caps current time).Evicts v id) (hslots : (v.files id).slots ≠ [])
    {header : Report} (hheader : (v.files id).header? = some header)
    (hcomplete : ((v.files id).assembled id time caps.events header
      (v.recorded? id)).report.isComplete = true) :
    (v.after ((plain place caps current time).changes v)).HasReport id
      ((v.files id).assembled id time caps.events header (v.recorded? id)).tier
      ((v.files id).assembled id time caps.events header (v.recorded? id)).report := by
  have haid : ((v.files id).assembled id time caps.events header (v.recorded? id)).id = id :=
    Assembled.id_ofParts ..
  refine hasReport_of_assembled rfl failsReadsOf_plain hplace (mem_assembled.2 ?_) haid
  rw [haid]
  exact ⟨mem_kept_plain.2 hnewest,
    (outcome_plain_eq_some_iff hid).2 ⟨hslots, header, hheader, rfl, hcomplete⟩⟩

/-- The report of the only session that there is is written. -/
theorem writeReport_mem_changes_of_alone (hopen : id ∈ v.sessions) (hcurrent : some id ≠ current)
    (halone : ∀ other, other ∈ v.sessions ∨ other ∈ v.finalized → other = id)
    (hkept : 1 ≤ caps.openSessions) (hplace : 1 ≤ caps.reports) {a : Assembled}
    (hout : (plain place caps current time).outcome v id = .ok (some a)) :
    .writeReport id a.tier a.report.encode ∈ (plain place caps current time).changes v := by
  have hid : a.id = id := id_of_outcome hout
  have hkeys : (v.sessions.keys.filter fun id => some id ≠ current).card ≤ caps.openSessions := by
    have hsingle : v.sessions.keys ⊆ {id} := fun other hother =>
      Finset.mem_singleton.2 (halone other (Or.inl (Finmap.mem_keys.1 hother)))
    exact (Finset.card_le_card ((Finset.filter_subset _ _).trans hsingle)).trans hkept
  have hmem : a ∈ (plain place caps current time).assembled v := by
    rw [mem_assembled, hid]
    exact ⟨mem_kept_plain.2 ((Vault.mem_newest_of_card_le hkeys).2 ⟨hopen, hcurrent⟩), hout⟩
  have hstays : ¬ (plain place caps current time).Evicts v id :=
    not_evicts_of_alone rfl halone hplace
  refine writeReport_mem_changes_iff.2 ⟨a, ⟨hmem, Bool.eq_false_iff.2 fun h => ?_, _,
    written_plain a⟩, hid, rfl, written_plain a⟩
  exact hstays (Or.inl (hid ▸ h))

/-- Without an event file nothing is assembled. -/
theorem id_ne_of_slots_eq_nil (hid : id.IsStorable) (hslots : (v.files id).slots = [])
    {a : Assembled} (ha : a ∈ (plain place caps current time).assembled v) : a.id ≠ id := by
  rintro rfl
  exact ((outcome_plain_eq_some_iff hid).1 (mem_assembled.1 ha).2).1 hslots

end Plain

end Pass

/-! ## Native crashes -/

namespace Medium

variable {m : Medium} {v : Vault} {id : SessionId} {caps : Caps} {payload : NativePayload}
  {info : Option ExitInfo}

/-- Only the base of the report can be missing. -/
theorem nativeChanges_eq (hjson : m.codec = .json) (hfails : m.FailsReadsOf id) :
    m.nativeChanges v id caps payload info =
      match m.nativeBase v id with
      | .error _ => []
      | .ok (base, fromOpen) =>
        .writeReport id .native (withNativeCrash base payload (m.text? v id SessionFile.user) info
          caps.events).encode :: if fromOpen then [.deleteSession id] else [] := by
  rw [nativeChanges]
  cases m.nativeBase v id with
  | error failure => rfl
  | ok base =>
    have hencode : ∀ r : Report, m.codec.encodeReport r = .ok r.encode := fun r => by
      rw [hjson]
      rfl
    have hwrite : ∀ contents, m.fails (.writeReport id .native contents) = none :=
      fun contents => hfails.eq_none (Or.inl rfl)
    simp only [hencode, hwrite, hfails.made_eq (c := .deleteSession id) rfl, Option.isNone_none,
      if_true]

/-- A session that a native crash is attached to is closed, unless its header cannot be used or its
event files cannot be listed. -/
theorem deleteSession_mem_nativeChanges_iff (hjson : m.codec = .json) (hfails : m.FailsReadsOf id)
    (hid : id.IsStorable) :
    .deleteSession id ∈ m.nativeChanges v id caps payload info ↔
      ¬ ((∃ failure, m.header v id = .error failure) ∨ m.Fails v (.slots id)) := by
  rw [nativeChanges_eq hjson hfails, nativeBase]
  cases hheader : m.header v id with
  | error failure => cases m.recorded? v id <;> simp
  | ok header =>
    rcases hfails.answer_slots (v := v) hid with ⟨cause, hslots, -⟩ | hslots
    · simp [Fails, hslots, Except.map]
    · simp [Fails, hslots, Except.map]

/-- The report of a session that stays open is as it was, or it is the report that the session was
finalized with and has the native crash in it. -/
theorem lookup_reports_nativeChanges (hjson : m.codec = .json) (hfails : m.FailsReadsOf id)
    (hstays : .deleteSession id ∉ m.nativeChanges v id caps payload info) :
    (∀ t, ((v.after (m.nativeChanges v id caps payload info)).reports t).lookup id =
      (v.reports t).lookup id) ∨
    ∃ r, m.recorded? v id = some r ∧
      ∀ t, ((v.after (m.nativeChanges v id caps payload info)).reports t).lookup id =
        if t = .native then
          some (withNativeCrash r payload (m.text? v id SessionFile.user) info caps.events).encode
        else none := by
  rw [nativeChanges_eq hjson hfails] at hstays ⊢
  cases hbase : m.nativeBase v id with
  | error failure => exact Or.inl fun t => rfl
  | ok base =>
    obtain ⟨base, fromOpen⟩ := base
    rw [hbase] at hstays
    cases fromOpen with
    | true => exact absurd hstays (by simp)
    | false =>
      refine Or.inr ⟨base, ?_, fun t => Vault.lookup_setReport_self .native t _⟩
      rw [nativeBase] at hbase
      cases hheader : m.header v id with
      | error failure =>
        rw [hheader] at hbase
        cases hrecorded : m.recorded? v id with
        | none => simp [hrecorded] at hbase
        | some r => simpa [hrecorded] using hbase
      | ok header =>
        rw [hheader] at hbase
        cases hslots : m.answer v (.slots id) <;> simp [hslots, Except.map] at hbase

end Medium

/-! ## Directories -/

section Directory

variable {p : Pass} {v : Vault} {id : SessionId} {tree : Node}

/-- The files of an open session are as they were, or the session is closed. -/
theorem lookup_eq_iff_not_mem {changes : List Change} (hchanges : ∀ c ∈ changes, c.Finalizes)
    (hopen : id ∈ v.sessions) :
    (v.after changes).sessions.lookup id = v.sessions.lookup id ↔
      .deleteSession id ∉ changes := by
  obtain ⟨files, hfiles⟩ := Finmap.mem_iff.1 hopen
  rw [Vault.lookup_after_of_finalizes hchanges, hfiles]
  by_cases hmem : .deleteSession id ∈ changes <;> simp [hmem]

/-- What stays of an open session when the storage does not let read some of its files.  A pass that
does not evict the session leaves its files as they are if its event files cannot be listed, or if
there are some and its header cannot be read, and in no other case; then the report stays as well
that the session was finalized with.  Attaching a native crash leaves the files as they are if the
header cannot be used or the event files cannot be listed, and in no other case. -/
theorem open_files_stay_iff (hjson : p.codec = .json) (hheld : v.IsHeldIn p.place tree)
    (hfails : p.FailsReadsOf id) (hnewest : id ∈ v.newest p.current p.caps.openSessions)
    (hplace : ¬ p.Evicts v id) (payload : NativePayload) (info : Option ExitInfo) :
    let e : Engine (StateM Node) := ⟨p.place.store.failing p.fails, p.codec⟩
    (∃ w : Vault, w.IsHeldIn p.place (e.finalize p.caps p.current p.time tree).2 ∧
      (w.sessions.lookup id = v.sessions.lookup id ↔
        p.Fails v (.slots id) ∨
          (v.files id).slots ≠ [] ∧ p.Fails v (.read id SessionFile.header)) ∧
      (w.sessions.lookup id = v.sessions.lookup id →
        ∀ t, (w.reports t).lookup id = (v.reports t).lookup id)) ∧
    ∃ w : Vault, w.IsHeldIn p.place (e.finalizeNative p.caps id payload info tree).2 ∧
      (w.sessions.lookup id = v.sessions.lookup id ↔
        (∃ failure, p.header v id = .error failure) ∨ p.Fails v (.slots id)) ∧
      (w.sessions.lookup id = v.sessions.lookup id →
        (∀ t, (w.reports t).lookup id = (v.reports t).lookup id) ∨
        ∃ r, p.recorded? v id = some r ∧ ∀ t, (w.reports t).lookup id =
          if t = .native then
            some (withNativeCrash r payload (p.text? v id SessionFile.user) info
              p.caps.events).encode
          else none) := by
  have hv := hheld.isWellFormed
  have hkept : id ∈ p.kept v := (Pass.mem_kept (hfails.eq_none (Or.inr rfl))).2 hnewest
  have hopen : id ∈ v.sessions :=
    (Pass.open_of_mem_candidates (Pass.mem_candidates_of_mem_kept hkept)).1
  have hid := hv.isStorable_open id hopen
  refine ⟨⟨_, (Pass.finalize_directory hheld).2, ?_⟩,
    ⟨_, Medium.finalizeNative_directory hheld hid p.caps payload info, ?_⟩⟩
  · have hstays := Pass.deleteSession_mem_changes_iff hjson hfails hkept
    have hout := hfails.outcome_isStorage_iff (v := v) hid hjson p.time p.caps.events
    rw [lookup_eq_iff_not_mem (fun c hc => Pass.finalizes_of_mem_changes hc) hopen, hstays, not_not]
    refine ⟨hout, ?_⟩
    rintro ⟨failure, hfailure, -⟩
    exact Pass.lookup_reports_of_not_assembled hfails hplace hfailure
  · have hfinalizes : ∀ c ∈ p.nativeChanges v id p.caps payload info, c.Finalizes := by
      intro c hc
      rw [Medium.nativeChanges_eq hjson hfails] at hc
      split at hc
      · exact absurd hc List.not_mem_nil
      · next base fromOpen _ =>
        cases fromOpen <;> simp at hc <;> rcases hc with rfl | rfl <;> trivial
    rw [lookup_eq_iff_not_mem hfinalizes hopen]
    refine ⟨?_, Medium.lookup_reports_nativeChanges hjson hfails⟩
    rw [Medium.deleteSession_mem_nativeChanges_iff hjson hfails hid, not_not]

end Directory

/-! ## An event that cannot be read -/

namespace OneEvent

/-- A session. -/
def session : SessionId := ⟨"a"⟩

/-- The header of the session. -/
def header : Report := .header "1" ⟨"app", "1", "1.0"⟩ session 0

/-- The first event file. -/
def slot : Slot := .new 1 false

/-- The session is open and has had one event; there is nothing else in the store. -/
def vault : Vault :=
  (Vault.empty.setFile session SessionFile.header header.encode).setFile session slot.fileName
    (Event.log 0 "x").encode

theorem isEntryName_data : IsEntryName "data" := by constructor <;> decide

/-- A pass in which the storage does not let read the event. -/
def pass : Pass where
  place := .named "data" isEntryName_data
  fails call :=
    match call with
    | .read id name =>
      if id = session ∧ name = slot.fileName then some (.storage .read name .denied) else none
    | _ => none
  codec := .json
  caps := {}
  current := none
  time := 0

theorem isStorable : session.IsStorable := ⟨by decide, by decide⟩

theorem files_vault : vault.files session =
    [(SessionFile.header, .file header.encode), (slot.fileName, .file (Event.log 0 "x").encode)]
    := by
  rw [vault, Vault.files_setFile_self, Vault.files_setFile_self]
  rfl

theorem slots_vault : (vault.files session).slots = [slot] := by
  have hheader : Slot.ofFileName? SessionFile.header = none := by decide
  have hslot : Slot.ofFileName? slot.fileName = some slot := Slot.ofFileName?_name 1 false
  rw [files_vault, Files.slots]
  show ([SessionFile.header, slot.fileName].filterMap Slot.ofFileName?).mergeSort _ = _
  rw [List.filterMap_cons_none hheader, List.filterMap_cons_some hslot, List.filterMap_nil,
    List.mergeSort_singleton]

theorem exists_tree : ∃ tree, vault.IsHeldIn pass.place tree := by
  have hheader := isEntryName_sessionFile SessionFile.header (by decide)
  obtain ⟨_, hopen⟩ := (Vault.IsHeldIn.empty_named isEntryName_data).exists_setFile isStorable
    hheader (by decide) header.encode
  exact hopen.exists_setFile isStorable (Slot.isEntryName_name 1 false) (by decide)
    (Event.log 0 "x").encode

theorem failsReadsOf : pass.FailsReadsOf session := by
  intro α call failure hfails
  cases call <;> simp only [pass, reduceCtorEq] at hfails
  next id name =>
    split at hfails
    · next h =>
      rw [h.1, ← Option.some.inj hfails]
      exact ⟨rfl, rfl, rfl⟩
    · exact absurd hfails (by simp)

theorem mem_newest : session ∈ vault.newest pass.current pass.caps.openSessions := by
  have hkeys : vault.sessions.keys = {session} := rfl
  rw [Vault.newest, hkeys, Finset.filter_singleton, if_pos (by simp [pass]),
    top_of_card_le (by simp [pass])]
  exact Finset.mem_singleton_self session

theorem header?_vault : (vault.files session).header? = some header := by
  rw [Files.header?, Files.contents?, files_vault]
  exact header.decode?_encode

theorem events_vault : (vault.files session).slots.map (vault.files session).event? =
    [Event.log 0 "x"].map some := by
  rw [slots_vault, files_vault]
  exact congrArg (fun e => [e]) (Event.decode?_encode (Event.log 0 "x"))

/-- There is no other session. -/
theorem alone (other : SessionId) (h : other ∈ vault.sessions ∨ other ∈ vault.finalized) :
    other = session := by
  have hkeys : vault.sessions.keys = {session} := rfl
  have hfinalized : vault.finalized = ∅ := rfl
  rw [← Finmap.mem_keys, hkeys, hfinalized] at h
  simpa using h

/-- Without its event there is nothing to report of the session. -/
theorem outcome_eq : pass.outcome vault session = .ok none := by
  have hslots : pass.answer vault (.slots session) = .ok [slot] := by
    rw [← slots_vault]
    exact congrArg Prod.fst (vault.perform_slots pass.place isStorable)
  have hread : pass.answer vault (.read session SessionFile.header) =
      .ok (some header.encode) := by
    have hitem : vault.item? session SessionFile.header = some (.file header.encode) := by
      rw [Vault.item?, files_vault]
      rfl
    refine (congrArg Prod.fst (vault.perform_read pass.place isStorable _)).trans ?_
    rw [Vault.readAnswer, hitem]
  have hheader : pass.header vault session = .ok header := by
    rw [Medium.header, hread]
    exact Codec.decodeReport_json_eq_ok_iff.2 header.decode?_encode
  have hevent : pass.event? vault session slot = none := by
    rw [Medium.event?, Medium.answer]
    simp [pass, Medium.decoded?]
  have hrecorded : pass.recorded? vault session = none := by
    have hanswer : pass.answer vault (.readReport session) = .ok none :=
      congrArg Prod.fst (vault.perform_readReport pass.place isStorable)
    rw [Medium.recorded?, hanswer]
    rfl
  have hevents : pass.events vault session (keepNewest [slot] pass.caps.events) = [] := by
    show [slot].filterMap (pass.event? vault session) = []
    rw [List.filterMap_cons_none hevent, List.filterMap_nil]
  rw [Pass.outcome, Medium.outcome, hslots]
  dsimp only
  rw [if_neg (by simp), hheader, hrecorded, hevents]
  rfl

theorem assembled_eq : pass.assembled vault = [] := by
  refine List.eq_nil_iff_forall_not_mem.2 fun a ha => ?_
  have hout := (Pass.mem_assembled.1 ha).2
  rw [alone a.id (Or.inl (Pass.open_of_mem_assembled ha).1), outcome_eq] at hout
  exact absurd hout (by simp)

/-- There is no report that could evict the session. -/
theorem not_evicts : ¬ pass.Evicts vault session :=
  Pass.not_evicts_of_alone rfl alone (by decide)

end OneEvent

/-- A session whose only event cannot be read is closed, and nothing of it is left. -/
theorem unreadable_event_is_lost : ∃ tree : Node,
    OneEvent.vault.IsHeldIn OneEvent.pass.place tree ∧
    OneEvent.pass.FailsReadsOf OneEvent.session ∧
    OneEvent.session ∈ OneEvent.vault.newest none 8 ∧
    ¬ OneEvent.pass.Evicts OneEvent.vault OneEvent.session ∧
    OneEvent.pass.Fails OneEvent.vault (.read OneEvent.session OneEvent.slot.fileName) ∧
    ∃ w : Vault,
      w.IsHeldIn OneEvent.pass.place (Engine.finalize
        ⟨OneEvent.pass.place.store.failing OneEvent.pass.fails, .json⟩ {} none 0 tree).2 ∧
      w.sessions.lookup OneEvent.session = none ∧
      ∀ t, (w.reports t).lookup OneEvent.session = none := by
  obtain ⟨tree, hheld⟩ := OneEvent.exists_tree
  have hkept := (Pass.mem_kept rfl).2 OneEvent.mem_newest
  have hclosed := (Pass.deleteSession_mem_changes_iff rfl OneEvent.failsReadsOf hkept).2
    (by rw [OneEvent.outcome_eq]; simp)
  refine ⟨tree, hheld, OneEvent.failsReadsOf, OneEvent.mem_newest, OneEvent.not_evicts,
    ⟨.storage .read OneEvent.slot.fileName .denied, rfl⟩, _,
    (Pass.finalize_directory (p := OneEvent.pass) hheld).2, ?_, fun t => ?_⟩
  · rw [Vault.lookup_after_of_finalizes fun c hc => Pass.finalizes_of_mem_changes hc,
      if_pos hclosed]
  · rw [Pass.lookup_changes fun other => OneEvent.failsReadsOf.eq_none (Or.inl rfl),
      if_neg fun hloser => OneEvent.not_evicts (Or.inr hloser)]
    refine Pass.lookup_settling_of_not_written (fun a ha => ?_) t
    rw [OneEvent.assembled_eq] at ha
    exact absurd ha List.not_mem_nil

/-- The same pass and the same store, seen from what has to fail for the session to stay. -/
theorem open_files_stay_iff_one_event : ∃ tree w : Node, ∃ v : Vault,
    OneEvent.vault.IsHeldIn OneEvent.pass.place tree ∧ v.IsHeldIn OneEvent.pass.place w ∧
    (v.sessions.lookup OneEvent.session = OneEvent.vault.sessions.lookup OneEvent.session ↔
      OneEvent.pass.Fails OneEvent.vault (.slots OneEvent.session) ∨
        (OneEvent.vault.files OneEvent.session).slots ≠ [] ∧
          OneEvent.pass.Fails OneEvent.vault (.read OneEvent.session SessionFile.header)) := by
  obtain ⟨tree, hheld⟩ := OneEvent.exists_tree
  obtain ⟨⟨v, hv, hiff, -⟩, -⟩ := open_files_stay_iff (p := OneEvent.pass) rfl hheld
    OneEvent.failsReadsOf OneEvent.mem_newest OneEvent.not_evicts { files := [] } none
  exact ⟨tree, _, v, hheld, hv, hiff⟩

end ReportVault
