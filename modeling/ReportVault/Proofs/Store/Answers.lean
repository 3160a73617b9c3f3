import ReportVault.Proofs.Store.Events
import ReportVault.Proofs.Store.Records
import ReportVault.Proofs.Store.Refinement

/-!
# ReportVault.Proofs.Store.Answers

A store in a directory answers as two finite maps do.

`Vault.Keeps` says that a vault has what `Records` are to keep: no directory stands among the files
of a session, and each report is in one tier only.  What a call does to both is shown for each
call (`Vault.Keeps.perform`), and the runs of requests follow.  `directory_refines_records` is the
result for a directory that was not there at first; `Store.Recalls` says in terms of the requests
themselves what the answers are.

The names of temporary files are the one thing that a directory needs and the records know nothing
of.  Requests may write hidden files, but they must leave a temporary name alone.
-/

namespace ReportVault

open FileSystem
open FileSystem.Node (temporaryName spareNames)

/-! ## Calls -/

namespace Store.Call

/-- The name of the file that a call is about. -/
def fileName? : Store.Call α → Option String
  | .write _ name _ => some name
  | .read _ name => some name
  | .delete _ name => some name
  | _ => none

/-- Whether what a call is about can be named: the identifier is short enough, and the file has a
name that an entry of a directory can have. -/
structure IsNamable (call : Store.Call α) : Prop where
  isShort : ∀ id, call.session? = some id → id.IsShort
  isName : ∀ name, call.fileName? = some name → IsEntryName name

/-- A call that writes no hidden file is proper. -/
theorem IsNamable.isProper {call : Store.Call α} (h : call.IsNamable)
    (hvisible : ∀ name, call.written? = some name → IsVisible name) : call.IsProper := by
  refine NamesEntries.isProper ?_ h.isShort
  cases call with
  | write id name contents => exact ⟨h.isName name rfl, hvisible name rfl⟩
  | read id name => exact h.isName name rfl
  | delete id name => exact h.isName name rfl
  | _ => trivial

theorem exists_of_refusal? {call : Store.Call α} {failure : Failure}
    (h : call.refusal? = some failure) :
    ∃ id, call.session? = some id ∧ isPlainName id.name = false ∧
      failure = .invalidId id.name := by
  rw [refusal?] at h
  split at h
  · next id hid =>
    obtain ⟨hplain, hfailure⟩ := Option.ite_none_left_eq_some.1 h
    exact ⟨id, hid, Bool.eq_false_iff.2 hplain, (Option.some.inj hfailure).symm⟩
  · cases h

theorem refusal?_of_not_plain {call : Store.Call α} {id : SessionId}
    (hid : call.session? = some id) (hplain : isPlainName id.name = false) :
    call.refusal? = some (.invalidId id.name) := by
  simp only [refusal?, hid, hplain, Bool.false_eq_true, if_false]

/-- A call about a session that can be stored is not refused. -/
theorem refusal?_of_isStorable {call : Store.Call α}
    (h : ∀ id, call.session? = some id → id.IsStorable) : call.refusal? = none := by
  rw [refusal?]
  split
  · next id hid => exact if_pos (h id hid).isPlain
  · rfl

/-- The session of a call that is not refused can be stored. -/
theorem IsNamable.isStorable {call : Store.Call α} (h : call.IsNamable)
    (hrefusal : call.refusal? = none) {id : SessionId} (hid : call.session? = some id) :
    id.IsStorable := by
  cases hplain : isPlainName id.name with
  | true => exact ⟨hplain, h.isShort id hid⟩
  | false => exact absurd (refusal?_of_not_plain hid hplain) (by simp [hrefusal])

end Store.Call

/-! ## Directories -/

namespace Vault.IsHeldIn

variable {v : Vault} {place : Location} {top : Node}

/-- The directory gives the same answer as the vault that it holds, be a hidden file written or
not.  It holds the changed vault afterwards if a temporary name is left. -/
theorem perform_of_isNamable (h : v.IsHeldIn place top) (call : Store.Call α)
    (hcall : call.IsNamable) :
    ((place.store.perform call).run top).1 = (v.perform place call).1 ∧
      ((∃ n < spareNames, (∀ id, v.item? id (temporaryName n) = none) ∧
          call.written? ≠ some (temporaryName n)) →
        (v.perform place call).2.IsHeldIn place ((place.store.perform call).run top).2) := by
  cases call with
  | write id name contents =>
    have hsession : (Store.Call.write id name contents).session? = some id := rfl
    rcases isStorable_or_refused v place top hsession (hcall.isShort id hsession)
      with hid | hrefused
    · refine ⟨?_, ?_⟩
      · rw [h.run_write hid (hcall.isName name rfl), Vault.perform, Vault.ifPlain,
          hid.checkedName]
        cases v.item? id name with
        | none => rfl
        | some item => cases item <;> rfl
      · rintro ⟨n, hn, hfree, hother⟩
        have hne : temporaryName n ≠ name := fun he => hother (congrArg some he.symm)
        have hentry : (top.entriesAt (place.session id)).lookup (temporaryName n) = none := by
          have hitem := hfree id
          rw [Vault.item?, (h.session hid).lookup] at hitem
          exact Option.map_eq_none_iff.1 hitem
        refine (h.perform_write hid (hcall.isName name rfl) contents ⟨n, hn, ?_⟩).2
        rw [lookup_setEntry_of_ne _ _ hne, hentry]
    · rw [hrefused.1, hrefused.2]
      exact ⟨rfl, fun _ => h⟩
  | _ =>
    have hperform := h.perform _ (hcall.isProper (by simp [Store.Call.written?]))
    exact ⟨hperform.1, fun _ => hperform.2⟩

end Vault.IsHeldIn

/-! ## Vaults -/

/-- A vault has what is to be kept, and nothing else: every item is a file, and a report is in no
other tier than its own. -/
structure Vault.Keeps (v : Vault) (r : Records) : Prop where
  isOpen : ∀ id, id ∈ v.sessions ↔ id ∈ r.sessions
  item : ∀ id name, v.item? id name = (r.file? id name).map Item.file
  report : ∀ tier id, (v.reports tier).lookup id =
    ((r.reports.lookup id).filter fun report => report.1 = tier).map Prod.snd

namespace Vault.Keeps

variable {v : Vault} {r : Records} {place : Location}

theorem empty : Vault.empty.Keeps .empty where
  isOpen _ := Iff.rfl
  item id name := by
    rw [Records.file?_of_lookup_eq_none (Finmap.lookup_empty id)]
    rfl
  report tier id := by
    rw [Records.empty, Finmap.lookup_empty]
    exact Finmap.lookup_empty id

/-! ### What both hold after a call -/

theorem setFile (h : v.Keeps r) (id : SessionId) (name : String) (contents : Bytes) :
    (v.setFile id name contents).Keeps (r.next (.write id name contents)) where
  isOpen other := by
    rw [Records.next, Finmap.mem_insert, ← h.isOpen]
    exact Finmap.mem_insert
  item other file := by
    rw [Records.file?_next, Store.Call.fileAfter?, item?_setFile]
    split
    · rfl
    · exact h.item other file
  report := h.report

theorem dropFile (h : v.Keeps r) (id : SessionId) (name : String) :
    (v.dropFile id name).Keeps (r.next (.delete id name)) where
  isOpen other := by
    have hnone : (Store.Call.delete id name).openAfter? other = none := rfl
    rw [Records.mem_sessions_next, hnone, Option.getD_none, decide_eq_true_iff,
      mem_sessions_dropFile]
    exact h.isOpen other
  item other file := by
    rw [Records.file?_next, Store.Call.fileAfter?, item?_dropFile]
    split
    · rfl
    · exact h.item other file
  report tier other := by
    have hnone : (Store.Call.delete id name).reportAfter? other = none := rfl
    rw [Records.lookup_reports_next, hnone, Option.getD_none, reports_dropFile]
    exact h.report tier other

theorem close (h : v.Keeps r) (id : SessionId) :
    (v.close id).Keeps (r.next (.deleteSession id)) where
  isOpen other := by
    rw [Records.next, Finmap.mem_erase, ← h.isOpen]
    exact Finmap.mem_erase
  item other file := by
    rw [Records.file?_next, Store.Call.fileAfter?, item?_close]
    split
    · rfl
    · exact h.item other file
  report := h.report

theorem setReport (h : v.Keeps r) (id : SessionId) (tier : Tier) (contents : Bytes) :
    (v.setReport id tier contents).Keeps (r.next (.writeReport id tier contents)) where
  isOpen := h.isOpen
  item := h.item
  report t other := by
    rw [Records.lookup_reports_next, Store.Call.reportAfter?]
    by_cases he : id = other
    · rw [if_pos he, he, lookup_setReport_self, Option.getD_some, Option.filter_some]
      by_cases ht : t = tier
      · simp [ht]
      · simp [ht, Ne.symm ht]
    · rw [if_neg he, Option.getD_none, lookup_setReport_of_ne (Ne.symm he)]
      exact h.report t other

theorem dropReport (h : v.Keeps r) (id : SessionId) :
    (v.dropReport id).Keeps (r.next (.deleteReport id)) where
  isOpen := h.isOpen
  item := h.item
  report t other := by
    rw [Records.lookup_reports_next, Store.Call.reportAfter?]
    by_cases he : id = other
    · rw [if_pos he, he, lookup_dropReport_self]
      rfl
    · rw [if_neg he, Option.getD_none, lookup_dropReport_of_ne (Ne.symm he)]
      exact h.report t other

/-! ### What both answer -/

/-- The same sessions are listed as open. -/
theorem openIds_eq (h : v.Keeps r) : v.sessions.keys.sort = ascendingKeys r.sessions := by
  have hkeys : v.sessions.keys = r.sessions.keys := by
    ext id
    rw [Finmap.mem_keys, Finmap.mem_keys, h.isOpen]
  rw [ascendingKeys, hkeys]

theorem readAnswer (h : v.Keeps r) (place : Location) (id : SessionId) (name : String) :
    v.readAnswer place id name = .ok (r.file? id name) := by
  rw [Vault.readAnswer, h.item]
  cases r.file? id name <;> rfl

/-- No directory stands where a file is written or deleted. -/
theorem item?_ne_directory (h : v.Keeps r) (id : SessionId) (name : String) :
    v.item? id name ≠ some .directory := by
  rw [h.item]
  cases r.file? id name <;> simp

/-- The report is found in its tier. -/
theorem report?_eq (h : v.Keeps r) (id : SessionId) : v.report? id = r.reports.lookup id := by
  simp only [Vault.report?, Tier.all, List.findSome?_cons, List.findSome?_nil, h.report]
  rcases r.reports.lookup id with _ | ⟨tier, contents⟩
  · rfl
  · cases tier <;> rfl

theorem tier?_eq (h : v.Keeps r) (id : SessionId) :
    v.tier? id = (r.reports.lookup id).map Prod.fst := by
  have hmem : ∀ tier, id ∈ v.reports tier ↔ (r.reports.lookup id).map Prod.fst = some tier := by
    intro tier
    rw [Finmap.mem_iff, h.report]
    simp
  simp only [Vault.tier?, Tier.all, List.find?_cons, List.find?_nil, hmem]
  rcases r.reports.lookup id with _ | ⟨tier, contents⟩
  · rfl
  · cases tier <;> rfl

/-- The same reports are listed, with the same tiers. -/
theorem reportIds_eq (h : v.Keeps r) : v.reportIds = r.reportIds := by
  refine SessionId.eq_of_pairwise_descending v.pairwise_reportIds Records.pairwise_reportIds ?_
  rintro ⟨id, tier⟩
  rw [Vault.mem_reportIds, Records.mem_reportIds, h.tier?_eq]
  simp

/-- The event files are the same, and in the same order if their numbers differ. -/
theorem slots_eq (h : v.Keeps r) (hv : v.IsWellFormed) (hdistinct : r.HasDistinctNumbers)
    (id : SessionId) : (v.files id).slots = r.slots id := by
  have hnodup := (hv.files_of id).nodup
  refine Files.slots_eq_of_mem_iff hnodup (hdistinct.pairwise_slots id) fun slot => ?_
  have hitem : (v.files id).lookup slot.fileName = (r.file? id slot.fileName).map Item.file :=
    h.item id slot.fileName
  rw [Files.mem_slots_iff hnodup, Records.mem_slots, hitem]
  refine and_congr_right fun hread => ?_
  rw [and_iff_right (Slot.visible_of_ofFileName? hread), Option.isSome_iff_exists]
  simp

/-- The vault gives the same answer, and keeps what is to be kept afterwards. -/
theorem perform (h : v.Keeps r) (hv : v.IsWellFormed) (place : Location) (call : Store.Call α)
    (hcall : call.IsNamable) :
    (r.HasDistinctNumbers → (v.perform place call).1 = (r.perform call).1) ∧
      (v.perform place call).2.Keeps (r.perform call).2 := by
  cases hrefusal : call.refusal? with
  | some failure =>
    obtain ⟨id, hid, hplain, rfl⟩ := Store.Call.exists_of_refusal? hrefusal
    rw [(IsHeldIn.perform_of_not_plain v place (.directory []) hplain hid).2,
      Records.perform_of_refused hrefusal]
    exact ⟨fun _ => rfl, h⟩
  | none =>
    have hstorable : ∀ id, call.session? = some id → id.IsStorable := fun _ =>
      hcall.isStorable hrefusal
    rw [Records.perform_of_not_refused hrefusal]
    cases call with
    | write id name contents =>
      rw [v.perform_write place (hstorable id rfl) (h.item?_ne_directory id name)]
      exact ⟨fun _ => rfl, h.setFile id name contents⟩
    | read id name =>
      rw [v.perform_read place (hstorable id rfl), h.readAnswer]
      exact ⟨fun _ => rfl, h⟩
    | delete id name =>
      rw [v.perform_delete place (hstorable id rfl) (h.item?_ne_directory id name)]
      exact ⟨fun _ => rfl, h.dropFile id name⟩
    | slots id =>
      rw [v.perform_slots place (hstorable id rfl)]
      exact ⟨fun hdistinct => congrArg Except.ok (h.slots_eq hv hdistinct id), h⟩
    | openIds =>
      rw [Vault.perform, h.openIds_eq]
      exact ⟨fun _ => rfl, h⟩
    | deleteSession id =>
      rw [v.perform_deleteSession place (hstorable id rfl)]
      exact ⟨fun _ => rfl, h.close id⟩
    | reportIds =>
      rw [Vault.perform, h.reportIds_eq]
      exact ⟨fun _ => rfl, h⟩
    | readReport id =>
      rw [v.perform_readReport place (hstorable id rfl), h.report?_eq]
      exact ⟨fun _ => rfl, h⟩
    | writeReport id tier contents =>
      rw [v.perform_writeReport place (hstorable id rfl)]
      exact ⟨fun _ => rfl, h.setReport id tier contents⟩
    | deleteReport id =>
      rw [v.perform_deleteReport place (hstorable id rfl)]
      exact ⟨fun _ => rfl, h.dropReport id⟩
    | deleteAll => exact ⟨fun _ => rfl, empty⟩

end Vault.Keeps

/-! ## Requests -/

/-- The directory of a store has what is to be kept. -/
def Records.AreHeldIn (r : Records) (place : Location) (top : Node) : Prop :=
  ∃ v : Vault, v.IsHeldIn place top ∧ v.Keeps r

namespace Records.AreHeldIn

variable {r : Records} {place : Location} {top : Node}

theorem answer_eq (h : r.AreHeldIn place top) (hdistinct : r.HasDistinctNumbers)
    (call : Store.Call α) (hcall : call.IsNamable) :
    ((place.store.perform call).run top).1 = (r.perform call).1 := by
  obtain ⟨v, hheld, hkeeps⟩ := h
  rw [(hheld.perform_of_isNamable call hcall).1]
  exact (hkeeps.perform hheld.isWellFormed place call hcall).1 hdistinct

/-- A call that leaves a temporary name alone leaves the directory with what is to be kept. -/
theorem perform (h : r.AreHeldIn place top) {n : Nat} (hn : n < spareNames)
    (hfree : ∀ id, r.file? id (temporaryName n) = none) (call : Store.Call α)
    (hcall : call.IsNamable) (hspare : call.written? ≠ some (temporaryName n)) :
    (r.perform call).2.AreHeldIn place ((place.store.perform call).run top).2 := by
  obtain ⟨v, hheld, hkeeps⟩ := h
  have hitem : ∀ id, v.item? id (temporaryName n) = none := by
    intro id
    rw [hkeeps.item, hfree id]
    rfl
  exact ⟨_, (hheld.perform_of_isNamable call hcall).2 ⟨n, hn, hitem, hspare⟩,
    (hkeeps.perform hheld.isWellFormed place call hcall).2⟩

/-- So do requests, made one after the other. -/
theorem after (h : empty.AreHeldIn place top) {n : Nat} (hn : n < spareNames)
    (requests : List Store.Request) (hnamable : ∀ request ∈ requests, request.call.IsNamable)
    (hspare : ∀ request ∈ requests, request.call.written? ≠ some (temporaryName n)) :
    (Records.after requests).AreHeldIn place (place.store.after top requests) := by
  induction requests using List.reverseRecOn with
  | nil => exact h
  | append_singleton requests request ih =>
    have hbefore : ∀ other ∈ requests, other ∈ requests ++ [request] := fun _ =>
      List.mem_append_left _
    have hmem : request ∈ requests ++ [request] := List.mem_append_right _ List.mem_cons_self
    have hfree : ∀ id, (Records.after requests).file? id (temporaryName n) = none := by
      intro id
      cases hfile : (Records.after requests).file? id (temporaryName n) with
      | none => rfl
      | some contents =>
        rw [file?_after] at hfile
        obtain ⟨other, hother, hwritten⟩ := Store.exists_written_of_lastFile? hfile
        exact absurd hwritten (hspare other (hbefore other hother))
    have hheld := ih (fun other hother => hnamable other (hbefore other hother))
      fun other hother => hspare other (hbefore other hother)
    rw [Records.after_concat, Store.after_concat]
    exact hheld.perform hn hfree request.call (hnamable request hmem) (hspare request hmem)

end Records.AreHeldIn

/-- Requests that are fewer than the temporary names leave one of these alone. -/
theorem Store.exists_spare {requests : List Store.Request} (h : requests.length < spareNames) :
    ∃ n < spareNames, ∀ request ∈ requests, request.call.written? ≠ some (temporaryName n) := by
  obtain ⟨n, hn, hfree⟩ := Node.exists_free
    (requests.map fun request => (request.call.written?.getD "", Node.empty))
  rw [List.length_map] at hn
  refine ⟨n, by omega, fun request hmem hwritten => ?_⟩
  have hne := List.lookup_eq_none_iff.1 hfree _ (List.mem_map.2 ⟨request, hmem, rfl⟩)
  simp [hwritten] at hne

/-- Calls are answered by what the requests before them left. -/
structure Store.Recalls (store : Store (StateM σ)) (s : σ) (requests : List Store.Request) :
    Prop where
  /-- A file is read as it was last written, and not at all if it was deleted since. -/
  read : ∀ (id : SessionId) (name : String), id.IsStorable → IsEntryName name →
    ((store.perform (.read id name)).run s).1 = .ok (lastFile? requests id name)
  /-- The event files are listed by strictly ascending number. -/
  slots : ∀ id : SessionId, id.IsStorable → ∃ slots : List Slot,
    ((store.perform (.slots id)).run s).1 = .ok slots ∧
      (slots.Pairwise fun a b => a.sequence < b.sequence) ∧
      ∀ slot, slot ∈ slots ↔ Slot.ofFileName? slot.fileName = some slot ∧
        (lastFile? requests id slot.fileName).isSome = true
  /-- Listed are the sessions that were written to and not deleted since. -/
  openIds : ∃ ids : List SessionId, ((store.perform .openIds).run s).1 = .ok ids ∧
    ids.Pairwise (· < ·) ∧ ∀ id, id ∈ ids ↔ IsLeftOpen requests id
  /-- Each report is listed once, with the tier that it was last written to. -/
  reportIds : ∃ reports : List (SessionId × Tier),
    ((store.perform .reportIds).run s).1 = .ok reports ∧
      (reports.Pairwise fun a b => b.1 < a.1) ∧
      ∀ id tier, (id, tier) ∈ reports ↔
        ∃ contents, lastReport? requests id = some (tier, contents)
  /-- A report is read from the tier that it was last written to. -/
  readReport : ∀ id : SessionId, id.IsStorable →
    ((store.perform (.readReport id)).run s).1 = .ok (lastReport? requests id)
  /-- A call about an identifier that is no plain name does nothing. -/
  refused : ∀ {α : Type} (call : Store.Call α) (id : SessionId), call.session? = some id →
    isPlainName id.name = false →
      (store.perform call).run s = (.error (.invalidId id.name), s)

/-- What the records answer is what the requests that led to them left. -/
theorem Store.recalls_of_answers {place : Location} {top : Node} {requests : List Store.Request}
    (hdistinct : (Records.after requests).HasDistinctNumbers)
    (hanswers : ∀ {α : Type} (call : Store.Call α), call.IsNamable →
      ((place.store.perform call).run top).1 = ((Records.after requests).perform call).1) :
    place.store.Recalls top requests := by
  have hanswer : ∀ {α : Type} (call : Store.Call α),
      (∀ id, call.session? = some id → id.IsStorable) →
      (∀ name, call.fileName? = some name → IsEntryName name) →
      ((place.store.perform call).run top).1 = .ok ((Records.after requests).answer call) := by
    intro α call hstorable hname
    rw [hanswers call ⟨fun id hid => (hstorable id hid).isShort, hname⟩,
      Records.perform_of_not_refused (Store.Call.refusal?_of_isStorable hstorable)]
  refine ⟨?_, ?_, ?_, ?_, ?_, ?_⟩
  · intro id name hid hname
    rw [hanswer (.read id name) (by simpa [Store.Call.session?] using hid)
      (by simpa [Store.Call.fileName?] using hname), ← Records.file?_after]
    rfl
  · intro id hid
    refine ⟨_, hanswer (.slots id) (by simpa [Store.Call.session?] using hid)
      (by simp [Store.Call.fileName?]), hdistinct.pairwise_slots id, fun slot => ?_⟩
    rw [← Records.file?_after]
    exact Records.mem_slots
  · have hcall := hanswer .openIds (by simp [Store.Call.session?]) (by simp [Store.Call.fileName?])
    refine ⟨_, hcall, pairwise_ascendingKeys, fun id => ?_⟩
    rw [← Records.mem_sessions_after]
    exact mem_ascendingKeys
  · have hcall := hanswer .reportIds (by simp [Store.Call.session?])
      (by simp [Store.Call.fileName?])
    refine ⟨_, hcall, Records.pairwise_reportIds, fun id tier => ?_⟩
    rw [← Records.lookup_reports_after]
    exact Records.mem_reportIds
  · intro id hid
    rw [hanswer (.readReport id) (by simpa [Store.Call.session?] using hid)
      (by simp [Store.Call.fileName?]), ← Records.lookup_reports_after]
    rfl
  · intro α call id hid hplain
    exact (Vault.IsHeldIn.perform_of_not_plain Vault.empty place top hplain hid).1

/-- **Refinement.**  A store in a directory that was not there at first answers every call as two
finite maps do: by what the requests before it left.  A temporary name must be left to write
under, as one is after less than `spareNames` requests (`Store.exists_spare`), and the event files
of a session must differ in their numbers for their order to be told. -/
theorem directory_refines_records (place : Location) {top : Node}
    (hlead : top.leadsOn place.names = true) (habsent : top.get? place.names = none)
    (requests : List Store.Request) (hnamable : ∀ request ∈ requests, request.call.IsNamable)
    (hspare : ∃ n < spareNames,
      ∀ request ∈ requests, request.call.written? ≠ some (temporaryName n))
    (hdistinct : (Records.after requests).HasDistinctNumbers) :
    (∀ {α : Type} (call : Store.Call α), call.IsNamable →
      ((place.store.perform call).run (place.store.after top requests)).1 =
        ((Records.after requests).perform call).1) ∧
      place.store.Recalls (place.store.after top requests) requests := by
  obtain ⟨n, hn, hleft⟩ := hspare
  have hempty : Records.empty.AreHeldIn place top :=
    ⟨Vault.empty, Vault.IsHeldIn.empty_of_get?_eq_none hlead habsent, Vault.Keeps.empty⟩
  have hheld := hempty.after hn requests hnamable hleft
  exact ⟨hheld.answer_eq hdistinct,
    Store.recalls_of_answers hdistinct (hheld.answer_eq hdistinct)⟩

/-- A report moves to another tier while a hidden file is written and a call is refused. -/
theorem directory_refines_records_moved_report :
    let place := Location.named Store.openSessions isEntryName_openSessions
    let requests : List Store.Request :=
      [⟨.write ⟨"a"⟩ "event1" [1]⟩, ⟨.writeReport ⟨"b"⟩ .normal [2]⟩, ⟨.write ⟨"a"⟩ ".hidden" [3]⟩,
        ⟨.writeReport ⟨"b"⟩ .native [4]⟩, ⟨.deleteSession ⟨".."⟩⟩]
    let top := place.store.after (.directory []) requests
    ((place.store.perform (.readReport ⟨"b"⟩)).run top).1 = .ok (some (.native, [4])) ∧
      ((place.store.perform (.read ⟨"a"⟩ ".hidden")).run top).1 = .ok (some [3]) := by
  intro place requests top
  have hnamable : ∀ request ∈ requests, request.call.IsNamable := by
    intro request hrequest
    simp only [requests, List.mem_cons, List.not_mem_nil, or_false] at hrequest
    rcases hrequest with rfl | rfl | rfl | rfl | rfl <;> refine ⟨?_, ?_⟩ <;> rintro _ ⟨⟩ <;>
      first | (unfold SessionId.IsShort; decide) | (constructor <;> decide)
  have hslot : ∀ id, ∀ slot ∈ (Records.after requests).slots id, slot = ⟨1, false, "event1"⟩ := by
    intro id slot hmem
    obtain ⟨hread, hfile⟩ := Records.mem_slots.1 hmem
    rw [Records.file?_after, Option.isSome_iff_exists] at hfile
    obtain ⟨contents, hfile⟩ := hfile
    obtain ⟨request, hrequest, hwritten⟩ := Store.exists_written_of_lastFile? hfile
    have hname : slot.fileName = "event1" ∨ slot.fileName = ".hidden" := by
      simp only [requests, List.mem_cons, List.not_mem_nil, or_false] at hrequest
      rcases hrequest with rfl | rfl | rfl | rfl | rfl <;>
        simp_all [Store.Call.written?, eq_comm]
    rcases hname with hname | hname
    · have hevent : Slot.ofFileName? "event1" = some ⟨1, false, "event1"⟩ := by decide
      rw [hname, hevent, Option.some.injEq] at hread
      exact hread.symm
    · have hhidden : Slot.ofFileName? ".hidden" = none := by decide
      rw [hname, hhidden] at hread
      cases hread
  have habsent : (Node.directory []).get? place.names = none := rfl
  obtain ⟨-, hrecalls⟩ := directory_refines_records place rfl habsent requests hnamable
    (Store.exists_spare (by decide)) fun id a ha b hb _ => (hslot id a ha).trans (hslot id b hb).symm
  exact ⟨hrecalls.readReport ⟨"b"⟩ ⟨by decide, by decide⟩,
    hrecalls.read ⟨"a"⟩ ".hidden" ⟨by decide, by decide⟩ (by constructor <;> decide)⟩

end ReportVault
