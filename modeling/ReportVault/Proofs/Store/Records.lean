import Mathlib.Data.String.Basic
import ReportVault.Proofs.Store.Vault

/-!
# ReportVault.Proofs.Store.Records

What a store is to keep, whatever it is made of: two finite maps.

`Records.perform` answers every call from a map of the files of the open sessions and a map of the
reports.  It has no directories, tiers to look through or temporary files.  `Records.file?_after`
and its counterparts say what is kept after a list of requests by the last request that made
anything of it: so a file has the contents that were written last, unless it was deleted since.
-/

namespace ReportVault

/-! ## Requests -/

namespace Store

/-- A call, whatever it answers. -/
structure Request where
  {Answer : Type}
  call : Store.Call Answer

/-- The state of a store after requests, made one after the other. -/
def after (store : Store (StateM σ)) (s : σ) (requests : List Request) : σ :=
  requests.foldl (fun s request => ((store.perform request.call).run s).2) s

theorem after_concat (store : Store (StateM σ)) (s : σ) (requests : List Request)
    (request : Request) :
    store.after s (requests ++ [request]) =
      ((store.perform request.call).run (store.after s requests)).2 :=
  List.foldl_concat ..

/-- Why a call is refused: the identifier of its session is no plain name. -/
def Call.refusal? (call : Call α) : Option Failure :=
  match call.session? with
  | some id => if isPlainName id.name then none else some (.invalidId id.name)
  | none => none

/-- What a call makes of a file of a session: contents, or nothing if it removes the file.  Other
calls leave the file as it is. -/
def Call.fileAfter? (id : SessionId) (name : String) : Call α → Option (Option Bytes)
  | .write other file contents => if other = id ∧ file = name then some (some contents) else none
  | .delete other file => if other = id ∧ file = name then some none else none
  | .deleteSession other => if other = id then some none else none
  | .deleteAll => some none
  | _ => none

/-- Whether a session is open after a call that opens or closes it. -/
def Call.openAfter? (id : SessionId) : Call α → Option Bool
  | .write other _ _ => if other = id then some true else none
  | .deleteSession other => if other = id then some false else none
  | .deleteAll => some false
  | _ => none

/-- What a call makes of the report of a session: a report, or nothing if it removes the report. -/
def Call.reportAfter? (id : SessionId) : Call α → Option (Option (Tier × Bytes))
  | .writeReport other tier contents => if other = id then some (some (tier, contents)) else none
  | .deleteReport other => if other = id then some none else none
  | .deleteAll => some none
  | _ => none

/-- The name of the file that a call writes. -/
def Call.written? : Call α → Option String
  | .write _ name _ => some name
  | _ => none

/-- A call makes contents of a file only if it writes it. -/
theorem Call.written?_of_fileAfter? {call : Call α} {id : SessionId} {name : String}
    {contents : Bytes} (h : call.fileAfter? id name = some (some contents)) :
    call.written? = some name := by
  cases call with
  | write other file written =>
    obtain ⟨he, -⟩ := Option.ite_none_right_eq_some.1 h
    rw [← he.2]
    rfl
  | delete other file => exact absurd (Option.ite_none_right_eq_some.1 h).2 (by simp)
  | deleteSession other => exact absurd (Option.ite_none_right_eq_some.1 h).2 (by simp)
  | _ => cases h

/-- What the last request made that made anything of it and was not refused. -/
def last? (made? : Request → Option β) (requests : List Request) : Option β :=
  (requests.reverse.filter (·.call.refusal?.isNone)).findSome? made?

/-- The contents that a file is left with by requests. -/
def lastFile? (requests : List Request) (id : SessionId) (name : String) : Option Bytes :=
  (last? (·.call.fileAfter? id name) requests).getD none

/-- Whether requests leave a session open. -/
def IsLeftOpen (requests : List Request) (id : SessionId) : Prop :=
  last? (·.call.openAfter? id) requests = some true

/-- The report that a session is left with by requests. -/
def lastReport? (requests : List Request) (id : SessionId) : Option (Tier × Bytes) :=
  (last? (·.call.reportAfter? id) requests).getD none

section Last

variable (made? : Request → Option β) (requests : List Request)

theorem last?_concat_of_refused {request : Request} {failure : Failure}
    (h : request.call.refusal? = some failure) :
    last? made? (requests ++ [request]) = last? made? requests := by
  simp [last?, h]

theorem last?_concat {request : Request} (h : request.call.refusal? = none) :
    last? made? (requests ++ [request]) = (made? request).or (last? made? requests) := by
  rw [last?, List.reverse_concat, List.filter_cons_of_pos (by simp [h]), List.findSome?_cons]
  cases made? request <;> rfl

end Last

/-- A file that has contents was written. -/
theorem exists_written_of_lastFile? {requests : List Request} {id : SessionId} {name : String}
    {contents : Bytes} (h : lastFile? requests id name = some contents) :
    ∃ request ∈ requests, request.call.written? = some name := by
  have hlast : last? (·.call.fileAfter? id name) requests = some (some contents) := by
    rw [lastFile?] at h
    cases hmade : last? (·.call.fileAfter? id name) requests with
    | none => simp [hmade] at h
    | some made => rw [← h, hmade, Option.getD_some]
  obtain ⟨request, hmem, hmade⟩ := List.exists_of_findSome?_eq_some hlast
  exact ⟨request, List.mem_reverse.1 (List.mem_filter.1 hmem).1, Call.written?_of_fileAfter? hmade⟩

end Store

/-! ## Records -/

/-- The keys of a finite map, ascending. -/
def ascendingKeys [LinearOrder α] (m : Finmap fun _ : α => β) : List α := m.keys.sort

section Keys

variable [LinearOrder α] {m : Finmap fun _ : α => β}

theorem mem_ascendingKeys {a : α} : a ∈ ascendingKeys m ↔ a ∈ m := by
  rw [ascendingKeys, Finset.mem_sort, Finmap.mem_keys]

theorem pairwise_ascendingKeys : (ascendingKeys m).Pairwise (· < ·) :=
  (Finset.sortedLT_sort m.keys).pairwise

end Keys

/-- What a store is to keep: the files of each open session, and the report of each finalized one
with its tier. -/
structure Records where
  sessions : Finmap fun _ : SessionId => Finmap fun _ : String => Bytes
  reports : Finmap fun _ : SessionId => Tier × Bytes

namespace Records

/-- Nothing is kept. -/
def empty : Records := ⟨∅, ∅⟩

variable (r : Records)

/-- The files of a session; one that is not open has none. -/
def files (id : SessionId) : Finmap fun _ : String => Bytes := (r.sessions.lookup id).getD ∅

/-- The contents of a file. -/
def file? (id : SessionId) (name : String) : Option Bytes := (r.files id).lookup name

/-- The event files of a session, by their numbers. -/
def slots (id : SessionId) : List Slot :=
  ((ascendingKeys (r.files id)).filterMap Slot.ofFileName?).mergeSort Slot.ascending

/-- The finalized sessions with the tiers of their reports, descending. -/
def reportIds : List (SessionId × Tier) :=
  (ascendingKeys r.reports).reverse.filterMap fun id =>
    (r.reports.lookup id).map fun report => (id, report.1)

/-- The answer to a call. -/
def answer : Store.Call α → α
  | .write .. => ()
  | .read id name => r.file? id name
  | .delete .. => ()
  | .slots id => r.slots id
  | .openIds => ascendingKeys r.sessions
  | .deleteSession _ => ()
  | .reportIds => r.reportIds
  | .readReport id => r.reports.lookup id
  | .writeReport .. => ()
  | .deleteReport _ => ()
  | .deleteAll => ()

/-- What is kept after a call. -/
def next : Store.Call α → Records
  | .write id name contents =>
    { r with sessions := r.sessions.insert id ((r.files id).insert name contents) }
  | .delete id name =>
    match r.sessions.lookup id with
    | none => r
    | some files => { r with sessions := r.sessions.insert id (files.erase name) }
  | .deleteSession id => { r with sessions := r.sessions.erase id }
  | .writeReport id tier contents => { r with reports := r.reports.insert id (tier, contents) }
  | .deleteReport id => { r with reports := r.reports.erase id }
  | .deleteAll => empty
  | _ => r

/-- A call is answered, or it is refused and nothing is done. -/
def perform (call : Store.Call α) : Except Failure α × Records :=
  match call.refusal? with
  | some failure => (.error failure, r)
  | none => (.ok (r.answer call), r.next call)

/-- What is kept after requests, made one after the other. -/
def after (requests : List Store.Request) : Records :=
  requests.foldl (fun r request => (r.perform request.call).2) empty

variable {r} {id : SessionId}

theorem perform_of_refused {call : Store.Call α} {failure : Failure}
    (h : call.refusal? = some failure) : r.perform call = (.error failure, r) := by
  rw [perform, h]

theorem perform_of_not_refused {call : Store.Call α} (h : call.refusal? = none) :
    r.perform call = (.ok (r.answer call), r.next call) := by
  rw [perform, h]

theorem after_concat (requests : List Store.Request) (request : Store.Request) :
    after (requests ++ [request]) = ((after requests).perform request.call).2 :=
  List.foldl_concat ..

/-! ## What is kept after a call -/

theorem files_of_lookup {files : Finmap fun _ : String => Bytes}
    (h : r.sessions.lookup id = some files) : r.files id = files := by
  rw [Records.files, h, Option.getD_some]

theorem file?_of_lookup_eq_none (h : r.sessions.lookup id = none) (name : String) :
    r.file? id name = none := by
  rw [file?, files, h]
  exact Finmap.lookup_empty name

/-- A session has other files. -/
theorem file?_insert (other : SessionId) (files : Finmap fun _ : String => Bytes) (name : String) :
    ({ r with sessions := r.sessions.insert other files } : Records).file? id name =
      if other = id then files.lookup name else r.file? id name := by
  by_cases he : other = id
  · rw [if_pos he, he, file?, files_of_lookup (Finmap.lookup_insert _)]
  · rw [if_neg he, file?, Records.files, Finmap.lookup_insert_of_ne _ (Ne.symm he), file?,
      Records.files]

theorem lookup_insert_file (files : Finmap fun _ : String => Bytes) (name other : String)
    (contents : Bytes) :
    (files.insert name contents).lookup other =
      if name = other then some contents else files.lookup other := by
  by_cases he : name = other
  · rw [if_pos he, he, Finmap.lookup_insert]
  · rw [if_neg he, Finmap.lookup_insert_of_ne _ (Ne.symm he)]

theorem lookup_erase_file (files : Finmap fun _ : String => Bytes) (name other : String) :
    (files.erase name).lookup other = if name = other then none else files.lookup other := by
  by_cases he : name = other
  · rw [if_pos he, he, Finmap.lookup_erase]
  · rw [if_neg he, Finmap.lookup_erase_ne (Ne.symm he)]

/-- A call makes of a file what it says, or leaves it alone. -/
theorem file?_next (call : Store.Call α) (name : String) :
    (r.next call).file? id name = (call.fileAfter? id name).getD (r.file? id name) := by
  cases call with
  | write other file contents =>
    rw [next, file?_insert, Store.Call.fileAfter?, lookup_insert_file]
    by_cases he : other = id
    · subst he
      by_cases hf : file = name <;> simp [hf, file?]
    · simp [he]
  | delete other file =>
    rw [next, Store.Call.fileAfter?]
    split
    · next hclosed =>
      by_cases he : other = id ∧ file = name
      · rw [if_pos he, ← he.1, file?_of_lookup_eq_none hclosed]
        rfl
      · rw [if_neg he]
        rfl
    · next files hopen =>
      rw [file?_insert, lookup_erase_file]
      by_cases he : other = id
      · subst he
        by_cases hf : file = name <;> simp [hf, file?, files_of_lookup hopen]
      · simp [he]
  | deleteSession other =>
    rw [next, Store.Call.fileAfter?]
    by_cases he : other = id
    · rw [if_pos he, he]
      exact file?_of_lookup_eq_none (Finmap.lookup_erase _ _) name
    · rw [if_neg he, file?, files, Finmap.lookup_erase_ne (Ne.symm he)]
      rfl
  | deleteAll => exact file?_of_lookup_eq_none (Finmap.lookup_empty id) name
  | _ => rfl

/-- A call opens or closes a session as it says, or leaves it alone. -/
theorem mem_sessions_next (call : Store.Call α) :
    id ∈ (r.next call).sessions ↔
      (call.openAfter? id).getD (decide (id ∈ r.sessions)) = true := by
  cases call with
  | write other file contents =>
    rw [next, Store.Call.openAfter?, Finmap.mem_insert]
    by_cases he : other = id
    · simp [he]
    · simp [he, Ne.symm he]
  | delete other file =>
    have hnone : (Store.Call.delete other file).openAfter? id = none := rfl
    rw [next, hnone, Option.getD_none, decide_eq_true_iff]
    split
    · rfl
    · next files hopen =>
      rw [Finmap.mem_insert, or_iff_right_of_imp]
      rintro rfl
      exact Finmap.mem_iff.2 ⟨files, hopen⟩
  | deleteSession other =>
    rw [next, Store.Call.openAfter?, Finmap.mem_erase]
    by_cases he : other = id
    · simp [he]
    · simp [he, Ne.symm he]
  | deleteAll => simp [next, Store.Call.openAfter?, empty, Finmap.notMem_empty]
  | _ => simp [next, Store.Call.openAfter?]

/-- A call makes of a report what it says, or leaves it alone. -/
theorem lookup_reports_next (call : Store.Call α) :
    (r.next call).reports.lookup id = (call.reportAfter? id).getD (r.reports.lookup id) := by
  cases call with
  | delete other file =>
    rw [next]
    split <;> rfl
  | writeReport other tier contents =>
    rw [next, Store.Call.reportAfter?]
    by_cases he : other = id
    · rw [if_pos he, he, Finmap.lookup_insert]
      rfl
    · rw [if_neg he, Finmap.lookup_insert_of_ne _ (Ne.symm he)]
      rfl
  | deleteReport other =>
    rw [next, Store.Call.reportAfter?]
    by_cases he : other = id
    · rw [if_pos he, he, Finmap.lookup_erase]
      rfl
    · rw [if_neg he, Finmap.lookup_erase_ne (Ne.symm he)]
      rfl
  | deleteAll => exact Finmap.lookup_empty id
  | _ => rfl

/-! ## What is kept after requests -/

/-- What each request makes of a part, or leaves alone, is in the end what the last one made. -/
theorem eq_last? (part : Records → β) (made? : Store.Request → Option β) {start : β}
    (hempty : part empty = start)
    (hnext : ∀ (r : Records) (request : Store.Request),
      part (r.next request.call) = (made? request).getD (part r))
    (requests : List Store.Request) :
    part (after requests) = (Store.last? made? requests).getD start := by
  induction requests using List.reverseRecOn with
  | nil => exact hempty
  | append_singleton requests request ih =>
    rw [after_concat]
    cases hrefusal : request.call.refusal? with
    | some failure =>
      rw [perform_of_refused hrefusal, Store.last?_concat_of_refused made? requests hrefusal, ih]
    | none =>
      rw [perform_of_not_refused hrefusal, Store.last?_concat made? requests hrefusal, hnext, ih]
      cases made? request <;> rfl

theorem file?_after (requests : List Store.Request) (id : SessionId) (name : String) :
    (after requests).file? id name = Store.lastFile? requests id name :=
  eq_last? (·.file? id name) (·.call.fileAfter? id name)
    (file?_of_lookup_eq_none (Finmap.lookup_empty id) name)
    (fun _ request => file?_next request.call name) requests

theorem mem_sessions_after (requests : List Store.Request) (id : SessionId) :
    id ∈ (after requests).sessions ↔ Store.IsLeftOpen requests id := by
  have hlast : decide (id ∈ (after requests).sessions) =
      (Store.last? (·.call.openAfter? id) requests).getD false :=
    eq_last? (fun r => decide (id ∈ r.sessions)) (·.call.openAfter? id)
      (decide_eq_false Finmap.notMem_empty)
      (fun r request => Bool.eq_iff_iff.2 (decide_eq_true_iff.trans (mem_sessions_next _))) requests
  refine decide_eq_true_iff.symm.trans ?_
  rw [hlast, Store.IsLeftOpen]
  cases Store.last? (·.call.openAfter? id) requests <;> simp

theorem lookup_reports_after (requests : List Store.Request) (id : SessionId) :
    (after requests).reports.lookup id = Store.lastReport? requests id :=
  eq_last? (·.reports.lookup id) (·.call.reportAfter? id) (Finmap.lookup_empty id)
    (fun _ request => lookup_reports_next request.call) requests

/-! ## Listings -/

/-- The slots of a session are its files with event names. -/
theorem mem_slots {slot : Slot} :
    slot ∈ r.slots id ↔
      Slot.ofFileName? slot.fileName = some slot ∧ (r.file? id slot.fileName).isSome = true := by
  have hkeys : ∀ name, name ∈ ascendingKeys (r.files id) ↔ (r.file? id name).isSome = true := by
    intro name
    rw [mem_ascendingKeys, Finmap.mem_iff, Option.isSome_iff_exists]
    rfl
  simp only [slots, List.mem_mergeSort, List.mem_filterMap, hkeys]
  constructor
  · rintro ⟨name, hname, hread⟩
    obtain rfl := Slot.fileName_of_ofFileName? hread
    exact ⟨hread, hname⟩
  · rintro ⟨hread, hname⟩
    exact ⟨slot.fileName, hname, hread⟩

/-- No two event files of a session have the same number. -/
def HasDistinctNumbers (r : Records) : Prop :=
  ∀ id, ∀ a ∈ r.slots id, ∀ b ∈ r.slots id, a.sequence = b.sequence → a = b

/-- Then the event files are listed by strictly ascending number. -/
theorem HasDistinctNumbers.pairwise_slots (h : r.HasDistinctNumbers) (id : SessionId) :
    (r.slots id).Pairwise fun a b => a.sequence < b.sequence := by
  have hnames : (ascendingKeys (r.files id)).Nodup := pairwise_ascendingKeys.imp ne_of_lt
  refine Slot.pairwise_mergeSort (Slot.nodup_filterMap_ofFileName? hnames) ?_
  intro a ha b hb
  exact h id a (List.mem_mergeSort.2 ha) b (List.mem_mergeSort.2 hb)

/-- Each finalized session is listed with the tier of its report. -/
theorem mem_reportIds {tier : Tier} :
    (id, tier) ∈ r.reportIds ↔ ∃ contents, r.reports.lookup id = some (tier, contents) := by
  simp only [reportIds, List.mem_filterMap, List.mem_reverse, mem_ascendingKeys, Finmap.mem_iff,
    Option.map_eq_some_iff, Prod.mk.injEq]
  constructor
  · rintro ⟨other, -, ⟨t, contents⟩, hlookup, rfl, rfl⟩
    exact ⟨contents, hlookup⟩
  · rintro ⟨contents, hlookup⟩
    exact ⟨id, ⟨_, hlookup⟩, _, hlookup, rfl, rfl⟩

theorem pairwise_reportIds : r.reportIds.Pairwise fun a b => b.1 < a.1 := by
  refine List.Pairwise.filterMap _ (fun a b hab e he f hf => ?_)
    (List.pairwise_reverse.2 pairwise_ascendingKeys)
  obtain ⟨_, -, rfl⟩ := Option.map_eq_some_iff.1 he
  obtain ⟨_, -, rfl⟩ := Option.map_eq_some_iff.1 hf
  exact hab

end Records

end ReportVault
