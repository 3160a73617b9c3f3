import ReportVault.Proofs.Engine.Pass
import ReportVault.Proofs.Store.Events

/-!
# ReportVault.Proofs.Engine.Plain

A store of which no call fails.

What an engine reads of a session is then a function of the files of the session and of the report
that it was finalized with.  `Files.header?` and its neighbours are these functions, and
`Pass.outcome_plain_eq_some_iff` says which report a pass assembles from them.
-/

namespace ReportVault

open FileSystem Retention
open Engine (Assembled)

namespace Files

variable (files : Files)

/-- The contents of a file. -/
def contents? (name : String) : Option Bytes :=
  match files.lookup name with
  | some (.file contents) => some contents
  | _ => none

/-- The header of the report, if it can be decoded. -/
def header? : Option Report := (files.contents? SessionFile.header).bind Report.decode?

/-- The text of a file, if it is not empty. -/
def text? (name : String) : Option String :=
  ((files.contents? name).bind Bytes.toText?).filter fun s => !s.isEmpty

/-- Whether the session is of high priority, going by its event files or else by its mark. -/
def isMarked : Bool :=
  files.slots.any (·.high) || (files.contents? SessionFile.priority).isSome

/-- The events in the newest event files. -/
def newestEvents (cap : Nat) : List Event := (keepNewest files.slots cap).filterMap files.event?

/-- What is assembled from the files and a header. -/
def assembled (id : SessionId) (time : Int64) (cap : Nat) (header : Report)
    (recorded : Option Report) : Assembled :=
  Assembled.ofParts id time files.isMarked header (files.newestEvents cap)
    (files.text? SessionFile.user) (files.text? SessionFile.correlation) recorded

variable {files} {events : List Event} {name : String}

theorem contents?_congr {other : Files} (h : files.lookup name = other.lookup name) :
    files.contents? name = other.contents? name := by
  rw [contents?, contents?, h]

theorem contents?_eq_some {contents : Bytes} :
    files.contents? name = some contents ↔ files.lookup name = some (.file contents) := by
  rw [contents?]
  rcases files.lookup name with _ | _ | _ <;> simp

theorem newestEvents_eq (h : files.slots.map files.event? = events.map some) (cap : Nat) :
    files.newestEvents cap = keepNewest events cap := by
  have hlength : files.slots.length = events.length := by
    rw [← List.length_map (f := files.event?), h, List.length_map]
  rw [newestEvents, keepNewest_eq_drop, keepNewest_eq_drop, filterMap_drop_of_map_eq h, hlength]

theorem Holds.newestEvents_eq {slots : List Slot} (h : files.Holds slots events) (cap : Nat) :
    files.newestEvents cap = keepNewest events cap :=
  Files.newestEvents_eq (by rw [h.slots_eq, h.decoded]) cap

theorem filterMap_slots_eq (h : files.slots.map files.event? = events.map some) :
    files.slots.filterMap files.event? = events := filterMap_drop_of_map_eq h 0

end Files

/-- The report that a session was finalized with, if it can be decoded. -/
def Vault.recorded? (v : Vault) (id : SessionId) : Option Report :=
  (v.report? id).bind fun found => Report.decode? found.2

/-! ## Assembling -/

namespace Engine.Assembled

variable (id : SessionId) (time : Int64) (marked : Bool) (header : Report) (events : List Event)
  (user correlation : Option String) (recorded : Option Report)

@[simp] theorem events_ofParts :
    (ofParts id time marked header events user correlation recorded).report.events = events := by
  unfold ofParts
  cases recorded.filter fun r => r.nativePayload.isSome <;> rfl

variable {recorded}

/-- Without a native crash that was recorded the report is made from the files alone. -/
theorem ofParts_of_payload_eq_none (h : recorded.bind (·.nativePayload) = none) :
    ofParts id time marked header events user correlation recorded =
      ofParts id time marked header events user correlation none := by
  cases recorded with
  | none => rfl
  | some r =>
    have hr : r.nativePayload = none := h
    simp [ofParts, Option.filter_some, hr]

variable (recorded)

/-- A native crash that was recorded keeps its payload. -/
theorem nativePayload_ofParts :
    (ofParts id time marked header events user correlation recorded).report.nativePayload =
      (recorded.bind (·.nativePayload)).or header.nativePayload := by
  cases recorded with
  | none => rfl
  | some r =>
    cases hr : r.nativePayload with
    | none => simp [ofParts, Option.filter_some, hr, Report.withEvents, Report.correlated,
        Report.ended]
    | some payload => simp [ofParts, Option.filter_some, hr]

/-- The tier goes by the native crash that was recorded, or else by the mark. -/
theorem tier_ofParts :
    (ofParts id time marked header events user correlation recorded).tier =
      if (recorded.bind (·.nativePayload)).isSome then .native
      else if marked then .priority else .normal := by
  cases recorded with
  | none => rfl
  | some r => cases hr : r.nativePayload <;> simp [ofParts, Option.filter_some, hr]

/-- The session ends with the pass. -/
@[simp] theorem endTimeMillis_ofParts :
    (ofParts id time marked header events user correlation recorded).report.session.endTimeMillis =
      some time := by
  unfold ofParts
  cases recorded.filter fun r => r.nativePayload.isSome <;> rfl

/-- A native crash that was recorded keeps its exit record. -/
theorem exitInfo_ofParts_some {r : Report} (h : r.nativePayload.isSome = true) :
    (ofParts id time marked header events user correlation (some r)).report.exitInfo =
      r.exitInfo := by
  simp [ofParts, Option.filter_some, h]

/-- To assemble a session again that was finalized with what was assembled gives the same, if the
native crash is not in the header. -/
theorem ofParts_again (h : header.nativePayload = none) :
    ofParts id time marked header events user correlation
        (some (ofParts id time marked header events user correlation recorded).report) =
      ofParts id time marked header events user correlation recorded := by
  cases hpayload : recorded.bind (·.nativePayload) with
  | none =>
    have hreport := nativePayload_ofParts id time marked header events user correlation recorded
    rw [hpayload, Option.none_or, h] at hreport
    rw [ofParts_of_payload_eq_none (h := hpayload), ofParts_of_payload_eq_none]
    rw [ofParts_of_payload_eq_none (h := hpayload)] at hreport
    exact hreport
  | some payload =>
    obtain ⟨r, rfl, hr⟩ := Option.bind_eq_some_iff.1 hpayload
    simp [ofParts, Option.filter_some, hr]

end Engine.Assembled

/-- The same of the files of a session. -/
theorem Files.assembled_again {files : Files} {id : SessionId} {time : Int64} {cap : Nat}
    {header : Report} {recorded : Option Report} {a : Assembled}
    (h : header.nativePayload = none) (ha : files.assembled id time cap header recorded = a) :
    files.assembled id time cap header (some a.report) = a := by
  rw [← ha]
  exact Assembled.ofParts_again (h := h) ..

/-! ## Reading -/

namespace Medium

variable (place : Location) {v w : Vault} {id : SessionId} (hid : id.IsStorable)

include hid

theorem answer_slots_plain :
    (plain place).answer v (.slots id) = .ok (v.files id).slots :=
  congrArg Prod.fst (v.perform_slots place hid)

theorem answer_read_plain (name : String) :
    (plain place).answer v (.read id name) = v.readAnswer place id name :=
  congrArg Prod.fst (v.perform_read place hid name)

theorem answer_readReport_plain :
    (plain place).answer v (.readReport id) = .ok (v.report? id) :=
  congrArg Prod.fst (v.perform_readReport place hid)

/-- What is read of a file: its contents, if it is one. -/
theorem toOption_answer_read_plain (name : String) :
    ((plain place).answer v (.read id name)).toOption.join = (v.files id).contents? name := by
  rw [answer_read_plain place hid, Vault.readAnswer, Vault.item?, Files.contents?]
  rcases (v.files id).lookup name with _ | _ | _ <;> rfl

theorem event?_plain (slot : Slot) :
    (plain place).event? v id slot = (v.files id).event? slot := by
  rw [Medium.event?, answer_read_plain place hid, Vault.readAnswer, Vault.item?, Files.event?]
  rcases (v.files id).lookup slot.fileName with _ | _ | _
  · rfl
  · exact Codec.toOption_decodeEvent_json _
  · rfl

theorem events_plain (slots : List Slot) :
    (plain place).events v id slots = slots.filterMap (v.files id).event? := by
  rw [Medium.events, show (plain place).event? v id = (v.files id).event? from
    funext fun slot => event?_plain place hid slot]

theorem text?_plain (name : String) :
    (plain place).text? v id name = (v.files id).text? name := by
  have hread := toOption_answer_read_plain place hid (v := v) name
  rw [Medium.text?, Files.text?, ← hread]
  rcases (plain place).answer v (.read id name) with _ | _ | _ <;> rfl

theorem marked_plain :
    (plain place).marked v id (v.files id).slots = (v.files id).isMarked := by
  have hread := toOption_answer_read_plain place hid (v := v) SessionFile.priority
  rw [Medium.marked, Files.isMarked, ← hread]
  rcases (plain place).answer v (.read id SessionFile.priority) with _ | _ | _ <;> rfl

theorem recorded?_plain : (plain place).recorded? v id = v.recorded? id := by
  rw [Medium.recorded?, answer_readReport_plain place hid, Vault.recorded?]
  cases v.report? id with
  | none => rfl
  | some found => exact Codec.toOption_decodeReport_json found.2

theorem header_plain_eq_ok_iff {header : Report} :
    (plain place).header v id = .ok header ↔ (v.files id).header? = some header := by
  rw [Medium.header, answer_read_plain place hid, Vault.readAnswer, Vault.item?, Files.header?,
    Files.contents?]
  rcases (v.files id).lookup SessionFile.header with _ | contents | _
  · simp
  · exact Codec.decodeReport_json_eq_ok_iff
  · simp

/-- The header is a matter of the file alone. -/
theorem header_plain_congr (h : v.files id = w.files id) :
    (plain place).header v id = (plain place).header w id := by
  have hread : (plain place).answer v (.read id SessionFile.header) =
      (plain place).answer w (.read id SessionFile.header) := by
    rw [answer_read_plain place hid, answer_read_plain place hid, Vault.readAnswer,
      Vault.readAnswer, Vault.item?, Vault.item?, h]
  rw [Medium.header, Medium.header, hread]

/-- What is assembled for a session is made from its files and from what was recorded for it. -/
theorem outcome_plain (time : Int64) (cap : Nat) :
    (plain place).outcome v id time cap =
      if (v.files id).slots.isEmpty then .ok none
      else ((plain place).header v id).map fun header =>
        let a := (v.files id).assembled id time cap header (v.recorded? id)
        if a.report.isComplete then some a else none := by
  rw [Medium.outcome, answer_slots_plain place hid]
  simp only [marked_plain place hid, events_plain place hid, text?_plain place hid,
    recorded?_plain place hid]
  rfl

end Medium

namespace Pass

variable {place : Location} {caps : Caps} {current : Option SessionId} {time : Int64}
  {v w : Vault} {id : SessionId} {a : Assembled}

theorem outcome_plain (hid : id.IsStorable) :
    (plain place caps current time).outcome v id =
      if (v.files id).slots.isEmpty then .ok none
      else ((Medium.plain place).header v id).map fun header =>
        let a := (v.files id).assembled id time caps.events header (v.recorded? id)
        if a.report.isComplete then some a else none :=
  Medium.outcome_plain place hid time caps.events

/-- The reports that a session makes: it has an event file, a header that can be decoded, and an
event that can be decoded or a native crash. -/
theorem outcome_plain_eq_some_iff (hid : id.IsStorable) :
    (plain place caps current time).outcome v id = .ok (some a) ↔
      (v.files id).slots ≠ [] ∧ ∃ header, (v.files id).header? = some header ∧
        (v.files id).assembled id time caps.events header (v.recorded? id) = a ∧
          a.report.isComplete = true := by
  rw [outcome_plain hid]
  simp only [← Medium.header_plain_eq_ok_iff place hid]
  cases hslots : (v.files id).slots with
  | nil => simp
  | cons slot slots =>
    cases (Medium.plain place).header v id with
    | error failure => simp [Except.map]
    | ok header =>
      simp only [List.isEmpty_cons, Bool.false_eq_true, if_false, Except.map, Except.ok.injEq,
        Option.ite_none_right_eq_some, Option.some.injEq, ne_eq, reduceCtorEq, not_false_eq_true,
        true_and, exists_eq_left']
      exact ⟨fun h => ⟨h.2, h.2 ▸ h.1⟩, fun h => ⟨h.1 ▸ h.2, h.1⟩⟩

/-- The same is assembled from the same files and the same record. -/
theorem outcome_plain_congr (hid : id.IsStorable) (hfiles : v.files id = w.files id)
    (hrecorded : v.recorded? id = w.recorded? id) :
    (plain place caps current time).outcome v id = (plain place caps current time).outcome w id := by
  rw [outcome_plain hid, outcome_plain hid, Medium.header_plain_congr place hid hfiles, hfiles,
    hrecorded]

/-- What cannot be assembled cannot be assembled whatever was recorded. -/
theorem outcome_plain_eq_error (hid : id.IsStorable) (hfiles : v.files id = w.files id)
    {failure : Failure} (h : (plain place caps current time).outcome v id = .error failure) :
    (plain place caps current time).outcome w id = .error failure := by
  rw [outcome_plain hid, Medium.header_plain_congr place hid hfiles, hfiles] at h
  rw [outcome_plain hid]
  split at h
  · exact absurd h (by simp)
  · next hslots =>
    rw [if_neg hslots]
    cases hheader : (Medium.plain place).header w id with
    | error cause => rw [hheader] at h; exact h
    | ok header => rw [hheader] at h; exact absurd h (by simp [Except.map])

end Pass

end ReportVault
