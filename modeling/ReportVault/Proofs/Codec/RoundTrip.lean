import Mathlib.Data.Option.Basic
import ReportVault.Codec
import ReportVault.Proofs.Json.Layout

/-!
# ReportVault.Proofs.Codec.RoundTrip

A record that is encoded is decoded as the same record.

Each kind of record has two lemmas: its JSON value is plain, so that the printed text reads as the
value again (`Value.ofBytes?_toBytes`), and its reader takes the value back (`ofJson?_toJson`).
Events need a third one, since their members are held before they are read: the members fit into
the room that a decoder has.
-/

namespace ReportVault

open Json

/-! ## Numbers -/

namespace Json.Number

/-- A word of 64 bits is rounded to a double by less than its last eleven bits. -/
theorem toDouble_lt {n : Nat} (hn : n < UInt64.size) : toDouble n < 2 * UInt64.size := by
  have hsize : UInt64.size = 2 ^ 64 := rfl
  have hlog : n.log2 < 64 := by
    rcases Nat.eq_zero_or_pos n with rfl | hpos
    · decide
    · exact (Nat.log2_lt (Nat.ne_of_gt hpos)).2 hn
  have hunit : 1 <<< (n.log2 + 1 - 53) ≤ 2 ^ 11 := by
    rw [Nat.one_shiftLeft]
    exact Nat.pow_le_pow_right (by omega) (by omega)
  have hdiv : n / (1 <<< (n.log2 + 1 - 53)) * (1 <<< (n.log2 + 1 - 53)) ≤ n :=
    Nat.div_mul_le_self _ _
  simp only [toDouble]
  split
  · omega
  · rw [Nat.succ_mul]
    omega

/-- An integer of 64 bits can be held. -/
theorem isInRange_ofInt {i : Int} (hi : i.natAbs < UInt64.size) : (ofInt i).isInRange = true := by
  have hone : toDouble (Nat.pow 10 (0 : Int).toNat) = 1 := by decide
  have hdouble := toDouble_lt hi
  have hlimit : 2 * UInt64.size < Text.doubleLimit := by decide
  have hproduct : toDouble i.natAbs * toDouble (Nat.pow 10 (0 : Int).toNat) <
      Text.doubleLimit := by
    rw [hone, Nat.mul_one]
    omega
  have hfinite : isFinite i.natAbs 0 = true := by
    rw [isFinite, decide_eq_true hproduct]
    simp
  simp [isInRange, ofInt, leading, hi, appendFraction, hfinite]

theorem isInRange_int64 (x : Int64) : (ofInt x.toInt).isInRange = true := by
  have hmin := x.le_toInt
  have hmax := x.toInt_lt
  have hsize : UInt64.size = 2 ^ 64 := rfl
  exact isInRange_ofInt (by omega)

theorem isInRange_int32 (x : Int32) : (ofInt x.toInt).isInRange = true := by
  have hmin := x.le_toInt
  have hmax := x.toInt_lt
  have hsize : UInt64.size = 2 ^ 64 := rfl
  exact isInRange_ofInt (by omega)

theorem isInRange_uint64 (x : UInt64) : (ofInt x.toNat).isInRange = true := by
  have hmax := x.toNat_lt
  have hsize : UInt64.size = 2 ^ 64 := rfl
  exact isInRange_ofInt (by omega)

end Json.Number

/-! ## Values of fields -/

@[simp] theorem int64OfJson?_int (x : Int64) : int64OfJson? (.int x.toInt) = some x := by
  simp [int64OfJson?, Value.asInt?]

@[simp] theorem int32OfJson?_int (x : Int32) : int32OfJson? (.int x.toInt) = some x := by
  simp [int32OfJson?, Value.asInt?]

@[simp] theorem uint64OfJson?_int (x : UInt64) : uint64OfJson? (.int x.toNat) = some x := by
  have hx : (x.toNat : Int) < UInt64.size := Int.ofNat_lt.2 x.toNat_lt_size
  have hread : Value.asInt? (.int x.toNat) = some (x.toNat : Int) := Number.toInt?_ofInt _
  unfold uint64OfJson?
  rw [hread, Option.bind_some, if_pos ⟨Int.natCast_nonneg _, hx⟩, Int.toNat_natCast,
    UInt64.ofNat_toNat]

@[simp] theorem byteOfJson?_int (x : UInt8) : byteOfJson? (.int x.toNat) = some x := by
  have hx : (x.toNat : Int) < UInt8.size := Int.ofNat_lt.2 x.toNat_lt_size
  have hread : Value.asInt? (.int x.toNat) = some (x.toNat : Int) := Number.toInt?_ofInt _
  unfold byteOfJson?
  rw [hread, Option.bind_some, if_pos ⟨Int.natCast_nonneg _, hx⟩, Int.toNat_natCast,
    UInt8.ofNat_toNat]

/-- Items that are read back one by one are read back as a list. -/
theorem asList?_map {read : Value → Option α} {write : α → Value}
    (h : ∀ a, read (write a) = some a) (l : List α) :
    Value.asList? read (.array (l.map write)) = some l := by
  induction l with
  | nil => rfl
  | cons a l ih =>
    simp only [Value.asList?, List.map_cons] at ih ⊢
    rw [List.mapM_cons, h a, ih]
    rfl

theorem areItemsPlain_map {write : α → Value} (h : ∀ a, (write a).IsPlain) (l : List α) :
    Value.AreItemsPlain (l.map write) := by
  induction l with
  | nil => trivial
  | cons a l ih => exact ⟨h a, ih⟩

theorem doItemsFit_map {write : α → Value} (room : Nat) (h : ∀ a, (write a).fits room = true)
    (l : List α) : Value.doItemsFit room (l.map write) = true := by
  induction l with
  | nil => rfl
  | cons a l ih => simp [Value.doItemsFit, h a, ih]

/-! ## Fields -/

namespace Json.Fields

variable {fs : Fields} {name other : String} {v : Value} {read : Value → Option α}

/-- Each known name is given once at most. -/
theorem areUnique_iff {names : List String} : fs.areUnique names = true ↔
    ∀ name ∈ names, (fs.map Prod.fst).count name ≤ 1 := by
  have hcount : ∀ name, (fs.filter (·.1 == name)).length = (fs.map Prod.fst).count name := by
    intro name
    rw [List.count, List.countP_map, List.countP_eq_length_filter]
    rfl
  simp [areUnique, hcount]

/-- Fields with different names are unique, whatever names are known. -/
theorem areUnique_of_nodup {names : List String} (h : (fs.map Prod.fst).Nodup) :
    fs.areUnique names = true := areUnique_iff.2 fun name _ => List.nodup_iff_count.1 h name

@[simp] theorem filter_areUnique {names : List String} (h : (fs.map Prod.fst).Nodup) :
    (some fs).filter (areUnique names) = some fs := by
  rw [Option.filter_some, if_pos (areUnique_of_nodup h)]

theorem lookup_of_ne (h : name ≠ other) : List.lookup name ((other, v) :: fs) = fs.lookup name := by
  rw [List.lookup_cons, beq_eq_false_iff_ne.2 h]

@[simp] theorem required_cons_self : required ((name, v) :: fs) name read = read v := by
  rw [required, List.lookup_cons_self, Option.bind_some]

@[simp] theorem required_cons_of_ne (h : name ≠ other) :
    required ((other, v) :: fs) name read = required fs name read := by
  rw [required, required, lookup_of_ne h]

@[simp] theorem optional_nil : optional [] name read = some none := rfl

@[simp] theorem optional_cons_self (hv : v ≠ .null) :
    optional ((name, v) :: fs) name read = (read v).map some := by
  rw [optional, List.lookup_cons_self]
  cases v <;> first | rfl | exact absurd rfl hv

@[simp] theorem optional_cons_of_ne (h : name ≠ other) :
    optional ((other, v) :: fs) name read = optional fs name read := by
  rw [optional, optional, lookup_of_ne h]

@[simp] theorem withDefault_cons_self {d : α} :
    withDefault ((name, v) :: fs) name d read = read v := by
  rw [withDefault, List.lookup_cons_self]

@[simp] theorem withDefault_cons_of_ne {d : α} (h : name ≠ other) :
    withDefault ((other, v) :: fs) name d read = withDefault fs name d read := by
  rw [withDefault, withDefault, lookup_of_ne h]

end Json.Fields

/-! ## The parts of an event

Looking up a field is left to `simp` with `-implicitDefEqProofs`, as the kernel would otherwise
compare the readers of integers by running them. -/

namespace Frame

theorem isPlain_toJson (f : Frame) : f.toJson.IsPlain := by
  cases hf : f.file <;>
    simp [toJson, optionalMember, hf, Value.IsPlain, Value.AreMembersPlain]

theorem fits_toJson (f : Frame) (room : Nat) : f.toJson.fits (room + 1) = true := by
  cases hf : f.file <;>
    simp [toJson, optionalMember, hf, Value.fits, Value.doMembersFit, Number.isInRange_uint64]

theorem ofJson?_toJson (f : Frame) : ofJson? f.toJson = some f := by
  obtain ⟨pc, symbol, file, offset⟩ := f
  cases file <;>
    simp -implicitDefEqProofs [toJson, ofJson?, optionalMember, fieldNames, Fields.ofValue?,
      Fields.named?, Value.asText?]

end Frame

namespace ExceptionInfo

theorem isPlain_toJson (e : ExceptionInfo) : e.toJson.IsPlain := by
  simp [toJson, Value.IsPlain, Value.AreMembersPlain, areItemsPlain_map Frame.isPlain_toJson]

theorem fits_toJson (e : ExceptionInfo) (room : Nat) : e.toJson.fits (room + 3) = true := by
  have hframes := doItemsFit_map (room + 1) (Frame.fits_toJson · room) e.frames
  simp [toJson, Value.fits, Value.doMembersFit, hframes]

theorem ofJson?_toJson (e : ExceptionInfo) : ofJson? e.toJson = some e := by
  simp -implicitDefEqProofs [toJson, ofJson?, fieldNames, Fields.ofValue?, Fields.named?,
    Value.asText?, asList?_map Frame.ofJson?_toJson]

end ExceptionInfo

namespace ExitInfo

theorem isPlain_toJson (i : ExitInfo) : i.toJson.IsPlain := by
  cases hi : i.trace <;>
    simp [toJson, optionalMember, hi, Value.IsPlain, Value.AreMembersPlain]

theorem fits_toJson (i : ExitInfo) (room : Nat) : i.toJson.fits (room + 1) = true := by
  cases hi : i.trace <;>
    simp [toJson, optionalMember, hi, Value.fits, Value.doMembersFit, Number.isInRange_int32,
      Number.isInRange_int64]

theorem ofJson?_toJson (i : ExitInfo) : ofJson? i.toJson = some i := by
  obtain ⟨pid, processName, reasonCode, importance, timestampMillis, pss, rss, trace⟩ := i
  cases trace <;>
    simp -implicitDefEqProofs [toJson, ofJson?, optionalMember, fieldNames, Fields.ofValue?,
      Fields.named?, Value.asText?]

end ExitInfo

/-! ## Events -/

namespace EventKind

theorem isPlain_field (k : EventKind) : k.field.IsPlain := by
  cases k with
  | crash e => exact e.isPlain_toJson
  | nonFatal e => exact e.isPlain_toJson
  | notResponding reason => rfl
  | log message => rfl
  | nativeExit info => exact info.isPlain_toJson

theorem fits_field (k : EventKind) (room : Nat) : k.field.fits (room + 3) = true := by
  cases k with
  | crash e => exact e.fits_toJson room
  | nonFatal e => exact e.fits_toJson room
  | notResponding reason => rfl
  | log message => rfl
  | nativeExit info => exact info.fits_toJson (room + 2)

/-- The name of a kind is read as that kind. -/
theorem Tag.ofJson?_name (t : Tag) : Tag.ofJson? (.text t.name) = some t := by
  cases t <;> simp [Tag.ofJson?, Tag.all, Tag.name]

/-- The field of a kind and its tag make the kind. -/
theorem ofField?_field (k : EventKind) : ofField? k.tag k.field = some k := by
  cases k <;>
    simp -implicitDefEqProofs [ofField?, tag, field, Value.asText?, ExceptionInfo.ofJson?_toJson,
      ExitInfo.ofJson?_toJson]

/-- The field of a kind is another member than the time and the kind. -/
theorem Tag.fieldName_ne (t : Tag) :
    t.fieldName ≠ "timestamp_millis" ∧ t.fieldName ≠ "kind" := by
  cases t <;> simp [Tag.fieldName]

end EventKind

namespace Event

theorem isPlain_toJson (e : Event) : e.toJson.IsPlain := by
  simp [toJson, Value.IsPlain, Value.AreMembersPlain, EventKind.isPlain_field]

/-- An event is read back where three more arrays and objects may be opened. -/
theorem ofJson?_toJson (e : Event) (room : Nat) : ofJson? (room + 3) e.toJson = some e := by
  obtain ⟨htime, hkind⟩ := e.kind.tag.fieldName_ne
  have hheld : areMembersHeld (room + 3)
      [(some "timestamp_millis", .int e.timestampMillis.toInt),
       (some "kind", .text e.kind.tag.name), (some e.kind.tag.fieldName, e.kind.field)] = true := by
    simp [areMembersHeld, Value.fits, EventKind.fits_field]
  have hnodup : (([("timestamp_millis", Value.int e.timestampMillis.toInt),
      ("kind", Value.text e.kind.tag.name), (e.kind.tag.fieldName, e.kind.field)] : Fields).map
        Prod.fst).Nodup := by
    simp [htime.symm, hkind.symm]
  simp -implicitDefEqProofs [toJson, ofJson?, hheld, Fields.named?,
    Fields.areUnique_of_nodup hnodup, EventKind.Tag.ofJson?_name, htime, hkind,
    EventKind.ofField?_field]

/-- What is written for an event is read as the event. -/
theorem decode?_encode (e : Event) : decode? e.encode = some e := by
  have hbytes : Value.ofBytes? e.toJson.toBytes = some e.toJson :=
    Value.ofBytes?_toBytes e.isPlain_toJson
  rw [decode?, encode, hbytes]
  exact e.ofJson?_toJson 123

end Event

/-! ## The parts of a report -/

namespace Application

theorem isPlain_toJson (a : Application) : a.toJson.IsPlain := by
  simp [toJson, Value.IsPlain, Value.AreMembersPlain]

theorem ofJson?_toJson (a : Application) : ofJson? a.toJson = some a := by
  simp -implicitDefEqProofs [toJson, ofJson?, fieldNames, Fields.ofValue?, Fields.named?,
    Value.asText?]

end Application

namespace Session

theorem isPlain_toJson (s : Session) : s.toJson.IsPlain := by
  cases hend : s.endTimeMillis <;> cases huser : s.userId <;> cases hid : s.correlationId <;>
    simp [toJson, optionalMember, hend, huser, hid, Value.IsPlain, Value.AreMembersPlain]

theorem ofJson?_toJson (s : Session) : ofJson? s.toJson = some s := by
  obtain ⟨id, generator, startTimeMillis, endTimeMillis, crashed, userId, highPriority,
    correlationId⟩ := s
  cases endTimeMillis <;> cases userId <;> cases correlationId <;>
    simp -implicitDefEqProofs [toJson, ofJson?, optionalMember, fieldNames, Fields.ofValue?,
      Fields.named?, Value.asText?, Value.asBool?]

end Session

namespace NativeFile

theorem isPlain_toJson (f : NativeFile) : f.toJson.IsPlain := by
  have hbyte : ∀ b : UInt8, (Value.int b.toNat).IsPlain := fun b => ⟨b.toNat, rfl⟩
  simp [toJson, Value.IsPlain, Value.AreMembersPlain, areItemsPlain_map hbyte]

theorem ofJson?_toJson (f : NativeFile) : ofJson? f.toJson = some f := by
  simp -implicitDefEqProofs [toJson, ofJson?, fieldNames, Fields.ofValue?, Fields.named?,
    Value.asText?, asList?_map byteOfJson?_int]

end NativeFile

namespace NativePayload

theorem isPlain_toJson (p : NativePayload) : p.toJson.IsPlain := by
  cases hp : p.organizationId <;>
    simp [toJson, optionalMember, hp, Value.IsPlain, Value.AreMembersPlain,
      areItemsPlain_map NativeFile.isPlain_toJson]

theorem ofJson?_toJson (p : NativePayload) : ofJson? p.toJson = some p := by
  obtain ⟨organizationId, files⟩ := p
  cases organizationId <;>
    simp -implicitDefEqProofs [toJson, ofJson?, optionalMember, fieldNames, Fields.ofValue?,
      Fields.named?, Value.asText?, asList?_map NativeFile.ofJson?_toJson]

end NativePayload

/-! ## Reports -/

namespace Report

theorem isPlain_toJson (r : Report) : r.toJson.IsPlain := by
  cases hid : r.installationId <;> cases hpayload : r.nativePayload <;>
    cases hinfo : r.exitInfo <;>
    simp [toJson, optionalMember, hid, hpayload, hinfo, Value.IsPlain, Value.AreMembersPlain,
      areItemsPlain_map Event.isPlain_toJson, Application.isPlain_toJson, Session.isPlain_toJson,
      NativePayload.isPlain_toJson, ExitInfo.isPlain_toJson]

theorem ofJson?_toJson (r : Report) : ofJson? r.toJson = some r := by
  have hevents := asList?_map (Event.ofJson?_toJson · 121)
  have hpayload : ∀ p : NativePayload, p.toJson ≠ .null := by simp [NativePayload.toJson]
  have hinfo : ∀ i : ExitInfo, i.toJson ≠ .null := by simp [ExitInfo.toJson]
  obtain ⟨sdkVersion, app, installationId, session, events, nativePayload, exitInfo⟩ := r
  cases installationId <;> cases nativePayload <;> cases exitInfo <;>
    simp -implicitDefEqProofs [toJson, ofJson?, optionalMember, fieldNames, Fields.ofValue?,
      Fields.named?, Value.asText?, Application.ofJson?_toJson, Session.ofJson?_toJson,
      maxNesting, hevents, hpayload, hinfo, NativePayload.ofJson?_toJson, ExitInfo.ofJson?_toJson]

/-- What is written for a report is read as the report. -/
theorem decode?_encode (r : Report) : decode? r.encode = some r := by
  have hbytes : Value.ofBytes? r.toJson.toBytes = some r.toJson :=
    Value.ofBytes?_toBytes r.isPlain_toJson
  rw [decode?, encode, hbytes]
  exact r.ofJson?_toJson

end Report

/-! ## The format -/

namespace Codec

variable {bs : Bytes}

theorem decodeReport_json_eq_ok_iff {r : Report} :
    json.decodeReport bs = .ok r ↔ Report.decode? bs = some r := by
  simp only [json]
  cases Report.decode? bs <;> simp

/-- What cannot be read as a report is no failure of the storage. -/
theorem isStorage_of_decodeReport_json {failure : Failure}
    (h : json.decodeReport bs = .error failure) : failure.isStorage = false := by
  simp only [json] at h
  cases hreport : Report.decode? bs with
  | some r => simp [hreport] at h
  | none =>
    simp only [hreport, Except.error.injEq] at h
    rw [← h]
    rfl

theorem toOption_decodeReport_json (bs : Bytes) :
    (json.decodeReport bs).toOption = Report.decode? bs := by
  simp only [json]
  cases Report.decode? bs <;> rfl

theorem toOption_decodeEvent_json (bs : Bytes) :
    (json.decodeEvent bs).toOption = Event.decode? bs := by
  simp only [json]
  cases Event.decode? bs <;> rfl

end Codec

/-- Every report and every event can be written, and is read back as it was. -/
theorem Codec.json_roundTrip :
    (∀ r : Report, ∃ bs,
      Codec.json.encodeReport r = .ok bs ∧ Codec.json.decodeReport bs = .ok r) ∧
    (∀ e : Event, ∃ bs, Codec.json.encodeEvent e = .ok bs ∧ Codec.json.decodeEvent bs = .ok e) := by
  constructor
  · intro r
    refine ⟨r.encode, rfl, ?_⟩
    simp only [Codec.json, r.decode?_encode]
  · intro e
    refine ⟨e.encode, rfl, ?_⟩
    simp only [Codec.json, e.decode?_encode]

end ReportVault
