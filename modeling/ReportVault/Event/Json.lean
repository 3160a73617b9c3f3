import ReportVault.Event
import ReportVault.Json.Fields
import ReportVault.Json.Reader
import ReportVault.Json.Printer
import ReportVault.Text.Decimal

/-!
# ReportVault.Event.Json

The JSON form of events.

An event is one flat object: its time, the member `kind`, and the field of its kind.  The parts of
an event are records of their own, which may also be written as arrays.  All members of an event
but its time are kept until the kind is known, whether they are used or not, so each of them must
fit (`Json.Value.fits`).
-/

namespace ReportVault

open Json

/-- The number of arrays and objects that may be open at one place of a record. -/
def maxNesting : Nat := 127

/-- A member for a value that is there, and none for one that is not. -/
def optionalMember (name : String) (write : α → Value) : Option α → List (Option String × Value)
  | none => []
  | some a => [(some name, write a)]

/-- A 64-bit integer. -/
def int64OfJson? (v : Value) : Option Int64 := v.asInt?.bind Text.int64?

/-- A 32-bit integer. -/
def int32OfJson? (v : Value) : Option Int32 := v.asInt?.bind Text.int32?

/-- A natural number below 2^64. -/
def uint64OfJson? (v : Value) : Option UInt64 :=
  v.asInt?.bind fun i => if 0 ≤ i ∧ i < UInt64.size then some (UInt64.ofNat i.toNat) else none

/-- A natural number below 2^8. -/
def byteOfJson? (v : Value) : Option UInt8 :=
  v.asInt?.bind fun i => if 0 ≤ i ∧ i < UInt8.size then some (UInt8.ofNat i.toNat) else none

namespace Frame

/-- The fields of a frame, in order. -/
def fieldNames : List String := ["pc", "symbol", "file", "offset"]

def toJson (f : Frame) : Value :=
  .object <|
    [(some "pc", .int f.pc.toNat), (some "symbol", .text f.symbol)] ++
    optionalMember "file" .text f.file ++
    [(some "offset", .int f.offset.toNat)]

def ofJson? (v : Value) : Option Frame := do
  let fs ← Fields.ofValue? fieldNames v
  let pc ← fs.required "pc" uint64OfJson?
  let symbol ← fs.required "symbol" Value.asText?
  let file ← fs.optional "file" Value.asText?
  let offset ← fs.withDefault "offset" 0 uint64OfJson?
  return { pc, symbol, file, offset }

end Frame

namespace ExceptionInfo

/-- The fields of an exception, in order. -/
def fieldNames : List String := ["type", "reason", "frames"]

def toJson (e : ExceptionInfo) : Value :=
  .object
    [(some "type", .text e.type), (some "reason", .text e.reason),
     (some "frames", .array (e.frames.map Frame.toJson))]

def ofJson? (v : Value) : Option ExceptionInfo := do
  let fs ← Fields.ofValue? fieldNames v
  let type ← fs.required "type" Value.asText?
  let reason ← fs.required "reason" Value.asText?
  let frames ← fs.withDefault "frames" [] (Value.asList? Frame.ofJson?)
  return { type, reason, frames }

end ExceptionInfo

namespace ExitInfo

/-- The fields of an exit record, in order. -/
def fieldNames : List String :=
  ["pid", "process_name", "reason_code", "importance", "timestamp_millis", "pss", "rss", "trace"]

def toJson (i : ExitInfo) : Value :=
  .object <|
    [(some "pid", .int i.pid.toInt), (some "process_name", .text i.processName),
     (some "reason_code", .int i.reasonCode.toInt), (some "importance", .int i.importance.toInt),
     (some "timestamp_millis", .int i.timestampMillis.toInt),
     (some "pss", .int i.pss.toInt), (some "rss", .int i.rss.toInt)] ++
    optionalMember "trace" .text i.trace

def ofJson? (v : Value) : Option ExitInfo := do
  let fs ← Fields.ofValue? fieldNames v
  let pid ← fs.required "pid" int32OfJson?
  let processName ← fs.required "process_name" Value.asText?
  let reasonCode ← fs.required "reason_code" int32OfJson?
  let importance ← fs.required "importance" int32OfJson?
  let timestampMillis ← fs.required "timestamp_millis" int64OfJson?
  let pss ← fs.required "pss" int64OfJson?
  let rss ← fs.required "rss" int64OfJson?
  let trace ← fs.optional "trace" Value.asText?
  return { pid, processName, reasonCode, importance, timestampMillis, pss, rss, trace }

end ExitInfo

namespace EventKind

/-- The kinds without their field. -/
inductive Tag
  | crash
  | nonFatal
  | notResponding
  | log
  | nativeExit
  deriving DecidableEq, Repr

/-- The kinds in the order of their numbers. -/
def Tag.all : List Tag := [.crash, .nonFatal, .notResponding, .log, .nativeExit]

/-- The written name of a kind. -/
def Tag.name : Tag → String
  | .crash => "crash"
  | .nonFatal => "non_fatal"
  | .notResponding => "anr"
  | .log => "log"
  | .nativeExit => "native_exit"

/-- A kind is written by its name or by its number. -/
def Tag.ofJson? : Value → Option Tag
  | .string (some s) => Tag.all.find? fun t => t.name == s
  | .number n => n.toInt?.bind fun i => if 0 ≤ i then Tag.all[i.toNat]? else none
  | _ => none

/-- The name of the field that an event of this kind has. -/
def Tag.fieldName : Tag → String
  | .crash => "exception"
  | .nonFatal => "exception"
  | .notResponding => "reason"
  | .log => "message"
  | .nativeExit => "exit_info"

/-- The kind that a tag and the value of its field make. -/
def ofField? (tag : Tag) (v : Value) : Option EventKind :=
  match tag with
  | .crash => (ExceptionInfo.ofJson? v).map .crash
  | .nonFatal => (ExceptionInfo.ofJson? v).map .nonFatal
  | .notResponding => v.asText?.map .notResponding
  | .log => v.asText?.map .log
  | .nativeExit => (ExitInfo.ofJson? v).map .nativeExit

/-- The tag of a kind. -/
def tag : EventKind → Tag
  | .crash _ => .crash
  | .nonFatal _ => .nonFatal
  | .notResponding _ => .notResponding
  | .log _ => .log
  | .nativeExit _ => .nativeExit

/-- The value of the field of a kind. -/
def field : EventKind → Value
  | .crash e => e.toJson
  | .nonFatal e => e.toJson
  | .notResponding reason => .text reason
  | .log message => .text message
  | .nativeExit info => info.toJson

end EventKind

namespace Event

def toJson (e : Event) : Value :=
  .object
    [(some "timestamp_millis", .int e.timestampMillis.toInt),
     (some "kind", .text e.kind.tag.name), (some e.kind.tag.fieldName, e.kind.field)]

/-- Whether every member but the time can be kept in a place with this room. -/
def areMembersHeld (room : Nat) (members : List (Option String × Value)) : Bool :=
  members.all fun (name, v) =>
    name.isSome && (name == some "timestamp_millis" || v.fits room)

/-- An event, in a place where `room` more arrays and objects may be opened inside it. -/
def ofJson? (room : Nat) (v : Value) : Option Event := do
  let .object members := v | none
  guard (areMembersHeld room members)
  let fs ← Fields.named? members
  guard (fs.areUnique ["timestamp_millis", "kind"])
  let timestampMillis ← fs.required "timestamp_millis" int64OfJson?
  let tag ← fs.required "kind" EventKind.Tag.ofJson?
  guard (fs.areUnique [tag.fieldName])
  let kind ← fs.required tag.fieldName (EventKind.ofField? tag)
  return { timestampMillis, kind }

/-- The written form of an event. -/
def encode (e : Event) : Bytes := e.toJson.toBytes

/-- The event that a file holds. -/
def decode? (bs : Bytes) : Option Event := (Value.ofBytes? bs).bind (ofJson? (maxNesting - 1))

end Event

end ReportVault
