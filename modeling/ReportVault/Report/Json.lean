import ReportVault.Event.Json
import ReportVault.Report

/-!
# ReportVault.Report.Json

The JSON form of reports.  Optional fields that are empty are left out; everything else is written
in the order of the fields.
-/

namespace ReportVault

open Json

namespace Application

/-- The fields of an application, in order. -/
def fieldNames : List String := ["identifier", "version", "display_version"]

def toJson (a : Application) : Value :=
  .object
    [(some "identifier", .text a.identifier), (some "version", .text a.version),
     (some "display_version", .text a.displayVersion)]

def ofJson? (v : Value) : Option Application := do
  let fs ← Fields.ofValue? fieldNames v
  let identifier ← fs.required "identifier" Value.asText?
  let version ← fs.required "version" Value.asText?
  let displayVersion ← fs.required "display_version" Value.asText?
  return { identifier, version, displayVersion }

end Application

namespace Session

/-- The fields of a session, in order. -/
def fieldNames : List String :=
  ["id", "generator", "start_time_millis", "end_time_millis", "crashed", "user_id",
   "high_priority", "app_quality_session_id"]

def toJson (s : Session) : Value :=
  .object <|
    [(some "id", .text s.id.name), (some "generator", .text s.generator),
     (some "start_time_millis", .int s.startTimeMillis.toInt)] ++
    optionalMember "end_time_millis" (fun t => .int t.toInt) s.endTimeMillis ++
    [(some "crashed", .bool s.crashed)] ++
    optionalMember "user_id" .text s.userId ++
    [(some "high_priority", .bool s.highPriority)] ++
    optionalMember "app_quality_session_id" .text s.correlationId

def ofJson? (v : Value) : Option Session := do
  let fs ← Fields.ofValue? fieldNames v
  let id ← fs.required "id" Value.asText?
  let generator ← fs.required "generator" Value.asText?
  let startTimeMillis ← fs.required "start_time_millis" int64OfJson?
  let endTimeMillis ← fs.optional "end_time_millis" int64OfJson?
  let crashed ← fs.withDefault "crashed" false Value.asBool?
  let userId ← fs.optional "user_id" Value.asText?
  let highPriority ← fs.withDefault "high_priority" false Value.asBool?
  let correlationId ← fs.optional "app_quality_session_id" Value.asText?
  return { id := ⟨id⟩, generator, startTimeMillis, endTimeMillis, crashed, userId, highPriority,
           correlationId }

end Session

namespace NativeFile

/-- The fields of a native file, in order. -/
def fieldNames : List String := ["filename", "contents"]

def toJson (f : NativeFile) : Value :=
  .object
    [(some "filename", .text f.fileName),
     (some "contents", .array (f.contents.map fun b => .int b.toNat))]

def ofJson? (v : Value) : Option NativeFile := do
  let fs ← Fields.ofValue? fieldNames v
  let fileName ← fs.required "filename" Value.asText?
  let contents ← fs.required "contents" (Value.asList? byteOfJson?)
  return { fileName, contents }

end NativeFile

namespace NativePayload

/-- The fields of a payload, in order. -/
def fieldNames : List String := ["org_id", "files"]

def toJson (p : NativePayload) : Value :=
  .object <|
    optionalMember "org_id" .text p.organizationId ++
    [(some "files", .array (p.files.map NativeFile.toJson))]

def ofJson? (v : Value) : Option NativePayload := do
  let fs ← Fields.ofValue? fieldNames v
  let organizationId ← fs.optional "org_id" Value.asText?
  let files ← fs.required "files" (Value.asList? NativeFile.ofJson?)
  return { organizationId, files }

end NativePayload

namespace Report

/-- The fields of a report, in order. -/
def fieldNames : List String :=
  ["sdk_version", "app", "installation_id", "session", "events", "native_payload", "app_exit_info"]

def toJson (r : Report) : Value :=
  .object <|
    [(some "sdk_version", .text r.sdkVersion), (some "app", r.app.toJson)] ++
    optionalMember "installation_id" .text r.installationId ++
    [(some "session", r.session.toJson), (some "events", .array (r.events.map Event.toJson))] ++
    optionalMember "native_payload" NativePayload.toJson r.nativePayload ++
    optionalMember "app_exit_info" ExitInfo.toJson r.exitInfo

/-- An event of a report stands inside the report and its list of events. -/
def ofJson? (v : Value) : Option Report := do
  let fs ← Fields.ofValue? fieldNames v
  let sdkVersion ← fs.required "sdk_version" Value.asText?
  let app ← fs.required "app" Application.ofJson?
  let installationId ← fs.optional "installation_id" Value.asText?
  let session ← fs.required "session" Session.ofJson?
  let events ← fs.withDefault "events" [] (Value.asList? (Event.ofJson? (maxNesting - 3)))
  let nativePayload ← fs.optional "native_payload" NativePayload.ofJson?
  let exitInfo ← fs.optional "app_exit_info" ExitInfo.ofJson?
  return { sdkVersion, app, installationId, session, events, nativePayload, exitInfo }

/-- The written form of a report. -/
def encode (r : Report) : Bytes := r.toJson.toBytes

/-- The report that a file holds. -/
def decode? (bs : Bytes) : Option Report := (Value.ofBytes? bs).bind ofJson?

end Report

end ReportVault
