import ReportVault.Failure
import ReportVault.Report.Json

/-!
# ReportVault.Codec

How records become bytes and bytes become records.
-/

namespace ReportVault

/-- The four directions of a record format. -/
structure Codec where
  encodeReport : Report → Except Failure Bytes
  decodeReport : Bytes → Except Failure Report
  encodeEvent : Event → Except Failure Bytes
  decodeEvent : Bytes → Except Failure Event

namespace Codec

/-- Records as JSON texts.  Encoding always succeeds. -/
def json : Codec where
  encodeReport r := .ok r.encode
  decodeReport bs :=
    match Report.decode? bs with
    | some r => .ok r
    | none => .error (.decode .report "not the JSON text of a report")
  encodeEvent e := .ok e.encode
  decodeEvent bs :=
    match Event.decode? bs with
    | some e => .ok e
    | none => .error (.decode .event "not the JSON text of an event")

end Codec

end ReportVault
