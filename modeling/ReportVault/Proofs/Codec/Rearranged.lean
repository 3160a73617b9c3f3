import ReportVault.Proofs.Json.Rearranged

/-!
# ReportVault.Proofs.Codec.Rearranged

A record is decoded as itself whatever the order of its members and whatever stands among them.

Each kind of record has its fields, and a rearrangement of its own: the values of its fields are
rearranged as the kinds of record that they are.  It is read as before (`isReadBy_rearranges`), and
what belongs to an event, whose members are held before they are read, fits as before
(`keepsFit_rearranges`).
-/

namespace ReportVault

open Json

/-! ## The parts of an event -/

namespace Frame

def fields : List Field :=
  [{ name := "pc" }, { name := "symbol" }, { name := "file", isOptional := true },
   { name := "offset" }]

/-- What may become of the JSON value of a frame. -/
def Rearranges : Rearrangement := RearrangesRecord fields

theorem isReadBy_rearranges : Rearranges.IsReadBy ofJson? := fun _ _ h =>
  RearrangesRecord.keeps h (by decide) fun _ _ hsame =>
    (hsame.requiredPlain (by simp [fields]) _).bind fun _ =>
    (hsame.requiredPlain (by simp [fields]) _).bind fun _ =>
    (hsame.optionalPlain (by simp [fields]) rfl).bind fun _ =>
    (hsame.withDefaultPlain (by simp [fields]) _ _).bind fun _ => .refl _

theorem keepsFit_rearranges : Rearranges.KeepsFit :=
  RearrangesRecord.keepsFit (by simp [fields, keepsFit_eq])

end Frame

namespace ExceptionInfo

def fields : List Field :=
  [{ name := "type" }, { name := "reason" },
   { name := "frames", values := RearrangesItems Frame.Rearranges }]

/-- What may become of the JSON value of an exception. -/
def Rearranges : Rearrangement := RearrangesRecord fields

theorem isReadBy_rearranges : Rearranges.IsReadBy ofJson? := fun _ _ h =>
  RearrangesRecord.keeps h (by decide) fun _ _ hsame =>
    (hsame.requiredPlain (by simp [fields]) _).bind fun _ =>
    (hsame.requiredPlain (by simp [fields]) _).bind fun _ =>
    (hsame.withDefault (f := { name := "frames", values := RearrangesItems Frame.Rearranges })
      (by simp [fields]) rfl (RearrangesItems.isReadBy Frame.isReadBy_rearranges) _).bind fun _ =>
    .refl _

theorem keepsFit_rearranges : Rearranges.KeepsFit :=
  RearrangesRecord.keepsFit
    (by simp [fields, keepsFit_eq, RearrangesItems.keepsFit Frame.keepsFit_rearranges])

end ExceptionInfo

namespace ExitInfo

def fields : List Field :=
  [{ name := "pid" }, { name := "process_name" }, { name := "reason_code" },
   { name := "importance" }, { name := "timestamp_millis" }, { name := "pss" }, { name := "rss" },
   { name := "trace", isOptional := true }]

/-- What may become of the JSON value of an exit record. -/
def Rearranges : Rearrangement := RearrangesRecord fields

theorem isReadBy_rearranges : Rearranges.IsReadBy ofJson? := fun _ _ h =>
  RearrangesRecord.keeps h (by decide) fun _ _ hsame =>
    (hsame.requiredPlain (by simp [fields]) _).bind fun _ =>
    (hsame.requiredPlain (by simp [fields]) _).bind fun _ =>
    (hsame.requiredPlain (by simp [fields]) _).bind fun _ =>
    (hsame.requiredPlain (by simp [fields]) _).bind fun _ =>
    (hsame.requiredPlain (by simp [fields]) _).bind fun _ =>
    (hsame.requiredPlain (by simp [fields]) _).bind fun _ =>
    (hsame.requiredPlain (by simp [fields]) _).bind fun _ =>
    (hsame.optionalPlain (by simp [fields]) rfl).bind fun _ => .refl _

theorem keepsFit_rearranges : Rearranges.KeepsFit :=
  RearrangesRecord.keepsFit (by simp [fields, keepsFit_eq])

end ExitInfo

/-! ## Events -/

namespace EventKind.Tag

/-- What may become of the value of the field of a kind. -/
def Rearranges : Tag → Rearrangement
  | .crash => ExceptionInfo.Rearranges
  | .nonFatal => ExceptionInfo.Rearranges
  | .notResponding => Eq
  | .log => Eq
  | .nativeExit => ExitInfo.Rearranges

/-- The fields of an event of this kind. -/
def fields (tag : Tag) : List Field :=
  [{ name := "timestamp_millis" }, { name := "kind" },
   { name := tag.fieldName, values := tag.Rearranges }]

theorem isReadBy_rearranges (tag : Tag) : tag.Rearranges.IsReadBy (ofField? tag) := by
  have hmap : ∀ {α : Type} {R : Rearrangement} {read : Value → Option α} (f : α → EventKind),
      R.IsReadBy read → R.IsReadBy fun v => (read v).map f := by
    intro α R read f hread v w h kind hkind
    obtain ⟨a, ha, rfl⟩ := Option.map_eq_some_iff.1 hkind
    exact Option.map_eq_some_iff.2 ⟨a, hread v w h a ha, rfl⟩
  cases tag with
  | crash => exact hmap _ ExceptionInfo.isReadBy_rearranges
  | nonFatal => exact hmap _ ExceptionInfo.isReadBy_rearranges
  | notResponding => exact isReadBy_eq _
  | log => exact isReadBy_eq _
  | nativeExit => exact hmap _ ExitInfo.isReadBy_rearranges

theorem keepsFit_rearranges (tag : Tag) : tag.Rearranges.KeepsFit := by
  cases tag with
  | crash => exact ExceptionInfo.keepsFit_rearranges
  | nonFatal => exact ExceptionInfo.keepsFit_rearranges
  | notResponding => exact keepsFit_eq
  | log => exact keepsFit_eq
  | nativeExit => exact ExitInfo.keepsFit_rearranges

theorem nodup_fields (tag : Tag) : (tag.fields.map Field.name).Nodup := by
  cases tag <;> decide

end EventKind.Tag

namespace Event

/-- What may become of the JSON value of an event: its fields depend on its kind. -/
def Rearranges (v w : Value) : Prop :=
  ∃ e : Event, v = e.toJson ∧ RearrangesRecord e.kind.tag.fields v w

/-- The members of an event, by their names. -/
def members (e : Event) : Fields :=
  [("timestamp_millis", .int e.timestampMillis.toInt), ("kind", .text e.kind.tag.name),
   (e.kind.tag.fieldName, e.kind.field)]

theorem areUnique_members (e : Event) :
    e.members.areUnique (e.kind.tag.fields.map Field.name) = true :=
  Fields.areUnique_of_nodup e.kind.tag.nodup_fields

theorem fits_toJson (e : Event) (room : Nat) : e.toJson.fits (room + 4) = true := by
  simp [toJson, Value.fits, Value.doMembersFit, Number.isInRange_int64, EventKind.fits_field]

/-- Members that fit can be held. -/
theorem areMembersHeld_members {room : Nat} {fs : Fields} (h : ∀ m ∈ fs, m.2.fits room = true) :
    areMembersHeld room fs.members = true := by
  simp only [areMembersHeld, Fields.members, List.all_map, List.all_eq_true, Function.comp_apply,
    Option.isSome_some, Bool.true_and]
  intro m hm
  rw [h m hm, Bool.or_true]

/-- A rearranged event is read as the event. -/
theorem ofJson?_of_rearranges (e : Event) {w : Value} (room : Nat)
    (h : RearrangesRecord e.kind.tag.fields e.toJson w) : ofJson? (room + 3) w = some e := by
  have hfit := RearrangesRecord.keepsFit (by simp [EventKind.Tag.fields, keepsFit_eq,
    EventKind.Tag.keepsFit_rearranges]) _ _ h (room + 4) (e.fits_toJson room)
  obtain ⟨all, rfl, hunique, hsame⟩ := RearrangesRecord.exists_members e.members h
    e.kind.tag.nodup_fields e.areUnique_members
  obtain ⟨htime, hkind⟩ := e.kind.tag.fieldName_ne
  have hheld : areMembersHeld (room + 3) all.members = true :=
    areMembersHeld_members (Fields.doMembersFit_members.1 hfit)
  have hcount := Fields.areUnique_iff.1 hunique
  have hfirst : all.areUnique ["timestamp_millis", "kind"] = true :=
    Fields.areUnique_iff.2 fun name hname => hcount name (by
      simp only [EventKind.Tag.fields, List.map_cons, List.mem_cons, List.not_mem_nil,
        or_false] at hname ⊢
      exact hname.imp_right Or.inl)
  have hlast : all.areUnique [e.kind.tag.fieldName] = true :=
    Fields.areUnique_iff.2 fun name hname => hcount name (by
      rw [List.mem_singleton.1 hname]
      simp [EventKind.Tag.fields])
  have hreadTime : all.required "timestamp_millis" int64OfJson? = some e.timestampMillis :=
    hsame.requiredPlain (by simp [EventKind.Tag.fields]) _ _ (by simp [members])
  have hreadKind : all.required "kind" EventKind.Tag.ofJson? = some e.kind.tag :=
    hsame.requiredPlain (by simp [EventKind.Tag.fields]) _ _
      (by simp [members, EventKind.Tag.ofJson?_name])
  have hreadField : all.required e.kind.tag.fieldName (EventKind.ofField? e.kind.tag) =
      some e.kind :=
    hsame.required (f := { name := e.kind.tag.fieldName, values := e.kind.tag.Rearranges })
      (by simp [EventKind.Tag.fields]) e.kind.tag.isReadBy_rearranges _
      (by simp [members, htime, hkind, EventKind.ofField?_field])
  simp [ofJson?, hheld, Fields.named?_members, hfirst, hreadTime, hreadKind, hlast, hreadField]

theorem isReadBy_rearranges (room : Nat) :
    Rearrangement.IsReadBy Rearranges (ofJson? (room + 3)) := by
  rintro v w ⟨e, rfl, h⟩ a ha
  rw [e.ofJson?_toJson room] at ha
  rw [← Option.some.inj ha]
  exact e.ofJson?_of_rearranges room h

end Event

/-! ## The parts of a report -/

namespace Application

def fields : List Field :=
  [{ name := "identifier" }, { name := "version" }, { name := "display_version" }]

/-- What may become of the JSON value of an application. -/
def Rearranges : Rearrangement := RearrangesRecord fields

theorem isReadBy_rearranges : Rearranges.IsReadBy ofJson? := fun _ _ h =>
  RearrangesRecord.keeps h (by decide) fun _ _ hsame =>
    (hsame.requiredPlain (by simp [fields]) _).bind fun _ =>
    (hsame.requiredPlain (by simp [fields]) _).bind fun _ =>
    (hsame.requiredPlain (by simp [fields]) _).bind fun _ => .refl _

end Application

namespace Session

def fields : List Field :=
  [{ name := "id" }, { name := "generator" }, { name := "start_time_millis" },
   { name := "end_time_millis", isOptional := true }, { name := "crashed" },
   { name := "user_id", isOptional := true }, { name := "high_priority" },
   { name := "app_quality_session_id", isOptional := true }]

/-- What may become of the JSON value of a session. -/
def Rearranges : Rearrangement := RearrangesRecord fields

theorem isReadBy_rearranges : Rearranges.IsReadBy ofJson? := fun _ _ h =>
  RearrangesRecord.keeps h (by decide) fun _ _ hsame =>
    (hsame.requiredPlain (by simp [fields]) _).bind fun _ =>
    (hsame.requiredPlain (by simp [fields]) _).bind fun _ =>
    (hsame.requiredPlain (by simp [fields]) _).bind fun _ =>
    (hsame.optionalPlain (by simp [fields]) rfl).bind fun _ =>
    (hsame.withDefaultPlain (by simp [fields]) _ _).bind fun _ =>
    (hsame.optionalPlain (by simp [fields]) rfl).bind fun _ =>
    (hsame.withDefaultPlain (by simp [fields]) _ _).bind fun _ =>
    (hsame.optionalPlain (by simp [fields]) rfl).bind fun _ => .refl _

end Session

namespace NativeFile

def fields : List Field := [{ name := "filename" }, { name := "contents" }]

/-- What may become of the JSON value of a native file. -/
def Rearranges : Rearrangement := RearrangesRecord fields

theorem isReadBy_rearranges : Rearranges.IsReadBy ofJson? := fun _ _ h =>
  RearrangesRecord.keeps h (by decide) fun _ _ hsame =>
    (hsame.requiredPlain (by simp [fields]) _).bind fun _ =>
    (hsame.requiredPlain (by simp [fields]) _).bind fun _ => .refl _

end NativeFile

namespace NativePayload

def fields : List Field :=
  [{ name := "org_id", isOptional := true },
   { name := "files", values := RearrangesItems NativeFile.Rearranges }]

/-- What may become of the JSON value of a payload. -/
def Rearranges : Rearrangement := RearrangesRecord fields

theorem isReadBy_rearranges : Rearranges.IsReadBy ofJson? := fun _ _ h =>
  RearrangesRecord.keeps h (by decide) fun _ _ hsame =>
    (hsame.optionalPlain (by simp [fields]) rfl).bind fun _ =>
    (hsame.required (f := { name := "files", values := RearrangesItems NativeFile.Rearranges })
      (by simp [fields]) (RearrangesItems.isReadBy NativeFile.isReadBy_rearranges)).bind fun _ =>
    .refl _

end NativePayload

/-! ## Reports -/

namespace Report

def fields : List Field :=
  [{ name := "sdk_version" }, { name := "app", values := Application.Rearranges },
   { name := "installation_id", isOptional := true },
   { name := "session", values := Session.Rearranges },
   { name := "events", values := RearrangesItems Event.Rearranges },
   { name := "native_payload", isOptional := true, values := NativePayload.Rearranges },
   { name := "app_exit_info", isOptional := true, values := ExitInfo.Rearranges }]

/-- What may become of the JSON value of a report. -/
def Rearranges : Rearrangement := RearrangesRecord fields

theorem isReadBy_rearranges : Rearranges.IsReadBy ofJson? := fun _ _ h =>
  RearrangesRecord.keeps h (by decide) fun _ _ hsame =>
    (hsame.requiredPlain (by simp [fields]) _).bind fun _ =>
    (hsame.required (f := { name := "app", values := Application.Rearranges })
      (by simp [fields]) Application.isReadBy_rearranges).bind fun _ =>
    (hsame.optionalPlain (by simp [fields]) rfl).bind fun _ =>
    (hsame.required (f := { name := "session", values := Session.Rearranges })
      (by simp [fields]) Session.isReadBy_rearranges).bind fun _ =>
    (hsame.withDefault (f := { name := "events", values := RearrangesItems Event.Rearranges })
      (by simp [fields]) rfl (RearrangesItems.isReadBy (Event.isReadBy_rearranges 121)) _).bind
      fun _ =>
    (hsame.optional
      (f := { name := "native_payload", isOptional := true, values := NativePayload.Rearranges })
      (by simp [fields]) NativePayload.isReadBy_rearranges rfl RearrangesRecord.eq_null).bind
      fun _ =>
    (hsame.optional
      (f := { name := "app_exit_info", isOptional := true, values := ExitInfo.Rearranges })
      (by simp [fields]) ExitInfo.isReadBy_rearranges rfl RearrangesRecord.eq_null).bind fun _ =>
    .refl _

end Report

/-- Every text that comes from the one that is written for a report or an event, by putting the
members of objects in another order, by adding white space, `null` for what was left out and members
that are no fields, at any depth, is decoded as the report or the event. -/
theorem Codec.json_decodes_rearranged :
    (∀ r : Report, ∃ whole, json.encodeReport r = .ok whole ∧
      ∀ bs, IsRearranged Report.Rearranges whole bs → json.decodeReport bs = .ok r) ∧
    (∀ e : Event, ∃ whole, json.encodeEvent e = .ok whole ∧
      ∀ bs, IsRearranged Event.Rearranges whole bs → json.decodeEvent bs = .ok e) := by
  constructor
  · intro r
    refine ⟨r.encode, rfl, fun bs hbs => decodeReport_json_eq_ok_iff.2 ?_⟩
    exact hbs.keeps (fun _ _ h => RearrangesRecord.exists_object h) Report.isReadBy_rearranges r
      r.decode?_encode
  · intro e
    refine ⟨e.encode, rfl, fun bs hbs => ?_⟩
    have hdecode : Event.decode? bs = some e :=
      hbs.keeps (fun _ _ ⟨_, _, h⟩ => h.exists_object) (Event.isReadBy_rearranges 123) e
        e.decode?_encode
    simp only [json, hdecode]

/-- A log event whose members stand in the opposite order, before one that is no field of it, with
white space around a colon. -/
theorem Codec.json_decodes_rearranged_log :
    json.encodeEvent ⟨7, .log "x"⟩ =
        .ok (Ascii.bytes "\x7b\"timestamp_millis\":7,\"kind\":\"log\",\"message\":\"x\"\x7d") ∧
      json.decodeEvent (Ascii.bytes
        "\x7b\"message\" : \"x\",\"kind\":\"log\",\"timestamp_millis\":7,\"reason\":null\x7d") =
          .ok ⟨7, .log "x"⟩ := by
  have hencode : json.encodeEvent ⟨7, .log "x"⟩ = .ok (Event.encode ⟨7, .log "x"⟩) := rfl
  obtain ⟨whole, hwhole, hdecodes⟩ := json_decodes_rearranged.2 ⟨7, .log "x"⟩
  obtain rfl := Except.ok.inj (hencode.symm.trans hwhole)
  refine ⟨hencode.trans (congrArg _ (by decide +kernel)), hdecodes _ ?_⟩
  let given : Fields := Event.members ⟨7, .log "x"⟩
  let rest : Fields := [("kind", .text "log"), ("timestamp_millis", .int 7), ("reason", .null)]
  have hkept : List.Forall₂ (KeepsMember (EventKind.Tag.fields .log)) given given := by
    simp [given, Event.members, KeepsMember, EventKind.Tag.fields, EventKind.Tag.Rearranges,
      EventKind.tag, EventKind.Tag.fieldName]
  have hforeign : ∀ m ∈ ([("reason", .null)] : Fields),
      m.1 ∉ (EventKind.Tag.fields .log).map Field.name ∧ m.2.IsScalar := by
    rintro m (_ | ⟨_, ⟨⟩⟩)
    exact ⟨by decide, .null⟩
  have hrearranged : RearrangesRecord (EventKind.Tag.fields .log) (Event.toJson ⟨7, .log "x"⟩)
      (.object (Fields.members (("message", .text "x") :: rest))) :=
    @RearrangesRecord.object _ given given [] [("reason", .null)] _ hkept (by simp) List.nodup_nil
      hforeign ((List.reverse_perm given).append_right _)
  have hblank : IsBlank [0x20] := by simp [IsBlank, Ascii.isSpace]
  have hrest : Value.AreMembersPlain rest.members := ⟨rfl, rfl, rfl, ⟨7, rfl⟩, rfl, trivial, trivial⟩
  exact ⟨_, _, [], _, [], Value.ofBytes?_toBytes (Event.isPlain_toJson _),
    ⟨_, rfl, hrearranged⟩, Value.isBlank_nil,
    ⟨_, ⟨[], [], quote (some "message"), [0x20], [0x20], quote (some "x"),
      Value.laterMembers false rest.members, rfl, Value.isBlank_nil, Value.isTokenOf_quote rfl,
      hblank, hblank, Value.isTokenOf_quote rfl,
      Value.areMembersWritten_laterMembers false _ hrest, rfl⟩, rfl⟩,
    Value.isBlank_nil, by decide +kernel⟩

end ReportVault
