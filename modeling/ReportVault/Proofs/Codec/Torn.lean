import ReportVault.Proofs.Codec.RoundTrip

/-!
# ReportVault.Proofs.Codec.Torn

A record that was written in part, or over a longer one, is not decoded.

A text may end only where no container is open (`Reader.IsAtTop`), and from there on no closing
brace is taken in (`IsAtTop.not_mem_of_run`).  The text of an object ends with its closing brace,
so no shorter part of it is a text; behind that brace nothing but white space may follow.
-/

namespace ReportVault

open Json

namespace Json

/-! ## Where a text may end -/

/-- No number goes on with a closing brace, however far it has come. -/
theorem NumberSoFar.step_brace (n : NumberSoFar) : n.step 0x7d = none := by
  have hclass : Ascii.digit? 0x7d = none ∧ ((0x7d : UInt8) == Ascii.byte '.') = false ∧
      ((0x7d : UInt8) == Ascii.byte 'e') = false ∧ ((0x7d : UInt8) == Ascii.byte 'E') = false ∧
      ((0x7d : UInt8) == Ascii.byte '+') = false ∧ ((0x7d : UInt8) == Ascii.byte '-') = false := by
    decide
  obtain ⟨hdigit, hpoint, hlower, hupper, hplus, hminus⟩ := hclass
  cases hpart : n.part <;> simp [step, hpart, hdigit, hpoint, hlower, hupper, hplus, hminus]

namespace Reader

variable {r q : Reader} {v : Value} {b : UInt8} {bs : Bytes}

/-- Whether no container is open, and the value is complete or a number that may be. -/
structure IsAtTop (r : Reader) : Prop where
  stack : r.stack = []
  expected : (∃ v, r.expected = .nothing v) ∨ ∃ n, r.expected = .number n

/-- A text ends at the top. -/
theorem isAtTop_of_value? (h : r.value? = some v) : r.IsAtTop := by
  obtain ⟨stack, expected⟩ := r
  unfold value? at h
  split at h
  · next hstack hexpected => exact ⟨hstack, .inl ⟨_, hexpected⟩⟩
  · next hstack hexpected => exact ⟨hstack, .inr ⟨_, hexpected⟩⟩
  · cases h

/-- After the value only white space is taken in, and it changes nothing. -/
theorem step_nothing (v : Value) (b : UInt8) :
    (Reader.mk [] (.nothing v)).step b =
      if Ascii.isSpace b then some ⟨[], .nothing v⟩ else none := rfl

/-- What is taken in after the value is no closing brace. -/
theorem isAtTop_of_step_nothing (h : (Reader.mk [] (.nothing v)).step b = some q) :
    q.IsAtTop ∧ b ≠ 0x7d := by
  rw [step_nothing, Option.ite_none_right_eq_some] at h
  obtain ⟨hspace, hq⟩ := h
  obtain rfl := Option.some.inj hq
  refine ⟨⟨rfl, .inl ⟨v, rfl⟩⟩, ?_⟩
  rintro rfl
  exact absurd hspace (by decide)

/-- A byte that is taken in at the top leads to the top again, and is no closing brace. -/
theorem IsAtTop.step (hr : r.IsAtTop) (h : r.step b = some q) : q.IsAtTop ∧ b ≠ 0x7d := by
  obtain ⟨stack, expected⟩ := r
  obtain ⟨rfl : stack = [], ⟨v, rfl : expected = _⟩ | ⟨n, rfl : expected = _⟩⟩ := hr
  · exact isAtTop_of_step_nothing h
  · cases hn : n.step b with
    | some m =>
      simp only [Reader.step, hn, Option.some.injEq] at h
      subst h
      refine ⟨⟨rfl, .inr ⟨m, rfl⟩⟩, ?_⟩
      rintro rfl
      rw [n.step_brace] at hn
      cases hn
    | none =>
      -- the number ends here, and the byte is taken in after it
      simp only [Reader.step, hn, Option.bind_eq_some_iff] at h
      obtain ⟨m, -, h⟩ := h
      rw [← step_deliver] at h
      exact isAtTop_of_step_nothing h

/-- From the top on no closing brace is taken in. -/
theorem IsAtTop.not_mem_of_run (hr : r.IsAtTop) (h : r.run bs = some q) : 0x7d ∉ bs := by
  induction bs generalizing r with
  | nil => exact List.not_mem_nil
  | cons b bs ih =>
    obtain ⟨p, hp, h⟩ := Option.bind_eq_some_iff.1 h
    obtain ⟨hp', hb⟩ := hr.step hp
    exact List.not_mem_cons_of_ne_of_not_mem (Ne.symm hb) (ih hp' h)

/-- After the value nothing is taken in but white space. -/
theorem run_nothing_of_not_isBlank (v : Value) (h : ¬ IsBlank bs) :
    (Reader.mk [] (.nothing v)).run bs = none := by
  induction bs with
  | nil => exact absurd Value.isBlank_nil h
  | cons b bs ih =>
    rw [run, step_nothing]
    split
    · next hspace =>
      refine ih fun hbs => h fun c hc => ?_
      obtain rfl | hc := List.mem_cons.1 hc
      · exact hspace
      · exact hbs c hc
    · rfl

end Reader

/-! ## Cut texts and texts with more behind them -/

section Texts

variable {v : Value} {members : List (Option String × Value)} {bs rest : Bytes}

/-- A text is not complete anywhere before a closing brace. -/
theorem Value.ofBytes?_eq_none_of_brace (h : Value.ofBytes? (bs ++ rest) = some v)
    (hrest : 0x7d ∈ rest) : Value.ofBytes? bs = none := by
  rw [Value.ofBytes?, Reader.run_append, Option.bind_assoc] at h
  obtain ⟨r, hr, h⟩ := Option.bind_eq_some_iff.1 h
  obtain ⟨q, hq, -⟩ := Option.bind_eq_some_iff.1 h
  rw [Value.ofBytes?, hr, Option.bind_some, Option.eq_none_iff_forall_not_mem]
  intro w hw
  exact (Reader.isAtTop_of_value? hw).not_mem_of_run hq hrest

/-- A proper part of an object from its first byte on is no text. -/
theorem Value.ofBytes?_eq_none_of_prefix (hv : (Value.object members).IsPlain)
    (hpart : bs <+: (Value.object members).toBytes)
    (hne : bs ≠ (Value.object members).toBytes) : Value.ofBytes? bs = none := by
  obtain ⟨rest, hrest⟩ := hpart
  obtain ⟨inner, -, hinner⟩ := (Value.object members).isWritten_toBytes hv
  have hsome : rest ≠ [] := by
    rintro rfl
    exact hne (by rw [← hrest, List.append_nil])
  have hlast : rest.getLast? = some 0x7d := by
    rw [← List.getLast?_append_of_ne_nil bs hsome, hrest, hinner, ← List.cons_append,
      List.getLast?_concat]
  have hread : Value.ofBytes? (bs ++ rest) = some (.object members) := by
    rw [hrest]
    exact Value.ofBytes?_toBytes hv
  exact Value.ofBytes?_eq_none_of_brace hread (List.mem_of_getLast? hlast)

/-- An object with anything behind it but white space is no text. -/
theorem Value.ofBytes?_append_of_not_isBlank (hv : (Value.object members).IsPlain)
    (hrest : ¬ IsBlank rest) :
    Value.ofBytes? ((Value.object members).toBytes ++ rest) = none := by
  rw [Value.ofBytes?, Reader.start,
    Reader.run_object ((Value.object members).isWritten_toBytes hv), Reader.deliver,
    Reader.run_nothing_of_not_isBlank _ hrest, Option.bind_none]

/-- The text of an object, cut short or with more behind it. -/
inductive IsTorn (whole : Bytes) : Bytes → Prop
  /-- The bytes end before the text does. -/
  | short {bs : Bytes} : bs <+: whole → bs ≠ whole → IsTorn whole bs
  /-- Other bytes than white space follow the text. -/
  | long {rest : Bytes} : ¬ IsBlank rest → IsTorn whole (whole ++ rest)

/-- A torn object is no text. -/
theorem Value.ofBytes?_of_isTorn (hv : (Value.object members).IsPlain)
    (h : IsTorn (Value.object members).toBytes bs) : Value.ofBytes? bs = none := by
  cases h with
  | short hpart hne => exact ofBytes?_eq_none_of_prefix hv hpart hne
  | long hrest => exact ofBytes?_append_of_not_isBlank hv hrest

/-- An object with white space behind it is its text still. -/
theorem Value.ofBytes?_append_of_isBlank (hv : (Value.object members).IsPlain)
    (hrest : IsBlank rest) :
    Value.ofBytes? ((Value.object members).toBytes ++ rest) = some (.object members) :=
  Value.ofBytes?_of_isWritten isBlank_nil ((Value.object members).isWritten_toBytes hv) hrest

end Texts

end Json

/-! ## Records -/

section Records

variable {bs rest : Bytes}

theorem Report.decode?_of_isTorn {r : Report} (h : IsTorn r.encode bs) :
    Report.decode? bs = none := by
  rw [Report.decode?, Value.ofBytes?_of_isTorn r.isPlain_toJson h, Option.bind_none]

theorem Report.decode?_append_of_isBlank (r : Report) (h : IsBlank rest) :
    Report.decode? (r.encode ++ rest) = some r := by
  have hbytes : Value.ofBytes? (r.encode ++ rest) = some r.toJson :=
    Value.ofBytes?_append_of_isBlank r.isPlain_toJson h
  rw [Report.decode?, hbytes]
  exact r.ofJson?_toJson

theorem Event.decode?_of_isTorn {e : Event} (h : IsTorn e.encode bs) : Event.decode? bs = none := by
  rw [Event.decode?, Value.ofBytes?_of_isTorn e.isPlain_toJson h, Option.bind_none]

theorem Event.decode?_append_of_isBlank (e : Event) (h : IsBlank rest) :
    Event.decode? (e.encode ++ rest) = some e := by
  have hbytes : Value.ofBytes? (e.encode ++ rest) = some e.toJson :=
    Value.ofBytes?_append_of_isBlank e.isPlain_toJson h
  rw [Event.decode?, hbytes]
  exact e.ofJson?_toJson 123

end Records

/-- What is written for a report or an event is not decoded when it was torn, wherever that was,
and only white space may follow it. -/
theorem Codec.json_detects_torn :
    (∀ r : Report, ∃ whole, json.encodeReport r = .ok whole ∧
      (∀ bs, IsTorn whole bs → ∃ reason, json.decodeReport bs = .error (.decode .report reason)) ∧
      ∀ rest, IsBlank rest → json.decodeReport (whole ++ rest) = .ok r) ∧
    (∀ e : Event, ∃ whole, json.encodeEvent e = .ok whole ∧
      (∀ bs, IsTorn whole bs → ∃ reason, json.decodeEvent bs = .error (.decode .event reason)) ∧
      ∀ rest, IsBlank rest → json.decodeEvent (whole ++ rest) = .ok e) := by
  constructor
  · intro r
    refine ⟨r.encode, rfl, fun bs hbs => ?_, fun rest hrest => ?_⟩
    · simp [json, Report.decode?_of_isTorn hbs]
    · simp only [json, r.decode?_append_of_isBlank hrest]
  · intro e
    refine ⟨e.encode, rfl, fun bs hbs => ?_, fun rest hrest => ?_⟩
    · simp [json, Event.decode?_of_isTorn hbs]
    · simp only [json, e.decode?_append_of_isBlank hrest]

/-- A log event that is cut inside the two bytes of a letter, and one with a brace behind it. -/
theorem Codec.json_detects_torn_log :
    ∃ whole, json.encodeEvent ⟨7, .log "é"⟩ = .ok whole ∧ whole[whole.length - 3]? = some 0xa9 ∧
      (∃ reason, json.decodeEvent (whole.take (whole.length - 3)) =
        .error (.decode .event reason)) ∧
      ∃ reason, json.decodeEvent (whole ++ [0x20, 0x7d]) = .error (.decode .event reason) := by
  obtain ⟨whole, hwhole, htorn, -⟩ := json_detects_torn.2 ⟨7, .log "é"⟩
  obtain rfl : Event.encode ⟨7, .log "é"⟩ = whole := Except.ok.inj hwhole
  have hletter : (Event.encode ⟨7, .log "é"⟩)[(Event.encode ⟨7, .log "é"⟩).length - 3]? =
      some 0xa9 := by decide +kernel
  refine ⟨_, rfl, hletter, htorn _ (.short (List.take_prefix _ _) ?_), htorn _ (.long ?_)⟩
  · intro h
    have hlength := congrArg List.length h
    rw [List.length_take] at hlength
    have hlt := (List.getElem?_eq_some_iff.1 hletter).1
    omega
  · intro h
    exact absurd (h 0x7d (by simp)) (by decide)

end ReportVault
