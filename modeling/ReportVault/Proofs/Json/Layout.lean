import ReportVault.Proofs.Json.Lexeme

/-!
# ReportVault.Proofs.Json.Layout

The written forms of a JSON value, and that each of them reads as the value.

A written form (`Value.IsWritten`) may have white space before and after every token inside the
value, and its strings may be spelled in any way (`IsToken`).  `run_isWritten` says that the reader,
where it expects a value, takes in a written form and hands the value to the container around it;
`ofBytes?_of_isWritten` is the same for a whole text.  The compact form that is printed is one of
the written forms, as long as every string of the value has a text and every number is an integer
(`Value.IsPlain`).
-/

namespace ReportVault.Json

open Ascii

/-! ## Written forms -/

/-- Nothing but white space. -/
def IsBlank (bs : Bytes) : Prop := ∀ b ∈ bs, isSpace b = true

/-- What stands before an item: nothing before the first one, and otherwise a comma. -/
def IsSeparator (first : Bool) (bs : Bytes) : Prop :=
  if first then bs = [] else ∃ ws, IsBlank ws ∧ bs = ws ++ [byte ',']

/-- The bytes are a string token for the text that a name or a string is. -/
def IsTokenOf (text : Option String) (bs : Bytes) : Prop := ∃ s, text = some s ∧ IsToken s bs

namespace Value

mutual

/-- Whether the bytes write the value, from its first token to its last. -/
def IsWritten : Value → Bytes → Prop
  | .null, bs => bs = bytes "null"
  | .bool true, bs => bs = bytes "true"
  | .bool false, bs => bs = bytes "false"
  | .number n, bs => ∃ i, n = .ofInt i ∧ bs = n.toBytes
  | .string s, bs => IsTokenOf s bs
  | .array items, bs =>
    ∃ inner, AreItemsWritten true items inner ∧ bs = byte '[' :: (inner ++ [byte ']'])
  | .object members, bs =>
    ∃ inner, AreMembersWritten true members inner ∧ bs = 0x7b :: (inner ++ [0x7d])
termination_by structural v => v

/-- Whether the bytes write the items of an array, from the first one or from a later one on. -/
def AreItemsWritten (first : Bool) : List Value → Bytes → Prop
  | [], bs => IsBlank bs
  | v :: rest, bs =>
    ∃ separator before text more, IsSeparator first separator ∧ IsBlank before ∧
      v.IsWritten text ∧ AreItemsWritten false rest more ∧
      bs = separator ++ (before ++ (text ++ more))
termination_by structural vs => vs

/-- Whether the bytes write the members of an object, from the first one or from a later one on. -/
def AreMembersWritten (first : Bool) : List (Option String × Value) → Bytes → Prop
  | [], bs => IsBlank bs
  | (name, v) :: rest, bs =>
    ∃ separator before token left right text more, IsSeparator first separator ∧ IsBlank before ∧
      IsTokenOf name token ∧ IsBlank left ∧ IsBlank right ∧
      v.IsWritten text ∧ AreMembersWritten false rest more ∧
      bs = separator ++ (before ++ (token ++ (left ++ byte ':' :: (right ++ (text ++ more)))))
termination_by structural ms => ms

end

mutual

/-- Whether every string of the value has a text and every number is an integer. -/
def IsPlain : Value → Prop
  | .null => True
  | .bool _ => True
  | .number n => ∃ i, n = .ofInt i
  | .string s => s.isSome = true
  | .array items => AreItemsPlain items
  | .object members => AreMembersPlain members
termination_by structural v => v

/-- Whether every item is plain. -/
def AreItemsPlain : List Value → Prop
  | [] => True
  | v :: rest => v.IsPlain ∧ AreItemsPlain rest
termination_by structural vs => vs

/-- Whether every name has a text and every value is plain. -/
def AreMembersPlain : List (Option String × Value) → Prop
  | [] => True
  | (name, v) :: rest => name.isSome = true ∧ v.IsPlain ∧ AreMembersPlain rest
termination_by structural ms => ms

end

/-- The items of an array as they are printed from some item on. -/
def laterItems (first : Bool) (items : List Value) : Bytes :=
  match items with
  | [] => []
  | _ :: _ => (if first then [] else [byte ',']) ++ itemsToBytes items

/-- The members of an object as they are printed from some member on. -/
def laterMembers (first : Bool) (members : List (Option String × Value)) : Bytes :=
  match members with
  | [] => []
  | _ :: _ => (if first then [] else [byte ',']) ++ membersToBytes members

theorem isBlank_nil : IsBlank [] := by simp [IsBlank]

theorem isTokenOf_quote {text : Option String} (h : text.isSome = true) :
    IsTokenOf text (quote text) := by
  obtain ⟨s, rfl⟩ := Option.isSome_iff_exists.1 h
  exact ⟨s, rfl, isToken_quote s⟩

theorem isSeparator_compact (first : Bool) :
    IsSeparator first (if first then [] else [byte ',']) := by
  cases first with
  | true => rfl
  | false => exact ⟨[], isBlank_nil, rfl⟩

mutual

/-- The compact form is a written form. -/
theorem isWritten_toBytes : (v : Value) → v.IsPlain → v.IsWritten v.toBytes
  | .null, _ => rfl
  | .bool true, _ => rfl
  | .bool false, _ => rfl
  | .number _, ⟨i, hi⟩ => ⟨i, hi, rfl⟩
  | .string _, hs => isTokenOf_quote hs
  | .array items, h => by
    refine ⟨laterItems true items, areItemsWritten_laterItems true items h, ?_⟩
    cases items <;> rfl
  | .object members, h => by
    refine ⟨laterMembers true members, areMembersWritten_laterMembers true members h, ?_⟩
    cases members <;> rfl

theorem areItemsWritten_laterItems (first : Bool) :
    (items : List Value) → AreItemsPlain items → AreItemsWritten first items (laterItems first items)
  | [], _ => isBlank_nil
  | v :: rest, h => by
    refine ⟨_, [], v.toBytes, laterItems false rest, isSeparator_compact first, isBlank_nil,
      isWritten_toBytes v h.1, areItemsWritten_laterItems false rest h.2, ?_⟩
    cases rest <;> simp [laterItems, itemsToBytes]

theorem areMembersWritten_laterMembers (first : Bool) :
    (members : List (Option String × Value)) → AreMembersPlain members →
      AreMembersWritten first members (laterMembers first members)
  | [], _ => isBlank_nil
  | (name, v) :: rest, h => by
    refine ⟨_, [], _, [], [], v.toBytes, laterMembers false rest, isSeparator_compact first,
      isBlank_nil, isTokenOf_quote h.1, isBlank_nil, isBlank_nil, isWritten_toBytes v h.2.1,
      areMembersWritten_laterMembers false rest h.2.2, ?_⟩
    cases rest <;> simp [laterMembers, membersToBytes]

end

/-- A written form begins with a byte that is neither white space nor the end of an array. -/
theorem IsWritten.exists_first {v : Value} {bs : Bytes} (h : v.IsWritten bs) :
    ∃ b rest, bs = b :: rest ∧ isSpace b = false ∧ (b == byte ']') = false := by
  have hdigit : ∀ d : Digit, isSpace (ofDigit d) = false ∧ (ofDigit d == byte ']') = false := by
    decide
  cases v with
  | null => exact ⟨_, _, h, by decide, by decide⟩
  | bool b => cases b <;> exact ⟨_, _, h, by decide, by decide⟩
  | number n =>
    obtain ⟨i, rfl, rfl⟩ := h
    by_cases hi : i < 0
    · exact ⟨byte '-', digits i.natAbs, by simp [Number.toBytes, Number.ofInt, hi], by decide,
        by decide⟩
    · have hbytes : (Number.ofInt i).toBytes = digits i.natAbs := by
        simp [Number.toBytes, Number.ofInt, hi]
      rcases Nat.eq_zero_or_pos i.natAbs with hz | hpos
      · exact ⟨byte '0', [], by rw [hbytes, hz]; rfl, by decide, by decide⟩
      · obtain ⟨d, ds, hds, -, -⟩ := exists_digits hpos
        exact ⟨ofDigit d, ds.map ofDigit, by rw [hbytes, hds], (hdigit d).1, (hdigit d).2⟩
  | string s =>
    obtain ⟨s, rfl, inner, -, rfl⟩ := h
    exact ⟨_, _, rfl, by decide, by decide⟩
  | array items =>
    obtain ⟨inner, -, rfl⟩ := h
    exact ⟨_, _, rfl, by decide, by decide⟩
  | object members =>
    obtain ⟨inner, -, rfl⟩ := h
    exact ⟨_, _, rfl, by decide, by decide⟩

end Value

namespace Reader

variable {stack : List Frame}

/-! ## Between tokens -/

/-- Whether the reader stands between two tokens. -/
def isBetween (r : Reader) : Bool :=
  match r.expected with
  | .name .. | .text _ | .number _ | .word .. => false
  | _ => true

/-- White space between two tokens changes nothing. -/
theorem run_blank {r : Reader} (hr : r.isBetween = true) {ws : Bytes} (hws : IsBlank ws)
    (tail : Bytes) : r.run (ws ++ tail) = r.run tail := by
  have hstep : ∀ b, isSpace b = true → r.step b = some r := by
    intro b hb
    obtain ⟨stack, expected⟩ := r
    cases expected <;> simp_all [isBetween, step, afterValue]
  induction ws with
  | nil => rfl
  | cons b ws ih =>
    rw [List.cons_append, run_cons (hstep b (hws b List.mem_cons_self))]
    exact ih fun c hc => hws c (List.mem_cons_of_mem b hc)

/-- Whether a number may end before the bytes. -/
def EndsNumber (tail : Bytes) : Prop := ∃ b rest, tail = b :: rest ∧ endsNumber b = true

theorem endsNumber_blank_append {ws : Bytes} (hws : IsBlank ws) {b : UInt8}
    (hb : endsNumber b = true) (tail : Bytes) : EndsNumber (ws ++ b :: tail) := by
  cases ws with
  | nil => exact ⟨b, tail, rfl, hb⟩
  | cons c ws =>
    have hc : isSpace c = true := hws c List.mem_cons_self
    exact ⟨c, ws ++ b :: tail, rfl, by simp [endsNumber, hc]⟩

theorem endsNumber_separator {bs : Bytes} (h : IsSeparator false bs) (tail : Bytes) :
    EndsNumber (bs ++ tail) := by
  obtain ⟨ws, hws, rfl⟩ := h
  rw [List.append_assoc]
  exact endsNumber_blank_append hws (by decide) _

/-- A number may end where later items follow. -/
theorem endsNumber_items {items : List Value} {more : Bytes}
    (h : Value.AreItemsWritten false items more) (tail : Bytes) :
    EndsNumber (more ++ byte ']' :: tail) := by
  cases items with
  | nil => exact endsNumber_blank_append h (by decide) tail
  | cons v rest =>
    obtain ⟨separator, before, text, others, hseparator, -, -, -, rfl⟩ := h
    rw [List.append_assoc]
    exact endsNumber_separator hseparator _

/-- A number may end where later members follow. -/
theorem endsNumber_members {members : List (Option String × Value)} {more : Bytes}
    (h : Value.AreMembersWritten false members more) (tail : Bytes) :
    EndsNumber (more ++ 0x7d :: tail) := by
  cases members with
  | nil => exact endsNumber_blank_append h (by decide) tail
  | cons member rest =>
    obtain ⟨separator, before, token, left, right, text, others, hseparator, -, -, -, -, -, -, rfl⟩ :=
      h
    rw [List.append_assoc]
    exact endsNumber_separator hseparator _

/-! ## Values -/

/-- The words `null`, `true` and `false`. -/
theorem run_word {b : UInt8} {rest : Bytes} {v : Value} (hrest : rest ≠ [])
    (hb : (Reader.mk stack .value).step b = some ⟨stack, .word rest v⟩) (tail : Bytes) :
    (Reader.mk stack .value).run (b :: (rest ++ tail)) = (deliver stack v).run tail := by
  rw [run_cons hb]
  clear hb
  induction rest with
  | nil => exact absurd rfl hrest
  | cons c rest ih =>
    cases rest with
    | nil => rw [List.cons_append, run_cons (q := deliver stack v) (by simp [step])]; rfl
    | cons d rest =>
      rw [List.cons_append, run_cons (q := ⟨stack, .word (d :: rest) v⟩) (by simp [step])]
      exact ih (by simp)

/-- What the reader waits for before the first item of an array, or before a later one. -/
def beforeItem (done : List Value) : Bool → Expected
  | true => .firstItem
  | false => .afterItem done

/-- What the reader waits for before the first member of an object, or before a later one. -/
def beforeMember (done : List (Option String × Value)) : Bool → Expected
  | true => .firstName
  | false => .afterMember done

/-- What stands before an item leads to where its value is expected. -/
theorem run_beforeItem {first : Bool} {done : List Value} (hdone : first = true → done = [])
    {separator before text : Bytes} {v : Value} (hseparator : IsSeparator first separator)
    (hbefore : IsBlank before) (htext : v.IsWritten text) (tail : Bytes) :
    (Reader.mk stack (beforeItem done first)).run (separator ++ (before ++ (text ++ tail))) =
      (Reader.mk (.item done :: stack) .value).run (text ++ tail) := by
  cases first with
  | false =>
    obtain ⟨ws, hws, rfl⟩ := hseparator
    have hcomma : (Reader.mk stack (.afterItem done)).step (byte ',') =
      some ⟨.item done :: stack, .value⟩ := rfl
    rw [List.append_assoc, beforeItem, run_blank rfl hws, List.singleton_append, run_cons hcomma,
      run_blank rfl hbefore]
  | true =>
    obtain rfl : separator = [] := hseparator
    obtain rfl := hdone rfl
    obtain ⟨b, rest, rfl, hspace, hend⟩ := htext.exists_first
    have hstep : (Reader.mk stack .firstItem).step b =
        (Reader.mk (.item [] :: stack) .value).step b := by
      simp [step, hspace, hend]
    rw [List.nil_append, beforeItem, run_blank rfl hbefore, List.cons_append, run, run, hstep]

/-- What stands before a member, its name and its colon lead to where its value is expected. -/
theorem run_beforeMember {first : Bool} {done : List (Option String × Value)}
    (hdone : first = true → done = []) {separator before token left right : Bytes}
    {name : Option String} (hseparator : IsSeparator first separator) (hbefore : IsBlank before)
    (hname : IsTokenOf name token) (hleft : IsBlank left) (hright : IsBlank right) (tail : Bytes) :
    (Reader.mk stack (beforeMember done first)).run
        (separator ++ (before ++ (token ++ (left ++ byte ':' :: (right ++ tail))))) =
      (Reader.mk (.member done name :: stack) .value).run tail := by
  obtain ⟨s, rfl, inner, hinner, rfl⟩ := hname
  have hquote : (Reader.mk stack (beforeMember done first)).run
      (separator ++ (before ++ (byte '"' :: (inner ++ [byte '"']) ++
        (left ++ byte ':' :: (right ++ tail))))) =
      (Reader.mk stack (.name done {})).run
        (inner ++ byte '"' :: (left ++ byte ':' :: (right ++ tail))) := by
    simp only [List.cons_append, List.append_assoc, List.nil_append]
    cases first with
    | false =>
      obtain ⟨ws, hws, rfl⟩ := hseparator
      rw [List.append_assoc, beforeMember, run_blank rfl hws, List.singleton_append,
        run_cons (q := ⟨stack, .nextName done⟩) rfl, run_blank rfl hbefore]
      exact run_cons rfl _
    | true =>
      obtain rfl : separator = [] := hseparator
      obtain rfl := hdone rfl
      rw [List.nil_append, beforeMember, run_blank rfl hbefore]
      exact run_cons rfl _
  have hcolon : (Reader.mk stack (.colon done (some s))).step (byte ':') =
    some ⟨.member done (some s) :: stack, .value⟩ := rfl
  rw [hquote, run_token_name done hinner, run_blank rfl hleft, run_cons hcolon,
    run_blank rfl hright]

mutual

/-- Where a value is expected, a written form of it is taken in. -/
theorem run_isWritten : (v : Value) → {bs : Bytes} → v.IsWritten bs → (stack : List Frame) →
    {tail : Bytes} → EndsNumber tail →
    (Reader.mk stack .value).run (bs ++ tail) = (deliver stack v).run tail
  | .null, _, h, _, _, _ => by
    subst h
    exact run_word (by decide) rfl _
  | .bool true, _, h, _, _, _ => by
    subst h
    exact run_word (by decide) rfl _
  | .bool false, _, h, _, _, _ => by
    subst h
    exact run_word (by decide) rfl _
  | .number _, _, h, _, _, htail => by
    obtain ⟨i, rfl, rfl⟩ := h
    obtain ⟨b, rest, rfl, hb⟩ := htail
    exact run_int_value i hb rest
  | .string _, _, h, _, _, _ => by
    obtain ⟨s, rfl, hs⟩ := h
    exact run_token_value hs _
  | .array items, _, h, stack, tail, _ => by
    obtain ⟨inner, hinner, rfl⟩ := h
    rw [List.cons_append, List.append_assoc, run_cons (q := ⟨stack, .firstItem⟩) rfl]
    exact run_items items true [] (fun _ => rfl) hinner stack tail
  | .object members, _, h, stack, tail, _ => by
    obtain ⟨inner, hinner, rfl⟩ := h
    rw [List.cons_append, List.append_assoc, run_cons (q := ⟨stack, .firstName⟩) rfl]
    exact run_members members true [] (fun _ => rfl) hinner stack tail

/-- The items of an array from some item on, and the bracket at its end. -/
theorem run_items : (items : List Value) → (first : Bool) → (done : List Value) →
    (first = true → done = []) → {inner : Bytes} → Value.AreItemsWritten first items inner →
    (stack : List Frame) → (tail : Bytes) →
    (Reader.mk stack (beforeItem done first)).run (inner ++ byte ']' :: tail) =
      (deliver stack (.array (done.reverse ++ items))).run tail
  | [], first, done, hdone, _, h, stack, tail => by
    rw [List.append_nil]
    cases first with
    | false =>
      rw [beforeItem, run_blank rfl h]
      exact run_cons rfl tail
    | true =>
      obtain rfl := hdone rfl
      rw [beforeItem, run_blank rfl h]
      exact run_cons rfl tail
  | v :: rest, first, done, hdone, _, h, stack, tail => by
    obtain ⟨separator, before, text, more, hseparator, hbefore, htext, hmore, rfl⟩ := h
    simp only [List.append_assoc]
    rw [run_beforeItem hdone hseparator hbefore htext,
      run_isWritten v htext _ (endsNumber_items hmore tail), deliver]
    have hrest := run_items rest false (v :: done) (by simp) hmore stack tail
    rw [List.reverse_cons, List.append_assoc] at hrest
    exact hrest

/-- The members of an object from some member on, and the brace at its end. -/
theorem run_members : (members : List (Option String × Value)) → (first : Bool) →
    (done : List (Option String × Value)) → (first = true → done = []) → {inner : Bytes} →
    Value.AreMembersWritten first members inner → (stack : List Frame) → (tail : Bytes) →
    (Reader.mk stack (beforeMember done first)).run (inner ++ 0x7d :: tail) =
      (deliver stack (.object (done.reverse ++ members))).run tail
  | [], first, done, hdone, _, h, stack, tail => by
    rw [List.append_nil]
    cases first with
    | false =>
      rw [beforeMember, run_blank rfl h]
      exact run_cons rfl tail
    | true =>
      obtain rfl := hdone rfl
      rw [beforeMember, run_blank rfl h]
      exact run_cons rfl tail
  | (name, v) :: rest, first, done, hdone, _, h, stack, tail => by
    obtain ⟨separator, before, token, left, right, text, more, hseparator, hbefore, hname, hleft,
      hright, htext, hmore, rfl⟩ := h
    simp only [List.append_assoc, List.cons_append]
    rw [run_beforeMember hdone hseparator hbefore hname hleft hright,
      run_isWritten v htext _ (endsNumber_members hmore tail), deliver]
    have hrest :=
      run_members rest false ((name, v) :: done) (by simp) hmore stack tail
    rw [List.reverse_cons, List.append_assoc] at hrest
    exact hrest

end

/-- A written form of an object is handed over as the object, whatever follows it. -/
theorem run_object {members : List (Option String × Value)} {bs : Bytes}
    (h : (Value.object members).IsWritten bs) (stack : List Frame) (tail : Bytes) :
    (Reader.mk stack .value).run (bs ++ tail) = (deliver stack (.object members)).run tail := by
  obtain ⟨inner, hinner, rfl⟩ := h
  rw [List.cons_append, run_cons (q := ⟨stack, .firstName⟩) rfl, List.append_assoc,
    List.singleton_append]
  exact run_members members true [] (fun _ => rfl) hinner stack tail

end Reader

/-- A written form of an object, with white space around it, is the text of the object. -/
theorem Value.ofBytes?_of_isWritten {members : List (Option String × Value)}
    {before bs after : Bytes} (hbefore : IsBlank before) (h : (Value.object members).IsWritten bs)
    (hafter : IsBlank after) :
    Value.ofBytes? (before ++ (bs ++ after)) = some (.object members) := by
  have hend := Reader.run_blank (r := ⟨[], .nothing (.object members)⟩) rfl hafter []
  rw [List.append_nil] at hend
  rw [Value.ofBytes?, Reader.start, Reader.run_blank rfl hbefore, Reader.run_object h,
    Reader.deliver, hend]
  rfl

/-- The compact form of an object is the text of the object. -/
theorem Value.ofBytes?_toBytes {members : List (Option String × Value)}
    (h : (Value.object members).IsPlain) :
    Value.ofBytes? (Value.object members).toBytes = some (.object members) := by
  have hread := ofBytes?_of_isWritten isBlank_nil (isWritten_toBytes _ h) isBlank_nil
  rwa [List.nil_append, List.append_nil] at hread

end ReportVault.Json
