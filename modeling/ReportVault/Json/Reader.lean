import ReportVault.Json.Lexeme

/-!
# ReportVault.Json.Reader

Reading a JSON text with one step per byte.

A `Reader` holds the containers that are still open and what it waits for.  `Value.ofBytes?` runs
it over all bytes; since a run is a fold, reading a text that was cut in two is reading the first
part and going on with the second (`run_append`).
-/

namespace ReportVault.Json

open Ascii

/-- A container that waits for the value under way, with what it holds already, last first. -/
inductive Frame
  | item (done : List Value)
  | member (done : List (Option String × Value)) (name : Option String)
  deriving Repr

/-- What the reader waits for. -/
inductive Expected
  | value
  /-- The first item of an array, or its end. -/
  | firstItem
  /-- A comma or the end of the array. -/
  | afterItem (done : List Value)
  /-- The first name of an object, or its end. -/
  | firstName
  | nextName (done : List (Option String × Value))
  /-- The rest of a name. -/
  | name (done : List (Option String × Value)) (t : TextSoFar)
  | colon (done : List (Option String × Value)) (name : Option String)
  /-- A comma or the end of the object. -/
  | afterMember (done : List (Option String × Value))
  /-- The rest of a string. -/
  | text (t : TextSoFar)
  /-- The rest of a number. -/
  | number (n : NumberSoFar)
  /-- The rest of `null`, `true` or `false`. -/
  | word (rest : Bytes) (v : Value)
  /-- Nothing but white space: the value is complete. -/
  | nothing (v : Value)
  deriving Repr

/-- The open containers, innermost first, and what must come next. -/
structure Reader where
  stack : List Frame
  expected : Expected
  deriving Repr

namespace Reader

/-- Before the first byte. -/
def start : Reader := ⟨[], .value⟩

/-- Hand a complete value to the innermost container. -/
def deliver (stack : List Frame) (v : Value) : Reader :=
  match stack with
  | [] => ⟨[], .nothing v⟩
  | .item done :: rest => ⟨rest, .afterItem (v :: done)⟩
  | .member done name :: rest => ⟨rest, .afterMember ((name, v) :: done)⟩

/-- The first byte of a value. -/
def beginValue (stack : List Frame) (b : UInt8) : Option Reader :=
  if b == byte '"' then some ⟨stack, .text {}⟩
  else if b == 0x7b then some ⟨stack, .firstName⟩
  else if b == byte '[' then some ⟨stack, .firstItem⟩
  else if b == byte 'n' then some ⟨stack, .word (bytes "ull") .null⟩
  else if b == byte 't' then some ⟨stack, .word (bytes "rue") (.bool true)⟩
  else if b == byte 'f' then some ⟨stack, .word (bytes "alse") (.bool false)⟩
  else (NumberSoFar.start? b).map fun n => ⟨stack, .number n⟩

/-- A byte between two tokens, where a value has just ended. -/
def afterValue (r : Reader) (b : UInt8) : Option Reader :=
  if isSpace b then some r
  else match r.expected with
    | .afterItem done =>
      if b == byte ',' then some ⟨.item done :: r.stack, .value⟩
      else if b == byte ']' then some (deliver r.stack (.array done.reverse))
      else none
    | .afterMember done =>
      if b == byte ',' then some ⟨r.stack, .nextName done⟩
      else if b == 0x7d then some (deliver r.stack (.object done.reverse))
      else none
    | _ => none

/-- Take in one byte, if a JSON text can go on with it. -/
def step (r : Reader) (b : UInt8) : Option Reader :=
  match r.expected with
  | .value => if isSpace b then some r else beginValue r.stack b
  | .firstItem =>
    if isSpace b then some r
    else if b == byte ']' then some (deliver r.stack (.array []))
    else beginValue (.item [] :: r.stack) b
  | .firstName =>
    if isSpace b then some r
    else if b == 0x7d then some (deliver r.stack (.object []))
    else if b == byte '"' then some ⟨r.stack, .name [] {}⟩
    else none
  | .nextName done =>
    if isSpace b then some r
    else if b == byte '"' then some ⟨r.stack, .name done {}⟩
    else none
  | .name done t =>
    if t.endsAt b then some ⟨r.stack, .colon done t.text⟩
    else (t.step b).map fun t => ⟨r.stack, .name done t⟩
  | .colon done name =>
    if isSpace b then some r
    else if b == byte ':' then some ⟨.member done name :: r.stack, .value⟩
    else none
  | .text t =>
    if t.endsAt b then some (deliver r.stack (.string t.text))
    else (t.step b).map fun t => ⟨r.stack, .text t⟩
  | .number n =>
    match n.step b with
    | some n => some ⟨r.stack, .number n⟩
    | none => n.number?.bind fun n => afterValue (deliver r.stack (.number n)) b
  | .word rest v =>
    match rest with
    | [] => none
    | [c] => if b == c then some (deliver r.stack v) else none
    | c :: rest => if b == c then some ⟨r.stack, .word rest v⟩ else none
  | .afterItem _ | .afterMember _ | .nothing _ => afterValue r b

/-- Take in a run of bytes. -/
def run (r : Reader) : Bytes → Option Reader
  | [] => some r
  | b :: bs => (r.step b).bind fun r => r.run bs

/-- The value, if the text may end here. -/
def value? (r : Reader) : Option Value :=
  match r.stack, r.expected with
  | [], .nothing v => some v
  | [], .number n => n.number?.map .number
  | _, _ => none

/-- A text that was cut in two is read in two parts. -/
theorem run_append (r : Reader) (bs cs : Bytes) :
    r.run (bs ++ cs) = (r.run bs).bind fun r => r.run cs := by
  induction bs generalizing r with
  | nil => rfl
  | cons b bs ih =>
    simp only [List.cons_append, run]
    cases r.step b with
    | none => rfl
    | some r => simpa using ih r

end Reader

/-- The value of a complete JSON text. -/
def Value.ofBytes? (bs : Bytes) : Option Value := (Reader.start.run bs).bind Reader.value?

end ReportVault.Json
