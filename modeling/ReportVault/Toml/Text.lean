/-!
# ReportVault.Toml.Text

Quoted strings, read up to their closing quotes.

There are four forms: with escapes or literal, on one line or on several.  Each reader gets what
follows the opening quotes and answers the characters of the string and what follows it.
-/

namespace ReportVault.Toml.Text

/-- Whether the character may stand neither in a string nor in a comment. -/
def isControl (c : Char) : Bool := (c.toNat < 0x20 && c != '\t') || c.toNat == 0x7f

/-- The value of a hexadecimal digit. -/
def hexValue? (c : Char) : Option Nat :=
  if c.isDigit then some (c.toNat - '0'.toNat)
  else if 'a' ≤ c ∧ c ≤ 'f' then some (c.toNat - 'a'.toNat + 10)
  else if 'A' ≤ c ∧ c ≤ 'F' then some (c.toNat - 'A'.toNat + 10)
  else none

/-- The character with this code, if there is one. -/
def charOfCode? (n : Nat) : Option Char :=
  if n.isValidChar then some (Char.ofNat n) else none

/-- What the next character of a string with escapes belongs to. -/
inductive Escape
  | plain
  /-- A backslash was read. -/
  | backslash
  /-- Hexadecimal digits follow, `left` and one more. -/
  | hex (left : Nat) (value : Nat)
  /-- A backslash at the end of a line: blanks are skipped, and a line end must be among them. -/
  | gap (lineEnded : Bool)
  deriving DecidableEq, Repr

/-- The character that a backslash and one letter stand for. -/
def shortEscape? (c : Char) : Option Char :=
  if c = '"' ∨ c = '\\' then some c
  else if c = 'b' then some '\x08'
  else if c = 'f' then some '\x0c'
  else if c = 'n' then some '\n'
  else if c = 'r' then some '\r'
  else if c = 't' then some '\t'
  else if c = 'e' then some '\x1b'
  else none

/-- The number of hexadecimal digits, less one, after a backslash and this letter. -/
def hexDigitsAfter? (c : Char) : Option Nat :=
  if c = 'x' then some 1 else if c = 'u' then some 3 else if c = 'U' then some 7 else none

/-- The characters read so far, last one first, and what the next one belongs to, after a
character inside an escape.  `multiline` allows the escape of a line end. -/
def stepEscape (multiline : Bool) (state : Escape) (done : List Char) (c : Char) :
    Option (Escape × List Char) :=
  match state with
  | .plain => none
  | .backslash =>
    match shortEscape? c, hexDigitsAfter? c with
    | some d, _ => some (.plain, d :: done)
    | none, some left => some (.hex left 0, done)
    | none, none =>
      if multiline && (c == ' ' || c == '\t' || c == '\r') then some (.gap false, done)
      else if multiline && c == '\n' then some (.gap true, done)
      else none
  | .hex left value =>
    match hexValue? c, left with
    | none, _ => none
    | some d, n + 1 => some (.hex n (16 * value + d), done)
    | some d, 0 => (charOfCode? (16 * value + d)).map fun c => (.plain, c :: done)
  | .gap _ => none

/-- A string with escapes on one line. -/
def basic (state : Escape) (done : List Char) : List Char → Option (String × List Char)
  | [] => none
  | c :: cs =>
    if state = .plain then
      if c = '"' then some (String.ofList done.reverse, cs)
      else if c = '\\' then basic .backslash done cs
      else if isControl c then none
      else basic .plain (c :: done) cs
    else
      match stepEscape false state done c with
      | some (state, done) => basic state done cs
      | none => none

/-- A literal string on one line. -/
def literal (done : List Char) : List Char → Option (String × List Char)
  | [] => none
  | c :: cs =>
    if c = '\'' then some (String.ofList done.reverse, cs)
    else if isControl c then none
    else literal (c :: done) cs

/-- What follows the quotes that close a string on several lines, when `cs` is what follows the
first of them; at most two more quotes belong to the string. -/
def closing? (quote : Char) (done : List Char) (cs : List Char) : Option (String × List Char) :=
  match cs with
  | a :: b :: rest =>
    if a = quote ∧ b = quote then
      let extra := (rest.take 2).takeWhile (· == quote)
      some (String.ofList (done.reverse ++ extra), rest.drop extra.length)
    else none
  | _ => none

/-- Whether a character of a string on several lines is allowed, when `cs` follows it: a carriage
return only before a line feed. -/
def isAllowed (c : Char) (cs : List Char) : Bool :=
  if c = '\r' then cs.head? = some '\n' else c = '\n' || !isControl c

/-- A string with escapes on several lines. -/
def multilineBasic (state : Escape) (done : List Char) : List Char → Option (String × List Char)
  | [] => none
  | c :: cs =>
    match state with
    | .plain =>
      if c = '"' then
        match closing? '"' done cs with
        | some closed => some closed
        | none => multilineBasic .plain (c :: done) cs
      else if c = '\\' then multilineBasic .backslash done cs
      else if isAllowed c cs then multilineBasic .plain (c :: done) cs
      else none
    | .gap lineEnded =>
      if c = ' ' ∨ c = '\t' then multilineBasic (.gap lineEnded) done cs
      else if c = '\n' then multilineBasic (.gap true) done cs
      else if c = '\r' then
        if cs.head? = some '\n' then multilineBasic (.gap lineEnded) done cs else none
      else if !lineEnded then none
      else if c = '"' then
        match closing? '"' done cs with
        | some closed => some closed
        | none => multilineBasic .plain (c :: done) cs
      else if c = '\\' then multilineBasic .backslash done cs
      else if isControl c then none
      else multilineBasic .plain (c :: done) cs
    | _ =>
      if c = '\r' ∧ cs.head? ≠ some '\n' then none
      else match stepEscape true state done c with
        | some (state, done) => multilineBasic state done cs
        | none => none

/-- A literal string on several lines. -/
def multilineLiteral (done : List Char) : List Char → Option (String × List Char)
  | [] => none
  | c :: cs =>
    if c = '\'' then
      match closing? '\'' done cs with
      | some closed => some closed
      | none => multilineLiteral (c :: done) cs
    else if isAllowed c cs then multilineLiteral (c :: done) cs
    else none

/-- A line end right after the opening quotes does not count. -/
def dropFirstLineEnd : List Char → List Char
  | '\n' :: cs => cs
  | '\r' :: '\n' :: cs => cs
  | cs => cs

end ReportVault.Toml.Text
