import ReportVault.Toml.Scalar
import ReportVault.Toml.Table
import ReportVault.Toml.Text

/-!
# ReportVault.Toml.Statement

The grammar of TOML: a document is a list of statements, one on a line.

A reader gets a list of characters and answers what it read and the rest.  Values may be nested
`maxNesting` deep, which is what their reader recurses on, and a key may have `maxParts` parts; a
loop over the items of an array or the lines of a document runs at most once for each character.
-/

namespace ReportVault.Toml

/-- A line of a document. -/
inductive Statement
  /-- `[path]`: the table that the next lines are about. -/
  | header (path : List String)
  /-- `[[path]]`: the same for a new last item of an array of tables. -/
  | arrayHeader (path : List String)
  /-- `path.name = value` -/
  | assignment (path : List String) (name : String) (value : Value)
  deriving Repr

namespace Statement

/-- How deeply arrays and inline tables may be nested. -/
def maxNesting : Nat := 80

/-- How many parts a key may have. -/
def maxParts : Nat := 80

/-! ## Blanks -/

/-- Whether the character is a space or a tab. -/
def isSpace (c : Char) : Bool := c == ' ' || c == '\t'

/-- What follows spaces and tabs. -/
def skipSpaces (cs : List Char) : List Char := cs.dropWhile isSpace

/-- What follows spaces, line ends and comments. -/
def skipBlanks (inComment : Bool) : List Char → Option (List Char)
  | [] => some []
  | c :: cs =>
    if c = '\n' then skipBlanks false cs
    else if c = '\r' then
      if cs.head? = some '\n' then skipBlanks false cs else none
    else if inComment then
      if Text.isControl c then none else skipBlanks true cs
    else if c = ' ' ∨ c = '\t' then skipBlanks false cs
    else if c = '#' then skipBlanks true cs
    else some (c :: cs)

/-- What follows the end of a line, before which there may be a comment. -/
def skipLineEnd (inComment : Bool) : List Char → Option (List Char)
  | [] => some []
  | c :: cs =>
    if c = '\n' then some cs
    else if c = '\r' then
      match cs with
      | '\n' :: rest => some rest
      | _ => none
    else if inComment then
      if Text.isControl c then none else skipLineEnd true cs
    else if c = ' ' ∨ c = '\t' then skipLineEnd false cs
    else if c = '#' then skipLineEnd true cs
    else none

/-! ## Keys -/

/-- Whether the character may stand in a key without quotes. -/
def isBare (c : Char) : Bool := c.isAlphanum || c == '_' || c == '-'

/-- One part of a key. -/
def keyPart? : List Char → Option (String × List Char)
  | '"' :: cs => Text.basic .plain [] cs
  | '\'' :: cs => Text.literal [] cs
  | cs =>
    let (name, rest) := cs.span isBare
    if name.isEmpty then none else some (String.ofList name, rest)

/-- A key of at most `limit` parts: the parts but the last, and the last. -/
def keyWithin? : Nat → List Char → Option ((List String × String) × List Char)
  | 0, _ => none
  | limit + 1, cs => do
    let (part, rest) ← keyPart? (skipSpaces cs)
    match skipSpaces rest with
    | '.' :: more => do
      let ((path, name), rest) ← keyWithin? limit more
      return ((part :: path, name), rest)
    | rest => return (([], part), rest)

/-- A key with the spaces around it. -/
def key? (cs : List Char) : Option ((List String × String) × List Char) := keyWithin? maxParts cs

/-! ## Values -/

/-- Whether the character ends a value without quotes or brackets.  Quotes end it only behind a
space or tab. -/
def endsScalar (spaced : Bool) (c : Char) : Bool :=
  "\r\n,]#=[\x7b\x7d".toList.contains c || (spaced && (c == '"' || c == '\''))

/-- The text of a value without quotes or brackets, and what follows it.  Spaces and tabs belong to
it if it goes on behind them, as a date does.  What was read so far is in `done`, and the spaces
behind it in `gap`, both last one first. -/
def scalarText (done gap : List Char) : List Char → List Char × List Char
  | [] => (done.reverse, gap.reverse)
  | c :: cs =>
    if isSpace c then scalarText done (c :: gap) cs
    else if endsScalar (!gap.isEmpty) c then (done.reverse, gap.reverse ++ c :: cs)
    else scalarText (c :: (gap ++ done)) [] cs

/-- A value without quotes or brackets. -/
def scalar? (cs : List Char) : Option (Value × List Char) :=
  let (text, rest) := scalarText [] [] cs
  (Scalar.value? text).map fun v => (v, rest)

/-- The items of an array after its opening bracket, at most `fuel` of them. -/
def items? (item? : List Char → Option (Value × List Char)) :
    Nat → List Char → Option (List Value × List Char)
  | 0, _ => none
  | fuel + 1, cs => do
    match ← skipBlanks false cs with
    | ']' :: rest => return ([], rest)
    | cs =>
      let (v, rest) ← item? cs
      match ← skipBlanks false rest with
      | ',' :: rest => do
        let (vs, rest) ← items? item? fuel rest
        return (v :: vs, rest)
      | ']' :: rest => return ([v], rest)
      | _ => none

/-- The members of an inline table after its opening brace, added to those in `done`.  Between the
braces lines may end anywhere but inside of a key. -/
def inlineMembers? (item? : List Char → Option (Value × List Char)) (done : Members) :
    Nat → List Char → Option (Members × List Char)
  | 0, _ => none
  | fuel + 1, cs => do
    let cs ← skipBlanks false cs
    if cs.head? = some '\x7d' then return (done, cs.drop 1)
    let ((path, name), rest) ← key? cs
    let rest ← skipBlanks false rest
    guard (rest.head? = some '=')
    let (v, rest) ← item? (← skipBlanks false (rest.drop 1))
    let (_, done) ← Table.assign path name v .inline done
    let rest ← skipBlanks false rest
    if rest.head? = some ',' then inlineMembers? item? done fuel (rest.drop 1)
    else if rest.head? = some '\x7d' then return (done, rest.drop 1)
    else none

/-- A value in which arrays and inline tables are nested at most `depth` deep. -/
def valueWithin? : Nat → List Char → Option (Value × List Char)
  | _, '"' :: '"' :: '"' :: cs =>
    (Text.multilineBasic .plain [] (Text.dropFirstLineEnd cs)).map fun (s, rest) =>
      (.string s, rest)
  | _, '\'' :: '\'' :: '\'' :: cs =>
    (Text.multilineLiteral [] (Text.dropFirstLineEnd cs)).map fun (s, rest) => (.string s, rest)
  | _, '"' :: cs => (Text.basic .plain [] cs).map fun (s, rest) => (.string s, rest)
  | _, '\'' :: cs => (Text.literal [] cs).map fun (s, rest) => (.string s, rest)
  | depth + 1, '[' :: cs =>
    (items? (valueWithin? depth) (cs.length + 1) cs).map fun (vs, rest) =>
      (.array false vs, rest)
  | depth + 1, '\x7b' :: cs =>
    (inlineMembers? (valueWithin? depth) [] (cs.length + 1) cs).map fun (ms, rest) =>
      (.table .inline ms, rest)
  | _, cs => scalar? cs
termination_by structural depth => depth

/-- A value. -/
def value? (cs : List Char) : Option (Value × List Char) := valueWithin? maxNesting cs

/-! ## Lines -/

/-- A statement, up to the end of its line. -/
def statement? : List Char → Option (Statement × List Char)
  | '[' :: '[' :: cs => do
    let ((path, name), rest) ← key? cs
    match rest with
    | ']' :: ']' :: rest => return (.arrayHeader (path ++ [name]), ← skipLineEnd false rest)
    | _ => none
  | '[' :: cs => do
    let ((path, name), rest) ← key? cs
    match rest with
    | ']' :: rest => return (.header (path ++ [name]), ← skipLineEnd false rest)
    | _ => none
  | cs => do
    let ((path, name), rest) ← key? cs
    match rest with
    | '=' :: rest =>
      let (v, rest) ← value? (skipSpaces rest)
      return (.assignment path name v, ← skipLineEnd false rest)
    | _ => none

/-- The statements of a document, at most `fuel` of them. -/
def statements? : Nat → List Char → Option (List Statement)
  | 0, _ => none
  | fuel + 1, cs => do
    match ← skipBlanks false cs with
    | [] => return []
    | cs =>
      let (s, rest) ← statement? cs
      return s :: (← statements? fuel rest)

/-- The statements of a document.  A byte order mark in front does not count. -/
def ofText? (s : String) : Option (List Statement) :=
  let cs := s.toList
  let cs := if cs.head? = some '\ufeff' then cs.drop 1 else cs
  statements? (cs.length + 1) cs

end Statement

end ReportVault.Toml
