import Mathlib.Data.List.TakeDrop
import ReportVault.Proofs.Toml.Integer
import ReportVault.Toml.Document

/-!
# ReportVault.Proofs.Toml.Lines

Texts that are made of lines `key = value` with integers.

`Lines` says which texts these are and what they assign: a key is given without quotes, spaces and
tabs may stand around the key and the value, and a line ends in a line feed, a carriage return with
a line feed, or with the text.  Such a text is read line by line (`statements?_of_lines`), and the
document that it describes has its entries as members, in the order of the lines
(`parse?_of_lines`), also behind the header of a table (`parse?_of_header`).
-/

namespace ReportVault.Toml

open Statement

/-! ## Texts -/

/-- Spaces and tabs. -/
def AreSpaces (cs : List Char) : Prop := ∀ c ∈ cs, isSpace c = true

/-- A key that may stand without quotes. -/
structure IsBareKey (key : String) : Prop where
  ne_nil : key.toList ≠ []
  isBare : ∀ c ∈ key.toList, isBare c = true

instance (key : String) : Decidable (IsBareKey key) :=
  decidable_of_iff (key.toList ≠ [] ∧ key.toList.all isBare = true)
    ⟨fun h => ⟨h.1, List.all_eq_true.1 h.2⟩, fun h => ⟨h.1, List.all_eq_true.2 h.2⟩⟩

/-- A line that assigns an integer to a key. -/
inductive IsLine : List Char → String → Int → Prop
  | mk {before behind front after digits : List Char} {key : String} {i : Int}
      (hbefore : AreSpaces before) (hkey : IsBareKey key) (hbehind : AreSpaces behind)
      (hfront : AreSpaces front) (hvalue : Spells digits i) (hafter : AreSpaces after) :
      IsLine (before ++ (key.toList ++ (behind ++ '=' :: (front ++ (digits ++ after))))) key i

/-- What is left of a text behind a line, and what follows the end of the line. -/
inductive LineEnd : List Char → List Char → Prop
  | text : LineEnd [] []
  | lineFeed (rest : List Char) : LineEnd ('\n' :: rest) rest
  | carriageReturn (rest : List Char) : LineEnd ('\r' :: '\n' :: rest) rest

/-- The text is made of lines, and these are the keys and integers in their order. -/
inductive Lines : List Char → List (String × Int) → Prop
  | nil : Lines [] []
  | cons {line tail rest : List Char} {key : String} {i : Int} {entries : List (String × Int)}
      (hline : IsLine line key i) (hend : LineEnd tail rest) (hrest : Lines rest entries) :
      Lines (line ++ tail) ((key, i) :: entries)

/-- A key and an integer as they are commonly written. -/
def lineOf (entry : String × Int) : String := entry.1 ++ " = " ++ Text.ofInt entry.2 ++ "\n"

/-- The lines of entries. -/
def linesOf (entries : List (String × Int)) : List Char :=
  entries.flatMap fun entry => (lineOf entry).toList

/-- Entries with any integers can be written. -/
theorem lines_linesOf {entries : List (String × Int)} (h : ∀ entry ∈ entries, IsBareKey entry.1) :
    Lines (linesOf entries) entries := by
  induction entries with
  | nil => exact .nil
  | cons entry entries ih =>
    have hrest := ih fun other hother => h other (List.mem_cons_of_mem _ hother)
    have hnone : AreSpaces [] := fun _ hc => by cases hc
    have hspace : AreSpaces [' '] := fun c hc => by
      rw [List.mem_singleton.1 hc]
      rfl
    have hline : IsLine _ entry.1 entry.2 :=
      .mk hnone (h entry List.mem_cons_self) hspace hspace (spells_ofInt entry.2) hnone
    have hlines := Lines.cons hline (.lineFeed _) hrest
    simpa [linesOf, lineOf] using hlines

/-- A key without quotes begins with a character that may be part of it. -/
theorem IsBareKey.exists_head {key : String} (h : IsBareKey key) :
    ∃ first more, key.toList = first :: more ∧ Statement.isBare first = true := by
  obtain ⟨first, more, hkey⟩ := List.exists_cons_of_ne_nil h.ne_nil
  exact ⟨first, more, hkey, h.isBare first (hkey ▸ List.mem_cons_self)⟩

/-- A line begins with a space or with its key. -/
theorem IsLine.exists_head {line : List Char} {key : String} {i : Int} (h : IsLine line key i) :
    ∃ c more, line = c :: more ∧ (isSpace c = true ∨ isBare c = true) := by
  cases h with
  | @mk before behind front after digits key i hbefore hkey hbehind hfront hvalue hafter =>
    cases before with
    | cons c before => exact ⟨c, _, rfl, Or.inl (hbefore c List.mem_cons_self)⟩
    | nil =>
      obtain ⟨first, more, hname, hfirst⟩ := hkey.exists_head
      rw [hname]
      exact ⟨first, _, rfl, Or.inr hfirst⟩

/-- No byte order mark is in front of lines. -/
theorem Lines.head?_ne {cs : List Char} {entries : List (String × Int)} (h : Lines cs entries) :
    cs.head? ≠ some '\ufeff' := by
  cases h with
  | nil => simp
  | cons hline hend hrest =>
    obtain ⟨c, more, rfl, hc⟩ := hline.exists_head
    rintro ⟨⟩
    exact absurd hc (by decide)

theorem LineEnd.length_le {tail rest : List Char} (h : LineEnd tail rest) :
    rest.length ≤ tail.length := by
  cases h <;> simp only [List.length_cons, List.length_nil] <;> omega

namespace Statement

variable {spaces cs rest tail digits : List Char} {c : Char} {key : String} {i : Int}

/-! ## Blanks -/

theorem skipSpaces_append (h : AreSpaces spaces) (cs : List Char) :
    skipSpaces (spaces ++ cs) = skipSpaces cs := List.dropWhile_append_of_pos h

theorem skipSpaces_cons (h : isSpace c = false) (cs : List Char) : skipSpaces (c :: cs) = c :: cs :=
  List.dropWhile_cons_of_neg (by simp [h])

/-- What passes over one space or tab passes over all of them. -/
theorem eq_of_areSpaces {β : Type} {f : List Char → β} (hspace : ∀ cs, f (' ' :: cs) = f cs)
    (htab : ∀ cs, f ('\t' :: cs) = f cs) (h : AreSpaces spaces) (cs : List Char) :
    f (spaces ++ cs) = f cs := by
  induction spaces with
  | nil => rfl
  | cons c spaces ih =>
    have hrest := ih fun d hd => h d (List.mem_cons_of_mem _ hd)
    have hc := h c List.mem_cons_self
    simp only [isSpace, Bool.or_eq_true, beq_iff_eq] at hc
    rcases hc with rfl | rfl
    · exact (hspace _).trans hrest
    · exact (htab _).trans hrest

theorem skipBlanks_append (h : AreSpaces spaces) (cs : List Char) :
    skipBlanks false (spaces ++ cs) = skipBlanks false cs :=
  eq_of_areSpaces (fun _ => rfl) (fun _ => rfl) h cs

theorem skipLineEnd_append (h : AreSpaces spaces) (cs : List Char) :
    skipLineEnd false (spaces ++ cs) = skipLineEnd false cs :=
  eq_of_areSpaces (fun _ => rfl) (fun _ => rfl) h cs

theorem skipLineEnd_of_lineEnd (h : LineEnd tail rest) : skipLineEnd false tail = some rest := by
  cases h <;> rfl

/-! ## Keys -/

theorem isBare_of_isSpace (h : isSpace c = true) : isBare c = false := by
  simp only [isSpace, Bool.or_eq_true, beq_iff_eq] at h
  rcases h with rfl | rfl <;> decide

theorem isSpace_of_isBare (h : isBare c = true) : isSpace c = false := by
  cases hspace : isSpace c with
  | false => rfl
  | true => exact absurd h (by simp [isBare_of_isSpace hspace])

/-- What has a property is split off up to the first character that does not. -/
theorem span_append {p : Char → Bool} (hcs : ∀ c ∈ cs, p c = true)
    (hrest : ∀ c ∈ rest.head?, p c = false) : (cs ++ rest).span p = (cs, rest) := by
  rw [List.span_eq_takeWhile_dropWhile, List.takeWhile_append_of_pos hcs,
    List.dropWhile_append_of_pos hcs]
  cases rest with
  | nil => simp
  | cons c rest => simp [hrest c rfl]

/-- A key without quotes is read up to the first character that cannot be part of it. -/
theorem keyPart?_of_isBareKey (h : IsBareKey key) (hrest : ∀ c ∈ rest.head?, isBare c = false) :
    keyPart? (key.toList ++ rest) = some (key, rest) := by
  obtain ⟨first, more, hkey, hfirst⟩ := h.exists_head
  have hne : ∀ {quote : Char} {cs : List Char}, isBare quote = false →
      key.toList ++ rest = quote :: cs → False := by
    intro quote cs hquote he
    rw [hkey] at he
    rw [(List.cons.inj he).1, hquote] at hfirst
    cases hfirst
  rw [keyPart?, span_append h.isBare hrest]
  · simp only [List.isEmpty_iff, h.ne_nil, if_false, String.ofList_toList]
  · exact fun _ => hne (by decide)
  · exact fun _ => hne (by decide)

/-- A key without quotes, with spaces behind it, is read as one name. -/
theorem key?_of_isBareKey (h : IsBareKey key) (hspaces : AreSpaces spaces) (hc : isBare c = false)
    (hspace : isSpace c = false) (hdot : c ≠ '.') (rest : List Char) :
    key? (key.toList ++ (spaces ++ c :: rest)) = some (([], key), c :: rest) := by
  obtain ⟨first, more, hkey, hfirst⟩ := h.exists_head
  have hstart : skipSpaces (key.toList ++ (spaces ++ c :: rest)) =
      key.toList ++ (spaces ++ c :: rest) := by
    rw [hkey]
    exact skipSpaces_cons (isSpace_of_isBare hfirst) _
  have hnext : ∀ d ∈ (spaces ++ c :: rest).head?, isBare d = false := by
    cases spaces with
    | nil =>
      rintro d ⟨⟩
      exact hc
    | cons space spaces =>
      rintro d ⟨⟩
      exact isBare_of_isSpace (hspaces space List.mem_cons_self)
  have hafter : skipSpaces (spaces ++ c :: rest) = c :: rest := by
    rw [skipSpaces_append hspaces, skipSpaces_cons hspace]
  show keyWithin? (79 + 1) _ = _
  rw [keyWithin?, hstart, keyPart?_of_isBareKey h hnext]
  simp only [Option.bind_eq_bind, Option.bind_some, hafter]
  split
  · next more he => exact absurd (List.cons.inj he).1 hdot
  · rfl

/-! ## Values -/

/-- What neither is a space nor ends a value is taken into it. -/
theorem scalarText_append_of_plain
    (h : ∀ c ∈ digits, isSpace c = false ∧ endsScalar false c = false) (done cs : List Char) :
    scalarText done [] (digits ++ cs) = scalarText (digits.reverse ++ done) [] cs := by
  induction digits generalizing done with
  | nil => rfl
  | cons c digits ih =>
    obtain ⟨hspace, hends⟩ := h c List.mem_cons_self
    rw [List.cons_append, scalarText, if_neg (by simp [hspace]), if_neg (by simp [hends]),
      ih fun d hd => h d (List.mem_cons_of_mem _ hd)]
    simp

/-- Spaces belong to a value if it goes on behind them. -/
theorem scalarText_append_of_spaces (h : AreSpaces spaces) (done gap cs : List Char) :
    scalarText done gap (spaces ++ cs) = scalarText done (spaces.reverse ++ gap) cs := by
  induction spaces generalizing gap with
  | nil => rfl
  | cons c spaces ih =>
    rw [List.cons_append, scalarText, if_pos (h c List.mem_cons_self),
      ih fun d hd => h d (List.mem_cons_of_mem _ hd)]
    simp

/-- The end of a line ends a value, before the spaces in front of it. -/
theorem scalarText_of_lineEnd (h : LineEnd tail rest) (done gap : List Char) :
    scalarText done gap tail = (done.reverse, gap.reverse ++ tail) := by
  cases h with
  | text => simp [scalarText]
  | lineFeed rest => rfl
  | carriageReturn rest => rfl

theorem isPlain_of_spells (h : Spells digits i) (hc : c ∈ digits) :
    isSpace c = false ∧ endsScalar false c = false := by
  have hplain := h.isAlphanum_or_eq hc
  constructor
  · cases hspace : isSpace c with
    | false => rfl
    | true =>
      simp only [isSpace, Bool.or_eq_true, beq_iff_eq] at hspace
      rcases hspace with rfl | rfl <;> exact absurd hplain (by decide)
  · cases hends : endsScalar false c with
    | false => rfl
    | true =>
      simp only [endsScalar, Bool.false_and, Bool.or_false, List.contains_iff_mem] at hends
      have hnone : ("\r\n,]#=[\x7b\x7d".toList.all fun d =>
          !decide (d.isAlphanum = true ∨ d = '_' ∨ d = '+' ∨ d = '-')) = true := by decide
      have hmark := List.all_eq_true.1 hnone c hends
      simp only [hplain, decide_true, Bool.not_true, Bool.false_eq_true] at hmark

/-- An integer is read up to the spaces behind it. -/
theorem value?_of_spells (h : Spells digits i) (hspaces : AreSpaces spaces)
    (hend : LineEnd tail rest) :
    value? (digits ++ (spaces ++ tail)) = some (.integer (some i), spaces ++ tail) := by
  have htext : scalarText [] [] (digits ++ (spaces ++ tail)) = (digits, spaces ++ tail) := by
    rw [scalarText_append_of_plain fun c hc => isPlain_of_spells h hc,
      scalarText_append_of_spaces hspaces, scalarText_of_lineEnd hend]
    simp
  have hscalar : value? (digits ++ (spaces ++ tail)) = scalar? (digits ++ (spaces ++ tail)) := by
    -- neither a quote nor a bracket comes first
    obtain ⟨c, more, rfl, hc⟩ := h.exists_head
    have hne : ∀ {d : Char} {cs : List Char}, ¬ (d = '+' ∨ d = '-' ∨ d.isDigit = true) →
        c :: more ++ (spaces ++ tail) = d :: cs → False := by
      intro d cs hd he
      exact hd ((List.cons.inj he).1 ▸ hc)
    rw [value?, maxNesting, valueWithin?]
    · exact fun _ => hne (by decide)
    · exact fun _ => hne (by decide)
    · exact fun _ => hne (by decide)
    · exact fun _ => hne (by decide)
    · exact fun _ _ _ => hne (by decide)
    · exact fun _ _ _ => hne (by decide)
  rw [hscalar, scalar?, htext]
  simp [h.value?_eq]

/-! ## Lines -/

theorem skipBlanks_of_isBare (h : isBare c = true) (cs : List Char) :
    skipBlanks false (c :: cs) = some (c :: cs) := by
  have hne : ∀ d, isBare d = false → c ≠ d := by
    rintro d hd rfl
    rw [hd] at h
    cases h
  rw [skipBlanks, if_neg (hne _ (by decide)), if_neg (hne _ (by decide)),
    if_neg Bool.false_ne_true, if_neg (by simp [hne ' ' (by decide), hne '\t' (by decide)]),
    if_neg (hne _ (by decide))]

/-- A line is read as its assignment, and what follows is the rest of the text. -/
theorem statement?_of_isLine {line : List Char} (h : IsLine line key i) (hend : LineEnd tail rest) :
    ∃ first cs, skipBlanks false (line ++ tail) = some (first :: cs) ∧
      statement? (first :: cs) = some (.assignment [] key (.integer (some i)), rest) := by
  cases h with
  | @mk before behind front after digits key i hbefore hkey hbehind hfront hvalue hafter =>
  obtain ⟨first, more, hname, hfirst⟩ := hkey.exists_head
  have hassign := key?_of_isBareKey hkey hbehind (c := '=') (by decide) (by decide) (by decide)
    (front ++ (digits ++ (after ++ tail)))
  have hvalue' := value?_of_spells hvalue hafter hend
  obtain ⟨d, ds, hdigits, hd⟩ := hvalue.exists_head
  refine ⟨first, more ++ (behind ++ '=' :: (front ++ (digits ++ (after ++ tail)))), ?_, ?_⟩
  · simp only [List.append_assoc, hname, List.cons_append]
    rw [skipBlanks_append hbefore, skipBlanks_of_isBare hfirst]
  · rw [hname, List.cons_append] at hassign
    have hstart : skipSpaces (front ++ (digits ++ (after ++ tail))) =
        digits ++ (after ++ tail) := by
      rw [skipSpaces_append hfront, hdigits]
      refine skipSpaces_cons ?_ _
      exact (isPlain_of_spells hvalue (hdigits ▸ List.mem_cons_self)).1
    have hne : ∀ {cs : List Char}, first :: (more ++
        (behind ++ '=' :: (front ++ (digits ++ (after ++ tail))))) = '[' :: cs → False := by
      intro cs he
      exact absurd ((List.cons.inj he).1 ▸ hfirst) (by decide)
    rw [statement?]
    · simp only [hassign, Option.bind_eq_bind, Option.bind_some, hstart, hvalue',
        skipLineEnd_append hafter, skipLineEnd_of_lineEnd hend, Option.pure_def]
    · exact fun _ => hne
    · exact fun _ => hne

/-- A header without quotes is read. -/
theorem statement?_header (h : IsBareKey key) (hend : LineEnd tail rest) :
    statement? ('[' :: (key.toList ++ ']' :: tail)) = some (.header [key], rest) := by
  obtain ⟨first, more, hname, hfirst⟩ := h.exists_head
  have hkey : key? (key.toList ++ ']' :: tail) = some (([], key), ']' :: tail) :=
    key?_of_isBareKey h (show AreSpaces [] from fun _ hc => by cases hc) (by decide) (by decide)
      (by decide) tail
  rw [statement?]
  · simp only [hkey, Option.bind_eq_bind, Option.bind_some, skipLineEnd_of_lineEnd hend,
      Option.pure_def, List.nil_append]
  · rw [hname]
    rintro cs he
    exact absurd ((List.cons.inj he).1 ▸ hfirst) (by decide)

/-! ## Documents -/

/-- The assignment of an entry. -/
def ofEntry (entry : String × Int) : Statement := .assignment [] entry.1 (.integer (some entry.2))

/-- The text is read line by line. -/
theorem statements?_of_lines {entries : List (String × Int)} (h : Lines cs entries) {fuel : Nat}
    (hfuel : cs.length < fuel) : statements? fuel cs = some (entries.map ofEntry) := by
  induction h generalizing fuel with
  | nil =>
    obtain ⟨fuel, rfl⟩ := Nat.exists_eq_succ_of_ne_zero (by omega : fuel ≠ 0)
    rfl
  | @cons line tail rest key i entries hline hend hrest ih =>
    obtain ⟨fuel, rfl⟩ := Nat.exists_eq_succ_of_ne_zero (by omega : fuel ≠ 0)
    have hlonger := hend.length_le
    obtain ⟨c, more, rfl, -⟩ := hline.exists_head
    rw [List.length_append, List.length_cons] at hfuel
    obtain ⟨first, more, hskip, hstatement⟩ := statement?_of_isLine hline hend
    rw [statements?, hskip]
    simp only [Option.bind_eq_bind, Option.bind_some, hstatement,
      ih (by omega : rest.length < fuel), Option.pure_def]
    rfl

end Statement

namespace Document

open Statement

variable {key name : String} {entries : List (String × Int)} {members : Members}

/-- The members that entries make. -/
def ofEntries (entries : List (String × Int)) : Members :=
  entries.map fun entry => (entry.1, .integer (some entry.2))

theorem lookup_ofEntries (entries : List (String × Int)) (key : String) :
    (ofEntries entries).lookup key = (entries.lookup key).map fun i => .integer (some i) := by
  induction entries with
  | nil => rfl
  | cons entry entries ih =>
    rw [ofEntries, List.map_cons, List.lookup_cons, List.lookup_cons]
    cases key == entry.1 with
    | true => rfl
    | false => exact ih

/-- An assignment in front of all headers adds a member to the document. -/
theorem add_assignment (h : members.lookup key = none) (v : Value) :
    Document.add ⟨[], members⟩ (.assignment [] key v) = some ⟨[], members ++ [(key, v)]⟩ := by
  simp [add, changeAt, Table.modify, Table.assign, Table.insert, h]

/-- An assignment behind a header adds a member to its table. -/
theorem add_assignment_of_header (h : members.lookup key = none) (v : Value) :
    Document.add ⟨[name], [(name, .table .header members)]⟩ (.assignment [] key v) =
      some ⟨[name], [(name, .table .header (members ++ [(key, v)]))]⟩ := by
  simp [add, changeAt, Table.modify, Table.assign, Table.insert, h, Table.isOpen, Table.replace]

/-- Assignments of distinct keys add their members one after the other, wherever each of them adds
its own. -/
theorem addAll_ofEntries (f : Members → Document)
    (hadd : ∀ members key v, members.lookup key = none →
      (f members).add (.assignment [] key v) = some (f (members ++ [(key, v)])))
    (hdistinct : (entries.map Prod.fst).Nodup)
    (hnew : ∀ entry ∈ entries, members.lookup entry.1 = none) :
    (f members).addAll (entries.map ofEntry) = some (f (members ++ ofEntries entries)) := by
  induction entries generalizing members with
  | nil => simp [addAll, ofEntries]
  | cons entry entries ih =>
    obtain ⟨hother, hrest⟩ := List.nodup_cons.1 hdistinct
    have hnext : ∀ other ∈ entries,
        (members ++ [(entry.1, Value.integer (some entry.2))]).lookup other.1 = none := by
      intro other hmem
      have hne : other.1 ≠ entry.1 := fun he => hother (he ▸ List.mem_map_of_mem hmem)
      rw [List.lookup_append, hnew other (List.mem_cons_of_mem _ hmem), List.lookup_cons,
        beq_false_of_ne hne]
      rfl
    rw [List.map_cons, addAll, ofEntry, hadd _ _ _ (hnew entry List.mem_cons_self),
      Option.bind_some, ih hrest hnext]
    simp [ofEntries]

/-- A text of lines with distinct keys describes its entries. -/
theorem parse?_of_lines {s : String} (h : Lines s.toList entries)
    (hdistinct : (entries.map Prod.fst).Nodup) : parse? s = some (ofEntries entries) := by
  have htext : ofText? s = some (entries.map ofEntry) := by
    rw [ofText?, if_neg h.head?_ne, statements?_of_lines h (Nat.lt_succ_self _)]
  have hall := addAll_ofEntries (fun members => ⟨[], members⟩) (fun _ _ v h => add_assignment h v)
    hdistinct (show ∀ entry ∈ entries, ([] : Members).lookup entry.1 = none from fun _ _ => rfl)
  rw [parse?, htext, Option.bind_eq_bind, Option.bind_some]
  show (Document.addAll ⟨[], []⟩ (entries.map ofEntry)).bind _ = _
  rw [hall]
  rfl

/-- Behind a header it describes a table of them. -/
theorem parse?_of_header {s : String} {tail rest : List Char} (hname : IsBareKey name)
    (hs : s.toList = '[' :: (name.toList ++ ']' :: tail)) (hend : LineEnd tail rest)
    (h : Lines rest entries) (hdistinct : (entries.map Prod.fst).Nodup) :
    parse? s = some [(name, .table .header (ofEntries entries))] := by
  have hfuel : rest.length < s.toList.length := by
    have hle := hend.length_le
    simp only [hs, List.length_cons, List.length_append]
    omega
  have htext : ofText? s = some (.header [name] :: entries.map ofEntry) := by
    have hskip : skipBlanks false s.toList = some s.toList := by
      rw [hs]
      rfl
    rw [ofText?, if_neg (by simp [hs]), statements?, hskip]
    simp only [hs] at hfuel ⊢
    simp only [Option.bind_eq_bind, Option.bind_some, statement?_header hname hend,
      statements?_of_lines h hfuel, Option.pure_def]
  have hheader : Document.add {} (.header [name]) =
      some ⟨[name], [(name, .table .header [])]⟩ := by
    simp [add, changeAt, Table.modify, Table.openTable]
  have hall := addAll_ofEntries (fun members => ⟨[name], [(name, .table .header members)]⟩)
    (fun _ _ v h => add_assignment_of_header h v) hdistinct
    (show ∀ entry ∈ entries, ([] : Members).lookup entry.1 = none from fun _ _ => rfl)
  rw [parse?, htext, Option.bind_eq_bind, Option.bind_some, addAll, hheader, Option.bind_some]
  rw [hall]
  rfl

end Document

end ReportVault.Toml
