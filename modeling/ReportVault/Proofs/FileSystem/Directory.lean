import ReportVault.FileSystem.Tree

/-!
# ReportVault.Proofs.FileSystem.Directory

The entries of one directory of a tree, and what changing them does to the others.

`entriesAt` looks at the directory at the end of a list of names and `setEntries` replaces what is
in it; both take a directory that is not there for an empty one.  All that `put` and `remove` do
below a directory is said by `setEntries`, and `setEntries_append` reduces a directory inside
another one to an entry of the latter.
-/

namespace ReportVault.FileSystem.Node

/-- The entries of a directory; a file has none. -/
def entries : Node → List (String × Node)
  | .directory es => es
  | .file _ => []

/-- The entries of the directory at the end of a list of names. -/
def entriesAt (n : Node) : List String → List (String × Node)
  | [] => n.entries
  | name :: rest => ((n.entries.lookup name).getD empty).entriesAt rest

/-- Replace the entries of the directory at the end of a list of names; directories that are not
there are made. -/
def setEntries (n : Node) : List String → List (String × Node) → Node
  | [], es => .directory es
  | name :: rest, es =>
    .directory
      (setEntry name (((n.entries.lookup name).getD empty).setEntries rest es) n.entries)

/-- Whether names lead from directory to directory, as far as there is anything. -/
def leadsOn : Node → List String → Bool
  | .file _, _ => false
  | .directory _, [] => true
  | .directory es, name :: rest => ((es.lookup name).getD empty).leadsOn rest
termination_by structural _ names => names

@[simp] theorem entries_directory (es : List (String × Node)) : (directory es).entries = es := rfl

@[simp] theorem entries_empty : empty.entries = [] := rfl

@[simp] theorem entriesAt_nil (n : Node) : n.entriesAt [] = n.entries := rfl

@[simp] theorem entriesAt_empty (names : List String) : empty.entriesAt names = [] := by
  induction names with
  | nil => rfl
  | cons name rest ih => exact ih

@[simp] theorem leadsOn_empty (names : List String) : empty.leadsOn names = true := by
  induction names with
  | nil => rfl
  | cons name rest ih => exact ih

theorem entriesAt_append (n : Node) (names more : List String) :
    n.entriesAt (names ++ more) = (directory (n.entriesAt names)).entriesAt more := by
  induction names generalizing n with
  | nil => cases more <;> rfl
  | cons name rest ih => exact ih _

/-- A directory inside another one is an entry of it. -/
theorem entriesAt_concat (n : Node) (names : List String) (name : String) :
    n.entriesAt (names ++ [name]) = (((n.entriesAt names).lookup name).getD empty).entries :=
  entriesAt_append n names [name]

@[simp] theorem entriesAt_setEntries (n : Node) (names : List String) (es : List (String × Node)) :
    (n.setEntries names es).entriesAt names = es := by
  induction names generalizing n with
  | nil => rfl
  | cons name rest ih => simp [setEntries, entriesAt, ih]

@[simp] theorem setEntries_setEntries (n : Node) (names : List String)
    (es fs : List (String × Node)) :
    (n.setEntries names es).setEntries names fs = n.setEntries names fs := by
  induction names generalizing n with
  | nil => rfl
  | cons name rest ih => simp [setEntries, ih]

/-- To change a directory inside another one is to change an entry of the latter. -/
theorem setEntries_append (n : Node) (names more : List String) (es : List (String × Node)) :
    n.setEntries (names ++ more) es =
      n.setEntries names ((directory (n.entriesAt names)).setEntries more es).entries := by
  induction names generalizing n with
  | nil => cases more <;> rfl
  | cons name rest ih =>
    rw [List.cons_append, setEntries, ih]
    rfl

theorem setEntries_concat (n : Node) (names : List String) (name : String)
    (es : List (String × Node)) :
    n.setEntries (names ++ [name]) es =
      n.setEntries names (setEntry name (directory es) (n.entriesAt names)) := by
  rw [setEntries_append]
  rfl

/-! ## What is there -/

theorem get?_append (n : Node) (names more : List String) :
    n.get? (names ++ more) = (n.get? names).bind fun m => m.get? more := by
  induction names generalizing n with
  | nil => cases n <;> rfl
  | cons name rest ih =>
    cases n with
    | file contents => rfl
    | directory es =>
      rw [List.cons_append, get?, get?]
      cases es.lookup name with
      | none => rfl
      | some child => exact ih child

@[simp] theorem get?_nil (n : Node) : n.get? [] = some n := by cases n <;> rfl

/-- What stands at the end of names that lead from directory to directory is a directory. -/
theorem get?_of_leadsOn {n : Node} {names : List String} (h : n.leadsOn names = true) :
    n.get? names = none ∧ n.entriesAt names = [] ∨
      n.get? names = some (.directory (n.entriesAt names)) := by
  induction names generalizing n with
  | nil =>
    cases n with
    | file contents => exact absurd h (by simp [leadsOn])
    | directory es => exact Or.inr rfl
  | cons name rest ih =>
    cases n with
    | file contents => exact absurd h (by simp [leadsOn])
    | directory es =>
      rw [get?, entriesAt, entries_directory]
      rw [leadsOn] at h
      cases hchild : es.lookup name with
      | none => exact Or.inl ⟨rfl, entriesAt_empty rest⟩
      | some child =>
        rw [hchild] at h
        exact ih h

theorem get?_concat (n : Node) (names : List String) (name : String) :
    n.get? (names ++ [name]) =
      (n.get? names).bind fun m => m.entries.lookup name := by
  rw [get?_append]
  congr 1
  funext m
  cases m with
  | file contents => rfl
  | directory es => cases h : es.lookup name <;> simp [get?, h]

/-- The entries of a directory that is there are what its names lead to. -/
theorem get?_concat_of_leadsOn {n : Node} {names : List String} (h : n.leadsOn names = true)
    (name : String) : n.get? (names ++ [name]) = (n.entriesAt names).lookup name := by
  rw [get?_concat]
  rcases get?_of_leadsOn h with ⟨hnone, hempty⟩ | hsome
  · rw [hnone, hempty]
    rfl
  · rw [hsome]
    rfl

/-- Names lead on unless a file stands at the last one. -/
theorem leadsOn_concat {n : Node} {names : List String} {name : String} :
    n.leadsOn (names ++ [name]) = true ↔
      n.leadsOn names = true ∧
        ∀ contents, (n.entriesAt names).lookup name ≠ some (.file contents) := by
  induction names generalizing n with
  | nil =>
    cases n with
    | file contents => simp [leadsOn]
    | directory es =>
      rw [List.nil_append, leadsOn, leadsOn, entriesAt_nil, entries_directory]
      cases es.lookup name with
      | none => simp
      | some child => cases child <;> simp [leadsOn]
  | cons first rest ih =>
    cases n with
    | file contents => simp [leadsOn]
    | directory es => exact ih

@[simp] theorem leadsOn_setEntries (n : Node) (names : List String) (es : List (String × Node)) :
    (n.setEntries names es).leadsOn names = true := by
  induction names generalizing n with
  | nil => rfl
  | cons name rest ih => simp [setEntries, leadsOn, ih]

@[simp] theorem get?_setEntries (n : Node) (names : List String) (es : List (String × Node)) :
    (n.setEntries names es).get? names = some (.directory es) := by
  induction names generalizing n with
  | nil => rfl
  | cons name rest ih => simp [setEntries, get?, ih]

/-- The names lead to a directory with these entries, from one directory to the next. -/
inductive LeadsTo : Node → List String → List (String × Node) → Prop
  | here (es : List (String × Node)) : LeadsTo (.directory es) [] es
  | inside {fs es : List (String × Node)} {first : String} {rest : List String} {child : Node}
      (hchild : fs.lookup first = some child) (h : LeadsTo child rest es) :
      LeadsTo (.directory fs) (first :: rest) es

theorem leadsTo_of_get? {n : Node} {names : List String} {es : List (String × Node)}
    (h : n.get? names = some (.directory es)) : n.LeadsTo names es := by
  induction names generalizing n with
  | nil =>
    rw [get?_nil, Option.some.injEq] at h
    exact h ▸ .here es
  | cons first rest ih =>
    cases n with
    | file contents => exact absurd h (by simp [get?])
    | directory fs =>
      rw [get?] at h
      obtain ⟨child, hchild, hrest⟩ := Option.bind_eq_some_iff.1 h
      exact .inside hchild (ih hrest)

theorem entriesAt_of_get? {n : Node} {names : List String} {es : List (String × Node)}
    (h : n.get? names = some (.directory es)) : n.entriesAt names = es := by
  replace h := leadsTo_of_get? h
  induction h with
  | here es => rfl
  | inside hchild _ ih => rwa [entriesAt, entries_directory, hchild]

/-- A directory that is there changes by nothing if its entries stay. -/
theorem setEntries_entriesAt {n : Node} {names : List String} {es : List (String × Node)}
    (h : n.get? names = some (.directory es)) : n.setEntries names (n.entriesAt names) = n := by
  replace h := leadsTo_of_get? h
  induction h with
  | here es => rfl
  | inside hchild _ ih =>
    rw [setEntries, entriesAt, entries_directory, hchild, Option.getD_some, ih,
      setEntry_of_lookup_eq_some hchild]

/-! ## Changing an entry -/

section Entry

variable {fs es : List (String × Node)} {first : String} {child n : Node} {names rest : List String}

/-- What is put below an entry is put into the node that stands there. -/
theorem put_below (hchild : fs.lookup first = some child) (hrest : rest ≠ []) (m : Node) :
    (directory fs).put (first :: rest) m = .directory (setEntry first (child.put rest m) fs) := by
  rw [put, hchild]
  exact hrest

/-- What is taken away below an entry is taken from the node that stands there. -/
theorem remove_below (hchild : fs.lookup first = some child) (hrest : rest ≠ []) :
    (directory fs).remove (first :: rest) = .directory (setEntry first (child.remove rest) fs) := by
  rw [remove, hchild]
  exact hrest

/-- To put a node into a directory is to set an entry of it. -/
theorem put_concat (h : n.get? names = some (.directory es)) (name : String) (m : Node) :
    n.put (names ++ [name]) m = n.setEntries names (setEntry name m (n.entriesAt names)) := by
  replace h := leadsTo_of_get? h
  induction h with
  | here es => rfl
  | inside hchild _ ih =>
    rw [List.cons_append, put_below hchild (List.concat_ne_nil _ _), ih, setEntries, entriesAt,
      entries_directory, hchild, Option.getD_some]

/-- To take a node out of a directory is to drop an entry of it. -/
theorem remove_concat (h : n.get? names = some (.directory es)) (name : String) :
    n.remove (names ++ [name]) = n.setEntries names (dropEntry name (n.entriesAt names)) := by
  replace h := leadsTo_of_get? h
  induction h with
  | here es => rfl
  | inside hchild _ ih =>
    rw [List.cons_append, remove_below hchild (List.concat_ne_nil _ _), ih, setEntries, entriesAt,
      entries_directory, hchild, Option.getD_some]

end Entry

end ReportVault.FileSystem.Node
