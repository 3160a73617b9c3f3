import Mathlib.Data.List.Induction
import ReportVault.Proofs.FileSystem.Directory

/-!
# ReportVault.Proofs.FileSystem.Tree

What the calls of a file system answer for relative paths of plain names.

`IsPlace` collects what is needed for a path to be followed name by name.  Where its names lead
from directory to directory (`Node.leadsOn`), each call is described by the entries of that
directory.
-/

namespace ReportVault.FileSystem

/-! ## Names -/

/-- A name that an entry of a directory can have. -/
structure IsEntryName (name : String) : Prop where
  ne_empty : name ≠ ""
  ne_dot : name ≠ "."
  ne_dots : name ≠ ".."
  no_slash : '/' ∉ name.toList
  no_nul : '\x00' ∉ name.toList
  isShort : name.utf8ByteSize ≤ Node.maxNameBytes

/-- A name that is one part of a path, and names an entry. -/
structure IsPart (name : String) : Prop where
  ne_empty : name ≠ ""
  ne_dot : name ≠ "."
  ne_dots : name ≠ ".."
  no_slash : '/' ∉ name.toList

theorem IsEntryName.isPart {name : String} (h : IsEntryName name) : IsPart name :=
  ⟨h.ne_empty, h.ne_dot, h.ne_dots, h.no_slash⟩

/-- A text has at most four bytes for each character. -/
theorem utf8ByteSize_ofList_le (cs : List Char) : (String.ofList cs).utf8ByteSize ≤ 4 * cs.length := by
  induction cs with
  | nil => simp
  | cons c cs ih =>
    have hc := c.utf8Size_le_four
    rw [String.ofList_cons, String.utf8ByteSize_append, String.utf8ByteSize_singleton,
      List.length_cons]
    omega

/-- The names of a directory itself and of the one above it have at most two characters. -/
theorem isPart_of_length {name : String} (hlength : 2 < name.toList.length)
    (hslash : '/' ∉ name.toList) : IsPart name := by
  refine ⟨?_, ?_, ?_, hslash⟩ <;> rintro rfl <;> exact absurd hlength (by decide)

/-- A part of a path that has no zero byte and few characters is a name for an entry. -/
theorem IsPart.isEntryName_of_length {name : String} (h : IsPart name)
    (hnul : '\x00' ∉ name.toList) (hlength : 4 * name.toList.length ≤ Node.maxNameBytes) :
    IsEntryName name := by
  have hsize := utf8ByteSize_ofList_le name.toList
  rw [String.ofList_toList] at hsize
  exact ⟨h.ne_empty, h.ne_dot, h.ne_dots, h.no_slash, hnul, Nat.le_trans hsize hlength⟩

/-- The bytes of names with a slash after each. -/
def pathBytes : List String → Nat
  | [] => 0
  | name :: rest => name.utf8ByteSize + 1 + pathBytes rest

@[simp] theorem pathBytes_append (names more : List String) :
    pathBytes (names ++ more) = pathBytes names + pathBytes more := by
  induction names with
  | nil => simp [pathBytes]
  | cons name rest ih =>
    rw [List.cons_append, pathBytes, pathBytes, ih]
    omega

theorem utf8ByteSize_intercalate_le (names : List String) :
    ("/".intercalate names).utf8ByteSize ≤ pathBytes names := by
  induction names with
  | nil => simp [pathBytes]
  | cons name rest ih =>
    cases rest with
    | nil => simp [pathBytes]
    | cons second others =>
      have hslash : "/".utf8ByteSize = 1 := rfl
      rw [String.intercalate_cons_cons, String.utf8ByteSize_append, String.utf8ByteSize_append]
      simp only [pathBytes] at ih ⊢
      omega

theorem mem_intercalate {c : Char} {names : List String} (h : c ∈ ("/".intercalate names).toList) :
    c = '/' ∨ ∃ name ∈ names, c ∈ name.toList := by
  induction names with
  | nil => simp at h
  | cons name rest ih =>
    cases rest with
    | nil => exact Or.inr ⟨name, List.mem_cons_self, by simpa using h⟩
    | cons second others =>
      rw [String.intercalate_cons_cons, String.toList_append, String.toList_append,
        List.mem_append, List.mem_append] at h
      rcases h with (h | h) | h
      · exact Or.inr ⟨name, List.mem_cons_self, h⟩
      · exact Or.inl (by simpa using h)
      · rcases ih h with h | ⟨other, hmem, hc⟩
        · exact Or.inl h
        · exact Or.inr ⟨other, List.mem_cons_of_mem _ hmem, hc⟩

/-- The names of a relative path that can be followed. -/
structure IsPlace (names : List String) : Prop where
  isName : ∀ name ∈ names, IsEntryName name
  isShort : pathBytes names < Node.pathLimit

/-- The relative path of names. -/
def Path.ofNames (names : List String) : Path := ⟨false, names⟩

namespace IsPlace

variable {names : List String} {name : String}

theorem of_concat (h : IsPlace (names ++ [name])) : IsPlace names := by
  have hshort := h.isShort
  rw [pathBytes_append] at hshort
  exact ⟨fun other hmem => h.isName other (List.mem_append_left _ hmem), by omega⟩

theorem isName_last (h : IsPlace (names ++ [name])) : IsEntryName name :=
  h.isName name (List.mem_append_right _ List.mem_cons_self)

end IsPlace

/-! ## Following a path -/

namespace Node

variable {top : Node} {names : List String} {name : String}

/-- No call refuses such a path by its text. -/
theorem refusal?_ofNames (hne : names ≠ []) (h : IsPlace names) :
    refusal? (Path.ofNames names) = none := by
  have htext : (Path.ofNames names).text = "/".intercalate names := by
    simp [Path.text, Path.ofNames]
  have hnul : ("/".intercalate names).toList.contains '\x00' = false := by
    rw [← Bool.not_eq_true, List.contains_iff_mem]
    intro hmem
    rcases mem_intercalate hmem with hslash | ⟨name, hname, hmem⟩
    · exact absurd hslash (by decide)
    · exact (h.isName name hname).no_nul hmem
  have hsize := utf8ByteSize_intercalate_le names
  have hshort := h.isShort
  have hempty : "/".intercalate names ≠ "" := by
    obtain ⟨name, rest, rfl⟩ := List.exists_cons_of_ne_nil hne
    have hname := (h.isName name List.mem_cons_self).ne_empty
    cases rest with
    | nil => simpa using hname
    | cons second others => simp [String.intercalate_cons_cons, String.append_eq_empty_iff]
  have hlimit : ¬ pathLimit ≤ ("/".intercalate names).utf8ByteSize := by omega
  simp only [refusal?, htext, hnul, String.isEmpty_iff, hempty, hlimit, Bool.false_eq_true, if_false]

theorem follow_entry {es : List (String × Node)} (before : List String)
    (hname : IsEntryName name) :
    follow top ⟨some before, .directory es⟩ name =
      match es.lookup name with
      | none => .error .notFound
      | some n => .ok ⟨some (before ++ [name]), n⟩ := by
  have hshort : ¬ name.utf8ByteSize > maxNameBytes := Nat.not_lt.2 hname.isShort
  simp only [follow, hname.ne_empty, hname.ne_dot, hname.ne_dots, hshort, or_self, if_false]
  cases es.lookup name <;> rfl

theorem followAll_append (spot : Spot) (names more : List String) :
    followAll top spot (names ++ more) = (followAll top spot names).bind
      fun reached => followAll top reached more := by
  induction names generalizing spot with
  | nil => rfl
  | cons name rest ih =>
    rw [List.cons_append, followAll, followAll]
    cases follow top spot name with
    | error cause => rfl
    | ok reached => exact ih reached

/-- Names that lead from directory to directory are followed as far as there is anything. -/
theorem followAll_of_leadsOn (top : Node) {n : Node} (before : List String)
    (hnames : ∀ name ∈ names, IsEntryName name) (h : n.leadsOn names = true) :
    followAll top ⟨some before, n⟩ names =
      match n.get? names with
      | none => .error .notFound
      | some m => .ok ⟨some (before ++ names), m⟩ := by
  induction names generalizing n before with
  | nil => simp [followAll]
  | cons name rest ih =>
    cases n with
    | file contents => exact absurd h (by simp [leadsOn])
    | directory es =>
      rw [followAll, follow_entry before (hnames name List.mem_cons_self), get?]
      rw [leadsOn] at h
      cases hchild : es.lookup name with
      | none => rfl
      | some child =>
        rw [hchild] at h
        have hrest := ih (before ++ [name])
          (fun other hmem => hnames other (List.mem_cons_of_mem _ hmem)) h
        rw [List.append_assoc] at hrest
        exact hrest

/-- The place that such a path names. -/
theorem resolve_of_leadsOn (hne : names ≠ []) (hplace : IsPlace names)
    (h : top.leadsOn names = true) :
    resolve top (Path.ofNames names) =
      match top.get? names with
      | none => .error .notFound
      | some m => .ok ⟨some names, m⟩ := by
  rw [resolve, refusal?_ofNames hne hplace]
  exact followAll_of_leadsOn top [] hplace.isName h

/-- The place that a name in such a directory names. -/
theorem resolve_concat (hplace : IsPlace (names ++ [name])) (h : top.leadsOn names = true) :
    resolve top (Path.ofNames (names ++ [name])) =
      match (top.entriesAt names).lookup name with
      | none => .error .notFound
      | some m => .ok ⟨some (names ++ [name]), m⟩ := by
  have hfollow := followAll_of_leadsOn top [] hplace.of_concat.isName h
  rw [resolve, refusal?_ofNames (by simp) hplace]
  show followAll top ⟨some [], top⟩ (names ++ [name]) = _
  rw [followAll_append, hfollow]
  rcases get?_of_leadsOn h with ⟨hnone, hempty⟩ | hsome
  · rw [hnone, hempty]
    rfl
  · rw [hsome]
    show (followAll top ⟨some names, .directory (top.entriesAt names)⟩ [name]) = _
    rw [followAll, follow_entry names hplace.isName_last]
    cases (top.entriesAt names).lookup name <;> rfl

/-- The entry that a name in such a directory names. -/
theorem resolveEntry_concat (hplace : IsPlace (names ++ [name])) (h : top.leadsOn names = true) :
    resolveEntry top (Path.ofNames (names ++ [name])) =
      match top.get? names with
      | none => .error .notFound
      | some _ => .ok ⟨names ++ [name], (top.entriesAt names).lookup name⟩ := by
  have hname := hplace.isName_last
  have hshort : ¬ name.utf8ByteSize > maxNameBytes := Nat.not_lt.2 hname.isShort
  have hfollow := followAll_of_leadsOn top [] hplace.of_concat.isName h
  have hlast : (Path.ofNames (names ++ [name])).parts.getLast? = some name := by
    simp [Path.ofNames]
  have hinit : (Path.ofNames (names ++ [name])).parts.dropLast = names := by
    simp [Path.ofNames]
  rw [resolveEntry, refusal?_ofNames (by simp) hplace, hlast]
  simp only [hinit]
  show (do
    let spot ← followAll top ⟨some [], top⟩ names
    _) = _
  rw [hfollow]
  rcases get?_of_leadsOn h with ⟨hnone, -⟩ | hsome
  · rw [hnone]
    rfl
  · rw [hsome]
    simp only [bind, Except.bind, hname.ne_empty, hname.ne_dot, hname.ne_dots, hshort, or_self,
      if_false, List.nil_append]

/-! ## Looking -/

theorem perform_list (hne : names ≠ []) (hplace : IsPlace names) (h : top.leadsOn names = true) :
    top.perform (.list (Path.ofNames names)) =
      (match top.get? names with
        | none => .error .notFound
        | some _ => .ok ((top.entriesAt names).map fun (name, n) => (name, n.kind)), top) := by
  rw [perform, resolve_of_leadsOn hne hplace h]
  rcases get?_of_leadsOn h with ⟨hnone, -⟩ | hsome
  · rw [hnone]
  · rw [hsome]

theorem perform_read (hplace : IsPlace (names ++ [name])) (h : top.leadsOn names = true) :
    top.perform (.read (Path.ofNames (names ++ [name]))) =
      (match (top.entriesAt names).lookup name with
        | none => .error .notFound
        | some (.file contents) => .ok contents
        | some (.directory _) => .error .isADirectory, top) := by
  rw [perform, resolve_concat hplace h]
  cases (top.entriesAt names).lookup name with
  | none => rfl
  | some m => cases m <;> rfl

theorem perform_spareName {es : List (String × Node)} (hne : names ≠ []) (hplace : IsPlace names)
    (h : top.get? names = some (.directory es)) (hlead : top.leadsOn names = true) :
    top.perform (.spareName (Path.ofNames names)) = (.ok (spareName es), top) := by
  rw [perform, resolve_of_leadsOn hne hplace hlead, h]

/-! ## Changing -/

/-- A file is written into a directory that is there unless a directory has its name. -/
theorem perform_write {es : List (String × Node)} (hplace : IsPlace (names ++ [name]))
    (hlead : top.leadsOn names = true) (h : top.get? names = some (.directory es))
    (contents : Bytes) :
    top.perform (.write (Path.ofNames (names ++ [name])) contents) =
      match es.lookup name with
      | some (.directory _) => (.error .isADirectory, top)
      | _ => (.ok (), top.setEntries names (setEntry name (.file contents) es)) := by
  have hes := entriesAt_of_get? h
  rw [perform, writeFile, resolveEntry_concat hplace hlead, h, hes]
  simp only [bind, Except.bind]
  cases es.lookup name with
  | none => rw [put_concat h, hes]; rfl
  | some m =>
    cases m with
    | file old => rw [put_concat h, hes]; rfl
    | directory fs => rfl

theorem perform_removeFile (hplace : IsPlace (names ++ [name])) (hlead : top.leadsOn names = true) :
    top.perform (.removeFile (Path.ofNames (names ++ [name]))) =
      match (top.entriesAt names).lookup name with
      | none => (.error .notFound, top)
      | some (.directory _) => (.error .isADirectory, top)
      | some (.file _) => (.ok (), top.setEntries names (dropEntry name (top.entriesAt names))) := by
  rw [perform, deleteFile, resolveEntry_concat hplace hlead]
  rcases get?_of_leadsOn hlead with ⟨hnone, hempty⟩ | hsome
  · rw [hnone, hempty]
    rfl
  · rw [hsome]
    simp only [bind, Except.bind]
    cases (top.entriesAt names).lookup name with
    | none => rfl
    | some m =>
      cases m with
      | file old => rw [remove_concat hsome]; rfl
      | directory fs => rfl

theorem perform_removeTree (hplace : IsPlace (names ++ [name])) (hlead : top.leadsOn names = true) :
    top.perform (.removeTree (Path.ofNames (names ++ [name]))) =
      match (top.entriesAt names).lookup name with
      | none => (.error .notFound, top)
      | some (.file _) => (.error .notADirectory, top)
      | some (.directory _) =>
        (.ok (), top.setEntries names (dropEntry name (top.entriesAt names))) := by
  have hplain : (Path.ofNames (names ++ [name])).withoutFinalSlashes =
      Path.ofNames (names ++ [name]) := by
    have hname := hplace.isName_last.ne_empty
    simp [Path.withoutFinalSlashes, Path.ofNames, hname]
  rw [perform, deleteTree, hplain, resolveEntry_concat hplace hlead]
  rcases get?_of_leadsOn hlead with ⟨hnone, hempty⟩ | hsome
  · rw [hnone, hempty]
    rfl
  · rw [hsome]
    simp only [bind, Except.bind]
    cases (top.entriesAt names).lookup name with
    | none => rfl
    | some m =>
      cases m with
      | file old => rfl
      | directory fs => rw [remove_concat hsome]; rfl

/-- A file that is there takes a new name in its directory unless a directory has that name. -/
theorem perform_rename {es : List (String × Node)} {target : String} {contents : Bytes}
    (hsource : IsPlace (names ++ [name])) (htarget : IsPlace (names ++ [target]))
    (hlead : top.leadsOn names = true) (h : top.get? names = some (.directory es))
    (hname : es.lookup name = some (.file contents)) (hne : name ≠ target) :
    top.perform (.rename (Path.ofNames (names ++ [name])) (Path.ofNames (names ++ [target]))) =
      match es.lookup target with
      | some (.directory _) => (.error .isADirectory, top)
      | _ =>
        (.ok (),
          top.setEntries names (setEntry target (.file contents) (dropEntry name es))) := by
  have hes := entriesAt_of_get? h
  have hnames : ¬ names ++ [name] = names ++ [target] := by simp [hne]
  have hput : (top.remove (names ++ [name])).put (names ++ [target]) (.file contents) =
      top.setEntries names (setEntry target (.file contents) (dropEntry name es)) := by
    rw [remove_concat h, hes, put_concat (get?_setEntries _ _ _), entriesAt_setEntries,
      setEntries_setEntries]
  rw [perform, renameFile, resolveEntry_concat hsource hlead, resolveEntry_concat htarget hlead, h,
    hes, hname]
  simp only [bind, Except.bind]
  cases es.lookup target with
  | none => simp only [if_neg hnames, hput, keepOnError]
  | some m =>
    cases m with
    | file old => simp only [if_neg hnames, hput, keepOnError]
    | directory fs => rfl

/-- A file that takes the name that it has stays as it is. -/
theorem perform_rename_self {es : List (String × Node)} {contents : Bytes}
    (hplace : IsPlace (names ++ [name])) (hlead : top.leadsOn names = true)
    (h : top.get? names = some (.directory es)) (hname : es.lookup name = some (.file contents)) :
    top.perform (.rename (Path.ofNames (names ++ [name])) (Path.ofNames (names ++ [name]))) =
      (.ok (), top) := by
  rw [perform, renameFile, resolveEntry_concat hplace hlead, h, entriesAt_of_get? h, hname]
  simp only [bind, Except.bind, if_true, keepOnError]

/-- One directory is made if its name is free in the directory above. -/
theorem makeDirectory_concat (hplace : IsPlace (names ++ [name])) (h : top.leadsOn names = true) :
    makeDirectory top (Path.ofNames (names ++ [name])) =
      match top.get? names with
      | none => .error .notFound
      | some _ =>
        match (top.entriesAt names).lookup name with
        | none => .ok (top.setEntries (names ++ [name]) [])
        | some _ => .error .alreadyExists := by
  rw [makeDirectory, resolveEntry_concat hplace h]
  rcases get?_of_leadsOn h with ⟨hnone, -⟩ | hsome
  · rw [hnone]
    rfl
  · rw [hsome]
    cases hentry : (top.entriesAt names).lookup name with
    | none =>
      simp only [bind, Except.bind]
      rw [put_concat hsome, setEntries_concat]
      rfl
    | some m => rfl

theorem hasDirectory_of_leadsOn {es : List (String × Node)} (hplace : IsPlace (names ++ [name]))
    (h : top.leadsOn (names ++ [name]) = true)
    (hentry : (top.entriesAt names).lookup name = some (.directory es)) :
    hasDirectory top (Path.ofNames (names ++ [name])) = true := by
  rw [hasDirectory, resolve_of_leadsOn (by simp) hplace h,
    get?_concat_of_leadsOn (leadsOn_concat.1 h).1, hentry]
  rfl

/-- Directories are made as far as they are missing. -/
theorem makeDirectories_reverse (hplace : IsPlace names) (h : top.leadsOn names = true) :
    makeDirectories top false names.reverse =
      (.ok (), top.setEntries names (top.entriesAt names)) := by
  induction names using List.reverseRecOn with
  | nil =>
    cases top with
    | file contents => exact absurd h (by simp [leadsOn])
    | directory es => rfl
  | append_singleton names name ih =>
    obtain ⟨hlead, hfile⟩ := leadsOn_concat.1 h
    have hpath : (⟨false, (name :: names.reverse).reverse⟩ : Path) =
        Path.ofNames (names ++ [name]) := by simp [Path.ofNames]
    rw [List.reverse_append, List.reverse_singleton, List.singleton_append, makeDirectories, hpath,
      makeDirectory_concat hplace hlead]
    rcases get?_of_leadsOn hlead with ⟨hnone, hempty⟩ | hsome
    · -- The directory above is missing as well: it is made first, and is empty then.
      have habove := ih hplace.of_concat hlead
      rw [hempty] at habove
      have hmade : makeDirectory (top.setEntries names []) (Path.ofNames (names ++ [name])) =
          .ok (top.setEntries (names ++ [name]) []) := by
        rw [makeDirectory_concat hplace (leadsOn_setEntries _ _ _), get?_setEntries,
          entriesAt_setEntries, setEntries_concat, setEntries_setEntries, entriesAt_setEntries,
          setEntries_concat, hempty]
        rfl
      have hnew : top.entriesAt (names ++ [name]) = [] := by
        rw [entriesAt_concat, hempty]
        rfl
      rw [hnone]
      simp only [habove, hmade, hnew]
    · rw [hsome]
      cases hentry : (top.entriesAt names).lookup name with
      | none =>
        have hnew : top.entriesAt (names ++ [name]) = [] := by
          rw [entriesAt_concat, hentry]
          rfl
        rw [hnew]
      | some m =>
        cases m with
        | file contents => exact absurd hentry (hfile contents)
        | directory es =>
          have hget : top.get? (names ++ [name]) = some (.directory es) := by
            rw [get?_concat_of_leadsOn hlead, hentry]
          simp only [hasDirectory_of_leadsOn hplace h hentry, if_true]
          rw [setEntries_entriesAt hget]

theorem perform_createDirectories (hplace : IsPlace names) (h : top.leadsOn names = true) :
    top.perform (.createDirectories (Path.ofNames names)) =
      (.ok (), top.setEntries names (top.entriesAt names)) :=
  makeDirectories_reverse hplace h

/-! ## Names that are too long -/

section TooLong

variable {long : String}

/-- Such a name is none of those that are followed without a look at the entries. -/
theorem ne_of_long (hlong : maxNameBytes < long.utf8ByteSize) :
    long ≠ "" ∧ long ≠ "." ∧ long ≠ ".." := by
  refine ⟨?_, ?_, ?_⟩ <;> rintro rfl <;> exact absurd hlong (by decide)

/-- A path through such a name cannot be followed. -/
theorem followAll_of_long (top : Node) (hlong : maxNameBytes < long.utf8ByteSize) (spot : Spot)
    (before more : List String) :
    ∃ cause, followAll top spot (before ++ long :: more) = .error cause := by
  have hfollow : ∀ reached : Spot, ∃ cause, follow top reached long = .error cause := by
    intro reached
    obtain ⟨names, node⟩ := reached
    cases node with
    | file contents => exact ⟨_, rfl⟩
    | directory es =>
      obtain ⟨hempty, hdot, hdots⟩ := ne_of_long hlong
      refine ⟨.nameTooLong, ?_⟩
      simp only [follow, hempty, hdot, hdots, or_self, if_false, gt_iff_lt, hlong, if_true]
  rw [followAll_append]
  cases followAll top spot before with
  | error cause => exact ⟨cause, rfl⟩
  | ok reached =>
    obtain ⟨cause, h⟩ := hfollow reached
    refine ⟨cause, ?_⟩
    show followAll top reached (long :: more) = _
    rw [followAll, h]
    rfl

theorem resolve_of_long (top : Node) (hlong : maxNameBytes < long.utf8ByteSize)
    (before more : List String) :
    ∃ cause, resolve top (Path.ofNames (before ++ long :: more)) = .error cause := by
  rw [resolve]
  cases refusal? (Path.ofNames (before ++ long :: more)) with
  | some cause => exact ⟨cause, rfl⟩
  | none => exact followAll_of_long top hlong _ before more

theorem resolveEntry_of_long (top : Node) (hlong : maxNameBytes < long.utf8ByteSize)
    (before more : List String) :
    ∃ cause, resolveEntry top (Path.ofNames (before ++ long :: more)) = .error cause := by
  rw [resolveEntry]
  cases refusal? (Path.ofNames (before ++ long :: more)) with
  | some cause => exact ⟨cause, rfl⟩
  | none =>
    rcases List.eq_nil_or_concat more with rfl | ⟨rest, last, rfl⟩
    · -- The name comes last: its directory may be there, but it is no entry of it.
      have hlast : (Path.ofNames (before ++ [long])).parts.getLast? = some long := by
        simp [Path.ofNames]
      have hinit : (Path.ofNames (before ++ [long])).parts.dropLast = before := by
        simp [Path.ofNames]
      rw [hlast]
      simp only [hinit]
      cases followAll top (origin top (Path.ofNames (before ++ [long]))) before with
      | error cause => exact ⟨cause, rfl⟩
      | ok spot =>
        obtain ⟨names, node⟩ := spot
        cases node with
        | file contents => exact ⟨_, rfl⟩
        | directory es =>
          obtain ⟨hempty, hdot, hdots⟩ := ne_of_long hlong
          refine ⟨.nameTooLong, ?_⟩
          simp only [bind, Except.bind, hempty, hdot, hdots, or_self, if_false, gt_iff_lt, hlong,
            if_true]
    · have hsame : before ++ long :: rest.concat last = (before ++ long :: rest) ++ [last] := by
        simp
      have hinit : (Path.ofNames ((before ++ long :: rest) ++ [last])).parts.dropLast =
          before ++ long :: rest := List.dropLast_concat
      have hlast : (Path.ofNames ((before ++ long :: rest) ++ [last])).parts.getLast? =
          some last := List.getLast?_concat
      obtain ⟨cause, hfollow⟩ := followAll_of_long top hlong
        (origin top (Path.ofNames ((before ++ long :: rest) ++ [last]))) before rest
      rw [hsame, hlast]
      simp only [hinit, hfollow]
      exact ⟨cause, rfl⟩

theorem perform_read_of_long (top : Node) (hlong : maxNameBytes < long.utf8ByteSize)
    (before more : List String) :
    ∃ cause, top.perform (.read (Path.ofNames (before ++ long :: more))) =
      (.error cause, top) := by
  obtain ⟨cause, h⟩ := resolve_of_long top hlong before more
  exact ⟨cause, by rw [perform, h]⟩

theorem perform_list_of_long (top : Node) (hlong : maxNameBytes < long.utf8ByteSize)
    (before more : List String) :
    ∃ cause, top.perform (.list (Path.ofNames (before ++ long :: more))) =
      (.error cause, top) := by
  obtain ⟨cause, h⟩ := resolve_of_long top hlong before more
  exact ⟨cause, by rw [perform, h]⟩

theorem perform_removeFile_of_long (top : Node) (hlong : maxNameBytes < long.utf8ByteSize)
    (before more : List String) :
    ∃ cause, top.perform (.removeFile (Path.ofNames (before ++ long :: more))) =
      (.error cause, top) := by
  obtain ⟨cause, h⟩ := resolveEntry_of_long top hlong before more
  exact ⟨cause, by rw [perform, deleteFile, h]; rfl⟩

theorem perform_removeTree_of_long (top : Node) (hlong : maxNameBytes < long.utf8ByteSize)
    (before : List String) :
    ∃ cause, top.perform (.removeTree (Path.ofNames (before ++ [long]))) =
      (.error cause, top) := by
  have hplain : (Path.ofNames (before ++ [long])).withoutFinalSlashes =
      Path.ofNames (before ++ [long]) := by
    simp [Path.withoutFinalSlashes, Path.ofNames, (ne_of_long hlong).1]
  obtain ⟨cause, h⟩ := resolveEntry_of_long top hlong before []
  exact ⟨cause, by rw [perform, deleteTree, hplain, h]; rfl⟩

theorem perform_rename_of_long (top : Node) (hlong : maxNameBytes < long.utf8ByteSize)
    (source : Path) (before : List String) :
    ∃ cause, top.perform (.rename source (Path.ofNames (before ++ [long]))) =
      (.error cause, top) := by
  obtain ⟨cause, h⟩ := resolveEntry_of_long top hlong before []
  rw [perform, renameFile, h]
  cases resolveEntry top source with
  | error cause => exact ⟨cause, rfl⟩
  | ok old => exact ⟨cause, rfl⟩

/-- A directory of such a name is not made; those above it may be. -/
theorem perform_createDirectories_of_long (hlong : maxNameBytes < long.utf8ByteSize)
    (hplace : IsPlace names) (hlead : top.leadsOn names = true) :
    ∃ cause after, top.perform (.createDirectories (Path.ofNames (names ++ [long]))) =
        (.error cause, after) ∧
      (after = top ∨ after = top.setEntries names (top.entriesAt names)) := by
  have hmake : ∀ n : Node, ∃ cause,
      makeDirectory n (Path.ofNames (names ++ [long])) = .error cause := by
    intro n
    obtain ⟨cause, h⟩ := resolveEntry_of_long n hlong names []
    exact ⟨cause, by rw [makeDirectory, h]; rfl⟩
  have hnone : ∀ n : Node, hasDirectory n (Path.ofNames (names ++ [long])) = false := by
    intro n
    obtain ⟨cause, h⟩ := resolve_of_long n hlong names []
    rw [hasDirectory, h]
  have hpath : (⟨false, (long :: names.reverse).reverse⟩ : Path) =
      Path.ofNames (names ++ [long]) := by simp [Path.ofNames]
  have hcall : top.perform (.createDirectories (Path.ofNames (names ++ [long]))) =
      makeDirectories top false (long :: names.reverse) := by
    rw [perform]
    simp [Path.ofNames]
  obtain ⟨cause, hfirst⟩ := hmake top
  rw [hcall, makeDirectories, hpath, hfirst]
  cases cause with
  | notFound =>
    obtain ⟨second, hsecond⟩ := hmake (top.setEntries names (top.entriesAt names))
    rw [makeDirectories_reverse hplace hlead]
    simp only [hsecond, hnone, Bool.false_eq_true, if_false]
    exact ⟨second, _, rfl, Or.inr rfl⟩
  | _ =>
    simp only [hnone, Bool.false_eq_true, if_false]
    exact ⟨_, _, rfl, Or.inl rfl⟩

end TooLong

end Node

end ReportVault.FileSystem
