import ReportVault.Proofs.FileSystem.Tree
import ReportVault.Proofs.Run

/-!
# ReportVault.Proofs.FileSystem.Address

The names that a path leads to in any tree.

A path has an address (`Path.names?`) that its parts alone determine, whatever there is: without
links a path that can be followed ends at its address, and an entry that a path names is an entry of
the directory above (`exists_of_resolveEntry`).  A call that changes a tree changes it at such an
entry, and `at?_setEntries_of_ne` says that nothing else changes.
-/

namespace ReportVault.FileSystem

/-! ## Addresses -/

namespace Path

/-- The names after one more part; none outside of the working directory. -/
def enter? (names : Option (List String)) (part : String) : Option (List String) :=
  if part = "" ∨ part = "." then names
  else if part = ".." then names.bind fun names => if names = [] then none else some names.dropLast
  else names.map (· ++ [part])

/-- Where the names of a path begin. -/
def start? (absolute : Bool) : Option (List String) := if absolute then none else some []

/-- The names that a path leads to. -/
def names? (path : Path) : Option (List String) := path.parts.foldl enter? (start? path.absolute)

/-- A path leads through the names that its first parts lead to. -/
def LeadsThrough (path : Path) (names : List String) : Prop :=
  ∃ parts, parts <+: path.parts ∧ (Path.mk path.absolute parts).names? = some names

end Path

namespace Path

variable {path : Path} {name : String}

theorem enter?_of_isPart (h : IsPart name) (names : Option (List String)) :
    enter? names name = names.map (· ++ [name]) := by
  rw [enter?, if_neg (by simp [h.ne_empty, h.ne_dot]), if_neg h.ne_dots]

theorem names?_concat (absolute : Bool) (parts : List String) (part : String) :
    (Path.mk absolute (parts ++ [part])).names? =
      enter? (Path.mk absolute parts).names? part := by
  simp [names?]

/-- The parts of a path that the path of an entry begins with: a slash at the end is left out. -/
def stem (p : Path) : List String :=
  if p.parts.getLast? = some "" then p.parts.dropLast else p.parts

theorem child_eq (path : Path) (h : IsPart name) :
    path.child name = ⟨path.absolute, path.stem ++ [name]⟩ := by
  by_cases hslash : path.parts.getLast? = some ""
  · simp [child, stem, parts_ofText h.no_slash, hslash]
  · rw [parts_child hslash h.no_slash, stem, if_neg hslash]

theorem stem_child (path : Path) (h : IsPart name) :
    (path.child name).stem = path.stem ++ [name] := by
  rw [child_eq path h, stem, List.getLast?_concat, if_neg (by simpa using h.ne_empty)]

theorem child_child (path : Path) {tier : String} (htier : IsPart tier) (hname : IsPart name) :
    (path.child tier).child name = ⟨path.absolute, path.stem ++ [tier, name]⟩ := by
  rw [child_eq _ hname, stem_child path htier, child_eq path htier, List.append_assoc]
  rfl

/-- A slash at the end leads nowhere else. -/
theorem names?_stem (path : Path) : (Path.mk path.absolute path.stem).names? = path.names? := by
  rw [stem]
  split
  · next hslash =>
    obtain ⟨parts, hparts⟩ := List.getLast?_eq_some_iff.1 hslash
    have hpath : path = ⟨path.absolute, parts ++ [""]⟩ := by rw [← hparts]
    rw [hparts, List.dropLast_concat, hpath, names?_concat]
    exact (if_pos (Or.inl rfl)).symm
  · rfl

/-- The address of an entry has one name more than that of its directory. -/
theorem names?_child (path : Path) (h : IsPart name) :
    (path.child name).names? = path.names?.map (· ++ [name]) := by
  rw [child_eq path h, names?_concat, enter?_of_isPart h, names?_stem]

/-- An entry has no slash at its end. -/
theorem withoutFinalSlashes_child (h : IsPart name) :
    (path.child name).withoutFinalSlashes = path.child name := by
  rw [child_eq path h]
  simp [withoutFinalSlashes, h.ne_empty]

end Path

namespace Node

/-! ## Following a path -/

/-- The spot is what its names lead to; outside there is nothing. -/
def Spot.IsIn (top : Node) (spot : Spot) : Prop :=
  match spot.names with
  | none => spot.node = empty
  | some names => top.get? names = some spot.node

variable {top after : Node} {path : Path} {names dir parts : List String} {name : String}
  {spot reached : Spot} {es fs : List (String × Node)}

theorem isIn_origin (top : Node) (path : Path) : (origin top path).IsIn top := by
  rw [origin]
  cases path.absolute with
  | true => rfl
  | false => exact get?_nil top

theorem names_origin (top : Node) (path : Path) :
    (origin top path).names = Path.start? path.absolute := by
  rw [origin, Path.start?]
  cases path.absolute <;> rfl

/-- Where one part leads from a directory with these names and entries. -/
inductive Follows (top : Node) (names? : Option (List String)) (es : List (String × Node)) :
    String → Spot → Prop
  | stay {part : String} (hpart : part = "" ∨ part = ".") :
      Follows top names? es part ⟨names?, .directory es⟩
  /-- Nothing that is above the top of the tree is told apart. -/
  | leave (hnames : names? = none ∨ names? = some []) : Follows top names? es ".." outside
  | up {above : List String} {last : String} (hnames : names? = some (above ++ [last])) :
      Follows top names? es ".." ⟨some above, (top.get? above).getD empty⟩
  | enter {part : String} {n : Node} (hstay : ¬ (part = "" ∨ part = ".")) (hup : part ≠ "..")
      (hshort : ¬ part.utf8ByteSize > maxNameBytes) (hentry : es.lookup part = some n) :
      Follows top names? es part ⟨names?.map (· ++ [part]), n⟩

theorem follow_up (top : Node) (above : List String) (last : String) :
    follow top ⟨some (above ++ [last]), .directory es⟩ ".." =
      .ok ⟨some above, (top.get? above).getD empty⟩ := by
  have hdrop : (above ++ [last]).dropLast = above := List.dropLast_concat
  cases habove : above ++ [last] with
  | nil => exact absurd habove (by simp)
  | cons first rest =>
    rw [← hdrop, habove]
    rfl

/-- A part is followed from a directory. -/
theorem follow_eq_ok_iff {part : String} :
    follow top spot part = .ok reached ↔
      ∃ es, spot.node = .directory es ∧ Follows top spot.names es part reached := by
  obtain ⟨names?, node⟩ := spot
  constructor
  · intro h
    cases node with
    | file contents => cases h
    | directory es =>
      refine ⟨es, rfl, ?_⟩
      -- A step up is the only one that depends on the names and not on the entries.
      by_cases hup : part = ".."
      · subst hup
        rcases names? with _ | names
        · cases h
          exact .leave (Or.inl rfl)
        rcases List.eq_nil_or_concat names with rfl | ⟨above, last, rfl⟩
        · cases h
          exact .leave (Or.inr rfl)
        · rw [List.concat_eq_append, follow_up] at h
          cases h
          exact .up (congrArg some List.concat_eq_append)
      simp only [follow, if_neg hup] at h
      split at h
      · next hstay =>
        cases h
        exact .stay hstay
      next hstay =>
      split at h
      · cases h
      next hshort =>
      split at h
      · cases h
      · next n hentry =>
        cases h
        exact .enter hstay hup hshort hentry
  · rintro ⟨es, rfl, h⟩
    cases h with
    | stay hpart => simp only [follow, if_pos hpart]
    | leave hnames => rcases hnames with rfl | rfl <;> rfl
    | up hnames =>
      obtain rfl : names? = _ := hnames
      exact follow_up top _ _
    | enter hstay hup hshort hentry =>
      simp only [follow, if_neg hstay, if_neg hup, if_neg hshort, hentry]

/-- A part is followed from a directory, and to its address. -/
theorem follow_eq_ok {part : String} (hin : spot.IsIn top)
    (h : follow top spot part = .ok reached) :
    (∃ es, spot.node = .directory es) ∧ reached.IsIn top ∧
      reached.names = Path.enter? spot.names part := by
  obtain ⟨es, hnode, hfollows⟩ := follow_eq_ok_iff.1 h
  obtain ⟨names?, node⟩ := spot
  obtain rfl : node = .directory es := hnode
  refine ⟨⟨es, rfl⟩, ?_⟩
  cases hfollows with
  | stay hpart => exact ⟨hin, (if_pos hpart).symm⟩
  | leave hnames => rcases hnames with rfl | rfl <;> exact ⟨rfl, rfl⟩
  | @up above last hnames =>
    obtain rfl : names? = some (above ++ [last]) := hnames
    have hget : top.get? (above ++ [last]) = some (.directory es) := hin
    rw [get?_concat] at hget
    obtain ⟨node, hnode, -⟩ := Option.bind_eq_some_iff.1 hget
    rw [hnode, Option.getD_some]
    exact ⟨hnode, by simp [Path.enter?]⟩
  | @enter part n hstay hup hshort hentry =>
    rw [Path.enter?, if_neg hstay, if_neg hup]
    refine ⟨?_, rfl⟩
    cases names? with
    | none =>
      -- outside there is nothing to be found
      obtain rfl : es = [] := Node.directory.inj hin
      cases hentry
    | some names =>
      have hget : top.get? names = some (.directory es) := hin
      show top.get? (names ++ [part]) = some n
      rw [get?_concat, hget]
      exact hentry

theorem followAll_eq_ok (hin : spot.IsIn top) (h : followAll top spot parts = .ok reached) :
    reached.IsIn top ∧ reached.names = parts.foldl Path.enter? spot.names := by
  induction parts generalizing spot with
  | nil =>
    cases h
    exact ⟨hin, rfl⟩
  | cons part rest ih =>
    rw [followAll] at h
    cases hfirst : follow top spot part with
    | error cause =>
      rw [hfirst] at h
      cases h
    | ok next =>
      rw [hfirst] at h
      obtain ⟨-, hnext, hnames⟩ := follow_eq_ok hin hfirst
      rw [List.foldl_cons, ← hnames]
      exact ih hnext h

/-- A path that can be followed ends at its address. -/
theorem resolve_eq_ok (h : resolve top path = .ok reached) :
    reached.IsIn top ∧ reached.names = path.names? := by
  rw [resolve] at h
  split at h
  · cases h
  · rw [Path.names?, ← names_origin top path]
    exact followAll_eq_ok (isIn_origin top path) h

/-- What leads to a directory comes from one. -/
theorem directory_of_followAll (h : followAll top spot parts = .ok reached)
    (hdir : reached.node = .directory es) : ∃ gs, spot.node = .directory gs := by
  cases parts with
  | nil =>
    cases h
    exact ⟨es, hdir⟩
  | cons part rest =>
    obtain ⟨names?, node⟩ := spot
    cases node with
    | file contents => cases h
    | directory gs => exact ⟨gs, rfl⟩

/-- An entry is named by the last part of a path, in the directory that the parts before lead to. -/
theorem resolveEntry_eq_ok_iff {entry : Entry} :
    resolveEntry top path = .ok entry ↔
      refusal? path = none ∧ ∃ above last dir es, path.parts = above ++ [last] ∧
        followAll top (origin top path) above = .ok ⟨some dir, .directory es⟩ ∧
        ¬ (last = "" ∨ last = "." ∨ last = "..") ∧ ¬ last.utf8ByteSize > maxNameBytes ∧
        entry = ⟨dir ++ [last], es.lookup last⟩ := by
  constructor
  · intro h
    rw [resolveEntry] at h
    split at h
    · cases h
    · cases h
    next last hrefusal hlast =>
    obtain ⟨above, hparts⟩ := List.getLast?_eq_some_iff.1 hlast
    have hdropLast : path.parts.dropLast = above := by rw [hparts, List.dropLast_concat]
    rw [hdropLast] at h
    obtain ⟨⟨names?, node⟩, hfollow, h⟩ := exists_of_bind_eq_ok h
    cases node with
    | file contents => cases h
    | directory es =>
      simp only at h
      split at h
      · cases h
      next hname =>
      split at h
      · cases h
      next hshort =>
      split at h
      · cases h
      next dir =>
      cases h
      exact ⟨hrefusal, above, last, dir, es, hparts, hfollow, hname, hshort, rfl⟩
  · rintro ⟨hrefusal, above, last, dir, es, hparts, hfollow, hname, hshort, rfl⟩
    have hlast : path.parts.getLast? = some last := by rw [hparts, List.getLast?_concat]
    have hdropLast : path.parts.dropLast = above := by rw [hparts, List.dropLast_concat]
    rw [resolveEntry, hrefusal, hlast]
    simp only [hdropLast, hfollow]
    show (if _ then _ else _) = _
    rw [if_neg hname, if_neg hshort]

/-- An entry that a path names is at its address, in a directory that is there. -/
theorem exists_of_resolveEntry {entry : Entry} (h : resolveEntry top path = .ok entry) :
    ∃ dir name es, path.names? = some (dir ++ [name]) ∧ top.get? dir = some (.directory es) ∧
      entry = ⟨dir ++ [name], es.lookup name⟩ := by
  obtain ⟨-, above, last, dir, es, hparts, hfollow, hname, -, rfl⟩ := resolveEntry_eq_ok_iff.1 h
  obtain ⟨hin, hnames⟩ := followAll_eq_ok (isIn_origin top path) hfollow
  refine ⟨dir, last, es, ?_, hin, rfl⟩
  obtain ⟨hempty, hdot, hdots⟩ : last ≠ "" ∧ last ≠ "." ∧ last ≠ ".." := by simpa using hname
  have haddress : (Path.mk path.absolute above).names? = some dir := by
    rw [Path.names?, ← names_origin top path]
    exact hnames.symm
  have hpath : path = ⟨path.absolute, above ++ [last]⟩ := by rw [← hparts]
  rw [hpath, Path.names?_concat, haddress, Path.enter?, if_neg (by simp [hempty, hdot]),
    if_neg hdots]
  rfl

/-! ## What stands at an address -/

/-- The node without what is in a directory. -/
def shown : Node → Node
  | .file contents => .file contents
  | .directory _ => empty

/-- What stands at the end of a list of names; a directory is shown without its entries. -/
def at? (n : Node) (names : List String) : Option Node := (n.get? names).map shown

theorem at?_eq_none : top.at? names = none ↔ top.get? names = none := Option.map_eq_none_iff

theorem at?_eq_some_file {contents : Bytes} :
    top.at? names = some (.file contents) ↔ top.get? names = some (.file contents) := by
  rw [at?, Option.map_eq_some_iff]
  constructor
  · rintro ⟨n, hn, hshown⟩
    cases n with
    | file found => exact hn.trans (congrArg some hshown)
    | directory es => cases hshown
  · exact fun h => ⟨_, h, rfl⟩

theorem at?_eq_some_empty :
    top.at? names = some empty ↔ ∃ es, top.get? names = some (.directory es) := by
  rw [at?, Option.map_eq_some_iff]
  constructor
  · rintro ⟨n, hn, hshown⟩
    cases n with
    | file found => cases hshown
    | directory es => exact ⟨es, hn⟩
  · rintro ⟨es, h⟩
    exact ⟨_, h, rfl⟩

/-! ## Changing an entry -/

/-- Outside of a directory nothing changes. -/
theorem at?_setEntries_of_not_prefix (hdir : top.get? dir = some (.directory es))
    (hnot : ¬ dir <+: names) : (top.setEntries dir fs).at? names = top.at? names := by
  induction dir generalizing top names with
  | nil => exact absurd List.nil_prefix hnot
  | cons first rest ih =>
    cases top with
    | file contents => exact absurd hdir (by simp [get?])
    | directory gs =>
      cases names with
      | nil => rfl
      | cons name names =>
        rw [get?] at hdir
        obtain ⟨child, hchild, hrest⟩ := Option.bind_eq_some_iff.1 hdir
        rw [at?, at?, setEntries, get?, get?, entries_directory, hchild, Option.getD_some]
        by_cases he : name = first
        · subst he
          rw [lookup_setEntry_self, hchild, Option.bind_some, Option.bind_some]
          exact ih hrest fun hprefix => hnot (List.cons_prefix_cons.2 ⟨rfl, hprefix⟩)
        · rw [lookup_setEntry_of_ne _ _ he]

/-- What is under an entry of the directory. -/
theorem get?_setEntries_concat (n : Node) (dir : List String) (name : String)
    (more : List String) :
    (n.setEntries dir fs).get? (dir ++ name :: more) =
      (fs.lookup name).bind fun m => m.get? more := by
  rw [get?_append, get?_setEntries, Option.bind_some, get?]

/-- What is at a path below a directory depends on the entry that it goes through. -/
theorem at?_setEntries_of_below (hdir : top.get? dir = some (.directory es))
    (hbelow : ∀ first more, names = dir ++ first :: more →
      ((fs.lookup first).bind fun m => m.get? more) =
        (es.lookup first).bind fun m => m.get? more) :
    (top.setEntries dir fs).at? names = top.at? names := by
  by_cases hprefix : dir <+: names
  · obtain ⟨more, rfl⟩ := hprefix
    cases more with
    | nil =>
      rw [List.append_nil, at?, at?, get?_setEntries, hdir]
      rfl
    | cons first more =>
      rw [at?, at?, get?_setEntries_concat, get?_append, hdir, Option.bind_some, get?,
        hbelow first more rfl]
  · exact at?_setEntries_of_not_prefix hdir hprefix

/-- Where one entry of a directory changes, and nothing below it, nothing else changes. -/
theorem at?_setEntries_of_ne (hdir : top.get? dir = some (.directory es))
    (hothers : ∀ other, other ≠ name → fs.lookup other = es.lookup other)
    (hbelow : ∀ first more, ((fs.lookup name).bind fun m => m.get? (first :: more)) =
      (es.lookup name).bind fun m => m.get? (first :: more))
    (hne : names ≠ dir ++ [name]) : (top.setEntries dir fs).at? names = top.at? names := by
  refine at?_setEntries_of_below hdir ?_
  rintro other more rfl
  by_cases he : other = name
  · subst he
    cases more with
    | nil => exact absurd rfl hne
    | cons first more => exact hbelow first more
  · rw [hothers other he]

/-- Where one entry of a directory changes, nothing beside it changes. -/
theorem at?_setEntries_of_not_below (hdir : top.get? dir = some (.directory es))
    (hothers : ∀ other, other ≠ name → fs.lookup other = es.lookup other)
    (hnot : ¬ dir ++ [name] <+: names) : (top.setEntries dir fs).at? names = top.at? names := by
  refine at?_setEntries_of_below hdir ?_
  rintro other more rfl
  have he : other ≠ name := by
    rintro rfl
    exact hnot ⟨more, by simp⟩
  rw [hothers other he]

/-! ## The same path in another tree -/

/-- Every directory is a directory still. -/
def KeepsDirectories (top after : Node) : Prop :=
  ∀ names, top.at? names = some empty → after.at? names = some empty

namespace KeepsDirectories

theorem get? (h : KeepsDirectories top after) (hdir : top.get? dir = some (.directory es)) :
    ∃ fs, after.get? dir = some (.directory fs) :=
  at?_eq_some_empty.1 (h dir (at?_eq_some_empty.2 ⟨es, hdir⟩))

/-- What a directory of the one tree is in the other one. -/
theorem node_eq {spot' : Spot} (h : KeepsDirectories top after) (hin : spot.IsIn top)
    (hin' : spot'.IsIn after) (hnames : spot'.names = spot.names)
    (hdir : spot.node = .directory es) : ∃ fs, spot'.node = .directory fs := by
  obtain ⟨names?, node⟩ := spot
  obtain ⟨names?', node'⟩ := spot'
  obtain rfl : names?' = names? := hnames
  obtain rfl : node = .directory es := hdir
  cases names?' with
  | none => exact ⟨[], hin'⟩
  | some names =>
    obtain ⟨fs, hfs⟩ := h.get? (show top.get? names = some (.directory es) from hin)
    exact ⟨fs, Option.some.inj ((show after.get? names = some node' from hin').symm.trans hfs)⟩

/-- A part that leads to a directory leads to it still. -/
theorem follow {spot' : Spot} {part : String} (h : KeepsDirectories top after)
    (hin : spot.IsIn top) (hin' : spot'.IsIn after) (hnames : spot'.names = spot.names)
    (hfollow : Node.follow top spot part = .ok reached) (hdir : reached.node = .directory es) :
    ∃ reached', Node.follow after spot' part = .ok reached' := by
  obtain ⟨-, hreached, -⟩ := follow_eq_ok hin hfollow
  obtain ⟨gs, hgs, hfollows⟩ := follow_eq_ok_iff.1 hfollow
  obtain ⟨fs, hfs⟩ := h.node_eq hin hin' hnames hgs
  simp only [follow_eq_ok_iff, hfs, hnames, Node.directory.injEq, exists_eq_left']
  cases hfollows with
  | stay hpart => exact ⟨_, .stay hpart⟩
  | leave hnames => exact ⟨_, .leave hnames⟩
  | up hnames => exact ⟨_, .up hnames⟩
  | @enter part n hstay hup hshort hentry =>
    obtain rfl : n = .directory es := hdir
    cases hat : spot.names with
    | none =>
      rw [Spot.IsIn, hat] at hin
      obtain rfl : gs = [] := Node.directory.inj (hgs.symm.trans hin)
      cases hentry
    | some names =>
      rw [Spot.IsIn, hnames, hat] at hin'
      rw [Spot.IsIn, hat] at hreached
      obtain ⟨hs, hget⟩ := h.get? hreached
      rw [get?_concat, show after.get? names = some spot'.node from hin', hfs, Option.bind_some,
        entries_directory] at hget
      exact ⟨_, .enter hstay hup hshort hget⟩

/-- Parts that lead to a directory lead to it still. -/
theorem followAll {spot' : Spot} (h : KeepsDirectories top after) (hin : spot.IsIn top)
    (hin' : spot'.IsIn after) (hnames : spot'.names = spot.names)
    (hfollow : Node.followAll top spot parts = .ok reached) (hdir : reached.node = .directory es) :
    ∃ reached', Node.followAll after spot' parts = .ok reached' := by
  induction parts generalizing spot spot' with
  | nil => exact ⟨_, rfl⟩
  | cons part rest ih =>
    rw [Node.followAll] at hfollow
    cases hfirst : Node.follow top spot part with
    | error cause =>
      rw [hfirst] at hfollow
      cases hfollow
    | ok next =>
      rw [hfirst] at hfollow
      obtain ⟨-, hnext, haddress⟩ := follow_eq_ok hin hfirst
      obtain ⟨gs, hgs⟩ := directory_of_followAll hfollow hdir
      obtain ⟨next', hfirst'⟩ := h.follow hin hin' hnames hfirst hgs
      obtain ⟨-, hnext', haddress'⟩ := follow_eq_ok hin' hfirst'
      obtain ⟨reached', hreached'⟩ := ih hnext hnext' (by rw [haddress', haddress, hnames]) hfollow
      refine ⟨reached', ?_⟩
      rw [Node.followAll, hfirst']
      exact hreached'

/-- A path that leads to a directory leads to the same one still. -/
theorem followAll_origin {parts : List String} (h : KeepsDirectories top after)
    (hfollow : Node.followAll top (origin top path) parts = .ok ⟨some dir, .directory es⟩) :
    ∃ fs, after.get? dir = some (.directory fs) ∧
      Node.followAll after (origin after path) parts = .ok ⟨some dir, .directory fs⟩ := by
  obtain ⟨hin, haddress⟩ := followAll_eq_ok (isIn_origin top path) hfollow
  obtain ⟨⟨names?, node⟩, hreached⟩ := h.followAll (isIn_origin top path) (isIn_origin after path)
    (by rw [names_origin, names_origin]) hfollow rfl
  obtain ⟨hin', haddress'⟩ := followAll_eq_ok (isIn_origin after path) hreached
  rw [names_origin, ← names_origin top path, ← haddress] at haddress'
  obtain ⟨fs, hfs⟩ := h.node_eq hin hin' haddress' rfl
  obtain rfl : names? = some dir := haddress'
  obtain rfl : node = .directory fs := hfs
  exact ⟨fs, hin', hreached⟩

/-- An entry that a path names is named by it still: the directory that it is in is there. -/
theorem resolveEntry {current : Option Node} (h : KeepsDirectories top after)
    (hentry : Node.resolveEntry top path = .ok ⟨dir ++ [name], current⟩) :
    ∃ fs, after.get? dir = some (.directory fs) ∧
      Node.resolveEntry after path = .ok ⟨dir ++ [name], fs.lookup name⟩ := by
  obtain ⟨hrefusal, above, last, dir', es, hparts, hfollow, hname, hshort, hentry⟩ :=
    resolveEntry_eq_ok_iff.1 hentry
  obtain ⟨hnames, -⟩ := Entry.mk.inj hentry
  obtain ⟨rfl, hlast⟩ := List.append_inj' hnames rfl
  obtain rfl := List.singleton_inj.1 hlast
  obtain ⟨fs, hfs, hreached⟩ := h.followAll_origin hfollow
  exact ⟨fs, hfs, resolveEntry_eq_ok_iff.2
    ⟨hrefusal, above, name, dir, fs, hparts, hreached, hname, hshort, rfl⟩⟩

end KeepsDirectories

end Node

end ReportVault.FileSystem
