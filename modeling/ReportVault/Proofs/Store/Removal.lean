import ReportVault.Proofs.Store.Anywhere

/-!
# ReportVault.Proofs.Store.Removal

When a removed report is gone, whatever the tree is.

A store counts a file as removed if it cannot be found.  A path that leads through a directory that
is not there finds nothing, whatever stands at its address.  So that the report is gone
(`at?_of_run_deleteReport`) needs that the path of the store can be followed, and of a store of
which a report is read it can (`exists_of_run_readReport`).
-/

namespace ReportVault

open FileSystem

namespace FileSystem

variable {top after : Node} {path : Path} {dir names : List String} {name tier : String}

namespace Path

/-- The text of a path with a name in it is not empty. -/
theorem text_ne_empty (hname : IsPart name) (hmem : name ∈ path.parts) : path.text ≠ "" := by
  intro hempty
  rw [text, String.append_eq_empty_iff] at hempty
  have hparts : ∀ parts : List String, name ∈ parts → "/".intercalate parts ≠ "" := by
    intro parts hmem
    cases parts with
    | nil => cases hmem
    | cons first rest =>
      cases rest with
      | nil =>
        obtain rfl := List.mem_singleton.1 hmem
        simpa using hname.ne_empty
      | cons second rest => simp [String.intercalate_cons_cons, String.append_eq_empty_iff]
  exact hparts _ hmem hempty.2

end Path

namespace Node

/-! ## A path that can be followed -/

/-- A name is followed to the entry of a directory. -/
theorem follow_of_isPart (hname : IsPart name) (names? : Option (List String))
    (es : List (String × Node)) :
    follow top ⟨names?, .directory es⟩ name =
      if name.utf8ByteSize > maxNameBytes then .error .nameTooLong
      else match es.lookup name with
        | none => .error .notFound
        | some n => .ok ⟨names?.map (· ++ [name]), n⟩ := by
  have hstays : ¬ (name = "" ∨ name = ".") := by simp [hname.ne_empty, hname.ne_dot]
  simp only [follow]
  exact (if_neg hstays).trans (if_neg hname.ne_dots)

/-- The path can be followed to the directory at these names. -/
def Reaches (top : Node) (path : Path) (dir : List String) : Prop :=
  ∃ es, followAll top (origin top path) path.stem = .ok ⟨some dir, .directory es⟩

namespace Reaches

theorem names? (h : top.Reaches path dir) : path.names? = some dir := by
  obtain ⟨es, hfollow⟩ := h
  rw [← path.names?_stem, Path.names?, ← names_origin top path]
  exact (followAll_eq_ok (isIn_origin top path) hfollow).2.symm

/-- Where every directory stays, the path can be followed still. -/
theorem mono (h : top.Reaches path dir) (hkeeps : KeepsDirectories top after) :
    after.Reaches path dir := by
  obtain ⟨es, hfollow⟩ := h
  obtain ⟨fs, -, hreached⟩ := hkeeps.followAll_origin hfollow
  exact ⟨fs, hreached⟩

end Reaches

/-- A file that is found is in a directory, in one that the path can be followed to. -/
theorem reaches_of_resolve {reached : Spot} (htier : IsPart tier) (hname : IsPart name)
    (h : resolve top ((path.child tier).child name) = .ok reached) :
    ∃ dir, top.Reaches path dir ∧ top.get? (dir ++ [tier, name]) = some reached.node := by
  obtain ⟨hin, haddress⟩ := resolve_eq_ok h
  rw [Path.names?_child _ hname, Path.names?_child _ htier] at haddress
  rw [Path.child_child path htier hname, resolve] at h
  split at h
  · cases h
  have hfollow : followAll top (origin top path) (path.stem ++ [tier, name]) = .ok reached := h
  rw [followAll_append] at hfollow
  obtain ⟨⟨names?, node⟩, hstem, hrest⟩ := exists_of_bind_eq_ok hfollow
  obtain ⟨hin', haddress'⟩ := followAll_eq_ok (isIn_origin top path) hstem
  rw [names_origin] at haddress'
  have hnames : names? = path.names? := haddress'.trans path.names?_stem
  obtain ⟨next, hfirst, -⟩ := exists_of_bind_eq_ok hrest
  obtain ⟨⟨es, hes⟩, -, -⟩ := follow_eq_ok hin' hfirst
  obtain rfl : node = .directory es := hes
  cases hdir : path.names? with
  | none =>
    -- outside there is nothing to be found
    obtain rfl : names? = none := hnames.trans hdir
    obtain rfl : es = [] := Node.directory.inj hin'
    rw [follow_of_isPart htier] at hfirst
    split at hfirst <;> cases hfirst
  | some dir =>
    obtain rfl : names? = some dir := hnames.trans hdir
    refine ⟨dir, ⟨es, hstem⟩, ?_⟩
    rw [hdir] at haddress
    obtain ⟨names?, node⟩ := reached
    obtain rfl : names? = some (dir ++ [tier, name]) := by simpa using haddress
    exact hin

/-- What is not found behind a directory is not there. -/
theorem get?_of_followAll {spot : Spot} (hin : spot.IsIn top) (hspot : spot.names = some dir)
    (hnames : ∀ name ∈ names, IsPart name) (h : followAll top spot names = .error .notFound) :
    top.get? (dir ++ names) = none := by
  induction names generalizing spot dir with
  | nil => cases h
  | cons first rest ih =>
    have hfirst := hnames first List.mem_cons_self
    obtain ⟨names?, node⟩ := spot
    obtain rfl : names? = some dir := hspot
    cases node with
    | file contents => cases h
    | directory es =>
      have hget : top.get? dir = some (.directory es) := hin
      have hentry : top.get? (dir ++ [first]) = es.lookup first := by
        rw [get?_concat, hget]
        rfl
      rw [followAll, follow_of_isPart hfirst] at h
      split at h
      · cases h
      rw [List.append_cons]
      cases hlookup : es.lookup first with
      | none =>
        rw [get?_append, hentry, hlookup]
        rfl
      | some n =>
        rw [hlookup] at h hentry
        have hnext : Spot.IsIn top ⟨some (dir ++ [first]), n⟩ := hentry
        exact ih hnext rfl (fun name hname => hnames name (List.mem_cons_of_mem _ hname)) h

/-- A file that is read is at the end of the path. -/
theorem exists_of_perform_read {contents : Bytes}
    (h : (top.perform (.read path)).1 = .ok contents) :
    ∃ names?, resolve top path = .ok ⟨names?, .file contents⟩ := by
  simp only [perform] at h
  split at h
  · next names? found hresolve =>
    obtain rfl := Except.ok.inj h
    exact ⟨names?, hresolve⟩
  · cases h
  · cases h

/-! ## Removing a file -/

/-- An entry is not found only if the directory is not found that it would be in. -/
theorem followAll_of_resolveEntry {above : List String} (hparts : path.parts = above ++ [name])
    (htext : path.text ≠ "") (h : resolveEntry top path = .error .notFound) :
    followAll top (origin top path) above = .error .notFound := by
  rw [resolveEntry] at h
  split at h
  · next cause hrefusal =>
    -- the text is not empty
    obtain rfl := Except.error.inj h
    simp only [refusal?, String.isEmpty_iff, htext, if_false] at hrefusal
    split at hrefusal
    · cases hrefusal
    · split at hrefusal <;> cases hrefusal
  · cases h
  · rw [hparts, List.dropLast_concat] at h
    cases hfollow : followAll top (origin top path) above with
    | error cause =>
      rw [hfollow] at h
      exact congrArg Except.error (Except.error.inj h)
    | ok spot =>
      rw [hfollow] at h
      obtain ⟨names?, node⟩ := spot
      cases node with
      | file contents => cases h
      | directory es =>
        change (if _ then _ else _) = _ at h
        split at h
        · cases h
        split at h
        · cases h
        split at h <;> cases h

/-- A file that cannot be removed because it is not found is not there. -/
theorem at?_of_deleteFile_notFound (hreach : top.Reaches path dir) (htier : IsPart tier)
    (hname : IsPart name)
    (h : deleteFile top ((path.child tier).child name) = .error .notFound) :
    top.at? (dir ++ [tier, name]) = none := by
  have hdir := hreach.names?
  obtain ⟨es, hstem⟩ := hreach
  have hin : Spot.IsIn top ⟨some dir, .directory es⟩ :=
    (followAll_eq_ok (isIn_origin top path) hstem).1
  have hparts : (path.child tier).child name = ⟨path.absolute, path.stem ++ [tier] ++ [name]⟩ := by
    rw [path.child_child htier hname, List.append_assoc]
    rfl
  rw [hparts] at h
  rw [at?_eq_none, List.append_cons, get?_concat]
  cases hentry : resolveEntry top ⟨path.absolute, path.stem ++ [tier] ++ [name]⟩ with
  | error cause =>
    rw [deleteFile, hentry] at h
    obtain rfl : cause = .notFound := Except.error.inj h
    have hmem : name ∈ (Path.mk path.absolute (path.stem ++ [tier] ++ [name])).parts :=
      List.mem_append_right _ List.mem_cons_self
    have htext := Path.text_ne_empty hname hmem
    have habove := followAll_of_resolveEntry rfl htext hentry
    have hfirst : followAll top ⟨some dir, .directory es⟩ [tier] = .error .notFound := by
      rw [← habove, followAll_append]
      show _ = (followAll top (origin top path) path.stem).bind _
      rw [hstem]
      rfl
    rw [get?_of_followAll hin rfl (by simpa using htier) hfirst]
    rfl
  | ok entry =>
    obtain ⟨above, last, fs, hnames, hget, rfl⟩ := exists_of_resolveEntry hentry
    rw [← hparts, Path.names?_child _ hname, Path.names?_child _ htier, hdir] at hnames
    obtain ⟨rfl, hlast⟩ := List.append_inj' (Option.some.inj hnames) rfl
    obtain rfl := List.singleton_inj.1 hlast
    rw [deleteFile, hentry] at h
    rw [hget, Option.bind_some, entries_directory]
    cases hlookup : fs.lookup name with
    | none => rfl
    | some n =>
      simp only [hlookup] at h
      cases n <;> cases h

end Node

end FileSystem

/-! ## Reports -/

namespace Store

open FileSystem.Node (Reaches KeepsDirectories)

variable {root : Path} {top after : Node} {dir : List String} {id : SessionId} {tier : Tier}
  {contents : Bytes}

theorem reportNames?_of_reaches (h : top.Reaches root dir) (id : SessionId) (tier : Tier) :
    reportNames? root id tier = some (dir ++ [tier.directory, id.name]) := by
  rw [reportNames?, h.names?]
  rfl

/-- Different sessions have their reports in different places. -/
theorem id_eq_of_reportNames? {other : SessionId} {t : Tier} {names : List String}
    (h : reportNames? root id tier = some names) (hother : reportNames? root other t = some names) :
    other = id := by
  obtain ⟨base, -, rfl⟩ := Option.map_eq_some_iff.1 h
  obtain ⟨base', -, hnames⟩ := Option.map_eq_some_iff.1 hother
  have hlast := congrArg List.getLast? hnames
  simp only [List.getLast?_append, List.getLast?_cons_cons, List.getLast?_singleton,
    Option.some_or, Option.some.injEq] at hlast
  exact congrArg SessionId.mk hlast

namespace Directory

/-- A file that is read is at the end of its path. -/
theorem resolve_of_run_readIfPresent {path : Path}
    (h : ((Directory.mk inMemory root).readIfPresent path).run top = (.ok (some contents), after)) :
    ∃ names?, Node.resolve top path = .ok ⟨names?, .file contents⟩ := by
  rw [run_readIfPresent_eq] at h
  have hanswer := congrArg Prod.fst h
  simp only at hanswer
  split at hanswer
  · next read hread =>
    obtain rfl : read = contents := Option.some.inj (Except.ok.inj hanswer)
    exact Node.exists_of_perform_read hread
  · cases hanswer
  · cases hanswer

variable (hid : isPlainName id.name = true)

include hid

/-- Removing a report file that succeeds leaves nothing there. -/
theorem of_run_removeFile (hreach : top.Reaches root dir)
    (h : ((Directory.mk inMemory root).removeFile
      ((root.child tier.directory).child id.name)).run top = (.ok (), after)) :
    KeepsDirectories top after ∧ after.at? (dir ++ [tier.directory, id.name]) = none := by
  have hpart := isPart_of_isPlainName hid
  have htier := (isEntryName_tier tier).isPart
  have hcall : top.perform (.removeFile ((root.child tier.directory).child id.name)) =
    Node.keepOnError top (top.deleteFile ((root.child tier.directory).child id.name)) := rfl
  rw [removeFile, run_attemptOr, hcall] at h
  cases hdelete : top.deleteFile ((root.child tier.directory).child id.name) with
  | ok removed =>
    rw [hdelete] at h
    obtain rfl : removed = after := congrArg Prod.snd h
    obtain ⟨names, contents, hnames, hfile, hgone, hstays⟩ := Node.of_deleteFile hdelete
    rw [names?_report root hpart, reportNames?_of_reaches hreach] at hnames
    obtain rfl := Option.some.inj hnames
    refine ⟨hstays.keepsDirectories (fun other hown => ?_) fun _ hno => hno, hgone⟩
    rw [show other = _ from hown, hfile]
    exact fun he => Node.noConfusion (Option.some.inj he)
  | error cause =>
    rw [hdelete] at h
    obtain rfl : top = after := congrArg Prod.snd h
    obtain rfl : cause = .notFound := by
      cases cause <;> first | rfl | cases congrArg Prod.fst h
    exact ⟨fun _ hkept => hkept, Node.at?_of_deleteFile_notFound hreach htier hpart hdelete⟩

/-- Reports that are removed from tiers are gone from them. -/
theorem at?_of_run_removeFrom (hreach : top.Reaches root dir) {tiers : List Tier}
    (h : ((Directory.mk inMemory root).removeFrom id tiers).run top = (.ok (), after))
    (hmem : tier ∈ tiers) : after.at? (dir ++ [tier.directory, id.name]) = none := by
  induction tiers generalizing top with
  | nil => cases hmem
  | cons first rest ih =>
    rw [removeFrom, run_bind_ok (reportPath_of_isPlainName _ hid first)] at h
    obtain ⟨done, next, hfirst, hrest⟩ := exists_of_run_bind h
    obtain ⟨hkeeps, hgone⟩ := of_run_removeFile hid hreach hfirst
    rcases List.mem_cons.1 hmem with rfl | hmem
    · -- what is gone stays gone
      have hlater := at?_run_removeFrom root hid next rest (dir ++ [tier.directory, id.name])
      rw [hrest] at hlater
      exact hlater.elim (fun hsame => hsame.trans hgone) And.right
    · exact ih (hreach.mono hkeeps) hrest hmem

/-- A report that is read is a file in one of the tiers, and the path of the store leads there. -/
theorem exists_of_run_readFrom {tiers : List Tier}
    (h : ((Directory.mk inMemory root).readFrom id tiers).run top =
      (.ok (some (tier, contents)), after)) :
    ∃ dir, top.Reaches root dir ∧
      top.at? (dir ++ [tier.directory, id.name]) = some (.file contents) := by
  induction tiers with
  | nil => cases h
  | cons first rest ih =>
    rw [readFrom, run_bind_ok (reportPath_of_isPlainName _ hid first)] at h
    obtain ⟨found, next, hread, hrest⟩ := exists_of_run_bind h
    have hsame : top = next :=
      congrArg Prod.snd ((run_readIfPresent_eq root top _).symm.trans hread)
    subst hsame
    cases found with
    | none => exact ih hrest
    | some read =>
      obtain ⟨htier, rfl⟩ := Prod.mk.inj (Option.some.inj (Except.ok.inj (congrArg Prod.fst hrest)))
      obtain rfl : first = tier := htier
      obtain ⟨names?, hresolve⟩ := resolve_of_run_readIfPresent hread
      obtain ⟨dir, hreach, hget⟩ := Node.reaches_of_resolve (isEntryName_tier first).isPart
        (isPart_of_isPlainName hid) hresolve
      exact ⟨dir, hreach, Node.at?_eq_some_file.2 hget⟩

end Directory

/-- A report that is read is a file in one of the tiers, and the path of the store leads there. -/
theorem exists_of_run_readReport
    (h : ((inDirectory inMemory root).perform (.readReport id)).run top =
      (.ok (some (tier, contents)), after)) :
    isPlainName id.name = true ∧ ∃ dir, top.Reaches root dir ∧
      top.at? (dir ++ [tier.directory, id.name]) = some (.file contents) := by
  cases hid : isPlainName id.name with
  | true => exact ⟨rfl, Directory.exists_of_run_readFrom hid h⟩
  | false =>
    rw [Directory.perform_of_not_plain root top hid rfl] at h
    cases h

/-- A report that is deleted is gone from every tier if the path of the store can be followed. -/
theorem at?_of_run_deleteReport (hreach : top.Reaches root dir)
    (h : ((inDirectory inMemory root).perform (.deleteReport id)).run top = (.ok (), after))
    (tier : Tier) : after.at? (dir ++ [tier.directory, id.name]) = none := by
  cases hid : isPlainName id.name with
  | true => exact Directory.at?_of_run_removeFrom hid hreach h (Tier.mem_all tier)
  | false =>
    rw [Directory.perform_of_not_plain root top hid rfl] at h
    cases h

end Store

end ReportVault
