import ReportVault.Proofs.FileSystem.Effects
import ReportVault.Proofs.Store.Shelves

/-!
# ReportVault.Proofs.Store.Anywhere

What the calls of a store change in any tree, whatever stands where the store is.

There may be files where directories are needed, and directories where files are.  A file is written
in one step all the same (`exists_writeOutcome`): it is there as a whole, or nothing happens but that
directories are made.
-/

namespace ReportVault.Store

open FileSystem
open FileSystem.Node (StaysIn)

namespace Directory

variable {root : Path} {top after made : Node} {path directory : Path} {name : String}
  {contents : Bytes}

/-! ## One file -/

theorem run_attempt_of_ok {call : FileSystem.Call α} {a : α}
    (h : top.perform call = (.ok a, after)) (operation : Operation) (path : Path) :
    ((Directory.mk inMemory root).attempt operation path call).run top = (.ok a, after) := by
  rw [run_attempt, h]

theorem run_attempt_of_error {call : FileSystem.Call α} {cause : Cause}
    (h : top.perform call = (.error cause, after)) (operation : Operation) (path : Path) :
    ((Directory.mk inMemory root).attempt operation path call).run top =
      (.error (.storage operation path.text cause), after) := by
  rw [run_attempt, h]

/-- What writing a file comes to once the directories are made: nothing more, or the file is there
as a whole. -/
inductive WriteOutcome (directory : Path) (name : String) (contents : Bytes) (made : Node) :
    Except Failure Unit × Node → Prop
  | failed (failure : Failure) : WriteOutcome directory name contents made (.error failure, made)
  | written {after : Node}
      (h : IsPart name → ∃ dir es, directory.names? = some dir ∧
        made.get? dir = some (.directory es) ∧ (∀ gs, es.lookup name ≠ some (.directory gs)) ∧
        after = made.setEntries dir (setEntry name (.file contents) es)) :
      WriteOutcome directory name contents made (.ok (), after)

theorem WriteOutcome.of_eq {r q : Except Failure Unit × Node} (h : r = q)
    (hq : WriteOutcome directory name contents made q) :
    WriteOutcome directory name contents made r := h ▸ hq

/-- A temporary file that is there takes its name, or it is removed. -/
theorem writeOutcome_rename (root : Path) {dir : List String} {es : List (String × Node)}
    {spare : String} (hnames : directory.names? = some dir)
    (hdir : made.get? dir = some (.directory es)) (hspare : es.lookup spare = none)
    (hentry : made.resolveEntry (directory.child spare) =
      .ok ⟨dir ++ [spare], es.lookup spare⟩) (name : String) (contents : Bytes) :
    WriteOutcome directory name contents made
      ((tryCatch ((Directory.mk inMemory root).attempt .renameTemporary (directory.child name)
          (.rename (directory.child spare) (directory.child name)))
        fun failure => do
          let _ ← (inMemory.perform (.removeFile (directory.child spare)) : StateM Node _)
          throw failure).run
        (made.setEntries dir (setEntry spare (.file contents) es))) := by
  have hcall : Node.perform (made.setEntries dir (setEntry spare (.file contents) es))
      (.rename (directory.child spare) (directory.child name)) = Node.keepOnError _ _ := rfl
  cases hrename : Node.renameFile (made.setEntries dir (setEntry spare (.file contents) es))
      (directory.child spare) (directory.child name) with
  | error cause =>
    rw [hrename] at hcall
    have hremove : Node.perform (made.setEntries dir (setEntry spare (.file contents) es))
        (.removeFile (directory.child spare)) = (.ok (), made) := by
      rw [Node.perform, Node.deleteFile_temporary hdir hspare hentry]
      rfl
    rw [run_tryCatch_of_error (run_attempt_of_error hcall _ _)]
    exact .of_eq (run_bind_lift hremove _) (.failed _)
  | ok renamed =>
    rw [hrename] at hcall
    rw [run_tryCatch_of_ok (run_attempt_of_ok hcall _ _)]
    refine .written fun hpart => ⟨dir, es, hnames, hdir, ?_⟩
    refine Node.eq_of_renameFile_temporary hdir hspare hentry ?_ hrename
    rw [Path.names?_child directory hpart, hnames]
    rfl

/-- A file is written as a whole, or nothing happens but that directories are made. -/
theorem exists_writeOutcome (root : Path) (top : Node) (directory : Path) (name : String)
    (contents : Bytes) :
    ∃ made, StaysIn { way := directory.LeadsThrough } top made ∧
      WriteOutcome directory name contents made
        (((Directory.mk inMemory root).writeAtomically directory name contents).run top) := by
  have hway := Node.staysIn_makeDirectories top directory.absolute directory.parts.reverse
  rw [List.reverse_reverse] at hway
  have hcreate : top.perform (.createDirectories directory) =
      Node.makeDirectories top directory.absolute directory.parts.reverse := rfl
  generalize Node.makeDirectories top directory.absolute directory.parts.reverse = run at hcreate hway
  obtain ⟨result, made⟩ := run
  refine ⟨made, hway, ?_⟩
  rw [writeAtomically]
  -- The directory is made.
  cases result with
  | error cause =>
    exact .of_eq (run_bind_of_error (run_attempt_of_error hcreate _ _)) (.failed _)
  | ok done =>
  rw [run_bind_of_ok (run_attempt_of_ok hcreate _ _)]
  -- A name is drawn.
  have hdraw : made.perform (.spareName directory) =
    ((made.perform (.spareName directory)).1, made) := rfl
  cases hspare : (made.perform (.spareName directory)).1 with
  | error cause =>
    rw [hspare] at hdraw
    exact .of_eq (run_bind_of_error (run_attempt_of_error hdraw _ _)) (.failed _)
  | ok spare =>
  rw [hspare] at hdraw
  rw [run_bind_of_ok (run_attempt_of_ok hdraw _ _)]
  -- The temporary file is written.
  have hwrite : made.perform (.write (directory.child spare) contents) =
    Node.keepOnError _ _ := rfl
  cases hwritten : made.writeFile (directory.child spare) contents with
  | error cause =>
    rw [hwritten] at hwrite
    exact .of_eq (run_bind_of_error (run_attempt_of_error hwrite _ _)) (.failed _)
  | ok written =>
  rw [hwritten] at hwrite
  refine .of_eq (run_bind_of_ok (run_attempt_of_ok hwrite _ _)) ?_
  obtain ⟨dir, es, hnames, hdir, hfree, hentry, rfl⟩ := Node.exists_of_writeTemporary hspare hwritten
  exact writeOutcome_rename root hnames hdir hfree hentry name contents

/-- A file is removed, or nothing happens. -/
theorem at?_run_removeFile (root : Path) (top : Node) (path : Path) (names : List String) :
    (((Directory.mk inMemory root).removeFile path).run top).2.at? names = top.at? names ∨
      path.names? = some names ∧
        (((Directory.mk inMemory root).removeFile path).run top).2.at? names = none := by
  rw [removeFile, run_attemptOr]
  show (Node.keepOnError top (top.deleteFile path)).2.at? names = _ ∨
    _ ∧ (Node.keepOnError top (top.deleteFile path)).2.at? names = _
  cases hdelete : top.deleteFile path with
  | error cause => exact Or.inl rfl
  | ok after =>
    obtain ⟨removed, contents, hnames, -, hgone, hstays⟩ := Node.of_deleteFile hdelete
    rcases hstays.own_or_eq names with he | hsame
    · obtain rfl : names = removed := he
      exact Or.inr ⟨hnames, hgone⟩
    · exact Or.inl hsame

end Directory

/-! ## Where a session is -/

/-- The names that lead to the directory of an open session. -/
def sessionNames? (root : Path) (id : SessionId) : Option (List String) :=
  root.names?.map (· ++ [openSessions, id.name])

/-- The names that lead to the report of a session in a tier. -/
def reportNames? (root : Path) (id : SessionId) (tier : Tier) : Option (List String) :=
  root.names?.map (· ++ [tier.directory, id.name])

/-- What is of a session: all in its directory, its reports, and the directories above. -/
def regionOf (root : Path) (id : SessionId) : Node.Region where
  own names := (∃ session, sessionNames? root id = some session ∧ session <+: names ∧
      names ≠ session) ∨
    ∃ tier, reportNames? root id tier = some names
  way names := ((root.child openSessions).child id.name).LeadsThrough names ∨
    ∃ tier : Tier, (root.child tier.directory).LeadsThrough names
  gone names := sessionNames? root id = some names

variable {root : Path} {top : Node} {id : SessionId} {name : String}

theorem names?_session (root : Path) (hid : IsPart id.name) :
    ((root.child openSessions).child id.name).names? = sessionNames? root id := by
  rw [Path.names?_child _ hid, Path.names?_child _ isEntryName_openSessions.isPart,
    Option.map_map, sessionNames?]
  simp [Function.comp_def]

theorem names?_report (root : Path) (hid : IsPart id.name) (tier : Tier) :
    ((root.child tier.directory).child id.name).names? = reportNames? root id tier := by
  rw [Path.names?_child _ hid, Path.names?_child _ (isEntryName_tier tier).isPart,
    Option.map_map, reportNames?]
  simp [Function.comp_def]

/-- The reports of a session are in different places. -/
theorem tier_eq_of_reportNames? {a b : Tier} {names : List String}
    (ha : reportNames? root id a = some names) (hb : reportNames? root id b = some names) :
    a = b := by
  obtain ⟨base, hbase, rfl⟩ := Option.map_eq_some_iff.1 ha
  obtain ⟨other, hother, hnames⟩ := Option.map_eq_some_iff.1 hb
  obtain rfl := Option.some.inj (hbase.symm.trans hother)
  have hdirectory := List.append_cancel_left hnames
  simp only [List.cons.injEq, and_true] at hdirectory
  exact (Tier.directory_inj hdirectory).symm

/-! ## Reports -/

namespace Directory

/-- Where a report is removed it was before, and nothing else changes. -/
theorem at?_run_removeFrom (root : Path) (hid : isPlainName id.name = true) (top : Node)
    (tiers : List Tier) (names : List String) :
    (((Directory.mk inMemory root).removeFrom id tiers).run top).2.at? names = top.at? names ∨
      (∃ tier ∈ tiers, reportNames? root id tier = some names) ∧
        (((Directory.mk inMemory root).removeFrom id tiers).run top).2.at? names = none := by
  induction tiers generalizing top with
  | nil => exact Or.inl rfl
  | cons tier rest ih =>
    have hpath : (Directory.mk inMemory root).reportPath id tier =
        .ok ((root.child tier.directory).child id.name) := reportPath_of_isPlainName _ hid tier
    rw [removeFrom, run_bind_ok hpath]
    have hfirst := at?_run_removeFile root top ((root.child tier.directory).child id.name) names
    rw [names?_report root (isPart_of_isPlainName hid)] at hfirst
    have hremoved : reportNames? root id tier = some names →
        ∃ other ∈ tier :: rest, reportNames? root id other = some names :=
      fun h => ⟨tier, List.mem_cons_self, h⟩
    cases hrun : ((Directory.mk inMemory root).removeFile
        ((root.child tier.directory).child id.name)).run top with
    | mk r next =>
      rw [hrun] at hfirst
      cases r with
      | error failure =>
        rw [run_bind_of_error hrun]
        exact hfirst.imp_right (And.imp_left hremoved)
      | ok done =>
        rw [run_bind_of_ok hrun]
        rcases ih next with hsame | ⟨⟨other, hother, hnames⟩, hnone⟩
        · rw [hsame]
          exact hfirst.imp_right (And.imp_left hremoved)
        · exact Or.inr ⟨⟨other, List.mem_cons_of_mem _ hother, hnames⟩, hnone⟩

/-- What writing a report comes to once the directories are made: nothing more, or the report is
there, and those of other tiers may be gone. -/
inductive ReportOutcome (root : Path) (id : SessionId) (tier : Tier) (contents : Bytes)
    (made : Node) : Except Failure Unit × Node → Prop
  | failed (failure : Failure) : ReportOutcome root id tier contents made (.error failure, made)
  | written {names : List String} {run : Except Failure Unit × Node}
      (hnames : reportNames? root id tier = some names)
      (hwritten : run.2.at? names = some (.file contents))
      (hothers : ∀ others, others ≠ names → run.2.at? others = made.at? others ∨
        (∃ other, other ≠ tier ∧ reportNames? root id other = some others) ∧
          run.2.at? others = none) :
      ReportOutcome root id tier contents made run

theorem exists_reportOutcome (root : Path) (id : SessionId) (top : Node) (tier : Tier)
    (contents : Bytes) :
    ∃ made, StaysIn { way := (root.child tier.directory).LeadsThrough } top made ∧
      ReportOutcome root id tier contents made
        (((inDirectory inMemory root).perform (.writeReport id tier contents)).run top) := by
  cases hid : isPlainName id.name with
  | false =>
    rw [perform_of_not_plain root top hid rfl]
    exact ⟨top, .refl _ top, .failed _⟩
  | true =>
  have hpart := isPart_of_isPlainName hid
  obtain ⟨made, hmade, houtcome⟩ :=
    exists_writeOutcome root top (root.child tier.directory) id.name contents
  refine ⟨made, hmade, ?_⟩
  have hcall : ((inDirectory inMemory root).perform (.writeReport id tier contents)).run top =
      ((Directory.mk inMemory root).writeAtomically (root.child tier.directory) id.name contents >>=
        fun _ => (Directory.mk inMemory root).removeFrom id (Tier.all.filter (· ≠ tier))).run top :=
    run_bind_ok (checkedName_of_isPlainName hid) _ top
  rw [hcall]
  generalize hrun : ((Directory.mk inMemory root).writeAtomically (root.child tier.directory)
    id.name contents).run top = run at houtcome
  cases houtcome with
  | failed failure =>
    rw [run_bind_of_error hrun]
    exact .failed failure
  | @written written h =>
    rw [run_bind_of_ok hrun]
    obtain ⟨dir, es, hnames, hdir, hfile, rfl⟩ := h hpart
    have hplace : reportNames? root id tier = some (dir ++ [id.name]) := by
      rw [← names?_report root hpart, Path.names?_child _ hpart, hnames]
      rfl
    have hremoved := at?_run_removeFrom root hid
      (made.setEntries dir (setEntry id.name (.file contents) es)) (Tier.all.filter (· ≠ tier))
    refine .written hplace ?_ fun others hne => ?_
    · rcases hremoved (dir ++ [id.name]) with hsame | ⟨⟨other, hother, hnames⟩, -⟩
      · rw [hsame, Node.at?_eq_some_file, Node.get?_concat, Node.get?_setEntries]
        exact lookup_setEntry_self id.name _ es
      · -- the reports of other tiers are elsewhere
        obtain rfl := tier_eq_of_reportNames? hplace hnames
        simp at hother
    · have hset : (made.setEntries dir (setEntry id.name (.file contents) es)).at? others =
          made.at? others :=
        ((Node.staysIn_setFile hdir hfile contents).own_or_eq others).resolve_left hne
      rcases hremoved others with hsame | ⟨⟨other, hother, hnames⟩, hnone⟩
      · exact Or.inl (hsame.trans hset)
      · exact Or.inr ⟨⟨other, by simpa using (List.mem_filter.1 hother).2, hnames⟩, hnone⟩

end Directory

/-! ## Calls about a session -/

/-- A file of a session is written as a whole, or nothing happens but that directories are made. -/
theorem exists_writeOutcome (root : Path) (id : SessionId) (top : Node) (name : String)
    (contents : Bytes) :
    ∃ made, StaysIn { way := ((root.child openSessions).child id.name).LeadsThrough } top made ∧
      Directory.WriteOutcome ((root.child openSessions).child id.name) name contents made
        (((inDirectory inMemory root).perform (.write id name contents)).run top) := by
  cases hid : isPlainName id.name with
  | false =>
    rw [Directory.perform_of_not_plain root top hid rfl]
    exact ⟨top, .refl _ top, .failed _⟩
  | true =>
    have hsession := Directory.sessionPath_of_isPlainName (Directory.mk inMemory root) hid
    rw [show ((inDirectory inMemory root).perform (.write id name contents)).run top = _ from
      run_bind_ok hsession _ top]
    exact Directory.exists_writeOutcome root top _ name contents

theorem staysIn_writeReport (root : Path) (id : SessionId) (top : Node) (tier : Tier)
    (contents : Bytes) :
    StaysIn (regionOf root id) top
      (((inDirectory inMemory root).perform (.writeReport id tier contents)).run top).2 := by
  obtain ⟨made, hmade, houtcome⟩ := Directory.exists_reportOutcome root id top tier contents
  have hway : StaysIn (regionOf root id) top made :=
    hmade.mono (fun _ hno => hno.elim) (fun _ hway => Or.inr ⟨tier, hway⟩) (fun _ hno => hno.elim)
  generalize ((inDirectory inMemory root).perform (.writeReport id tier contents)).run top = run
    at houtcome
  cases houtcome with
  | failed failure => exact hway
  | @written names _ hnames hwritten hothers =>
    refine hway.trans fun others => ?_
    by_cases he : others = names
    · exact Or.inl (Or.inr ⟨tier, he ▸ hnames⟩)
    · rcases hothers others he with hsame | ⟨⟨other, -, hother⟩, -⟩
      · exact Or.inr (Or.inl hsame)
      · exact Or.inl (Or.inr ⟨other, hother⟩)

end ReportVault.Store
