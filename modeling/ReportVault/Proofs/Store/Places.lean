import ReportVault.Proofs.Store.Anywhere
import ReportVault.Proofs.Store.WrittenFiles

/-!
# ReportVault.Proofs.Store.Places

What is asked for in calls about a session, and where it is.

`IsOfSession` says which effects are about the files of a session, whatever its identifier is; a
call about a session asks for nothing else but temporary files (`Call.IsPermitted.of_session?`).
Those of files in the directory of the session are in that directory.  Those of reports are beside
the reports of all sessions: each has a name that was free (`isTemporary_of_spareName`).
-/

namespace ReportVault.Store

open FileSystem

/-! ## Files and directories of a session -/

/-- The path is that of a file in the directory of the session or that of one of its reports. -/
def IsPlaceOf (root : Path) (id : SessionId) (path : Path) : Prop :=
  (∃ name, IsPart name ∧ IsFileOf root id name path) ∨
    ∃ tier, (Directory.mk inMemory root).reportPath id tier = .ok path

/-- The files are of the session.  The directories that are made are its own and those of the tiers,
with those above them, and no directory is removed but its own. -/
def IsOfSession (root : Path) (id : SessionId) : Effect → Prop
  | .writes path => IsPlaceOf root id path
  | .drops path => IsPlaceOf root id path
  | .makes path => (Directory.mk inMemory root).sessionPath id = .ok path ∨
      isPlainName id.name = true ∧ ∃ tier : Tier, path = root.child tier.directory
  | .clears path => (Directory.mk inMemory root).sessionPath id = .ok path

variable {root path : Path} {top made : Node} {id : SessionId} {effect : Effect} {name : String}

theorem isPlaceOf_file (hid : isPlainName id.name = true) (hname : IsPart name) :
    IsPlaceOf root id (((root.child openSessions).child id.name).child name) :=
  Or.inl ⟨name, hname, isFileOf_iff.2 ⟨hid, rfl⟩⟩

theorem isPlaceOf_report (hid : isPlainName id.name = true) (tier : Tier) :
    IsPlaceOf root id ((root.child tier.directory).child id.name) :=
  Or.inr ⟨tier, (Directory.reportPath_eq_ok_iff _).2 ⟨hid, rfl⟩⟩

theorem IsPlaceOf.isPlain (h : IsPlaceOf root id path) : isPlainName id.name = true := by
  rcases h with ⟨name, -, hof⟩ | ⟨tier, hreport⟩
  · exact (isFileOf_iff.1 hof).1
  · exact ((Directory.reportPath_eq_ok_iff _).1 hreport).1

theorem IsPlaceOf.own (h : IsPlaceOf root id path) {names : List String}
    (hnames : path.names? = some names) : (regionOf root id).own names := by
  rcases h with ⟨name, hname, hof⟩ | ⟨tier, hreport⟩
  · obtain ⟨hid, rfl⟩ := isFileOf_iff.1 hof
    rw [Path.names?_child _ hname, names?_session root (isPart_of_isPlainName hid)] at hnames
    obtain ⟨session, hsession, rfl⟩ := Option.map_eq_some_iff.1 hnames
    exact Or.inl ⟨session, hsession, List.prefix_append _ _, by simp⟩
  · obtain ⟨hid, rfl⟩ := (Directory.reportPath_eq_ok_iff _).1 hreport
    exact Or.inr ⟨tier, by rw [← names?_report root (isPart_of_isPlainName hid)]; exact hnames⟩

/-- What is of a session is under the root. -/
theorem prefix_of_own {base names : List String} (hbase : root.names? = some base)
    (h : (regionOf root id).own names) : base <+: names := by
  rcases h with ⟨session, hsession, hprefix, -⟩ | ⟨tier, htier⟩
  · rw [sessionNames?, hbase] at hsession
    cases hsession
    exact (List.prefix_append _ _).trans hprefix
  · rw [reportNames?, hbase] at htier
    cases htier
    exact List.prefix_append _ _

/-- Nothing is of a session whose identifier is refused. -/
theorem IsOfSession.isPlain (h : IsOfSession root id effect) : isPlainName id.name = true := by
  cases effect with
  | writes path => exact IsPlaceOf.isPlain h
  | drops path => exact IsPlaceOf.isPlain h
  | makes path =>
    exact h.elim (fun hsession => ((Directory.sessionPath_eq_ok_iff _).1 hsession).1) And.left
  | clears path => exact ((Directory.sessionPath_eq_ok_iff _).1 h).1

/-- What is of a session is in its region. -/
theorem IsOfSession.region_isPartOf (h : IsOfSession root id effect) :
    effect.region.IsPartOf (regionOf root id) := by
  have hid := h.isPlain
  have hpart := isPart_of_isPlainName hid
  cases effect with
  | writes path => exact .of_own fun _ => IsPlaceOf.own h
  | drops path => exact .of_own fun _ => IsPlaceOf.own h
  | makes path =>
    refine ⟨fun _ hno => hno.elim, fun names hway => ?_, fun _ hno => hno.elim⟩
    rcases h with hsession | ⟨-, tier, rfl⟩
    · obtain ⟨-, rfl⟩ := (Directory.sessionPath_eq_ok_iff _).1 hsession
      exact Or.inl hway
    · exact Or.inr ⟨tier, hway⟩
  | clears path =>
    obtain ⟨-, rfl⟩ := (Directory.sessionPath_eq_ok_iff _).1 h
    have hnames : ((root.child openSessions).child id.name).withoutFinalSlashes.names? =
        sessionNames? root id := by
      rw [Path.withoutFinalSlashes_child hpart, names?_session root hpart]
    refine ⟨fun names hown => Or.inl ?_, fun _ hno => hno.elim, fun names hgone => ?_⟩
    · simpa only [Effect.region, hnames] using hown
    · simpa only [Effect.region, hnames, regionOf] using hgone

/-- What is of a session changes a tree in the region only. -/
theorem keeps_region (root : Path) (id : SessionId) (top : Node) :
    inMemory.Keeps (Node.StaysIn (regionOf root id) top) (IsOfSession root id) :=
  keeps_staysIn (fun _ hof => hof.region_isPartOf) top

/-! ## Calls -/

/-- The files that a call changes have names that are one part of a path. -/
def Call.NamesParts : Call α → Prop
  | .write _ name _ => IsPart name
  | .delete _ name => IsPart name
  | _ => True

/-- A call about a session asks for what is of the session. -/
theorem Call.isOfSession_of_asks {call : Call α} (hcall : call.session? = some id)
    (hnames : call.NamesParts) (h : call.Asks root effect) : IsOfSession root id effect := by
  cases call <;> simp only [Call.session?, Option.some.injEq, reduceCtorEq] at hcall <;> subst hcall
  case write id name contents =>
    obtain ⟨hid, rfl | rfl⟩ := h
    · exact Or.inl (Directory.sessionPath_of_isPlainName _ hid)
    · exact isPlaceOf_file hid hnames
  case delete id name =>
    obtain ⟨hid, rfl⟩ := h
    exact isPlaceOf_file hid hnames
  case deleteSession id =>
    obtain ⟨hid, rfl⟩ := h
    exact Directory.sessionPath_of_isPlainName _ hid
  case writeReport id tier contents =>
    obtain ⟨hid, rfl | rfl | ⟨other, rfl⟩⟩ := h
    · exact Or.inr ⟨hid, tier, rfl⟩
    · exact isPlaceOf_report hid tier
    · exact isPlaceOf_report hid other
  case deleteReport id =>
    obtain ⟨hid, tier, rfl⟩ := h
    exact isPlaceOf_report hid tier
  all_goals exact h.elim

variable {σ τ : Type} {S : σ → τ → Prop} {files : FileSystem (StateM σ)} {F : Effect → Prop}

/-- A call about a session may be made where what is of the session may be asked for, and the names
of temporary files may be drawn. -/
theorem Call.IsPermitted.of_session? (hF : ∀ effect, IsOfSession root id effect → F effect)
    {call : Call α} (hcall : call.session? = some id) (hnames : call.NamesParts)
    (hdraws : ∀ directory, call.DrawsIn root directory → MayDrawIn S files F directory) :
    call.IsPermitted S files F root :=
  ⟨fun effect hasks => hF effect (Call.isOfSession_of_asks hcall hnames hasks), hdraws⟩

/-- Temporary files in the directory of the session are of the session. -/
theorem mayDrawIn_session (hfiles : files.HidesTemporary) (hid : isPlainName id.name = true)
    (hF : ∀ effect, IsOfSession root id effect → F effect) :
    MayDrawIn S files F ((root.child openSessions).child id.name) := fun s _ name _ hname =>
  have hplace := isPlaceOf_file hid (hfiles _ s name hname).1
  ⟨hF (.writes _) hplace, hF (.drops _) hplace⟩

/-- Where no call to the file system fails, what changes is of the session. -/
theorem staysIn_perform (root : Path) (top : Node) {call : Call α}
    (hcall : call.session? = some id) (hnames : call.NamesParts) :
    Node.StaysIn (regionOf root id) top (((inDirectory inMemory root).perform call).run top).2 := by
  have hwalk : (∀ directory, call.DrawsIn root directory →
      MayDrawIn (fun y z => y = z ∧ Node.StaysIn (regionOf root id) top y) inMemory
        (IsOfSession root id) directory) →
      Node.StaysIn (regionOf root id) top
        (((inDirectory inMemory root).perform call).run top).2 := fun hdraws =>
    (agree_perform (FileSystem.Keeps.agrees (keeps_region root id top))
      (.of_session? (fun _ hof => hof) hcall hnames hdraws) top top ⟨rfl, .refl _ top⟩).2.2.2
  cases call with
  | write other name contents =>
    obtain rfl := Option.some.inj hcall
    exact hwalk fun _ hdirectory => hdirectory.2 ▸
      mayDrawIn_session hidesTemporary_inMemory hdirectory.1 fun _ hof => hof
  | writeReport other tier contents =>
    -- The temporary file is beside the reports of all sessions, but it is gone again.
    obtain rfl := Option.some.inj hcall
    exact staysIn_writeReport root _ top tier contents
  | _ => exact hwalk fun _ hno => hno.elim

/-! ## Temporary files among the reports -/

/-- The path is that of a temporary file among the native reports, where nothing was in the tree. -/
def IsTemporary (root : Path) (top : Node) (path : Path) : Prop :=
  ∃ n, path = (root.child Tier.native.directory).child (Node.temporaryName n) ∧
    ∀ names, path.names? = some names → top.at? names = none

/-- A temporary file is written, or taken away again. -/
def IsOfTemporary (root : Path) (top : Node) : Effect → Prop
  | .writes path => IsTemporary root top path
  | .drops path => IsTemporary root top path
  | _ => False

/-- What is of a session and, where there may be any, temporary files among the native reports. -/
def regionWhile (root : Path) (id : SessionId) (top : Node) (temporary : Bool) : Node.Region :=
  { regionOf root id with
    own := fun names => (regionOf root id).own names ∨
      temporary = true ∧ ∃ path, IsTemporary root top path ∧ path.names? = some names }

theorem names?_temporary (root : Path) (tier : Tier) (n : Nat) :
    ((root.child tier.directory).child (Node.temporaryName n)).names? =
      root.names?.map (· ++ [tier.directory, Node.temporaryName n]) :=
  names?_report root (Node.isPart_temporaryName n : IsPart (SessionId.mk _).name) tier

/-- The region is under the root. -/
theorem prefix_of_own_regionWhile {temporary : Bool} {base names : List String}
    (hbase : root.names? = some base) (h : (regionWhile root id top temporary).own names) :
    base <+: names := by
  rcases h with hown | ⟨-, path, ⟨n, rfl, -⟩, hpath⟩
  · exact prefix_of_own hbase hown
  · rw [names?_temporary, hbase] at hpath
    cases hpath
    exact List.prefix_append _ _

theorem region_isPartOf_regionWhile {temporary : Bool}
    (h : IsOfSession root id effect ∨ temporary = true ∧ IsOfTemporary root top effect) :
    effect.region.IsPartOf (regionWhile root id top temporary) := by
  rcases h with hsession | ⟨htemporary, hof⟩
  · have hpart := hsession.region_isPartOf
    exact ⟨fun names hown => Or.inl (hpart.own names hown), hpart.way, hpart.gone⟩
  · cases effect with
    | writes path => exact .of_own fun _ hnames => Or.inr ⟨htemporary, path, hof, hnames⟩
    | drops path => exact .of_own fun _ hnames => Or.inr ⟨htemporary, path, hof, hnames⟩
    | makes path => exact hof.elim
    | clears path => exact hof.elim

/-- The name of a temporary file among the reports is not of the session. -/
theorem not_mem_regionOf_temporary (hid : isPlainName id.name = true) {base : List String}
    (hbase : root.names? = some base) (tier : Tier) (n : Nat) :
    ¬ (regionOf root id).own (base ++ [tier.directory, Node.temporaryName n]) ∧
      ¬ (regionOf root id).gone (base ++ [tier.directory, Node.temporaryName n]) := by
  have hsession : ∀ session, sessionNames? root id = some session →
      ¬ session <+: base ++ [tier.directory, Node.temporaryName n] := by
    intro session hsession hprefix
    rw [sessionNames?, hbase] at hsession
    cases hsession
    rw [List.prefix_append_right_inj, List.cons_prefix_cons] at hprefix
    exact openSessions_ne_tier tier hprefix.1
  refine ⟨?_, fun hgone => hsession _ hgone List.prefix_rfl⟩
  rintro (⟨session, hnames, hprefix, -⟩ | ⟨other, hnames⟩)
  · exact hsession session hnames hprefix
  · rw [reportNames?, hbase] at hnames
    have hlast := List.append_cancel_left (Option.some.inj hnames)
    simp only [List.cons.injEq, and_true] at hlast
    have hvisible := isVisible_of_isPlainName hid
    rw [hlast.2] at hvisible
    exact hvisible (Node.temporaryName_hidden n)

theorem not_isPlaceOf_temporary {base : List String} (hbase : root.names? = some base)
    (tier : Tier) (n : Nat) :
    ¬ IsPlaceOf root id ((root.child tier.directory).child (Node.temporaryName n)) := by
  intro h
  refine (not_mem_regionOf_temporary h.isPlain hbase tier n).1 (h.own ?_)
  rw [names?_temporary, hbase, Option.map_some]

/-- The name that is drawn among the native reports was free before the operation: what has been
made since is of the session, or temporary. -/
theorem isTemporary_of_spareName (hid : isPlainName id.name = true) {temporary : Bool}
    (hmade : Node.StaysIn (regionWhile root id top temporary) top made)
    (hname : (made.perform (.spareName (root.child Tier.native.directory))).1 = .ok name) :
    IsTemporary root top ((root.child Tier.native.directory).child name) := by
  obtain ⟨es, rfl, hdirectory⟩ := Node.exists_of_spareName hname
  obtain ⟨n, hspare, hfree, -⟩ := Node.spareName_eq es
  rw [hspare]
  refine ⟨n, rfl, fun names hnames => ?_⟩
  rw [names?_temporary] at hnames
  obtain ⟨base, hbase, rfl⟩ := Option.map_eq_some_iff.1 hnames
  have hdir : (root.child Tier.native.directory).names? =
      some (base ++ [Tier.native.directory]) := by
    rw [Path.names?_child _ (isEntryName_tier .native).isPart, hbase, Option.map_some]
  have hnone : made.at? (base ++ [Tier.native.directory, Node.temporaryName n]) = none := by
    rw [Node.at?_eq_none, List.append_cons, Node.get?_concat, hdirectory _ hdir]
    exact hfree
  obtain ⟨hown, hgone⟩ := not_mem_regionOf_temporary hid hbase .native n
  rcases hmade (base ++ [Tier.native.directory, Node.temporaryName n]) with
    (hsession | ⟨-, path, ⟨k, -, htop⟩, hpath⟩) | hsame | ⟨-, -, hsome⟩ | ⟨hno, -⟩
  · exact absurd hsession hown
  · exact htop _ hpath
  · exact hsame.symm.trans hnone
  · cases hnone.symm.trans hsome
  · exact absurd hno hgone

end ReportVault.Store
