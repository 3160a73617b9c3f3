import ReportVault.Proofs.Engine.Medium
import ReportVault.Proofs.Store.Footprint

/-!
# ReportVault.Proofs.Engine.Looking

Operations that only look.

A computation is quiet if it leaves every state as it is, and so is one that is put together of
quiet ones.  The reading calls of a store in a directory are quiet in any tree
(`Store.quietReads_inDirectory`), and from that follows what an engine reads:
`mem_loadFinalized_iff` and `pairwise_loadFinalized` say which reports are loaded, with no session
twice.
-/

namespace ReportVault

open FileSystem

variable {σ α β ε : Type}

/-! ## Quiet computations -/

/-- The computation leaves every state as it is. -/
def Quiet (x : StateM σ α) : Prop := ∀ s, (x s).2 = s

namespace Quiet

theorem pure (a : α) : Quiet (Pure.pure a : StateM σ α) := fun _ => rfl

theorem bind {x : StateM σ α} {f : α → StateM σ β} (hx : Quiet x) (hf : ∀ a, Quiet (f a)) :
    Quiet (x >>= f) := by
  intro s
  rw [stateM_bind, hf, hx]

/-- What is run after a quiet computation is run from the same state. -/
theorem run_bind {x : StateM σ α} (hx : Quiet x) (f : α → StateM σ β) (s : σ) :
    (x >>= f) s = f (x s).1 s := by
  rw [stateM_bind, hx]

/-- A loop of quiet steps takes each from the same state. -/
theorem run_mapM {f : β → StateM σ α} (hf : ∀ b, Quiet (f b)) (l : List β) (s : σ) :
    l.mapM f s = (l.map fun b => (f b s).1, s) :=
  run_mapM_of_same fun b _ => Prod.ext rfl (hf b s)

theorem mapM {f : β → StateM σ α} (hf : ∀ b, Quiet (f b)) (l : List β) : Quiet (l.mapM f) := by
  intro s
  rw [run_mapM hf]

/-- What may fail is followed by the rest if it succeeds. -/
theorem bindExcept {x : ExceptT ε (StateM σ) α} {f : α → ExceptT ε (StateM σ) β}
    (hx : Quiet x.run) (hf : ∀ a, Quiet (f a).run) : Quiet (x >>= f).run := fun s =>
  related_run_bind (R := fun s q => q = s) (fun h hnext => hnext.trans h) (hx s)
    fun a q _ => hf a q

theorem throw (e : ε) : Quiet (MonadExcept.throw e : ExceptT ε (StateM σ) α).run := fun _ => rfl

theorem pureExcept (a : α) : Quiet (Pure.pure a : ExceptT ε (StateM σ) α).run := fun _ => rfl

theorem liftExcept (x : Except ε α) : Quiet (liftM x : ExceptT ε (StateM σ) α).run := fun _ => rfl

theorem lift {x : StateM σ α} (hx : Quiet x) : Quiet (liftM x : ExceptT ε (StateM σ) α).run := hx

theorem succeeds? {x : ExceptT Failure (StateM σ) α} (hx : Quiet x.run) :
    Quiet (Engine.succeeds? x) := by
  refine bind hx fun r => ?_
  cases r <;> exact pure _

end Quiet

/-! ## Stores -/

/-- The reading calls of the store are quiet. -/
def Store.QuietReads (store : Store (StateM σ)) : Prop :=
  ∀ {α : Type} (call : Store.Call α), call.isRead = true → Quiet (store.perform call).run

namespace Store

variable {root : Path} {id : SessionId}

/-- What only looks leaves any tree as it is. -/
theorem quietReads_inDirectory (root : Path) : (inDirectory inMemory root).QuietReads :=
  fun _ hread top => run_perform_of_isRead root top hread

/-- A listing has no session twice. -/
theorem pairwise_of_run_reportIds {top : Node} {ids : List (SessionId × Tier)}
    (h : (((inDirectory inMemory root).perform .reportIds).run top).1 = .ok ids) :
    ids.Pairwise fun a b => a.1 ≠ b.1 := by
  obtain ⟨native, _, -, hrest⟩ := exists_of_run_bind (Prod.ext h rfl)
  obtain ⟨priority, _, -, hrest⟩ := exists_of_run_bind hrest
  obtain ⟨normal, _, -, hlast⟩ := exists_of_run_bind hrest
  obtain rfl := Except.ok.inj (congrArg Prod.fst hlast)
  exact (List.mergeSort_perm _ _).symm.pairwise (Retention.pairwise_distinctBy _ _)
    fun hne => hne.symm

end Store

/-! ## Engines -/

namespace Engine

/-- The sessions that are listed; none if the call fails. -/
theorem finalizedIds_fst (e : Engine (StateM σ)) (s : σ) :
    (e.finalizedIds s).1 = ((e.store.perform .reportIds).run s).1.toOption.getD [] := by
  have hlist := Medium.run_succeeds? (x := e.store.perform .reportIds) (s := s)
    (r := ((e.store.perform .reportIds).run s).1) rfl
  exact congrArg Prod.fst (run_bind hlist _)

variable {e : Engine (StateM σ)} (h : e.store.QuietReads)

include h

theorem quiet_readHeader (id : SessionId) : Quiet (e.readHeader id).run := by
  refine .bindExcept (h _ rfl) fun contents => ?_
  cases contents with
  | none => exact .throw _
  | some bs => exact .liftExcept _

theorem quiet_readText (id : SessionId) (name : String) : Quiet (e.readText id name) :=
  .bind (.succeeds? (h _ rfl)) fun _ => .pure _

theorem quiet_readFinalized (id : SessionId) : Quiet (e.readFinalized id) := by
  refine .bind (.succeeds? (.bindExcept (h _ rfl) fun found => ?_)) fun _ => .pure _
  cases found with
  | none => exact .pureExcept _
  | some found => exact .bindExcept (.liftExcept _) fun _ => .pureExcept _

theorem quiet_openIds : Quiet e.openIds := .bind (.succeeds? (h _ rfl)) fun _ => .pure _

theorem quiet_finalizedIds : Quiet e.finalizedIds := .bind (.succeeds? (h _ rfl)) fun _ => .pure _

theorem quiet_loadReport (id : SessionId) : Quiet (e.loadReport id) :=
  .bind (quiet_readFinalized h id) fun _ => .pure _

theorem quiet_loadFinalized : Quiet e.loadFinalized :=
  .bind (quiet_finalizedIds h) fun _ => .bind (.mapM (fun _ => quiet_loadReport h _) _)
    fun _ => .pure _

theorem quiet_startTime (id : SessionId) : Quiet (e.startTime id) := by
  refine .bind (quiet_readText h id _) fun text => ?_
  split
  · exact .pure _
  · exact .bind (.succeeds? (quiet_readHeader h id)) fun _ => .pure _

/-! ## What is loaded -/

theorem loadReport_fst (id : SessionId) (s : σ) :
    (e.loadReport id s).1 = ((e.readFinalized id s).1.filter Report.isComplete).map (id, ·) := by
  rw [loadReport, (quiet_readFinalized h id).run_bind]
  rfl

theorem loadFinalized_fst (s : σ) :
    (e.loadFinalized s).1 = ((e.finalizedIds s).1.filterMap fun entry =>
      ((e.readFinalized entry.1 s).1.filter Report.isComplete).map (entry.1, ·)).mergeSort
        fun a b => a.1.descending b.1 := by
  rw [loadFinalized, (quiet_finalizedIds h).run_bind, stateM_bind,
    Quiet.run_mapM fun entry : SessionId × Tier => quiet_loadReport h entry.1]
  show List.mergeSort (((e.finalizedIds s).1.map _).filterMap fun r => r) _ = _
  rw [List.filterMap_map]
  simp only [Function.comp_def, loadReport_fst h]

/-- The reports are loaded that are listed, can be read and are worth an upload. -/
theorem mem_loadFinalized_iff {s : σ} {id : SessionId} {r : Report} :
    (id, r) ∈ (e.loadFinalized s).1 ↔ (∃ tier, (id, tier) ∈ (e.finalizedIds s).1) ∧
      (e.readFinalized id s).1 = some r ∧ r.isComplete = true := by
  rw [loadFinalized_fst h, List.mem_mergeSort, List.mem_filterMap]
  constructor
  · rintro ⟨⟨other, tier⟩, hlisted, hread⟩
    obtain ⟨found, hfound, heq⟩ := Option.map_eq_some_iff.1 hread
    obtain ⟨rfl, rfl⟩ := Prod.mk.inj heq
    exact ⟨⟨tier, hlisted⟩, Option.filter_eq_some_iff.1 hfound⟩
  · rintro ⟨⟨tier, hlisted⟩, hread⟩
    exact ⟨(id, tier), hlisted,
      Option.map_eq_some_iff.2 ⟨r, Option.filter_eq_some_iff.2 hread, rfl⟩⟩

/-- A report that is read is the record of one of the files of its session. -/
theorem exists_of_readFinalized {s : σ} {id : SessionId} {r : Report}
    (hread : (e.readFinalized id s).1 = some r) :
    ∃ tier contents, (e.store.perform (.readReport id)).run s = (.ok (some (tier, contents)), s) ∧
      e.codec.decodeReport contents = .ok r := by
  have hquiet : (e.store.perform (.readReport id)).run s =
      (((e.store.perform (.readReport id)).run s).1, s) := Prod.ext rfl (h _ rfl s)
  have hdecoded : e.readFinalized id s =
      (Medium.decoded? ((e.store.perform (.readReport id)).run s).1
        fun found => e.codec.decodeReport found.2, s) :=
    Medium.run_decoded? (x := e.store.perform (.readReport id)) hquiet
      (fun found => e.codec.decodeReport found.2) rfl fun _ => rfl
  rw [hdecoded] at hread
  rw [hquiet]
  generalize ((e.store.perform (.readReport id)).run s).1 = answer at hread
  rcases answer with failure | _ | ⟨tier, contents⟩
  · cases hread
  · cases hread
  · refine ⟨tier, contents, rfl, ?_⟩
    have hdecode : (e.codec.decodeReport contents).toOption = some r := hread
    cases hresult : e.codec.decodeReport contents with
    | ok found =>
      rw [hresult] at hdecode
      exact congrArg Except.ok (Option.some.inj hdecode)
    | error failure =>
      rw [hresult] at hdecode
      cases hdecode

/-- No session is loaded twice if none is listed twice. -/
theorem pairwise_loadFinalized_of_listed {s : σ}
    (hlisted : (e.finalizedIds s).1.Pairwise fun a b => a.1 ≠ b.1) :
    (e.loadFinalized s).1.Pairwise fun a b => a.1 ≠ b.1 := by
  rw [loadFinalized_fst h]
  refine (List.mergeSort_perm _ _).symm.pairwise (hlisted.filterMap _ ?_) fun hne => hne.symm
  intro a b hne x hx y hy
  obtain ⟨_, -, rfl⟩ := Option.map_eq_some_iff.1 hx
  obtain ⟨_, -, rfl⟩ := Option.map_eq_some_iff.1 hy
  exact hne

end Engine

/-- The engine over a directory of a tree. -/
abbrev Engine.ofDirectory (root : Path) : Engine (StateM Node) :=
  { store := Store.inDirectory inMemory root }

/-- From a directory no session is loaded twice, whatever the tree is. -/
theorem pairwise_loadFinalized (root : Path) (top : Node) :
    ((Engine.ofDirectory root).loadFinalized top).1.Pairwise fun a b => a.1 ≠ b.1 := by
  refine Engine.pairwise_loadFinalized_of_listed (Store.quietReads_inDirectory root) ?_
  rw [Engine.finalizedIds_fst]
  cases hrun : (((Store.inDirectory inMemory root).perform .reportIds).run top).1 with
  | ok ids => exact Store.pairwise_of_run_reportIds hrun
  | error failure => exact .nil

end ReportVault
