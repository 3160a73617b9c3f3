import ReportVault.Proofs.Engine.Medium
import ReportVault.Proofs.Retention.Top

/-!
# ReportVault.Proofs.Engine.Pass

A finalization pass as a list of changes.

`Pass.changes` computes from what is stored, step by step, which changes a pass makes, and
`Pass.run_finalize` says that the pass makes exactly these and in this order.  Any calls may fail,
each before anything is done.  The steps read what is stored before the pass: by
`Pass.run_logged_assemble` the changes that a pass makes for one session do not show in what it assembles
for another one.

Where the order does not matter, `Pass.Makes` says which changes these are, and why each of them is
made (`mem_changes_iff`).
-/

namespace ReportVault

open FileSystem Retention
open Engine (Assembled Summary rankOf)

/-- A pass: what it works on, and what it is called with. -/
structure Pass extends Medium where
  caps : Caps
  current : Option SessionId
  time : Int64

namespace Pass

variable (p : Pass) (v : Vault)

/-! ## Steps -/

/-- The sessions that are to be finalized. -/
def candidates : List SessionId := (p.openIds v).filter fun id => some id ≠ p.current

/-- The sessions beyond the cap. -/
def surplus : List SessionId := (splitOldest (p.candidates v) p.caps.openSessions).1

/-- The sessions within the cap. -/
def kept : List SessionId := (splitOldest (p.candidates v) p.caps.openSessions).2

/-- What is assembled for a session. -/
def outcome (id : SessionId) : Except Failure (Option Assembled) :=
  p.toMedium.outcome v id p.time p.caps.events

/-- What is done for a session that is assembled. -/
def clearing (id : SessionId) : List Change :=
  match p.outcome v id with
  | .ok (some _) => []
  | .ok none => p.made (.deleteSession id)
  | .error failure => if failure.isStorage then [] else p.made (.deleteSession id)

/-- What assembling a session answers. -/
def assembling (id : SessionId) : Option Assembled × Summary :=
  match p.outcome v id with
  | .ok (some a) => (some a, {})
  | .ok none => (none, { empty := 1 })
  | .error _ => (none, { failed := 1 })

/-- The reports that are assembled. -/
def assembled : List Assembled := (p.kept v).filterMap fun id => (p.assembling v id).1

/-- Who has a place among the reports that are assembled and those that are there. -/
def verdict : Verdict :=
  selectSurvivors ((p.assembled v).map (fun a => rankOf a.id a.tier) ++
    (p.finalizedIds v).map fun (id, tier) => rankOf id tier) p.caps.reports

/-- What is written for an assembled report. -/
def written (a : Assembled) : Except Failure Bytes := do
  let contents ← p.codec.encodeReport a.report
  match p.fails (.writeReport a.id a.tier contents) with
  | some failure => throw failure
  | none => return contents

/-- A report whose call does not fail is written as its JSON text. -/
theorem written_of_fails_eq_none {a : Assembled} (hjson : p.codec = .json)
    (h : p.fails (.writeReport a.id a.tier a.report.encode) = none) :
    p.written a = .ok a.report.encode := by
  have hencode : p.codec.encodeReport a.report = .ok a.report.encode := by
    rw [hjson]
    rfl
  simp only [written, hencode, h, bind, Except.bind]
  rfl

/-- What is done for an assembled report. -/
def placing (verdict : Verdict) (a : Assembled) : List Change :=
  if verdict.isEvicted a.id then p.made (.deleteSession a.id)
  else match p.written a with
    | .ok contents => .writeReport a.id a.tier contents :: p.made (.deleteSession a.id)
    | .error failure => if failure.isStorage then [] else p.made (.deleteSession a.id)

/-- What placing a report answers. -/
def placed (verdict : Verdict) (a : Assembled) : Summary :=
  if verdict.isEvicted a.id then { evicted := 1 }
  else match p.written a with
    | .ok _ => { finalized := 1 }
    | .error _ => { failed := 1 }

/-- The reports that are one too many. -/
def losers : List SessionId :=
  let finalized := p.finalizedIds v
  if finalized.length ≤ p.caps.reports then []
  else
    let verdict := selectSurvivors (finalized.map fun (id, tier) => rankOf id tier) p.caps.reports
    (finalized.filter fun (id, _) => !verdict.isKept id).map Prod.fst

/-- The changes before any report is written. -/
def sweeping : List Change :=
  (p.surplus v).flatMap (fun id => p.made (.deleteSession id)) ++
    (p.kept v).flatMap (p.clearing v)

/-- The changes before any report is deleted. -/
def settling : List Change := p.sweeping v ++ (p.assembled v).flatMap (p.placing (p.verdict v))

/-- The changes of the pass. -/
def changes : List Change :=
  p.settling v ++ (p.losers (v.after (p.settling v))).flatMap fun id => p.made (.deleteReport id)

/-- The answer of the pass. -/
def summary : Summary :=
  .total ({ overOpenCap := (p.surplus v).length } ::
    { evicted := (p.losers (v.after (p.settling v))).length } ::
    (p.kept v).map (fun id => (p.assembling v id).2) ++
    (p.assembled v).map (p.placed (p.verdict v)))

variable {p v}

open Medium

/-! ## What the steps are about -/

theorem surplus_append_kept : p.surplus v ++ p.kept v = p.candidates v := splitOldest_append _ _

/-- The candidates ascend. -/
theorem pairwise_candidates : (p.candidates v).Pairwise (· < ·) := by
  refine List.Pairwise.filter _ ?_
  rw [openIds_eq]
  split
  · exact (Finset.sortedLT_sort v.sessions.keys).pairwise
  · exact List.Pairwise.nil

/-- A candidate is open and not the current session. -/
theorem open_of_mem_candidates {id : SessionId} (h : id ∈ p.candidates v) :
    id ∈ v.sessions ∧ some id ≠ p.current := by
  rw [candidates, List.mem_filter, decide_eq_true_eq, openIds_eq] at h
  refine ⟨?_, h.2⟩
  split at h
  · exact Finmap.mem_keys.1 ((Finset.mem_sort _).1 h.1)
  · exact absurd h.1 List.not_mem_nil

theorem mem_candidates_of_mem_surplus {id : SessionId} (h : id ∈ p.surplus v) :
    id ∈ p.candidates v := by
  rw [← surplus_append_kept]
  exact List.mem_append_left _ h

theorem mem_candidates_of_mem_kept {id : SessionId} (h : id ∈ p.kept v) :
    id ∈ p.candidates v := by
  rw [← surplus_append_kept]
  exact List.mem_append_right _ h

theorem open_of_mem_kept {id : SessionId} (h : id ∈ p.kept v) :
    id ∈ v.sessions ∧ some id ≠ p.current :=
  open_of_mem_candidates (mem_candidates_of_mem_kept h)

/-- No session is met twice. -/
theorem pairwise_kept : (p.kept v).Pairwise (· < ·) := by
  have hall := p.pairwise_candidates (v := v)
  rw [← surplus_append_kept, List.pairwise_append] at hall
  exact hall.2.1

/-- No session is assembled that is beyond the cap. -/
theorem lt_of_mem_surplus_of_mem_kept {id other : SessionId} (hid : id ∈ p.surplus v)
    (hother : other ∈ p.kept v) : id < other := by
  have hall := p.pairwise_candidates (v := v)
  rw [← surplus_append_kept, List.pairwise_append] at hall
  exact hall.2.2 id hid other hother

theorem mem_sweeping_iff {c : Change} :
    c ∈ p.sweeping v ↔ (∃ id ∈ p.surplus v, c ∈ p.made (.deleteSession id)) ∨
      ∃ id ∈ p.kept v, c ∈ p.clearing v id := by
  rw [sweeping, List.mem_append, List.mem_flatMap, List.mem_flatMap]

theorem mem_clearing {id : SessionId} {c : Change} (h : c ∈ p.clearing v id) :
    c = .deleteSession id := by
  rw [clearing] at h
  split at h
  · exact absurd h List.not_mem_nil
  · exact (mem_made.1 h).1
  · split at h
    · exact absurd h List.not_mem_nil
    · exact (mem_made.1 h).1

/-- Before any report is written, the only changes are that candidates are closed. -/
theorem mem_sweeping {c : Change} (h : c ∈ p.sweeping v) :
    ∃ id ∈ p.candidates v, c = .deleteSession id := by
  rcases mem_sweeping_iff.1 h with ⟨id, hid, hc⟩ | ⟨id, hid, hc⟩
  · exact ⟨id, mem_candidates_of_mem_surplus hid, (mem_made.1 hc).1⟩
  · exact ⟨id, mem_candidates_of_mem_kept hid, mem_clearing hc⟩

theorem mem_placing {verdict : Verdict} {a : Assembled} {c : Change}
    (h : c ∈ p.placing verdict a) :
    c = .deleteSession a.id ∨
      ∃ contents, p.written a = .ok contents ∧ c = .writeReport a.id a.tier contents := by
  rw [placing] at h
  split at h
  · exact Or.inl (mem_made.1 h).1
  · split at h
    · next contents hwritten =>
      rcases List.mem_cons.1 h with h | h
      · exact Or.inr ⟨contents, hwritten, h⟩
      · exact Or.inl (mem_made.1 h).1
    · split at h
      · exact absurd h List.not_mem_nil
      · exact Or.inl (mem_made.1 h).1

/-! ## Runs -/

theorem run_logged_openIds (hv : v.IsWellFormed) (log : List Change) :
    p.logged.openIds (v, log) = (p.openIds v, v, log) := by
  obtain ⟨hanswer, -, hafter, -⟩ :=
    Engine.agree_openIds (k := p.codec) (reading hv log) rfl _ _ ⟨rfl, rfl⟩
  exact Prod.ext (hanswer.trans (congrArg Prod.fst run_openIds)) hafter

theorem run_logged_finalizedIds (hv : v.IsWellFormed) (log : List Change) :
    p.logged.finalizedIds (v, log) = (p.finalizedIds v, v, log) := by
  obtain ⟨hanswer, -, hafter, -⟩ :=
    Engine.agree_finalizedIds (k := p.codec) (reading hv log) rfl _ _ ⟨rfl, rfl⟩
  exact Prod.ext (hanswer.trans (congrArg Prod.fst run_finalizedIds)) hafter

/-- A session is assembled from what is stored of it before the pass. -/
theorem run_logged_assemble (hv : v.IsWellFormed) {w : Vault} {id : SessionId}
    (hfiles : w.files id = v.files id) (hreport : w.report? id = v.report? id)
    (log : List Change) :
    (p.logged.assemble id p.time p.caps.events).run (w, log) = (p.outcome v id, w, log) := by
  have hallowed : Engine.AllowsFiles (Store.Agrees.LooksAt id) id :=
    ⟨⟨rfl, rfl⟩, fun _ _ => ⟨rfl, rfl⟩⟩
  obtain ⟨hanswer, -, hafter, -⟩ :=
    Engine.agree_assemble (k := p.codec) (looking hv hfiles hreport log) hallowed
      (show Store.Agrees.LooksAt id (.readReport id) from ⟨rfl, rfl⟩) p.time p.caps.events _ _
      ⟨rfl, rfl⟩
  exact Prod.ext (hanswer.trans (congrArg Prod.fst (run_assemble p.time p.caps.events))) hafter

/-- What is assembled for a session is about it. -/
theorem id_of_outcome {id : SessionId} {a : Assembled} (h : p.outcome v id = .ok (some a)) :
    a.id = id := by
  obtain ⟨slots, header, -, -, rfl⟩ := eq_of_outcome h
  rw [Assembled.id_ofParts]

theorem run_assembleOrDelete (hv : v.IsWellFormed) {w : Vault} {id : SessionId}
    (hid : id.IsStorable) (hfiles : w.files id = v.files id)
    (hreport : w.report? id = v.report? id) (log : List Change) :
    p.logged.assembleOrDelete id p.time p.caps.events (w, log) =
      (p.assembling v id, w.after (p.clearing v id), log ++ p.clearing v id) := by
  have hrun := run_logged_assemble (p := p) hv hfiles hreport log
  rw [Engine.assembleOrDelete, stateM_bind, hrun, assembling, clearing]
  cases p.outcome v id with
  | ok found =>
    cases found with
    | some a => rw [List.append_nil]; rfl
    | none =>
      dsimp only
      rw [stateM_bind, run_deleteSession hid]
      rfl
  | error failure =>
    dsimp only
    cases failure.isStorage with
    | true => rw [if_pos rfl, List.append_nil]; rfl
    | false =>
      simp only [Bool.not_false, if_true, Bool.false_eq_true, if_false]
      rw [stateM_bind, run_deleteSession hid]
      rfl

/-- A report is written unless it cannot be encoded or its call fails. -/
theorem run_write {a : Assembled} (hid : a.id.IsStorable) (w : Vault) (log : List Change) :
    (p.logged.write a).run (w, log) =
      match p.written a with
      | .ok contents =>
        (.ok (), w.setReport a.id a.tier contents, log ++ [.writeReport a.id a.tier contents])
      | .error failure => (.error failure, w, log) := by
  rw [Engine.write, written]
  cases hencode : p.codec.encodeReport a.report with
  | error failure => exact run_bind_error hencode _ _
  | ok contents =>
    have hrun := run_bind_ok hencode
      (fun contents => p.logged.store.perform (.writeReport a.id a.tier contents)) (w, log)
    have hchange := p.run_change (c := .writeReport a.id a.tier contents)
      (w.perform_writeReport p.place hid a.tier contents) log
    refine (hrun.trans hchange).trans ?_
    simp only [bind, Except.bind, Change.call, Change.apply]
    cases p.fails (.writeReport a.id a.tier contents) <;> rfl

theorem run_place (verdict : Verdict) {a : Assembled} (hid : a.id.IsStorable) (w : Vault)
    (log : List Change) :
    p.logged.place verdict a (w, log) =
      (p.placed verdict a, w.after (p.placing verdict a), log ++ p.placing verdict a) := by
  rw [Engine.place, placed, placing]
  cases verdict.isEvicted a.id with
  | true =>
    rw [if_pos rfl, if_pos rfl, if_pos rfl, stateM_bind, run_deleteSession hid]
    rfl
  | false =>
    have hwrite := run_write (p := p) hid w log
    rw [if_neg (by simp), if_neg (by simp), if_neg (by simp), stateM_bind]
    cases hw : p.written a with
    | ok contents =>
      rw [hw] at hwrite
      rw [hwrite]
      dsimp only
      rw [stateM_bind, run_deleteSession hid, List.append_assoc]
      rfl
    | error failure =>
      rw [hw] at hwrite
      rw [hwrite]
      dsimp only
      cases failure.isStorage with
      | true => rw [if_pos rfl, List.append_nil]; rfl
      | false =>
        simp only [Bool.not_false, if_true, Bool.false_eq_true, if_false]
        rw [stateM_bind, run_deleteSession hid]
        rfl

theorem isStorable_of_mem_candidates (hv : v.IsWellFormed) {id : SessionId}
    (h : id ∈ p.candidates v) : id.IsStorable :=
  hv.isStorable_open id (open_of_mem_candidates h).1

theorem run_surplus (hv : v.IsWellFormed) (log : List Change) :
    (p.surplus v).forM (fun id => p.logged.attempt (.deleteSession id)) (v, log) =
      ((), v.after ((p.surplus v).flatMap fun id => p.made (.deleteSession id)),
        log ++ (p.surplus v).flatMap fun id => p.made (.deleteSession id)) :=
  run_forM (fun _ hid w log => run_deleteSession
    (isStorable_of_mem_candidates hv (mem_candidates_of_mem_surplus hid)) w log) v log

theorem run_kept (hv : v.IsWellFormed) (log : List Change) :
    (p.kept v).mapM (fun id => p.logged.assembleOrDelete id p.time p.caps.events)
        (v.after ((p.surplus v).flatMap fun id => p.made (.deleteSession id)), log) =
      ((p.kept v).map (p.assembling v), v.after (p.sweeping v),
        log ++ (p.kept v).flatMap (p.clearing v)) := by
  let needs (id : SessionId) (w : Vault) : Prop :=
    w.sessions.lookup id = v.sessions.lookup id ∧
      ∀ t, (w.reports t).lookup id = (v.reports t).lookup id
  have hspares : ∀ {id : SessionId} {changes : List Change} {w : Vault},
      (∀ c ∈ changes, ∃ other, other ≠ id ∧ c = .deleteSession other) → needs id w →
      needs id (w.after changes) := by
    intro id changes w hchanges hw
    refine ⟨(Vault.lookup_after fun c hc => ?_).trans hw.1,
      fun t => (Vault.lookup_reports_after (fun c hc => ?_) t).trans (hw.2 t)⟩
    · obtain ⟨other, hne, rfl⟩ := hchanges c hc
      exact hne
    · obtain ⟨other, -, rfl⟩ := hchanges c hc
      trivial
  rw [sweeping, Vault.after_append]
  refine run_mapM needs (fun id hid w log hw => ?_) ?_ _ _ fun id hid => ?_
  · exact run_assembleOrDelete hv
      (isStorable_of_mem_candidates hv (mem_candidates_of_mem_kept hid))
      (Vault.files_eq_of_lookup hw.1) (Vault.report?_eq_of_lookup hw.2) log
  · refine p.pairwise_kept.imp fun hlt w hw => hspares (fun c hc => ?_) hw
    exact ⟨_, ne_of_lt hlt, mem_clearing hc⟩
  · refine hspares (fun c hc => ?_) ⟨rfl, fun _ => rfl⟩
    obtain ⟨other, hother, hc⟩ := List.mem_flatMap.1 hc
    exact ⟨other, ne_of_lt (lt_of_mem_surplus_of_mem_kept hother hid), (mem_made.1 hc).1⟩

theorem assembling_eq_some {id : SessionId} {a : Assembled} :
    (p.assembling v id).1 = some a ↔ p.outcome v id = .ok (some a) := by
  rw [assembling]
  split <;> simp_all

/-- What is assembled belongs to a session that was kept. -/
theorem mem_assembled {a : Assembled} :
    a ∈ p.assembled v ↔ a.id ∈ p.kept v ∧ p.outcome v a.id = .ok (some a) := by
  rw [assembled, List.mem_filterMap]
  constructor
  · rintro ⟨id, hid, ha⟩
    rw [assembling_eq_some] at ha
    have he : a.id = id := id_of_outcome ha
    exact ⟨he ▸ hid, he ▸ ha⟩
  · rintro ⟨hid, ha⟩
    exact ⟨a.id, hid, assembling_eq_some.2 ha⟩

/-- Reports are assembled in the order of their sessions. -/
theorem pairwise_assembled : (p.assembled v).Pairwise fun a b => a.id < b.id := by
  refine List.Pairwise.filterMap _ (fun id other hlt a ha b hb => ?_) pairwise_kept
  rwa [id_of_outcome (assembling_eq_some.1 ha), id_of_outcome (assembling_eq_some.1 hb)]

/-- What is assembled belongs to an open session. -/
theorem open_of_mem_assembled {a : Assembled} (h : a ∈ p.assembled v) :
    a.id ∈ v.sessions ∧ some a.id ≠ p.current :=
  open_of_mem_kept (mem_assembled.1 h).1

theorem isStorable_of_mem_assembled (hv : v.IsWellFormed) {a : Assembled}
    (h : a ∈ p.assembled v) : a.id.IsStorable :=
  isStorable_of_mem_candidates hv (mem_candidates_of_mem_kept (mem_assembled.1 h).1)

theorem eq_of_mem_assembled {a b : Assembled} (ha : a ∈ p.assembled v) (hb : b ∈ p.assembled v)
    (hid : a.id = b.id) : a = b := by
  have hout := (mem_assembled.1 ha).2
  rw [hid, (mem_assembled.1 hb).2] at hout
  exact (Option.some.inj (Except.ok.inj hout)).symm

/-! ## What a pass does, and why -/

/-- What a pass does before it deletes any report. -/
inductive SettlesBy (p : Pass) (v : Vault) : Change → Prop
  /-- A session that is over the cap on open sessions is closed. -/
  | discard {id : SessionId} (hid : id ∈ p.surplus v)
      (hdelete : p.fails (.deleteSession id) = none) : SettlesBy p v (.deleteSession id)
  /-- A report that has a place and can be written is written. -/
  | write {a : Assembled} {contents : Bytes} (ha : a ∈ p.assembled v)
      (hplace : (p.verdict v).isEvicted a.id = false) (hwritten : p.written a = .ok contents) :
      SettlesBy p v (.writeReport a.id a.tier contents)
  /-- A session is closed, unless the storage does not let assemble it or write its report. -/
  | close {id : SessionId} (hkept : id ∈ p.kept v) (hdelete : p.fails (.deleteSession id) = none)
      (hread : ∀ failure, p.outcome v id = .error failure → failure.isStorage = false)
      (hwrite : ∀ a ∈ p.assembled v, a.id = id → (p.verdict v).isEvicted id = false →
        ∀ failure, p.written a = .error failure → failure.isStorage = false) :
      SettlesBy p v (.deleteSession id)

/-- What a pass does. -/
inductive Makes (p : Pass) (v : Vault) : Change → Prop
  | settle {c : Change} (h : p.SettlesBy v c) : Makes p v c
  /-- A report is deleted that has no place. -/
  | drop {id : SessionId} (hid : id ∈ p.losers (v.after (p.settling v)))
      (hdelete : p.fails (.deleteReport id) = none) : Makes p v (.deleteReport id)

theorem settlesBy_of_mem_clearing {id : SessionId} {c : Change} (hkept : id ∈ p.kept v)
    (h : c ∈ p.clearing v id) : p.SettlesBy v c := by
  have hnone : (∀ a, p.outcome v id ≠ .ok (some a)) → ∀ a ∈ p.assembled v, a.id = id →
      (p.verdict v).isEvicted id = false →
        ∀ failure, p.written a = .error failure → failure.isStorage = false := by
    rintro hnone a ha rfl
    exact absurd (mem_assembled.1 ha).2 (hnone a)
  rw [clearing] at h
  split at h
  · exact absurd h List.not_mem_nil
  · next hout =>
    obtain ⟨rfl, hdelete⟩ := mem_made.1 h
    exact .close hkept hdelete (by simp [hout]) (hnone (by simp [hout]))
  · next failure hout =>
    split at h
    · exact absurd h List.not_mem_nil
    · next hstorage =>
      obtain ⟨rfl, hdelete⟩ := mem_made.1 h
      refine .close hkept hdelete (fun other hother => ?_) (hnone (by simp [hout]))
      rw [hout, Except.error.injEq] at hother
      exact hother ▸ Bool.eq_false_iff.2 hstorage

theorem settlesBy_of_mem_placing {a : Assembled} {c : Change} (ha : a ∈ p.assembled v)
    (h : c ∈ p.placing (p.verdict v) a) : p.SettlesBy v c := by
  obtain ⟨hkept, hout⟩ := mem_assembled.1 ha
  -- The session is closed in every branch but that of a write that the storage refuses.
  have hclose (hdelete : p.fails (.deleteSession a.id) = none)
      (hwrite : (p.verdict v).isEvicted a.id = false →
        ∀ failure, p.written a = .error failure → failure.isStorage = false) :
      p.SettlesBy v (.deleteSession a.id) := by
    refine .close hkept hdelete (by simp [hout]) fun b hb hid => ?_
    rwa [eq_of_mem_assembled hb ha hid]
  rw [placing] at h
  split at h
  · next hevicted =>
    obtain ⟨rfl, hdelete⟩ := mem_made.1 h
    exact hclose hdelete (by simp [hevicted])
  · next hplace =>
    split at h
    · next contents hwritten =>
      rcases List.mem_cons.1 h with rfl | h
      · exact .write ha (Bool.eq_false_iff.2 hplace) hwritten
      · obtain ⟨rfl, hdelete⟩ := mem_made.1 h
        exact hclose hdelete (by simp [hwritten])
    · next failure hwritten =>
      split at h
      · exact absurd h List.not_mem_nil
      · next hstorage =>
        obtain ⟨rfl, hdelete⟩ := mem_made.1 h
        exact hclose hdelete (by simpa [hwritten] using fun _ => hstorage)

/-- What closes a session that is kept depends on what is assembled for it. -/
theorem deleteSession_mem_settling {id : SessionId} (hkept : id ∈ p.kept v)
    (hdelete : p.fails (.deleteSession id) = none)
    (hread : ∀ failure, p.outcome v id = .error failure → failure.isStorage = false)
    (hwrite : ∀ a ∈ p.assembled v, a.id = id → (p.verdict v).isEvicted id = false →
      ∀ failure, p.written a = .error failure → failure.isStorage = false) :
    .deleteSession id ∈ p.settling v := by
  have hmade : .deleteSession id ∈ p.made (.deleteSession id) := mem_made.2 ⟨rfl, hdelete⟩
  rw [settling, List.mem_append, List.mem_flatMap, mem_sweeping_iff]
  rcases hout : p.outcome v id with failure | _ | a
  · refine Or.inl (Or.inr ⟨id, hkept, ?_⟩)
    simpa [clearing, hout, hread failure hout] using hmade
  · refine Or.inl (Or.inr ⟨id, hkept, ?_⟩)
    rwa [clearing, hout]
  · obtain rfl : a.id = id := id_of_outcome hout
    have ha := mem_assembled.2 ⟨hkept, hout⟩
    refine Or.inr ⟨a, ha, ?_⟩
    rw [placing]
    split
    · exact hmade
    · next hplace =>
      split
      · exact List.mem_cons_of_mem _ hmade
      · next failure hwritten =>
        rwa [hwrite a ha rfl (Bool.eq_false_iff.2 hplace) failure hwritten, if_neg (by simp)]

theorem mem_settling_iff {c : Change} : c ∈ p.settling v ↔ p.SettlesBy v c := by
  rw [settling, List.mem_append, List.mem_flatMap, mem_sweeping_iff]
  constructor
  · rintro ((⟨id, hid, h⟩ | ⟨id, hkept, h⟩) | ⟨a, ha, h⟩)
    · obtain ⟨rfl, hdelete⟩ := mem_made.1 h
      exact .discard hid hdelete
    · exact settlesBy_of_mem_clearing hkept h
    · exact settlesBy_of_mem_placing ha h
  · intro h
    cases h with
    | discard hid hdelete => exact Or.inl (Or.inl ⟨_, hid, mem_made.2 ⟨rfl, hdelete⟩⟩)
    | @write a contents ha hplace hwritten =>
      refine Or.inr ⟨a, ha, ?_⟩
      rw [placing, hplace, hwritten]
      exact List.mem_cons_self
    | close hkept hdelete hread hwrite =>
      have hclosed := deleteSession_mem_settling hkept hdelete hread hwrite
      rwa [settling, List.mem_append, List.mem_flatMap, mem_sweeping_iff] at hclosed

theorem mem_changes_iff {c : Change} : c ∈ p.changes v ↔ p.Makes v c := by
  rw [changes, List.mem_append, List.mem_flatMap, mem_settling_iff]
  constructor
  · rintro (h | ⟨id, hid, h⟩)
    · exact .settle h
    · obtain ⟨rfl, hdelete⟩ := mem_made.1 h
      exact .drop hid hdelete
  · rintro (h | ⟨hid, hdelete⟩)
    · exact Or.inl h
    · exact Or.inr ⟨_, hid, mem_made.2 ⟨rfl, hdelete⟩⟩

/-- Every session that is closed is a candidate. -/
theorem SettlesBy.mem_candidates {id : SessionId} (h : p.SettlesBy v (.deleteSession id)) :
    id ∈ p.candidates v := by
  cases h with
  | discard hid _ => exact mem_candidates_of_mem_surplus hid
  | close hkept _ _ _ => exact mem_candidates_of_mem_kept hkept

/-- The vault stays well formed until reports are deleted. -/
theorem isWellFormed_settling (hv : v.IsWellFormed) : (v.after (p.settling v)).IsWellFormed := by
  refine hv.after fun c hc => ?_
  cases mem_settling_iff.1 hc with
  | discard => trivial
  | write ha => exact isStorable_of_mem_assembled hv ha
  | close => trivial

/-- Sweeping does not touch the reports. -/
theorem reports_sweeping : (v.after (p.sweeping v)).reports = v.reports := by
  funext tier
  refine Finmap.ext_lookup fun id => Vault.lookup_reports_after (fun c hc => ?_) tier
  obtain ⟨other, -, rfl⟩ := mem_sweeping hc
  trivial

theorem isStorable_of_mem_losers (hv : v.IsWellFormed) {id : SessionId} (h : id ∈ p.losers v) :
    id.IsStorable := by
  have hmem : id ∈ (p.finalizedIds v).map Prod.fst := by
    rw [losers] at h
    split at h
    · exact absurd h List.not_mem_nil
    · exact (List.filter_sublist.map Prod.fst).subset h
  obtain ⟨⟨id, tier⟩, he, rfl⟩ := List.mem_map.1 hmem
  rw [finalizedIds_eq] at he
  split at he
  · have hfinalized := Vault.mem_finalized_of_tier? (Vault.mem_reportIds.1 he)
    obtain ⟨t, ht⟩ := Vault.mem_finalized.1 hfinalized
    exact hv.isStorable_report t id ht
  · exact absurd he List.not_mem_nil

theorem run_trimReports (hv : v.IsWellFormed) (log : List Change) :
    p.logged.trimReports p.caps.reports (v, log) =
      ({ evicted := (p.losers v).length },
        v.after ((p.losers v).flatMap fun id => p.made (.deleteReport id)),
        log ++ (p.losers v).flatMap fun id => p.made (.deleteReport id)) := by
  have hloser : ∀ id ∈ p.losers v, id.IsStorable := fun _ => isStorable_of_mem_losers hv
  rw [Engine.trimReports, stateM_bind, run_logged_finalizedIds hv]
  rw [losers] at hloser ⊢
  dsimp only at hloser ⊢
  split
  · rw [List.flatMap_nil, List.append_nil]
    rfl
  · next hcap =>
    rw [if_neg hcap] at hloser
    rw [List.length_map, List.flatMap_map]
    refine (run_bind (run_forM (fun e he w log => ?_) v log) _).trans rfl
    exact run_deleteReport (hloser e.1 (List.mem_map_of_mem he)) w log

theorem run_assembled (hv : v.IsWellFormed) (w : Vault) (log : List Change) :
    (p.assembled v).mapM (p.logged.place (p.verdict v)) (w, log) =
      ((p.assembled v).map (p.placed (p.verdict v)),
        w.after ((p.assembled v).flatMap (p.placing (p.verdict v))),
        log ++ (p.assembled v).flatMap (p.placing (p.verdict v))) :=
  run_mapM (fun _ _ => True)
    (fun _ ha w log _ => run_place (p.verdict v) (isStorable_of_mem_assembled hv ha) w log)
    (List.pairwise_of_forall fun _ _ _ _ => trivial) w log fun _ _ => trivial

/-- A pass makes the changes that are computed from what is stored. -/
theorem run_finalize (hv : v.IsWellFormed) (log : List Change) :
    p.logged.finalize p.caps p.current p.time (v, log) =
      (p.summary v, v.after (p.changes v), log ++ p.changes v) := by
  have hsweep : (v.after (p.sweeping v)).IsWellFormed := by
    refine hv.after fun c hc => ?_
    obtain ⟨id, -, rfl⟩ := mem_sweeping hc
    trivial
  have hids : p.finalizedIds (v.after (p.sweeping v)) = p.finalizedIds v := by
    rw [finalizedIds_eq, finalizedIds_eq, Vault.reportIds, Vault.reportIds, Vault.finalized,
      Vault.finalized]
    simp only [Vault.tier?, reports_sweeping]
  have hassembled : ((p.kept v).map (p.assembling v)).filterMap (·.1) = p.assembled v := by
    rw [List.filterMap_map, assembled]
    rfl
  refine (run_bind (run_logged_openIds hv log) _).trans ?_
  refine (run_bind (run_surplus hv log) _).trans ?_
  refine (run_bind (run_kept hv _) _).trans ?_
  refine (run_bind (run_logged_finalizedIds hsweep _) _).trans ?_
  rw [hassembled, hids]
  refine (run_bind (run_assembled hv _ _) _).trans ?_
  rw [← Vault.after_append, ← settling]
  refine (run_bind (run_trimReports (isWellFormed_settling hv) _) _).trans ?_
  rw [← Vault.after_append, ← changes, List.map_map]
  refine Prod.ext rfl (Prod.ext rfl ?_)
  simp only [changes, settling, sweeping, List.append_assoc]
  rfl

/-! ## What is there after it -/

/-- A report is written only if it is assembled. -/
theorem exists_of_writeReport_mem_changes {id : SessionId} {tier : Tier} {contents : Bytes}
    (h : .writeReport id tier contents ∈ p.changes v) :
    ∃ a ∈ p.assembled v, a.id = id ∧ p.written a = .ok contents := by
  cases mem_changes_iff.1 h with
  | settle h =>
    cases h with
    | write ha _ hwritten => exact ⟨_, ha, rfl, hwritten⟩

theorem finalizes_of_mem_changes {c : Change} (h : c ∈ p.changes v) : c.Finalizes := by
  cases mem_changes_iff.1 h with
  | settle h => cases h <;> trivial
  | drop => trivial

/-- Who is open after a pass was open before. -/
theorem open_of_mem_after {id : SessionId} (h : id ∈ (v.after (p.changes v)).sessions) :
    id ∈ v.sessions := by
  obtain ⟨files, hfiles⟩ := Finmap.mem_iff.1 h
  rw [Vault.lookup_after_of_finalizes fun c hc => finalizes_of_mem_changes hc] at hfiles
  split at hfiles
  · exact absurd hfiles (by simp)
  · exact Finmap.mem_iff.2 ⟨files, hfiles⟩

/-- A session that a pass closes is closed after it. -/
theorem not_mem_after_of_deleteSession_mem {id : SessionId} (h : .deleteSession id ∈ p.changes v) :
    id ∉ (v.after (p.changes v)).sessions := by
  rw [← Finmap.lookup_eq_none,
    Vault.lookup_after_of_finalizes fun c hc => finalizes_of_mem_changes hc, if_pos h]

/-- Before any report is deleted, all that is done to the report of a session is that it is written.
-/
theorem sparesReport_or_eq {a : Assembled} {contents : Bytes} (ha : a ∈ p.assembled v)
    (hwritten : p.written a = .ok contents) {c : Change} (hc : c ∈ p.settling v) :
    c.SparesReport a.id ∨ c = .writeReport a.id a.tier contents := by
  cases mem_settling_iff.1 hc with
  | discard => exact Or.inl trivial
  | close => exact Or.inl trivial
  | @write b found hb _ hfound =>
    by_cases he : b.id = a.id
    · obtain rfl := eq_of_mem_assembled hb ha he
      rw [hwritten, Except.ok.injEq] at hfound
      exact Or.inr (by rw [hfound])
    · exact Or.inl he

/-- Nothing is done to the report of a session that none is written for. -/
theorem sparesReport_of_not_written {id : SessionId}
    (h : ∀ a ∈ p.assembled v, a.id = id →
      (p.verdict v).isEvicted id = true ∨ ∀ contents, p.written a ≠ .ok contents)
    {c : Change} (hc : c ∈ p.settling v) : c.SparesReport id := by
  cases mem_settling_iff.1 hc with
  | discard => trivial
  | close => trivial
  | @write a contents ha hplace hwritten =>
    rintro rfl
    exact (h a ha rfl).elim (by simp [hplace]) fun hnone => hnone contents hwritten

/-- Such a report is there before any report is deleted, in its tier only. -/
theorem lookup_settling {a : Assembled} {contents : Bytes} (ha : a ∈ p.assembled v)
    (hplace : (p.verdict v).isEvicted a.id = false) (hwritten : p.written a = .ok contents)
    (t : Tier) :
    ((v.after (p.settling v)).reports t).lookup a.id = if t = a.tier then some contents else none
    := by
  rw [Vault.lookup_reports_after_of_written fun c hc => sparesReport_or_eq ha hwritten hc,
    if_pos (mem_settling_iff.2 (.write ha hplace hwritten))]

/-- The report of a session that none is written for stays as it is. -/
theorem lookup_settling_of_not_written {id : SessionId}
    (h : ∀ a ∈ p.assembled v, a.id = id →
      (p.verdict v).isEvicted id = true ∨ ∀ contents, p.written a ≠ .ok contents) (t : Tier) :
    ((v.after (p.settling v)).reports t).lookup id = (v.reports t).lookup id :=
  Vault.lookup_reports_after (fun _ hc => sparesReport_of_not_written h hc) t

/-! ## Without failures -/

/-- A pass in which no call fails. -/
def plain (place : Location) (caps : Caps) (current : Option SessionId) (time : Int64) : Pass :=
  ⟨.plain place, caps, current, time⟩

variable {place : Location} {caps : Caps} {current : Option SessionId} {time : Int64}

theorem written_plain (a : Assembled) :
    (plain place caps current time).written a = .ok a.report.encode := rfl

/-! ## Directories -/

/-- A pass over a directory that holds the vault makes the same changes. -/
theorem finalize_directory {top : Node} (h : v.IsHeldIn p.place top) :
    let run := Engine.finalize ⟨p.place.store.failing p.fails, p.codec⟩ p.caps p.current p.time top
    run.1 = p.summary v ∧ (v.after (p.changes v)).IsHeldIn p.place run.2 := by
  obtain ⟨hanswer, -, hheld⟩ := Engine.agree_finalize (k := p.codec) p.agrees_directory
    Engine.allowsPass_isProper p.caps p.current p.time top (v, []) h
  have hrun : Engine.finalize ⟨p.store.logged, p.codec⟩ p.caps p.current p.time (v, []) =
      (p.summary v, v.after (p.changes v), [] ++ p.changes v) := run_finalize h.isWellFormed []
  rw [hrun] at hanswer hheld
  exact ⟨hanswer, hheld⟩

/-- The log of such a pass is that of the changes. -/
theorem run_finalize_directory {top : Node} (h : v.IsHeldIn p.place top) (log : List Change) :
    let run := Engine.finalize ⟨(p.place.store.failing p.fails).logged, p.codec⟩ p.caps p.current
      p.time (top, log)
    (v.after (p.changes v)).IsHeldIn p.place run.2.1 ∧ run.2.2 = log ++ p.changes v := by
  obtain ⟨-, -, hheld, hlog⟩ := Engine.agree_finalize (k := p.codec) p.agrees_logged_directory
    Engine.allowsPass_isProper p.caps p.current p.time (top, log) (v, log) ⟨h, rfl⟩
  have hrun : Engine.finalize ⟨p.store.logged, p.codec⟩ p.caps p.current p.time (v, log) =
      (p.summary v, v.after (p.changes v), log ++ p.changes v) := run_finalize h.isWellFormed log
  rw [hrun] at hheld hlog
  exact ⟨hheld, hlog⟩

theorem engine_plain :
    (⟨((plain place caps current time).place.store.failing
      (plain place caps current time).fails).logged, (plain place caps current time).codec⟩ :
        Engine (StateM (Node × List Change))) = ⟨place.store.logged, .json⟩ := rfl

/-- Without failures the log of a pass over a directory is that of its changes. -/
theorem log_finalize_plain {top : Node} (h : v.IsHeldIn place top) :
    (Engine.finalize ⟨place.store.logged, .json⟩ caps current time (top, [])).2.2 =
      (plain place caps current time).changes v := by
  have hlog := (run_finalize_directory (p := plain place caps current time) h []).2
  rw [List.nil_append, engine_plain] at hlog
  dsimp only [plain] at hlog ⊢
  exact hlog

end Pass

end ReportVault
