import ReportVault.Engine.Finalize
import ReportVault.Engine.Native
import ReportVault.Engine.Persist
import ReportVault.Proofs.Run
import ReportVault.Proofs.Store.EventNames
import ReportVault.Proofs.Store.Held

/-!
# ReportVault.Proofs.Engine.Simulation

An engine over a store that answers as another one does what the engine over the other one does.

`Agree S Q x y` relates two computations on states of two kinds: from related states both give the
same answer, the answer satisfies `Q`, and the states are related again.  If two stores agree on
the calls that an operation of the engine makes, the two runs of the operation agree.  The stores
may be a directory and the vault that it holds, two vaults that differ where the operation does
not look, or a store and the same store with a log of its calls.
-/

namespace ReportVault

open FileSystem

variable {σ τ α β : Type}

/-! ## Agreement -/

/-- From related states both computations give the same answer, which satisfies `Q`, and the states
after them are related. -/
def Agree (S : σ → τ → Prop) (Q : α → Prop) (x : StateM σ α) (y : StateM τ α) : Prop :=
  ∀ s t, S s t → (x s).1 = (y t).1 ∧ Q (x s).1 ∧ S (x s).2 (y t).2

/-- The same for computations that may fail: a success satisfies `Q`. -/
def AgreeExcept (S : σ → τ → Prop) (Q : α → Prop) (x : ExceptT Failure (StateM σ) α)
    (y : ExceptT Failure (StateM τ) α) : Prop :=
  Agree S (fun r => ∀ a, r = .ok a → Q a) x.run y.run

/-- Nothing is said of an answer. -/
abbrev Whatever (_ : α) : Prop := True

namespace Agree

variable {S : σ → τ → Prop} {P : β → Prop} {Q : α → Prop}

theorem pure {a : α} (ha : Q a) : Agree S Q (Pure.pure a) (Pure.pure a) :=
  fun _ _ h => ⟨rfl, ha, h⟩

theorem bind {x : StateM σ α} {y : StateM τ α} {f : α → StateM σ β} {g : α → StateM τ β}
    (hx : Agree S Q x y) (hf : ∀ a, Q a → Agree S P (f a) (g a)) :
    Agree S P (x >>= f) (y >>= g) := by
  intro s t h
  obtain ⟨heq, hq, hs⟩ := hx s t h
  have hrest := hf _ hq _ _ hs
  rw [stateM_bind, stateM_bind, ← heq]
  exact hrest

theorem mono {R : α → Prop} {x : StateM σ α} {y : StateM τ α} (hx : Agree S Q x y)
    (h : ∀ a, Q a → R a) : Agree S R x y := by
  intro s t hs
  obtain ⟨heq, hq, hafter⟩ := hx s t hs
  exact ⟨heq, h _ hq, hafter⟩

theorem mapM {f : β → StateM σ α} {g : β → StateM τ α} (l : List β)
    (h : ∀ b ∈ l, Agree S Q (f b) (g b)) :
    Agree S (fun as => ∀ a ∈ as, Q a) (l.mapM f) (l.mapM g) := by
  induction l with
  | nil => exact pure (by simp)
  | cons b l ih =>
    rw [List.mapM_cons, List.mapM_cons]
    refine bind (h b List.mem_cons_self) fun a ha => ?_
    refine bind (ih fun c hc => h c (List.mem_cons_of_mem _ hc)) fun as has => ?_
    exact pure (by simpa using ⟨ha, has⟩)

theorem forM {f : β → StateM σ Unit} {g : β → StateM τ Unit} (l : List β)
    (h : ∀ b ∈ l, Agree S Whatever (f b) (g b)) : Agree S Whatever (l.forM f) (l.forM g) := by
  induction l with
  | nil => exact pure trivial
  | cons b l ih =>
    show Agree S Whatever (f b >>= fun _ => l.forM f) (g b >>= fun _ => l.forM g)
    exact bind (h b List.mem_cons_self) fun _ _ => ih fun c hc => h c (List.mem_cons_of_mem _ hc)

end Agree

namespace AgreeExcept

variable {S : σ → τ → Prop} {P : β → Prop} {Q : α → Prop}

theorem pure {a : α} (ha : Q a) : AgreeExcept S Q (Pure.pure a) (Pure.pure a) :=
  fun _ _ h => ⟨rfl, fun _ hb => Except.ok.inj hb ▸ ha, h⟩

theorem throw (failure : Failure) :
    AgreeExcept S Q (MonadExcept.throw failure) (MonadExcept.throw failure) :=
  fun _ _ h => ⟨rfl, fun _ hb => (by cases hb), h⟩

/-- From related states both fail in the same way, or both succeed with the same answer. -/
theorem exists_run {x : ExceptT Failure (StateM σ) α} {y : ExceptT Failure (StateM τ) α}
    (hx : AgreeExcept S Q x y) {s : σ} {t : τ} (h : S s t) :
    ∃ r s' t', x.run s = (r, s') ∧ y.run t = (r, t') ∧ (∀ a, r = .ok a → Q a) ∧ S s' t' := by
  obtain ⟨heq, hq, hs⟩ := hx s t h
  exact ⟨_, _, _, rfl, Prod.ext heq.symm rfl, hq, hs⟩

theorem bind {x : ExceptT Failure (StateM σ) α} {y : ExceptT Failure (StateM τ) α}
    {f : α → ExceptT Failure (StateM σ) β} {g : α → ExceptT Failure (StateM τ) β}
    (hx : AgreeExcept S Q x y) (hf : ∀ a, Q a → AgreeExcept S P (f a) (g a)) :
    AgreeExcept S P (x >>= f) (y >>= g) := by
  intro s t h
  obtain ⟨r, s', t', hrun, hother, hq, hs⟩ := hx.exists_run h
  cases r with
  | error failure =>
    rw [run_bind_of_error hrun, run_bind_of_error hother]
    exact ⟨rfl, fun _ hb => (by cases hb), hs⟩
  | ok a =>
    rw [run_bind_of_ok hrun, run_bind_of_ok hother]
    exact hf a (hq a rfl) _ _ hs

/-- What cannot fail. -/
theorem lift {x : StateM σ α} {y : StateM τ α} (hx : Agree S Q x y) :
    AgreeExcept S Q (liftM x) (liftM y) := by
  intro s t h
  obtain ⟨heq, hq, hs⟩ := hx s t h
  rw [run_liftM_state, run_liftM_state]
  exact ⟨congrArg _ heq, fun _ hb => Except.ok.inj hb ▸ hq, hs⟩

/-- A failure is handled in the same way on both sides. -/
theorem tryCatch {x : ExceptT Failure (StateM σ) α} {y : ExceptT Failure (StateM τ) α}
    {f : Failure → ExceptT Failure (StateM σ) α} {g : Failure → ExceptT Failure (StateM τ) α}
    (hx : AgreeExcept S Q x y) (hf : ∀ failure, AgreeExcept S Q (f failure) (g failure)) :
    AgreeExcept S Q (MonadExcept.tryCatch x f) (MonadExcept.tryCatch y g) := by
  intro s t h
  obtain ⟨r, s', t', hrun, hother, hq, hs⟩ := hx.exists_run h
  cases r with
  | ok a =>
    rw [run_tryCatch_of_ok hrun, run_tryCatch_of_ok hother]
    exact ⟨rfl, hq, hs⟩
  | error failure =>
    rw [run_tryCatch_of_error hrun, run_tryCatch_of_error hother]
    exact hf failure _ _ hs

theorem mono {R : α → Prop} {x : ExceptT Failure (StateM σ) α} {y : ExceptT Failure (StateM τ) α}
    (hx : AgreeExcept S Q x y) (h : ∀ a, Q a → R a) : AgreeExcept S R x y :=
  Agree.mono hx fun _ hr a ha => h a (hr a ha)

/-- What does not use the state. -/
theorem liftExcept_eq (x : Except Failure α) :
    AgreeExcept S (fun a => x = .ok a) (liftM x : ExceptT Failure (StateM σ) α)
      (liftM x : ExceptT Failure (StateM τ) α) :=
  fun _ _ h => ⟨rfl, fun _ ha => ha, h⟩

theorem liftExcept (x : Except Failure α) :
    AgreeExcept S Whatever (liftM x : ExceptT Failure (StateM σ) α)
      (liftM x : ExceptT Failure (StateM τ) α) :=
  (liftExcept_eq x).mono fun _ _ => trivial

theorem forM {f : β → ExceptT Failure (StateM σ) Unit} {g : β → ExceptT Failure (StateM τ) Unit}
    (l : List β) (h : ∀ b ∈ l, AgreeExcept S Whatever (f b) (g b)) :
    AgreeExcept S Whatever (l.forM f) (l.forM g) := by
  induction l with
  | nil => exact pure trivial
  | cons b l ih =>
    show AgreeExcept S Whatever (f b >>= fun _ => l.forM f) (g b >>= fun _ => l.forM g)
    exact bind (h b List.mem_cons_self) fun _ _ => ih fun c hc => h c (List.mem_cons_of_mem _ hc)

end AgreeExcept

/-! ## Stores -/

/-- Two stores agree on the calls that `P` allows. -/
def Store.Agrees (S : σ → τ → Prop) (P : {α : Type} → Store.Call α → Prop)
    (s : Store (StateM σ)) (t : Store (StateM τ)) : Prop :=
  ∀ {α : Type} (call : Store.Call α), P call →
    AgreeExcept S call.IsProperAnswer (s.perform call) (t.perform call)

/-- The files of a session that hold no event. -/
def SessionFile.all : List String := [header, startTime, correlation, user, priority]

/-- None of these is an event file. -/
theorem SessionFile.ofFileName?_eq_none :
    ∀ name ∈ SessionFile.all, Slot.ofFileName? name = none := by decide

theorem SessionFile.not_mem_all {name : String} {slot : Slot}
    (h : Slot.ofFileName? name = some slot) : name ∉ SessionFile.all := fun hmem => by
  simp [ofFileName?_eq_none name hmem] at h

theorem isEntryName_sessionFile (name : String) (h : name ∈ SessionFile.all) :
    IsEntryName name ∧ IsVisible name := by
  simp only [SessionFile.all, List.mem_cons, List.not_mem_nil, or_false] at h
  rcases h with rfl | rfl | rfl | rfl | rfl <;> refine ⟨?_, by decide⟩ <;> constructor <;> decide

namespace Engine

variable {S : σ → τ → Prop} {P : {α : Type} → Store.Call α → Prop} {k : Codec}
  {s : Store (StateM σ)} {t : Store (StateM τ)} {id : SessionId}

/-- Whatever an operation makes of its failure. -/
theorem agree_succeeds? {Q : α → Prop} {x : ExceptT Failure (StateM σ) α}
    {y : ExceptT Failure (StateM τ) α} (hx : AgreeExcept S Q x y) :
    Agree S (fun r => ∀ a, r = some a → Q a) (succeeds? x) (succeeds? y) := by
  refine Agree.bind hx fun r hr => ?_
  cases r with
  | ok a => exact Agree.pure fun b hb => Option.some.inj hb ▸ hr a rfl
  | error failure => exact Agree.pure (by simp)

theorem agree_attempt (h : Store.Agrees S P s t) {call : Store.Call Unit} (hcall : P call) :
    Agree S Whatever (attempt ⟨s, k⟩ call) (attempt ⟨t, k⟩ call) :=
  Agree.bind (h call hcall) fun _ _ => Agree.pure trivial

/-- A report is assembled for the session that it is about. -/
theorem Assembled.id_ofParts (id : SessionId) (time : Int64) (marked : Bool) (header : Report)
    (events : List Event) (user correlation : Option String) (recorded : Option Report) :
    (Assembled.ofParts id time marked header events user correlation recorded).id = id := by
  unfold Assembled.ofParts
  cases recorded.filter fun r => r.nativePayload.isSome <;> rfl

/-! ## Reading -/

/-- The calls that read the files of a session are allowed. -/
def AllowsFiles (P : {α : Type} → Store.Call α → Prop) (id : SessionId) : Prop :=
  P (.slots id) ∧ ∀ name, IsEntryName name → P (.read id name)

/-- A header is read from the contents of its file. -/
theorem agree_readHeader_of_read {C : Bytes → Prop}
    (hread : AgreeExcept S (fun found => ∀ contents, found = some contents → C contents)
      (s.perform (.read id SessionFile.header)) (t.perform (.read id SessionFile.header))) :
    AgreeExcept S (fun header => ∃ contents, C contents ∧ k.decodeReport contents = .ok header)
      (readHeader ⟨s, k⟩ id) (readHeader ⟨t, k⟩ id) := by
  refine AgreeExcept.bind hread fun contents hcontents => ?_
  cases contents with
  | none => exact AgreeExcept.throw _
  | some bs =>
    exact (AgreeExcept.liftExcept_eq _).mono fun header hheader =>
      ⟨bs, hcontents bs rfl, hheader⟩

theorem agree_readHeader (h : Store.Agrees S P s t) (hP : AllowsFiles P id) :
    AgreeExcept S Whatever (readHeader ⟨s, k⟩ id) (readHeader ⟨t, k⟩ id) := by
  have hname := isEntryName_sessionFile SessionFile.header (by decide)
  exact (agree_readHeader_of_read (C := Whatever)
    ((h _ (hP.2 _ hname.1)).mono fun _ _ _ _ => trivial)).mono fun _ _ => trivial

theorem agree_readEvent_of_read (h : Store.Agrees S P s t) {slot : Slot}
    (hread : P (.read id slot.fileName)) :
    Agree S Whatever (readEvent ⟨s, k⟩ id slot) (readEvent ⟨t, k⟩ id slot) := by
  refine Agree.bind (agree_succeeds? (Q := Whatever) ?_) fun _ _ => Agree.pure trivial
  refine AgreeExcept.bind (h _ hread) fun contents _ => ?_
  cases contents with
  | none => exact AgreeExcept.pure trivial
  | some bs =>
    exact AgreeExcept.bind (AgreeExcept.liftExcept _) fun _ _ => AgreeExcept.pure trivial

theorem agree_readEvent (h : Store.Agrees S P s t) (hP : AllowsFiles P id) {slot : Slot}
    (hslot : IsEntryName slot.fileName) :
    Agree S Whatever (readEvent ⟨s, k⟩ id slot) (readEvent ⟨t, k⟩ id slot) :=
  agree_readEvent_of_read h (hP.2 _ hslot)

theorem agree_readEvents_of_reads (h : Store.Agrees S P s t) {slots : List Slot}
    (hreads : ∀ slot ∈ slots, P (.read id slot.fileName)) :
    Agree S Whatever (readEvents ⟨s, k⟩ id slots) (readEvents ⟨t, k⟩ id slots) :=
  Agree.bind (Agree.mapM slots fun slot hslot => agree_readEvent_of_read h (hreads slot hslot))
    fun _ _ => Agree.pure trivial

theorem agree_readText_of_read (h : Store.Agrees S P s t) {name : String}
    (hread : P (.read id name)) :
    Agree S Whatever (readText ⟨s, k⟩ id name) (readText ⟨t, k⟩ id name) :=
  Agree.bind (agree_succeeds? (h _ hread)) fun _ _ => Agree.pure trivial

theorem agree_readText (h : Store.Agrees S P s t) (hP : AllowsFiles P id) {name : String}
    (hname : IsEntryName name) :
    Agree S Whatever (readText ⟨s, k⟩ id name) (readText ⟨t, k⟩ id name) :=
  agree_readText_of_read h (hP.2 _ hname)

theorem agree_hasPriorityMark (h : Store.Agrees S P s t) (hP : P (.read id SessionFile.priority)) :
    Agree S Whatever (hasPriorityMark ⟨s, k⟩ id) (hasPriorityMark ⟨t, k⟩ id) :=
  Agree.bind (agree_succeeds? (h _ hP)) fun _ _ => Agree.pure trivial

/-- A report is read from the contents of its file. -/
theorem agree_readFinalized_of_read {C : Bytes → Prop}
    (hread : AgreeExcept S (fun found => ∀ e, found = some e → C e.2)
      (s.perform (.readReport id)) (t.perform (.readReport id))) :
    Agree S (fun r => ∀ report, r = some report →
        ∃ contents, C contents ∧ k.decodeReport contents = .ok report)
      (readFinalized ⟨s, k⟩ id) (readFinalized ⟨t, k⟩ id) := by
  refine Agree.bind (agree_succeeds? (Q := fun r => ∀ report, r = some report →
    ∃ contents, C contents ∧ k.decodeReport contents = .ok report) ?_) fun r hr => ?_
  · refine AgreeExcept.bind hread fun found hfound => ?_
    cases found with
    | none => exact AgreeExcept.pure (by simp)
    | some found =>
      exact AgreeExcept.bind (AgreeExcept.liftExcept_eq _) fun report hreport =>
        AgreeExcept.pure fun _ he => Option.some.inj he ▸ ⟨found.2, hfound found rfl, hreport⟩
  · exact Agree.pure fun report hreport => hr _ (Option.join_eq_some_iff.1 hreport) report rfl

theorem agree_readFinalized (h : Store.Agrees S P s t) (hP : P (.readReport id)) :
    Agree S Whatever (readFinalized ⟨s, k⟩ id) (readFinalized ⟨t, k⟩ id) :=
  (agree_readFinalized_of_read (C := Whatever) ((h _ hP).mono fun _ _ _ _ => trivial)).mono
    fun _ _ => trivial

theorem agree_isMarked (h : Store.Agrees S P s t) (hP : P (.read id SessionFile.priority))
    (slots : List Slot) :
    Agree S Whatever (isMarked ⟨s, k⟩ id slots) (isMarked ⟨t, k⟩ id slots) := by
  unfold isMarked
  split
  · exact Agree.pure trivial
  · exact agree_hasPriorityMark h hP

/-- What is assembled is made from a header that was read; the event files that are read are
listed. -/
theorem agree_assemble_of_slots (h : Store.Agrees S P s t)
    (hslots : AgreeExcept S (fun found => ∀ slot ∈ found, P (.read id slot.fileName))
      (s.perform (.slots id)) (t.perform (.slots id)))
    (hfiles : ∀ name ∈ SessionFile.all, P (.read id name)) {H : Report → Prop}
    (hheader : AgreeExcept S H (readHeader ⟨s, k⟩ id) (readHeader ⟨t, k⟩ id))
    (hreport : P (.readReport id)) (time : Int64) (cap : Nat) :
    AgreeExcept S
      (fun r => ∀ a, r = some a → ∃ marked header events user correlation recorded, H header ∧
        a = Assembled.ofParts id time marked header events user correlation recorded)
      (assemble ⟨s, k⟩ id time cap) (assemble ⟨t, k⟩ id time cap) := by
  have hmark := hfiles SessionFile.priority (by decide)
  have huser := hfiles SessionFile.user (by decide)
  have hcorrelation := hfiles SessionFile.correlation (by decide)
  refine AgreeExcept.bind hslots fun slots hslots => ?_
  have hkept : ∀ slot ∈ Retention.keepNewest slots cap, P (.read id slot.fileName) := by
    intro slot hslot
    rw [Retention.keepNewest_eq_drop] at hslot
    exact hslots slot (List.mem_of_mem_drop hslot)
  split
  · exact AgreeExcept.pure (by simp)
  · refine AgreeExcept.bind (AgreeExcept.lift (agree_isMarked h hmark slots)) fun marked _ => ?_
    refine AgreeExcept.bind hheader fun header hheader => ?_
    refine AgreeExcept.bind (AgreeExcept.lift (agree_readEvents_of_reads h hkept))
      fun events _ => ?_
    refine AgreeExcept.bind (AgreeExcept.lift (agree_readText_of_read h huser)) fun user _ => ?_
    refine AgreeExcept.bind (AgreeExcept.lift (agree_readText_of_read h hcorrelation))
      fun correlation _ => ?_
    refine AgreeExcept.bind (AgreeExcept.lift (agree_readFinalized h hreport)) fun recorded _ => ?_
    refine AgreeExcept.pure fun a ha => ?_
    obtain ⟨-, ha⟩ := Option.ite_none_right_eq_some.1 ha
    exact ⟨marked, header, events, user, correlation, recorded, hheader, (Option.some.inj ha).symm⟩

theorem agree_assemble_of_header (h : Store.Agrees S P s t) (hP : AllowsFiles P id)
    {H : Report → Prop} (hheader : AgreeExcept S H (readHeader ⟨s, k⟩ id) (readHeader ⟨t, k⟩ id))
    (hreport : P (.readReport id)) (time : Int64) (cap : Nat) :
    AgreeExcept S
      (fun r => ∀ a, r = some a → ∃ marked header events user correlation recorded, H header ∧
        a = Assembled.ofParts id time marked header events user correlation recorded)
      (assemble ⟨s, k⟩ id time cap) (assemble ⟨t, k⟩ id time cap) :=
  agree_assemble_of_slots h
    ((h _ hP.1).mono fun _ hfound slot hslot => hP.2 _ (hfound slot hslot).1)
    (fun name hname => hP.2 name (isEntryName_sessionFile name hname).1) hheader hreport time cap

theorem agree_assemble (h : Store.Agrees S P s t) (hP : AllowsFiles P id)
    (hreport : P (.readReport id)) (time : Int64) (cap : Nat) :
    AgreeExcept S (fun r => ∀ a, r = some a → a.id = id) (assemble ⟨s, k⟩ id time cap)
      (assemble ⟨t, k⟩ id time cap) := by
  refine (agree_assemble_of_header h hP (agree_readHeader h hP) hreport time cap).mono
    fun r hr a ha => ?_
  obtain ⟨marked, header, events, user, correlation, recorded, -, rfl⟩ := hr a ha
  exact Assembled.id_ofParts ..

/-! ## Storing -/

/-- The calls that write the files of a session other than those of events are allowed. -/
def AllowsRecords (P : {α : Type} → Store.Call α → Prop) (id : SessionId) : Prop :=
  ∀ name ∈ SessionFile.all, ∀ contents, P (.write id name contents)

/-- The calls by which the files of a session change are allowed. -/
structure AllowsStoring (P : {α : Type} → Store.Call α → Prop) (id : SessionId) : Prop where
  slots : P (.slots id)
  write : ∀ name contents, IsEntryName name ∧ IsVisible name → P (.write id name contents)
  delete : ∀ name, IsEntryName name → P (.delete id name)

theorem AllowsStoring.records (h : AllowsStoring P id) : AllowsRecords P id :=
  fun name hname contents => h.write name contents (isEntryName_sessionFile name hname)

/-- A header is stored by two writes. -/
theorem agree_persistReport_of_encode (h : Store.Agrees S P s t) {report : Report}
    (hheader : ∀ contents, k.encodeReport report = .ok contents →
      P (.write report.id SessionFile.header contents))
    (hstart : ∀ contents, P (.write report.id SessionFile.startTime contents)) :
    Agree S Whatever (persistReport ⟨s, k⟩ report) (persistReport ⟨t, k⟩ report) := by
  refine Agree.bind (agree_succeeds? (Q := Whatever) ?_) fun _ _ => Agree.pure trivial
  refine AgreeExcept.bind (AgreeExcept.liftExcept_eq _) fun contents hcontents => ?_
  refine AgreeExcept.bind (h _ (hheader contents hcontents)) fun _ _ => ?_
  exact (h _ (hstart _)).mono fun _ _ => trivial

theorem agree_persistReport_of_writes (h : Store.Agrees S P s t) {report : Report}
    (hheader : ∀ contents, P (.write report.id SessionFile.header contents))
    (hstart : ∀ contents, P (.write report.id SessionFile.startTime contents)) :
    Agree S Whatever (persistReport ⟨s, k⟩ report) (persistReport ⟨t, k⟩ report) :=
  agree_persistReport_of_encode h (fun contents _ => hheader contents) hstart

theorem agree_persistReport (h : Store.Agrees S P s t) {report : Report}
    (hP : AllowsRecords P report.id) :
    Agree S Whatever (persistReport ⟨s, k⟩ report) (persistReport ⟨t, k⟩ report) :=
  agree_persistReport_of_writes h (hP SessionFile.header (by decide))
    (hP SessionFile.startTime (by decide))

/-- An event is stored by writing its own file and two others that are written beside it, and the
files that are removed afterwards are listed or new. -/
theorem agree_tryPersistEvent_of_slots (h : Store.Agrees S P s t)
    (hslots : AgreeExcept S (fun found => ∀ slot ∈ found, P (.delete id slot.fileName))
      (s.perform (.slots id)) (t.perform (.slots id)))
    {high : Bool} (hevent : ∀ sequence contents, P (.write id (Slot.name sequence high) contents))
    (hmark : ∀ contents, P (.write id SessionFile.priority contents))
    (hcorrelation : ∀ contents, P (.write id SessionFile.correlation contents))
    (hnew : ∀ sequence, P (.delete id (Slot.name sequence high)))
    (caps : Retention.Caps) (correlation : Option String) (event : Event) :
    AgreeExcept S Whatever (tryPersistEvent ⟨s, k⟩ caps correlation event id high)
      (tryPersistEvent ⟨t, k⟩ caps correlation event id high) := by
  refine AgreeExcept.bind (AgreeExcept.liftExcept _) fun contents _ => ?_
  refine AgreeExcept.bind hslots fun slots hslots => ?_
  refine AgreeExcept.bind (AgreeExcept.liftExcept _) fun sequence _ => ?_
  refine AgreeExcept.bind (h _ (hevent sequence contents)) fun _ _ => ?_
  have htrim : AgreeExcept S Whatever
      ((Retention.splitOldest (slots ++ [Slot.new sequence high]) caps.events).1.forM fun old =>
        liftM (attempt ⟨s, k⟩ (.delete id old.fileName)))
      ((Retention.splitOldest (slots ++ [Slot.new sequence high]) caps.events).1.forM fun old =>
        liftM (attempt ⟨t, k⟩ (.delete id old.fileName))) := by
    refine AgreeExcept.forM _ fun old hold => AgreeExcept.lift (agree_attempt h ?_)
    rw [Retention.splitOldest_fst] at hold
    rcases List.mem_append.1 (List.mem_of_mem_take hold) with hmem | hmem
    · exact hslots old hmem
    · rw [List.mem_singleton.1 hmem]
      exact hnew sequence
  dsimp only
  split
  · refine AgreeExcept.bind (h _ (hmark _)) fun _ _ => ?_
    cases correlation with
    | none => exact htrim
    | some value => exact AgreeExcept.bind (h _ (hcorrelation _)) fun _ _ => htrim
  · cases correlation with
    | none => exact htrim
    | some value => exact AgreeExcept.bind (h _ (hcorrelation _)) fun _ _ => htrim

/-- The same where the names that are listed are those of event files. -/
theorem agree_tryPersistEvent_of_writes (h : Store.Agrees S P s t) (hslots : P (.slots id))
    (hevent : ∀ sequence high contents, P (.write id (Slot.name sequence high) contents))
    (hmark : ∀ contents, P (.write id SessionFile.priority contents))
    (hcorrelation : ∀ contents, P (.write id SessionFile.correlation contents))
    (hdelete : ∀ name slot, IsEntryName name → Slot.ofFileName? name = some slot →
      P (.delete id name))
    (caps : Retention.Caps) (correlation : Option String) (event : Event) (high : Bool) :
    AgreeExcept S Whatever (tryPersistEvent ⟨s, k⟩ caps correlation event id high)
      (tryPersistEvent ⟨t, k⟩ caps correlation event id high) :=
  agree_tryPersistEvent_of_slots h
    ((h _ hslots).mono fun _ hfound slot hslot =>
      hdelete _ slot (hfound slot hslot).1 (hfound slot hslot).2)
    (fun sequence => hevent sequence high) hmark hcorrelation
    (fun sequence => hdelete _ _ (Slot.isEntryName_name sequence high).1
      (Slot.ofFileName?_name sequence high)) caps correlation event

theorem agree_tryPersistEvent (h : Store.Agrees S P s t) (hP : AllowsStoring P id)
    (caps : Retention.Caps) (correlation : Option String) (event : Event) (high : Bool) :
    AgreeExcept S Whatever (tryPersistEvent ⟨s, k⟩ caps correlation event id high)
      (tryPersistEvent ⟨t, k⟩ caps correlation event id high) :=
  agree_tryPersistEvent_of_writes h hP.slots
    (fun sequence high contents => hP.write _ contents (Slot.isEntryName_name sequence high))
    (hP.records SessionFile.priority (by decide)) (hP.records SessionFile.correlation (by decide))
    (fun name _ hname _ => hP.delete name hname) caps correlation event high

theorem agree_persistEvent (h : Store.Agrees S P s t) (hP : AllowsStoring P id)
    (caps : Retention.Caps) (correlation : Option String) (event : Event) (high : Bool) :
    Agree S Whatever (persistEvent ⟨s, k⟩ caps correlation event id high)
      (persistEvent ⟨t, k⟩ caps correlation event id high) :=
  Agree.bind (agree_succeeds? (agree_tryPersistEvent h hP caps correlation event high))
    fun _ _ => Agree.pure trivial

theorem agree_persistUser (h : Store.Agrees S P s t) (hP : AllowsRecords P id) (user : String) :
    Agree S Whatever (persistUser ⟨s, k⟩ id user) (persistUser ⟨t, k⟩ id user) :=
  agree_attempt h (hP SessionFile.user (by decide) _)

/-! ## Finalizing -/

/-- A native crash is attached to what is made from a header, or to a report that was read; the
files that are read for the former are listed. -/
theorem agree_nativeBase_of_slots (h : Store.Agrees S P s t)
    (hslots : AgreeExcept S (fun found => ∀ slot ∈ found, P (.read id slot.fileName))
      (s.perform (.slots id)) (t.perform (.slots id)))
    (hcorrelation : P (.read id SessionFile.correlation)) {H R : Report → Prop}
    (hheader : AgreeExcept S H (readHeader ⟨s, k⟩ id) (readHeader ⟨t, k⟩ id))
    (hreport : Agree S (fun r => ∀ report, r = some report → R report)
      (readFinalized ⟨s, k⟩ id) (readFinalized ⟨t, k⟩ id)) :
    AgreeExcept S
      (fun base => base.2 = false ∧ R base.1 ∨ base.2 = true ∧ ∃ header correlation events,
        H header ∧ base.1 = (header.correlated correlation).withEvents events)
      (nativeBase ⟨s, k⟩ id) (nativeBase ⟨t, k⟩ id) := by
  refine AgreeExcept.bind (AgreeExcept.lift hheader) fun header hheader => ?_
  cases header with
  | ok header =>
    refine AgreeExcept.bind hslots fun slots hslots => ?_
    refine AgreeExcept.bind (AgreeExcept.lift (agree_readEvents_of_reads h hslots)) fun events _ => ?_
    refine AgreeExcept.bind (AgreeExcept.lift (agree_readText_of_read h hcorrelation))
      fun correlation _ => ?_
    exact AgreeExcept.pure
      (Or.inr ⟨rfl, header, correlation, events, hheader header rfl, rfl⟩)
  | error failure =>
    refine AgreeExcept.bind (AgreeExcept.lift hreport) fun recorded hrecorded => ?_
    cases recorded with
    | none => exact AgreeExcept.throw failure
    | some report => exact AgreeExcept.pure (Or.inl ⟨rfl, hrecorded report rfl⟩)

theorem agree_nativeBase_of_header (h : Store.Agrees S P s t) (hfiles : AllowsFiles P id)
    {H R : Report → Prop}
    (hheader : AgreeExcept S H (readHeader ⟨s, k⟩ id) (readHeader ⟨t, k⟩ id))
    (hreport : Agree S (fun r => ∀ report, r = some report → R report)
      (readFinalized ⟨s, k⟩ id) (readFinalized ⟨t, k⟩ id)) :
    AgreeExcept S
      (fun base => base.2 = false ∧ R base.1 ∨ base.2 = true ∧ ∃ header correlation events,
        H header ∧ base.1 = (header.correlated correlation).withEvents events)
      (nativeBase ⟨s, k⟩ id) (nativeBase ⟨t, k⟩ id) :=
  agree_nativeBase_of_slots h
    ((h _ hfiles.1).mono fun _ hfound slot hslot => hfiles.2 _ (hfound slot hslot).1)
    (hfiles.2 _ (isEntryName_sessionFile SessionFile.correlation (by decide)).1) hheader hreport

theorem agree_nativeBase (h : Store.Agrees S P s t) (hfiles : AllowsFiles P id)
    (hreport : P (.readReport id)) :
    AgreeExcept S Whatever (nativeBase ⟨s, k⟩ id) (nativeBase ⟨t, k⟩ id) :=
  (agree_nativeBase_of_header h hfiles (agree_readHeader h hfiles)
    ((agree_readFinalized h hreport).mono fun _ _ _ _ => trivial)).mono fun _ _ => trivial

/-- The calls by which a session is finalized are allowed. -/
structure AllowsFinalizing (P : {α : Type} → Store.Call α → Prop) (id : SessionId) : Prop where
  files : AllowsFiles P id
  readReport : P (.readReport id)
  writeReport : ∀ tier contents, P (.writeReport id tier contents)
  deleteSession : P (.deleteSession id)

/-- A native crash is written as what it was attached to. -/
theorem agree_finalizeNative_of_user (h : Store.Agrees S P s t)
    (huser : P (.read id SessionFile.user)) {B : Report → Prop}
    (hbase : AgreeExcept S (fun base => B base.1) (nativeBase ⟨s, k⟩ id) (nativeBase ⟨t, k⟩ id))
    (hdelete : P (.deleteSession id)) (caps : Retention.Caps) (payload : NativePayload)
    (info : Option ExitInfo)
    (hwrite : ∀ base user contents, B base →
      k.encodeReport (withNativeCrash base payload user info caps.events) = .ok contents →
        P (.writeReport id .native contents)) :
    Agree S Whatever (finalizeNative ⟨s, k⟩ caps id payload info)
      (finalizeNative ⟨t, k⟩ caps id payload info) := by
  refine Agree.bind (agree_succeeds? (Q := Whatever) ?_) fun _ _ => Agree.pure trivial
  refine AgreeExcept.bind hbase fun base hbase => ?_
  refine AgreeExcept.bind (AgreeExcept.lift (agree_readText_of_read h huser)) fun user _ => ?_
  refine AgreeExcept.bind (AgreeExcept.liftExcept_eq _) fun contents hcontents => ?_
  refine AgreeExcept.bind (h _ (hwrite base.1 user contents hbase hcontents)) fun _ _ => ?_
  split
  · exact AgreeExcept.lift (agree_attempt h hdelete)
  · exact AgreeExcept.pure trivial

theorem agree_finalizeNative_of_base (h : Store.Agrees S P s t) (hfiles : AllowsFiles P id)
    {B : Report → Prop}
    (hbase : AgreeExcept S (fun base => B base.1) (nativeBase ⟨s, k⟩ id) (nativeBase ⟨t, k⟩ id))
    (hdelete : P (.deleteSession id)) (caps : Retention.Caps) (payload : NativePayload)
    (info : Option ExitInfo)
    (hwrite : ∀ base user contents, B base →
      k.encodeReport (withNativeCrash base payload user info caps.events) = .ok contents →
        P (.writeReport id .native contents)) :
    Agree S Whatever (finalizeNative ⟨s, k⟩ caps id payload info)
      (finalizeNative ⟨t, k⟩ caps id payload info) :=
  agree_finalizeNative_of_user h
    (hfiles.2 _ (isEntryName_sessionFile SessionFile.user (by decide)).1) hbase hdelete caps payload
    info hwrite

theorem agree_finalizeNative (h : Store.Agrees S P s t) (hP : AllowsFinalizing P id)
    (caps : Retention.Caps) (payload : NativePayload) (info : Option ExitInfo) :
    Agree S Whatever (finalizeNative ⟨s, k⟩ caps id payload info)
      (finalizeNative ⟨t, k⟩ caps id payload info) :=
  agree_finalizeNative_of_base (B := Whatever) h hP.files
    (agree_nativeBase h hP.files hP.readReport) hP.deleteSession caps payload info
    fun _ _ contents _ _ => hP.writeReport .native contents

/-- What is said of an assembled report is said of what assembling a session answers. -/
theorem agree_assembleOrDelete_of_assemble (h : Store.Agrees S P s t) {Q : Assembled → Prop}
    {time : Int64} {cap : Nat}
    (hassemble : AgreeExcept S (fun r => ∀ a, r = some a → Q a) (assemble ⟨s, k⟩ id time cap)
      (assemble ⟨t, k⟩ id time cap)) (hdelete : P (.deleteSession id)) :
    Agree S (fun r => ∀ a, r.1 = some a → Q a) (assembleOrDelete ⟨s, k⟩ id time cap)
      (assembleOrDelete ⟨t, k⟩ id time cap) := by
  have hdelete := agree_attempt (k := k) h hdelete
  refine Agree.bind hassemble fun r hr => ?_
  match r with
  | .ok (some assembled) => exact Agree.pure fun a ha => hr _ rfl a ha
  | .ok none => exact Agree.bind hdelete fun _ _ => Agree.pure (by simp)
  | .error failure =>
    dsimp only
    split
    · exact Agree.bind hdelete fun _ _ => Agree.pure (by simp)
    · exact Agree.pure (by simp)

theorem agree_assembleOrDelete (h : Store.Agrees S P s t) (hP : AllowsFinalizing P id)
    (time : Int64) (cap : Nat) :
    Agree S (fun r => ∀ a, r.1 = some a → a.id = id) (assembleOrDelete ⟨s, k⟩ id time cap)
      (assembleOrDelete ⟨t, k⟩ id time cap) :=
  agree_assembleOrDelete_of_assemble h (agree_assemble h hP.files hP.readReport time cap)
    hP.deleteSession

theorem agree_place (h : Store.Agrees S P s t) (verdict : Retention.Verdict) {a : Assembled}
    (hwrite : ∀ contents, k.encodeReport a.report = .ok contents →
      P (.writeReport a.id a.tier contents)) (hdelete : P (.deleteSession a.id)) :
    Agree S Whatever (place ⟨s, k⟩ verdict a) (place ⟨t, k⟩ verdict a) := by
  have hdelete := agree_attempt (k := k) h hdelete
  have hwrite : AgreeExcept S Whatever (write ⟨s, k⟩ a) (write ⟨t, k⟩ a) :=
    AgreeExcept.bind (AgreeExcept.liftExcept_eq _) fun contents hcontents =>
      (h _ (hwrite contents hcontents)).mono fun _ _ => trivial
  unfold place
  split
  · exact Agree.bind hdelete fun _ _ => Agree.pure trivial
  · refine Agree.bind hwrite fun r _ => ?_
    cases r with
    | ok done => exact Agree.bind hdelete fun _ _ => Agree.pure trivial
    | error failure =>
      dsimp only
      split
      · exact Agree.bind hdelete fun _ _ => Agree.pure trivial
      · exact Agree.pure trivial

/-- What is said of the sessions that the call lists is said of those that an engine does. -/
theorem agree_finalizedIds_of_list {J : SessionId → Prop}
    (hlist : AgreeExcept S (fun entries => ∀ e ∈ entries, J e.1) (s.perform .reportIds)
      (t.perform .reportIds)) :
    Agree S (fun ids => ∀ e ∈ ids, J e.1) (finalizedIds ⟨s, k⟩) (finalizedIds ⟨t, k⟩) := by
  refine Agree.bind (agree_succeeds? hlist) fun r hr => ?_
  cases r with
  | none => exact Agree.pure (by simp)
  | some ids => exact Agree.pure (hr ids rfl)

theorem agree_finalizedIds (h : Store.Agrees S P s t) (hP : P .reportIds) :
    Agree S (fun ids => ∀ e ∈ ids, e.1.IsShort) (finalizedIds ⟨s, k⟩)
      (finalizedIds ⟨t, k⟩) :=
  agree_finalizedIds_of_list (h _ hP)

theorem agree_openIds_of_list {J : SessionId → Prop}
    (hopen : AgreeExcept S (fun ids => ∀ id ∈ ids, J id) (s.perform .openIds)
      (t.perform .openIds)) :
    Agree S (fun ids => ∀ id ∈ ids, J id) (openIds ⟨s, k⟩) (openIds ⟨t, k⟩) := by
  refine Agree.bind (agree_succeeds? hopen) fun r hr => ?_
  cases r with
  | none => exact Agree.pure (by simp)
  | some ids => exact Agree.pure (hr ids rfl)

theorem agree_openIds (h : Store.Agrees S P s t) (hP : P .openIds) :
    Agree S (fun ids => ∀ id ∈ ids, id.IsShort) (openIds ⟨s, k⟩) (openIds ⟨t, k⟩) :=
  agree_openIds_of_list (h _ hP)

/-- The calls of a pass are allowed: those by which the sessions that are listed are finalized, and
those by which reports are removed. -/
structure AllowsPass (P : {α : Type} → Store.Call α → Prop) : Prop where
  openIds : P .openIds
  reportIds : P .reportIds
  session : ∀ id : SessionId, id.IsShort → AllowsFinalizing P id
  deleteReport : ∀ id : SessionId, id.IsShort → P (.deleteReport id)

theorem agree_trimReports (h : Store.Agrees S P s t) {J : SessionId → Prop}
    (hlist : AgreeExcept S (fun entries => ∀ e ∈ entries, J e.1) (s.perform .reportIds)
      (t.perform .reportIds))
    (hdelete : ∀ id, J id → P (.deleteReport id)) (cap : Nat) :
    Agree S Whatever (trimReports ⟨s, k⟩ cap) (trimReports ⟨t, k⟩ cap) := by
  refine Agree.bind (agree_finalizedIds_of_list hlist) fun finalized hfinalized => ?_
  dsimp only
  split
  · exact Agree.pure trivial
  · refine Agree.bind (Agree.forM _ fun e he => ?_) fun _ _ => Agree.pure trivial
    exact agree_attempt h (hdelete _ (hfinalized e (List.mem_of_mem_filter he)))

/-- A pass up to the moment when reports are deleted: the sessions beyond the cap are counted, and
what became of the others is told by what assembling and placing answer. -/
def settle [Monad m] (e : Engine m) (caps : Retention.Caps) (current : Option SessionId)
    (time : Int64) : m (Nat × List (Option Assembled × Summary) × List Summary) := do
  let candidates := (← e.openIds).filter fun id => some id ≠ current
  let (surplus, kept) := Retention.splitOldest candidates caps.openSessions
  surplus.forM fun id => e.attempt (.deleteSession id)
  let results ← kept.mapM fun id => e.assembleOrDelete id time caps.events
  let assembled := results.filterMap (·.1)
  let finalized ← e.finalizedIds
  let verdict := Retention.selectSurvivors
    (assembled.map (fun a => rankOf a.id a.tier) ++ finalized.map fun (id, tier) => rankOf id tier)
    caps.reports
  let placed ← assembled.mapM (e.place verdict)
  return (surplus.length, results, placed)

/-- A pass settles the open sessions, and then it deletes reports. -/
theorem finalize_eq_settle (e : Engine (StateM σ)) (caps : Retention.Caps)
    (current : Option SessionId) (time : Int64) :
    e.finalize caps current time = e.settle caps current time >>= fun (surplus, results, placed) =>
      e.trimReports caps.reports >>= fun trimmed =>
        pure (.total ({ overOpenCap := surplus } :: trimmed :: results.map (·.2) ++ placed)) := rfl

/-- A pass assembles sessions that are listed, and places what it assembled. -/
theorem agree_settle_of_lists (h : Store.Agrees S P s t) {J : SessionId → Prop}
    (hopen : AgreeExcept S (fun ids => ∀ id ∈ ids, J id) (s.perform .openIds)
      (t.perform .openIds))
    (hlist : AgreeExcept S Whatever (s.perform .reportIds) (t.perform .reportIds))
    (hdelete : ∀ id, J id → P (.deleteSession id)) {Q : Assembled → Prop} (caps : Retention.Caps)
    (current : Option SessionId) (time : Int64)
    (hassemble : ∀ id, J id →
      Agree S (fun r => ∀ a, r.1 = some a → Q a) (assembleOrDelete ⟨s, k⟩ id time caps.events)
        (assembleOrDelete ⟨t, k⟩ id time caps.events))
    (hplace : ∀ verdict a, Q a → Agree S Whatever (place ⟨s, k⟩ verdict a)
      (place ⟨t, k⟩ verdict a)) :
    Agree S Whatever (settle ⟨s, k⟩ caps current time) (settle ⟨t, k⟩ caps current time) := by
  refine Agree.bind (agree_openIds_of_list hopen) fun ids hids => ?_
  dsimp only
  have hsplit := Retention.splitOldest_append (ids.filter fun id => some id ≠ current)
    caps.openSessions
  have hmem : ∀ id, id ∈ (Retention.splitOldest (ids.filter fun id => some id ≠ current)
      caps.openSessions).1 ∨ id ∈ (Retention.splitOldest (ids.filter fun id => some id ≠ current)
      caps.openSessions).2 → J id := by
    intro id hid
    rw [← List.mem_append, hsplit] at hid
    exact hids id (List.mem_of_mem_filter hid)
  refine Agree.bind (Agree.forM _ fun id hid => ?_) fun _ _ => ?_
  · exact agree_attempt h (hdelete id (hmem id (Or.inl hid)))
  refine Agree.bind (Q := fun results => ∀ r ∈ results, ∀ a, r.1 = some a → Q a)
    (Agree.mapM _ fun id hid => hassemble id (hmem id (Or.inr hid))) fun results hresults => ?_
  refine Agree.bind (agree_finalizedIds_of_list (J := Whatever)
    (hlist.mono fun _ _ _ _ => trivial)) fun finalized _ => ?_
  refine Agree.bind (Agree.mapM (Q := Whatever) _ fun a ha => ?_) fun placed _ =>
    Agree.pure trivial
  obtain ⟨r, hr, hra⟩ := List.mem_filterMap.1 ha
  exact hplace _ a (hresults r hr a hra)

theorem agree_settle_of_assemble (h : Store.Agrees S P s t) (hopen : P .openIds)
    (hlist : P .reportIds) (hdelete : ∀ id : SessionId, id.IsShort → P (.deleteSession id))
    {Q : Assembled → Prop} (caps : Retention.Caps) (current : Option SessionId) (time : Int64)
    (hassemble : ∀ id : SessionId, id.IsShort →
      Agree S (fun r => ∀ a, r.1 = some a → Q a) (assembleOrDelete ⟨s, k⟩ id time caps.events)
        (assembleOrDelete ⟨t, k⟩ id time caps.events))
    (hplace : ∀ verdict a, Q a → Agree S Whatever (place ⟨s, k⟩ verdict a)
      (place ⟨t, k⟩ verdict a)) :
    Agree S Whatever (settle ⟨s, k⟩ caps current time) (settle ⟨t, k⟩ caps current time) :=
  agree_settle_of_lists h (h _ hopen) ((h _ hlist).mono fun _ _ => trivial) hdelete caps current
    time hassemble hplace

theorem agree_settle (h : Store.Agrees S P s t) (hopen : P .openIds) (hlist : P .reportIds)
    (hsession : ∀ id : SessionId, id.IsShort → AllowsFinalizing P id) (caps : Retention.Caps)
    (current : Option SessionId) (time : Int64) :
    Agree S Whatever (settle ⟨s, k⟩ caps current time) (settle ⟨t, k⟩ caps current time) := by
  refine agree_settle_of_assemble (Q := fun a => a.id.IsShort) h hopen hlist
    (fun id hid => (hsession id hid).deleteSession) caps current time (fun id hid => ?_)
    fun verdict a ha => ?_
  · refine (agree_assembleOrDelete h (hsession id hid) time _).mono fun r hr a ha => ?_
    rw [hr a ha]
    exact hid
  · exact agree_place h verdict (fun contents _ => (hsession a.id ha).writeReport a.tier contents)
      (hsession a.id ha).deleteSession

theorem agree_finalize_of_lists (h : Store.Agrees S P s t) {caps : Retention.Caps}
    {current : Option SessionId} {time : Int64}
    (hsettle : Agree S Whatever (settle ⟨s, k⟩ caps current time) (settle ⟨t, k⟩ caps current time))
    {J : SessionId → Prop}
    (hlist : AgreeExcept S (fun entries => ∀ e ∈ entries, J e.1) (s.perform .reportIds)
      (t.perform .reportIds))
    (hdelete : ∀ id, J id → P (.deleteReport id)) :
    Agree S Whatever (finalize ⟨s, k⟩ caps current time)
      (finalize ⟨t, k⟩ caps current time) := by
  rw [finalize_eq_settle, finalize_eq_settle]
  refine Agree.bind hsettle fun counts _ => ?_
  exact Agree.bind (agree_trimReports h hlist hdelete _) fun _ _ => Agree.pure trivial

theorem agree_finalize_of_settle (h : Store.Agrees S P s t) {caps : Retention.Caps}
    {current : Option SessionId} {time : Int64}
    (hsettle : Agree S Whatever (settle ⟨s, k⟩ caps current time) (settle ⟨t, k⟩ caps current time))
    (hlist : P .reportIds) (hdelete : ∀ id : SessionId, id.IsShort → P (.deleteReport id)) :
    Agree S Whatever (finalize ⟨s, k⟩ caps current time)
      (finalize ⟨t, k⟩ caps current time) :=
  agree_finalize_of_lists h hsettle (h _ hlist) hdelete

/-- A pass does the same over two stores that agree. -/
theorem agree_finalize (h : Store.Agrees S P s t) (hP : AllowsPass P) (caps : Retention.Caps)
    (current : Option SessionId) (time : Int64) :
    Agree S Whatever (finalize ⟨s, k⟩ caps current time)
      (finalize ⟨t, k⟩ caps current time) :=
  agree_finalize_of_settle h (agree_settle h hP.openIds hP.reportIds hP.session caps current time)
    hP.reportIds hP.deleteReport

/-! ## Looking -/

theorem agree_hasFinalized_of_list
    (hlist : AgreeExcept S Whatever (s.perform .reportIds) (t.perform .reportIds)) :
    Agree S Whatever (hasFinalized ⟨s, k⟩) (hasFinalized ⟨t, k⟩) :=
  Agree.bind (agree_finalizedIds_of_list (J := Whatever) (hlist.mono fun _ _ _ _ => trivial))
    fun _ _ => Agree.pure trivial

theorem agree_hasFinalized (h : Store.Agrees S P s t) (hP : P .reportIds) :
    Agree S Whatever (hasFinalized ⟨s, k⟩) (hasFinalized ⟨t, k⟩) :=
  agree_hasFinalized_of_list ((h _ hP).mono fun _ _ => trivial)

theorem agree_loadFinalized_of_list (h : Store.Agrees S P s t) {J : SessionId → Prop}
    (hlist : AgreeExcept S (fun entries => ∀ e ∈ entries, J e.1) (s.perform .reportIds)
      (t.perform .reportIds))
    (hreport : ∀ id, J id → P (.readReport id)) :
    Agree S Whatever (loadFinalized ⟨s, k⟩) (loadFinalized ⟨t, k⟩) := by
  refine Agree.bind (agree_finalizedIds_of_list hlist) fun ids hids => ?_
  refine Agree.bind (Agree.mapM (Q := Whatever) ids fun e he => ?_) fun _ _ => Agree.pure trivial
  exact Agree.bind (agree_readFinalized h (hreport _ (hids e he))) fun _ _ => Agree.pure trivial

theorem agree_loadFinalized (h : Store.Agrees S P s t) (hP : P .reportIds)
    (hreport : ∀ id : SessionId, id.IsShort → P (.readReport id)) :
    Agree S Whatever (loadFinalized ⟨s, k⟩) (loadFinalized ⟨t, k⟩) :=
  agree_loadFinalized_of_list h (h _ hP) hreport

/-- The start time is read from its own file or from the header. -/
theorem agree_startTime_of_reads (h : Store.Agrees S P s t)
    (hstart : P (.read id SessionFile.startTime))
    (hheader : AgreeExcept S Whatever (readHeader ⟨s, k⟩ id) (readHeader ⟨t, k⟩ id)) :
    Agree S Whatever (startTime ⟨s, k⟩ id) (startTime ⟨t, k⟩ id) := by
  refine Agree.bind (agree_readText_of_read h hstart) fun text _ => ?_
  split
  · exact Agree.pure trivial
  · exact Agree.bind (agree_succeeds? hheader) fun _ _ => Agree.pure trivial

theorem agree_startTime (h : Store.Agrees S P s t) (hP : AllowsFiles P id) :
    Agree S Whatever (startTime ⟨s, k⟩ id) (startTime ⟨t, k⟩ id) :=
  agree_startTime_of_reads h
    (hP.2 _ (isEntryName_sessionFile SessionFile.startTime (by decide)).1) (agree_readHeader h hP)

/-! ## Proper calls -/

theorem allowsFiles_isProper (hid : id.IsShort) : AllowsFiles Store.Call.IsProper id :=
  ⟨hid, fun _ hname => ⟨hid, hname⟩⟩

theorem allowsStoring_isProper (hid : id.IsShort) : AllowsStoring Store.Call.IsProper id where
  slots := hid
  write _ _ hname := ⟨hid, hname⟩
  delete _ hname := ⟨hid, hname⟩

theorem allowsFinalizing_isProper (hid : id.IsShort) :
    AllowsFinalizing Store.Call.IsProper id where
  files := allowsFiles_isProper hid
  readReport := hid
  writeReport _ _ := hid
  deleteSession := hid

theorem allowsPass_isProper : AllowsPass Store.Call.IsProper where
  openIds := trivial
  reportIds := trivial
  session _ hid := allowsFinalizing_isProper hid
  deleteReport _ hid := hid

end Engine

end ReportVault
