import ReportVault.Proofs.Engine.Stores

/-!
# ReportVault.Proofs.Engine.Medium

What an engine works on: a vault, some of the calls to which fail.

Every way to read what is stored is given as a function of the vault, and `run_readHeader` and its
counterparts say that the engine reads that.  The engine over `Medium.logged` writes its changes
down; `run_forM` and `run_mapM` say what loops of such steps write down.
-/

namespace ReportVault

open FileSystem Retention
open Engine (Assembled)

/-- Where a store is, which of its calls fail, and the record format. -/
structure Medium where
  place : Location
  fails : {α : Type} → Store.Call α → Option Failure
  codec : Codec

namespace Medium

/-- A store of which no call fails, with records as JSON texts. -/
def plain (place : Location) : Medium := ⟨place, fun _ => none, .json⟩

variable (m : Medium)

/-- The store. -/
def store : Store (StateM Vault) := (Vault.store m.place).failing m.fails

/-- The engine over the store. -/
def engine : Engine (StateM Vault) := ⟨m.store, m.codec⟩

/-- The same engine with a log of the changes. -/
def logged : Engine (StateM (Vault × List Change)) := ⟨m.store.logged, m.codec⟩

/-- A change that is tried is made, unless its call fails. -/
def made (c : Change) : List Change := if (m.fails c.call).isNone then [c] else []

/-! ## What is read -/

variable (v : Vault)

/-- The answer to a call. -/
def answer (call : Store.Call α) : Except Failure α :=
  match m.fails call with
  | some failure => .error failure
  | none => (v.perform m.place call).1

/-- The open sessions; none if they cannot be listed. -/
def openIds : List SessionId := (m.answer v .openIds).toOption.getD []

/-- The finalized sessions with their tiers; none if they cannot be listed. -/
def finalizedIds : List (SessionId × Tier) := (m.answer v .reportIds).toOption.getD []

variable (id : SessionId)

/-- The header of a session. -/
def header : Except Failure Report :=
  match m.answer v (.read id SessionFile.header) with
  | .ok (some contents) => m.codec.decodeReport contents
  | .ok none => .error (.missingHeader id)
  | .error failure => .error failure

/-- What an answer decodes to, if it is there and can be decoded. -/
def decoded? (answer : Except Failure (Option β)) (decode : β → Except Failure α) : Option α :=
  match answer with
  | .ok (some b) => (decode b).toOption
  | _ => none

/-- The event of a slot, if it can be read. -/
def event? (slot : Slot) : Option Event :=
  decoded? (m.answer v (.read id slot.fileName)) m.codec.decodeEvent

/-- The events of the slots that can be read. -/
def events (slots : List Slot) : List Event := slots.filterMap (m.event? v id)

/-- The text of a file, if it can be read and is not empty. -/
def text? (name : String) : Option String :=
  match m.answer v (.read id name) with
  | .ok (some contents) => contents.toText?.filter fun s => !s.isEmpty
  | _ => none

/-- Whether the session is of high priority, going by its slots or else by its mark. -/
def marked (slots : List Slot) : Bool :=
  slots.any (·.high) ||
    match m.answer v (.read id SessionFile.priority) with
    | .ok contents => contents.isSome
    | .error _ => false

/-- The report that the session was finalized with, if it can be read. -/
def recorded? : Option Report :=
  decoded? (m.answer v (.readReport id)) fun found => m.codec.decodeReport found.2

/-- What is assembled for a session. -/
def outcome (time : Int64) (cap : Nat) : Except Failure (Option Assembled) :=
  match m.answer v (.slots id) with
  | .error failure => .error failure
  | .ok slots =>
    if slots.isEmpty then .ok none
    else (m.header v id).map fun header =>
      let a := Assembled.ofParts id time (m.marked v id slots) header
        (m.events v id (keepNewest slots cap)) (m.text? v id SessionFile.user)
        (m.text? v id SessionFile.correlation) (m.recorded? v id)
      if a.report.isComplete then some a else none

variable {m v id}

theorem run_perform {call : Store.Call α} (hcall : call.isRead = true) :
    (m.engine.store.perform call).run v = (m.answer v call, v) := by
  simp only [engine, store, Store.failing, answer]
  cases m.fails call with
  | some failure => rfl
  | none => exact Prod.ext rfl (v.perform_of_isRead m.place call hcall)

theorem run_readHeader : (m.engine.readHeader id).run v = (m.header v id, v) := by
  rw [header, Engine.readHeader]
  cases hanswer : m.answer v (.read id SessionFile.header) with
  | error failure => exact run_bind_of_error (by rw [run_perform rfl, hanswer])
  | ok contents =>
    refine (run_bind_of_ok (by rw [run_perform rfl, hanswer])).trans ?_
    cases contents <;> rfl

theorem run_succeeds? {σ : Type} {x : ExceptT Failure (StateM σ) α} {s t : σ}
    {r : Except Failure α} (h : x.run s = (r, t)) : Engine.succeeds? x s = (r.toOption, t) := by
  refine (run_bind h _).trans ?_
  cases r <;> rfl

/-- Whether an operation succeeds does not show. -/
theorem run_ignored {σ : Type} (x : ExceptT Failure (StateM σ) α) (s : σ) :
    (Engine.succeeds? x >>= fun _ => pure ()) s = ((), (x.run s).2) :=
  run_bind (run_succeeds? (x := x) (s := s) (t := (x.run s).2) rfl) _

theorem run_openIds : m.engine.openIds v = (m.openIds v, v) :=
  (run_bind (run_succeeds? (x := m.engine.store.perform .openIds) (run_perform rfl)) _).trans rfl

theorem run_finalizedIds : m.engine.finalizedIds v = (m.finalizedIds v, v) :=
  (run_bind (run_succeeds? (x := m.engine.store.perform .reportIds) (run_perform rfl)) _).trans rfl

/-- What a record is read from may be absent, and it may not decode. -/
theorem run_decoded? {σ : Type} {s : σ} {x : ExceptT Failure (StateM σ) (Option β)}
    {f : Option β → ExceptT Failure (StateM σ) (Option α)} {r : Except Failure (Option β)}
    (h : x.run s = (r, s)) (decode : β → Except Failure α) (hnone : f none = pure none)
    (hsome : ∀ b, f (some b) = liftM (decode b) >>= fun a => pure (some a)) :
    (Engine.succeeds? (x >>= f) >>= fun a => pure a.join) s = (decoded? r decode, s) := by
  rcases r with failure | _ | b
  · exact run_bind (run_succeeds? (run_bind_of_error h)) _
  · have hrun : (x >>= f).run s = (.ok none, s) := by
      rw [run_bind_of_ok h, hnone]
      rfl
    exact run_bind (run_succeeds? hrun) _
  · have hrun : (x >>= f).run s = ((decode b).map some, s) := by
      rw [run_bind_of_ok h, hsome]
      cases decode b <;> rfl
    refine (run_bind (run_succeeds? hrun) _).trans ?_
    rw [decoded?]
    cases decode b <;> rfl

theorem run_readEvent (slot : Slot) :
    m.engine.readEvent id slot v = (m.event? v id slot, v) :=
  run_decoded? (s := v) (x := m.engine.store.perform (.read id slot.fileName)) (run_perform rfl)
    m.codec.decodeEvent rfl fun _ => rfl

theorem run_readFinalized : m.engine.readFinalized id v = (m.recorded? v id, v) :=
  run_decoded? (s := v) (x := m.engine.store.perform (.readReport id)) (run_perform rfl)
    (fun found => m.codec.decodeReport found.2) rfl fun _ => rfl

theorem run_readEvents (slots : List Slot) :
    m.engine.readEvents id slots v = (m.events v id slots, v) := by
  refine (run_bind (run_mapM_of_same fun slot _ => run_readEvent slot) _).trans ?_
  rw [events, ← Function.id_comp (m.event? v id), ← List.filterMap_map]
  rfl

theorem run_readText (name : String) :
    m.engine.readText id name v = (m.text? v id name, v) := by
  refine (run_bind (run_succeeds? (x := m.engine.store.perform (.read id name))
    (run_perform rfl)) _).trans ?_
  rw [text?]
  rcases m.answer v (.read id name) with failure | _ | bs <;> rfl

theorem run_isMarked (slots : List Slot) :
    m.engine.isMarked id slots v = (m.marked v id slots, v) := by
  rw [Engine.isMarked, marked]
  cases slots.any (·.high) with
  | true => rfl
  | false =>
    refine (run_bind (run_succeeds? (x := m.engine.store.perform (.read id SessionFile.priority))
      (run_perform rfl)) _).trans ?_
    rcases m.answer v (.read id SessionFile.priority) with failure | _ | bs <;> rfl

theorem run_assemble (time : Int64) (cap : Nat) :
    (m.engine.assemble id time cap).run v = (m.outcome v id time cap, v) := by
  have hslots : (m.engine.store.perform (.slots id)).run v = (m.answer v (.slots id), v) :=
    run_perform rfl
  have hheader : (m.engine.readHeader id).run v = (m.header v id, v) := run_readHeader
  rw [outcome, Engine.assemble]
  cases hs : m.answer v (.slots id) with
  | error failure => exact run_bind_of_error (by rw [hslots, hs])
  | ok slots =>
    refine (run_bind_of_ok (by rw [hslots, hs])).trans ?_
    dsimp only
    split
    · rfl
    · refine (run_bind_lift (run_isMarked slots) _).trans ?_
      cases hh : m.header v id with
      | error failure => exact run_bind_of_error (by rw [hheader, hh])
      | ok header =>
        refine (run_bind_of_ok (by rw [hheader, hh])).trans ?_
        refine (run_bind_lift (run_readEvents _) _).trans ?_
        refine (run_bind_lift (run_readText _) _).trans ?_
        refine (run_bind_lift (run_readText _) _).trans ?_
        exact (run_bind_lift run_readFinalized _).trans rfl

/-- What an assembled report is made from. -/
theorem eq_of_outcome {time : Int64} {cap : Nat} {a : Assembled}
    (h : m.outcome v id time cap = .ok (some a)) :
    ∃ slots header, m.answer v (.slots id) = .ok slots ∧ m.header v id = .ok header ∧
      a = Assembled.ofParts id time (m.marked v id slots) header
        (m.events v id (keepNewest slots cap)) (m.text? v id SessionFile.user)
        (m.text? v id SessionFile.correlation) (m.recorded? v id) := by
  rw [outcome] at h
  split at h
  · exact absurd h (by simp)
  · next slots hslots =>
    split at h
    · exact absurd h (by simp)
    · cases hheader : m.header v id with
      | error failure =>
        rw [hheader] at h
        exact absurd h (by simp [Except.map])
      | ok header =>
        rw [hheader, Except.map, Except.ok.injEq] at h
        obtain ⟨-, h⟩ := Option.ite_none_right_eq_some.1 h
        exact ⟨slots, header, hslots, rfl, (Option.some.inj h).symm⟩

/-! ## What is listed -/

theorem openIds_eq :
    m.openIds v = if (m.fails .openIds).isNone then v.sessions.keys.sort else [] := by
  rw [openIds, answer]
  cases m.fails (α := List SessionId) .openIds <;> rfl

theorem finalizedIds_eq :
    m.finalizedIds v = if (m.fails .reportIds).isNone then v.reportIds else [] := by
  rw [finalizedIds, answer]
  cases m.fails (α := List (SessionId × Tier)) .reportIds <;> rfl

/-! ## What is written down -/

/-- A change is made if its call does not fail. -/
theorem mem_made {c d : Change} : d ∈ m.made c ↔ d = c ∧ m.fails c.call = none := by
  rw [made, ← Option.isNone_iff_eq_none]
  split
  · next h => simp [h]
  · next h => simp [h]

/-- A change that can be made is made and written down, unless its call fails. -/
theorem run_change {c : Change} (h : v.perform m.place c.call = (.ok (), c.apply v))
    (log : List Change) :
    (m.logged.store.perform c.call).run (v, log) =
      match m.fails c.call with
      | some failure => (.error failure, v, log)
      | none => (.ok (), c.apply v, log ++ [c]) := by
  rw [logged, Store.run_logged]
  cases hfails : m.fails c.call with
  | some failure =>
    have hrun : (m.store.perform c.call).run v = (.error failure, v) := by
      simp only [store, Store.failing, hfails]
      rfl
    rw [hrun, Store.Call.logs, List.append_nil]
  | none =>
    have hrun : (m.store.perform c.call).run v = (.ok (), c.apply v) := by
      simp only [store, Store.failing, hfails]
      exact h
    rw [hrun, Store.Call.logs, c.change?_call, Option.toList_some]

theorem run_attempt {c : Change} (h : v.perform m.place c.call = (.ok (), c.apply v))
    (log : List Change) :
    m.logged.attempt c.call (v, log) = ((), v.after (m.made c), log ++ m.made c) := by
  rw [Engine.attempt, stateM_bind, run_change h, made]
  cases m.fails c.call with
  | some failure =>
    rw [Option.isNone_some, if_neg (by simp), List.append_nil]
    rfl
  | none => rfl

theorem run_deleteSession (hid : id.IsStorable) (v : Vault) (log : List Change) :
    m.logged.attempt (.deleteSession id) (v, log) =
      ((), v.after (m.made (.deleteSession id)), log ++ m.made (.deleteSession id)) :=
  run_attempt (c := .deleteSession id) (v.perform_deleteSession m.place hid) log

theorem run_deleteReport (hid : id.IsStorable) (v : Vault) (log : List Change) :
    m.logged.deleteReport id (v, log) =
      ((), v.after (m.made (.deleteReport id)), log ++ m.made (.deleteReport id)) :=
  run_attempt (c := .deleteReport id) (v.perform_deleteReport m.place hid) log

/-- Looking at what is stored does not show in the log. -/
theorem reading (hv : v.IsWellFormed) (log : List Change) :
    Store.Agrees (fun q w => q = (v, log) ∧ w = v) (fun call => call.isRead = true)
      m.store.logged m.store :=
  Store.Agrees.unlogged (Store.Agrees.failing (Store.Agrees.reading m.place hv) m.fails)
    (fun _ h => h) log

/-- Looking at a session of another vault shows the same, if there is the same to see. -/
theorem looking (hv : v.IsWellFormed) {w : Vault} (hfiles : w.files id = v.files id)
    (hreport : w.report? id = v.report? id) (log : List Change) :
    Store.Agrees (fun q u => q = (w, log) ∧ u = v) (Store.Agrees.LooksAt id) m.store.logged
      m.store :=
  Store.Agrees.unlogged
    (Store.Agrees.failing (Store.Agrees.looking m.place hv hfiles hreport) m.fails)
    (fun _ h => h.1) log

/-- A directory agrees with the vault that it holds and a log of the changes. -/
theorem agrees_directory (m : Medium) :
    Store.Agrees (fun top (q : Vault × List Change) => q.1.IsHeldIn m.place top)
      Store.Call.IsProper (m.place.store.failing m.fails) m.store.logged :=
  Store.Agrees.forget (Store.Agrees.failing (Store.Agrees.held m.place) m.fails)

/-- With a log of its own it has the same log. -/
theorem agrees_logged_directory (m : Medium) :
    Store.Agrees
      (fun (a : Node × List Change) (b : Vault × List Change) =>
        b.1.IsHeldIn m.place a.1 ∧ a.2 = b.2)
      Store.Call.IsProper (m.place.store.failing m.fails).logged m.store.logged :=
  Store.Agrees.logged (Store.Agrees.failing (Store.Agrees.held m.place) m.fails)

/-! ## Loops -/

theorem run_forM {f : β → StateM (Vault × List Change) Unit} {changes : β → List Change}
    {l : List β}
    (h : ∀ b ∈ l, ∀ v log, f b (v, log) = ((), v.after (changes b), log ++ changes b))
    (v : Vault) (log : List Change) :
    l.forM f (v, log) = ((), v.after (l.flatMap changes), log ++ l.flatMap changes) := by
  induction l generalizing v log with
  | nil =>
    rw [List.flatMap_nil, List.append_nil]
    rfl
  | cons b l ih =>
    have hrest := ih fun c hc => h c (List.mem_cons_of_mem _ hc)
    show (f b >>= fun _ => l.forM f) (v, log) = _
    rw [stateM_bind, h b List.mem_cons_self, hrest, List.flatMap_cons, Vault.after_append,
      List.append_assoc]

/-- The steps of a loop find what they need, as no other step takes it away. -/
theorem run_mapM {f : β → StateM (Vault × List Change) α} {answer : β → α}
    {changes : β → List Change} {l : List β}
    (needs : β → Vault → Prop)
    (h : ∀ b ∈ l, ∀ v log, needs b v →
      f b (v, log) = (answer b, v.after (changes b), log ++ changes b))
    (hkeep : l.Pairwise fun b c => ∀ v, needs c v → needs c (v.after (changes b)))
    (v : Vault) (log : List Change) (hv : ∀ b ∈ l, needs b v) :
    l.mapM f (v, log) =
      (l.map answer, v.after (l.flatMap changes), log ++ l.flatMap changes) := by
  induction l generalizing v log with
  | nil =>
    rw [List.flatMap_nil, List.append_nil]
    rfl
  | cons b l ih =>
    rw [List.pairwise_cons] at hkeep
    have hafter : ∀ c ∈ l, needs c (v.after (changes b)) := fun c hc =>
      hkeep.1 c hc v (hv c (List.mem_cons_of_mem _ hc))
    have hrest := ih (fun c hc => h c (List.mem_cons_of_mem _ hc)) hkeep.2
    rw [List.mapM_cons, stateM_bind, h b List.mem_cons_self v log (hv b List.mem_cons_self),
      stateM_bind, hrest _ _ hafter, List.flatMap_cons, List.map_cons, Vault.after_append,
      List.append_assoc]
    rfl

end Medium

end ReportVault
