import ReportVault.Proofs.Engine.Stores

/-!
# ReportVault.Proofs.Engine.Action

Operations of an engine as values, and runs of operations one after the other.

`Action.agree_run` collects what is shown in `ReportVault.Proofs.Engine.Simulation`: an operation
does the same over two stores that agree on the calls that it makes.  With one store on both sides
this is a rule for invariants, `Store.Keeps.run`.
-/

namespace ReportVault

open FileSystem Retention

namespace Engine

/-- An operation with what it is given: the settings in force at the moment and the analytics
session, where it looks at them. -/
inductive Action
  | persistReport (report : Report)
  | persistEvent (caps : Caps) (correlation : Option String) (event : Event) (id : SessionId)
      (high : Bool)
  | persistUser (id : SessionId) (user : String)
  | finalize (caps : Caps) (current : Option SessionId) (time : Int64)
  | finalizeNative (caps : Caps) (id : SessionId) (payload : NativePayload)
      (info : Option ExitInfo)
  | openIds
  | hasFinalized
  | loadFinalized
  | startTime (id : SessionId)
  | deleteReport (id : SessionId)
  | deleteAll

namespace Action

/-- The operation; what it answers is left out. -/
def run [Monad m] (e : Engine m) : Action → m Unit
  | .persistReport report => e.persistReport report
  | .persistEvent caps correlation event id high => e.persistEvent caps correlation event id high
  | .persistUser id user => e.persistUser id user
  | .finalize caps current time => do let _ ← e.finalize caps current time
  | .finalizeNative caps id payload info => e.finalizeNative caps id payload info
  | .openIds => do let _ ← e.openIds
  | .hasFinalized => do let _ ← e.hasFinalized
  | .loadFinalized => do let _ ← e.loadFinalized
  | .startTime id => do let _ ← e.startTime id
  | .deleteReport id => e.deleteReport id
  | .deleteAll => e.deleteAll

/-- The calls of the operation are allowed. -/
def Allowed (P : {α : Type} → Store.Call α → Prop) : Action → Prop
  | .persistReport report => AllowsRecords P report.id
  | .persistEvent _ _ _ id _ => AllowsStoring P id
  | .persistUser id _ => AllowsRecords P id
  | .finalize .. => AllowsPass P
  | .finalizeNative _ id _ _ => AllowsFinalizing P id
  | .openIds => P .openIds
  | .hasFinalized => P .reportIds
  | .loadFinalized => P .reportIds ∧ ∀ id : SessionId, id.IsShort → P (.readReport id)
  | .startTime id => AllowsFiles P id
  | .deleteReport id => P (.deleteReport id)
  | .deleteAll => P .deleteAll

variable {σ τ : Type} {S : σ → τ → Prop} {P : {α : Type} → Store.Call α → Prop} {k : Codec}
  {s : Store (StateM σ)} {t : Store (StateM τ)}

/-- An operation does the same over two stores that agree. -/
theorem agree_run (h : Store.Agrees S P s t) (a : Action) (hP : a.Allowed P) :
    Agree S Whatever (a.run ⟨s, k⟩) (a.run ⟨t, k⟩) := by
  have hdone : ∀ {α : Type} {Q : α → Prop} {x : StateM σ α} {y : StateM τ α}, Agree S Q x y →
      Agree S Whatever (x >>= fun _ => pure ()) (y >>= fun _ => pure ()) :=
    fun hx => Agree.bind hx fun _ _ => Agree.pure trivial
  cases a with
  | persistReport report => exact agree_persistReport h hP
  | persistEvent caps correlation event id high =>
    exact agree_persistEvent h hP caps correlation event high
  | persistUser id user => exact agree_persistUser h hP user
  | finalize caps current time => exact hdone (agree_finalize h hP caps current time)
  | finalizeNative caps id payload info => exact agree_finalizeNative h hP caps payload info
  | openIds => exact hdone (agree_openIds h hP)
  | hasFinalized => exact hdone (agree_hasFinalized h hP)
  | loadFinalized => exact hdone (agree_loadFinalized h hP.1 hP.2)
  | startTime id => exact hdone (agree_startTime h hP)
  | deleteReport id => exact agree_attempt h hP
  | deleteAll => exact agree_attempt h hP

/-- A pass as an operation of a run is the pass. -/
theorem run_finalize (e : Engine (StateM σ)) (caps : Caps) (current : Option SessionId)
    (time : Int64) (a : σ) :
    ((Action.finalize caps current time).run e a).2 = (e.finalize caps current time a).2 := rfl

end Action

end Engine

/-! ## Runs -/

/-- What is stored after operations, made one after the other. -/
def Engine.after (e : Engine (StateM σ)) (s : σ) (actions : List Engine.Action) : σ :=
  actions.foldl (fun s a => (a.run e s).2) s

namespace Engine

variable {σ : Type} (e : Engine (StateM σ)) (s : σ)

theorem after_cons (a : Action) (actions : List Action) :
    e.after s (a :: actions) = e.after (a.run e s).2 actions := rfl

theorem after_append (actions more : List Action) :
    e.after s (actions ++ more) = e.after (e.after s actions) more := List.foldl_append

end Engine

/-- The calls that `P` allows keep an invariant, and what they list can be named. -/
def Store.Keeps (I : σ → Prop) (P : {α : Type} → Store.Call α → Prop) (s : Store (StateM σ)) :
    Prop :=
  ∀ {α : Type} (call : Store.Call α), P call → ∀ a, I a →
    I ((s.perform call).run a).2 ∧
      ∀ answer, ((s.perform call).run a).1 = .ok answer → call.IsProperAnswer answer

/-- A store agrees with itself where an invariant holds that its calls keep. -/
theorem Store.Keeps.agrees {σ : Type} {I : σ → Prop} {P : {α : Type} → Store.Call α → Prop}
    {s : Store (StateM σ)} (h : s.Keeps I P) :
    Store.Agrees (fun y z => y = z ∧ I y) P s s := by
  rintro α call hcall y _ ⟨rfl, hy⟩
  obtain ⟨hafter, hanswer⟩ := h call hcall y hy
  exact ⟨rfl, hanswer, rfl, hafter⟩

/-- What an invariant says of the answer to a call. -/
theorem Store.Keeps.answers {σ : Type} {I : σ → Prop} {P : {α : Type} → Store.Call α → Prop}
    {s : Store (StateM σ)} (h : s.Keeps I P) {α : Type} {call : Store.Call α} (hcall : P call)
    {Q : α → Prop}
    (hQ : ∀ a, I a → ∀ answer, ((s.perform call).run a).1 = .ok answer → Q answer) :
    AgreeExcept (fun y z => y = z ∧ I y) Q (s.perform call) (s.perform call) := by
  rintro y _ ⟨rfl, hy⟩
  exact ⟨rfl, hQ y hy, rfl, (h call hcall y hy).1⟩

/-- What agrees with itself where an invariant holds keeps the invariant. -/
theorem Agree.keeps {σ α : Type} {I : σ → Prop} {Q : α → Prop} {x : StateM σ α}
    (h : Agree (fun y z => y = z ∧ I y) Q x x) {s : σ} (hs : I s) : I (x s).2 :=
  (h s s ⟨rfl, hs⟩).2.2.2

/-- An operation keeps what its calls keep. -/
theorem Store.Keeps.run {σ : Type} {I : σ → Prop} {P : {α : Type} → Store.Call α → Prop}
    {s : Store (StateM σ)} (h : s.Keeps I P) (k : Codec) {a : Engine.Action} (hP : a.Allowed P)
    {x : σ} (hx : I x) : I (a.run ⟨s, k⟩ x).2 :=
  (a.agree_run (k := k) h.agrees hP).keeps hx

end ReportVault
