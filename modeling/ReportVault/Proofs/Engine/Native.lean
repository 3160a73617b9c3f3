import ReportVault.Proofs.Engine.Medium

/-!
# ReportVault.Proofs.Engine.Native

Attaching a native crash as a list of changes.

`Medium.nativeChanges` computes them from what is stored, and `run_finalizeNative` says that these
are made.  There are at most two: the report is written, and then the session is closed if the
report was made from its files.
-/

namespace ReportVault

open FileSystem Retention
open Engine (withNativeCrash)

namespace Medium

variable (m : Medium) (v : Vault) (id : SessionId)

/-- The report that a native crash is attached to, and whether it was made from an open session. -/
def nativeBase : Except Failure (Report × Bool) :=
  match m.header v id with
  | .ok header =>
    (m.answer v (.slots id)).map fun slots =>
      ((header.correlated (m.text? v id SessionFile.correlation)).withEvents (m.events v id slots),
        true)
  | .error failure =>
    match m.recorded? v id with
    | some report => .ok (report, false)
    | none => .error failure

/-- The changes by which a native crash is attached to a session. -/
def nativeChanges (caps : Caps) (payload : NativePayload) (info : Option ExitInfo) :
    List Change :=
  match m.nativeBase v id with
  | .error _ => []
  | .ok (base, fromOpen) =>
    match m.codec.encodeReport (withNativeCrash base payload (m.text? v id SessionFile.user) info
      caps.events) with
    | .error _ => []
    | .ok contents =>
      if (m.fails (.writeReport id .native contents)).isNone then
        .writeReport id .native contents :: if fromOpen then m.made (.deleteSession id) else []
      else []

variable {m v id}

theorem run_nativeBase : (m.engine.nativeBase id).run v = (m.nativeBase v id, v) := by
  have hslots : (m.engine.store.perform (.slots id)).run v = (m.answer v (.slots id), v) :=
    run_perform rfl
  have hheader : (ExceptT.lift (m.engine.readHeader id).run :
      ExceptT Failure (StateM Vault) (Except Failure Report)).run v = (.ok (m.header v id), v) := by
    show (Except.ok ((m.engine.readHeader id).run v).1, ((m.engine.readHeader id).run v).2) = _
    rw [run_readHeader]
  rw [nativeBase, Engine.nativeBase]
  refine (run_bind_of_ok hheader).trans ?_
  cases m.header v id with
  | error failure =>
    refine (run_bind_lift run_readFinalized _).trans ?_
    cases m.recorded? v id <;> rfl
  | ok header =>
    cases hs : m.answer v (.slots id) with
    | error failure => exact run_bind_of_error (by rw [hslots, hs])
    | ok slots =>
      refine (run_bind_of_ok (by rw [hslots, hs])).trans ?_
      refine (run_bind_lift (run_readEvents _) _).trans ?_
      exact (run_bind_lift (run_readText _) _).trans rfl

/-- The logged engine reads what the engine reads. -/
theorem run_logged_nativeBase (hv : v.IsWellFormed) (log : List Change) :
    (m.logged.nativeBase id).run (v, log) = (m.nativeBase v id, v, log) := by
  have hallowed : Engine.AllowsFiles (fun call => call.isRead = true) id :=
    ⟨rfl, fun _ _ => rfl⟩
  obtain ⟨hanswer, -, hafter, -⟩ := Engine.agree_nativeBase (k := m.codec) (reading hv log)
    hallowed (show (Store.Call.readReport id).isRead = true from rfl) _ _ ⟨rfl, rfl⟩
  exact Prod.ext (hanswer.trans (congrArg Prod.fst run_nativeBase)) hafter

theorem run_logged_readText (hv : v.IsWellFormed) {name : String} (hname : IsEntryName name)
    (log : List Change) : m.logged.readText id name (v, log) = (m.text? v id name, v, log) := by
  have hallowed : Engine.AllowsFiles (fun call => call.isRead = true) id :=
    ⟨rfl, fun _ _ => rfl⟩
  obtain ⟨hanswer, -, hafter, -⟩ := Engine.agree_readText (k := m.codec) (reading hv log)
    hallowed hname _ _ ⟨rfl, rfl⟩
  exact Prod.ext (hanswer.trans (congrArg Prod.fst (run_readText name))) hafter

/-- What is done when the report can be encoded: it is written, and its session is closed if it was
open. -/
theorem run_writeNative (hid : id.IsStorable) (contents : Bytes) (fromOpen : Bool)
    (log : List Change) :
    let changes := if (m.fails (.writeReport id .native contents)).isNone then
      .writeReport id .native contents :: if fromOpen then m.made (.deleteSession id) else []
      else []
    ((m.logged.store.perform (.writeReport id .native contents) >>= fun _ =>
      if fromOpen then liftM (m.logged.attempt (.deleteSession id)) else pure () :
        ExceptT Failure (StateM (Vault × List Change)) Unit).run (v, log)).2 =
      (v.after changes, log ++ changes) := by
  have hperform := m.run_change (c := .writeReport id .native contents)
    (v.perform_writeReport m.place hid .native contents) log
  dsimp only [Change.call] at hperform ⊢
  cases hfails : m.fails (.writeReport id .native contents) with
  | some failure =>
    rw [hfails] at hperform
    rw [run_bind_of_error hperform, Option.isNone_some, if_neg (by simp), List.append_nil]
    rfl
  | none =>
    rw [hfails] at hperform
    rw [run_bind_of_ok hperform, Option.isNone_none, if_pos rfl]
    cases fromOpen with
    | false => rfl
    | true =>
      simp only [if_true]
      rw [run_liftM_state, run_deleteSession hid, List.append_assoc]
      rfl

theorem run_tryFinalizeNative (hv : v.IsWellFormed) (hid : id.IsStorable) (caps : Caps)
    (payload : NativePayload) (info : Option ExitInfo) (log : List Change) :
    ((m.logged.tryFinalizeNative caps id payload info).run (v, log)).2 =
      (v.after (m.nativeChanges v id caps payload info),
        log ++ m.nativeChanges v id caps payload info) := by
  have huser := isEntryName_sessionFile SessionFile.user (by decide)
  have hbase : (m.logged.nativeBase id).run (v, log) = (m.nativeBase v id, v, log) :=
    run_logged_nativeBase hv log
  rw [nativeChanges, Engine.tryFinalizeNative]
  cases hb : m.nativeBase v id with
  | error failure =>
    rw [hb] at hbase
    rw [run_bind_of_error hbase, List.append_nil]
    rfl
  | ok base =>
    obtain ⟨base, fromOpen⟩ := base
    rw [hb] at hbase
    rw [run_bind_of_ok hbase]
    dsimp only
    rw [run_bind_lift (run_logged_readText hv huser.1 log), show m.logged.codec = m.codec from rfl]
    cases m.codec.encodeReport (withNativeCrash base payload
      (m.text? v id SessionFile.user) info caps.events) with
    | error failure =>
      rw [run_bind_error rfl, List.append_nil]
      rfl
    | ok contents =>
      rw [run_bind_ok rfl]
      exact run_writeNative hid contents fromOpen log

/-- Attaching a native crash makes the changes that are computed from what is stored. -/
theorem run_finalizeNative (hv : v.IsWellFormed) (hid : id.IsStorable) (caps : Caps)
    (payload : NativePayload) (info : Option ExitInfo) (log : List Change) :
    m.logged.finalizeNative caps id payload info (v, log) =
      ((), v.after (m.nativeChanges v id caps payload info),
        log ++ m.nativeChanges v id caps payload info) :=
  (run_ignored _ _).trans
    (congrArg (Prod.mk ()) (run_tryFinalizeNative hv hid caps payload info log))

/-- Attaching a native crash over a directory that holds the vault makes the same changes. -/
theorem finalizeNative_directory {top : Node} (h : v.IsHeldIn m.place top) (hid : id.IsStorable)
    (caps : Caps) (payload : NativePayload) (info : Option ExitInfo) :
    (v.after (m.nativeChanges v id caps payload info)).IsHeldIn m.place
      (Engine.finalizeNative ⟨m.place.store.failing m.fails, m.codec⟩ caps id payload info top).2
    := by
  obtain ⟨-, -, hheld⟩ := Engine.agree_finalizeNative (k := m.codec) m.agrees_directory
    (Engine.allowsFinalizing_isProper hid.isShort) caps payload info top (v, []) h
  have hrun : Engine.finalizeNative ⟨m.store.logged, m.codec⟩ caps id payload info (v, []) =
      ((), v.after (m.nativeChanges v id caps payload info),
        [] ++ m.nativeChanges v id caps payload info) :=
    run_finalizeNative h.isWellFormed hid caps payload info []
  rw [hrun] at hheld
  exact hheld

/-- Without failures its log over a directory is that of the changes. -/
theorem log_finalizeNative_plain {place : Location} {top : Node} (h : v.IsHeldIn place top)
    (hid : id.IsStorable) (caps : Caps) (payload : NativePayload) (info : Option ExitInfo) :
    (Engine.finalizeNative ⟨place.store.logged, .json⟩ caps id payload info (top, [])).2.2 =
      (plain place).nativeChanges v id caps payload info := by
  obtain ⟨-, -, -, hlog⟩ := Engine.agree_finalizeNative (k := .json)
    (plain place).agrees_logged_directory (Engine.allowsFinalizing_isProper hid.isShort) caps
    payload info (top, []) (v, []) ⟨h, rfl⟩
  have hrun : Engine.finalizeNative ⟨(plain place).store.logged, .json⟩ caps id payload info
      (v, []) = ((), v.after ((plain place).nativeChanges v id caps payload info),
        [] ++ (plain place).nativeChanges v id caps payload info) :=
    run_finalizeNative h.isWellFormed hid caps payload info []
  rw [hrun] at hlog
  exact hlog

end Medium

end ReportVault
