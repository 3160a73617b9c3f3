import ReportVault.Proofs.Engine.Simulation
import ReportVault.Proofs.Store.Change
import ReportVault.Proofs.Store.Refinement

/-!
# ReportVault.Proofs.Engine.Stores

Stores that agree.

A directory agrees with the vault that it holds.  Faults and logs can be put on both of two stores
that agree, and a log can be forgotten.  Two vaults agree on the calls that look at one session if
they have the same of it.
-/

namespace ReportVault

open FileSystem

/-- The engine over the store in a directory. -/
def Location.engine (place : Location) : Engine (StateM Node) := { store := place.store }

variable {σ τ : Type} {S : σ → τ → Prop} {P : {α : Type} → Store.Call α → Prop}
  {s : Store (StateM σ)} {t : Store (StateM τ)}

namespace Store.Agrees

/-- A directory agrees with the vault that it holds. -/
theorem held (place : Location) :
    Store.Agrees (fun top v => v.IsHeldIn place top) Store.Call.IsProper place.store
      (Vault.store place) := by
  intro α call hcall top v h
  obtain ⟨hanswer, hafter⟩ := h.perform call hcall
  refine ⟨hanswer, fun a ha => ?_, hafter⟩
  exact h.isWellFormed.isProperAnswer place call (hanswer ▸ ha)

/-- The same calls fail on both sides. -/
theorem failing (h : Store.Agrees S P s t) (fails : {α : Type} → Store.Call α → Option Failure) :
    Store.Agrees S P (s.failing fails) (t.failing fails) := by
  intro α call hcall
  simp only [Store.failing]
  cases fails call with
  | some failure => exact AgreeExcept.throw failure
  | none => exact h call hcall

/-- The same changes are written down on both sides. -/
theorem logged (h : Store.Agrees S P s t) :
    Store.Agrees (fun p q => S p.1 q.1 ∧ p.2 = q.2) P s.logged t.logged := by
  rintro α call hcall ⟨a, log⟩ ⟨b, _⟩ ⟨hab, rfl⟩
  obtain ⟨hanswer, hproper, hafter⟩ := h call hcall a b hab
  rw [run_logged, run_logged, ← hanswer]
  exact ⟨rfl, hproper, hafter, rfl⟩

/-- A log does not matter to what is done. -/
theorem forget (h : Store.Agrees S P s t) : Store.Agrees (fun a q => S a q.1) P s t.logged := by
  rintro α call hcall a ⟨b, log⟩ hab
  obtain ⟨hanswer, hproper, hafter⟩ := h call hcall a b hab
  rw [run_logged]
  exact ⟨hanswer, hproper, hafter⟩

/-- Calls that only look are not written down. -/
theorem unlogged {a : σ} {b : τ} (h : Store.Agrees (fun x y => x = a ∧ y = b) P s t)
    (hP : ∀ {α : Type} (call : Store.Call α), P call → call.isRead = true)
    (log : List Change) :
    Store.Agrees (fun p y => p = (a, log) ∧ y = b) P s.logged t := by
  rintro α call hcall ⟨_, _⟩ _ ⟨⟨⟩, rfl⟩
  obtain ⟨hanswer, hproper, hfirst, hsecond⟩ := h call hcall _ _ ⟨rfl, rfl⟩
  rw [run_logged, Call.logs_of_isRead (hP call hcall), List.append_nil]
  exact ⟨hanswer, hproper, by rw [hfirst], hsecond⟩

/-- The calls that look at a session. -/
def LooksAt (id : SessionId) (call : Store.Call α) : Prop :=
  call.isRead = true ∧ call.session? = some id

/-- Looking at a session gives the same in two vaults that have the same of it, and changes
neither. -/
theorem looking (place : Location) {v w : Vault} {id : SessionId} (hw : w.IsWellFormed)
    (hfiles : v.files id = w.files id) (hreport : v.report? id = w.report? id) :
    Store.Agrees (fun a b => a = v ∧ b = w) (LooksAt id) (Vault.store place)
      (Vault.store place) := by
  rintro α call ⟨hread, hid⟩ a b ⟨ha, hb⟩
  rw [ha, hb]
  have hanswer : (v.perform place call).1 = (w.perform place call).1 := by
    cases call <;> simp only [Store.Call.session?, Option.some.injEq, reduceCtorEq] at hid <;>
      subst hid <;> simp only [Store.Call.isRead, Bool.false_eq_true] at hread
    case read name =>
      simp only [Vault.perform, Vault.ifPlain, Vault.readAnswer, Vault.item?, hfiles]
      split <;> rfl
    case slots =>
      simp only [Vault.perform, Vault.ifPlain, hfiles]
      split <;> rfl
    case readReport =>
      simp only [Vault.perform, Vault.ifPlain, hreport]
      split <;> rfl
  exact ⟨hanswer, fun a ha => hw.isProperAnswer place call (hanswer.symm.trans ha),
    v.perform_of_isRead place call hread, w.perform_of_isRead place call hread⟩

/-- Looking changes nothing. -/
theorem reading (place : Location) {v : Vault} (hv : v.IsWellFormed) :
    Store.Agrees (fun a b => a = v ∧ b = v) (fun call => call.isRead = true) (Vault.store place)
      (Vault.store place) := by
  rintro α call hread a b ⟨ha, hb⟩
  rw [ha, hb]
  have hafter := v.perform_of_isRead place call hread
  exact ⟨rfl, fun a ha => hv.isProperAnswer place call ha, hafter, hafter⟩

end Store.Agrees

end ReportVault
