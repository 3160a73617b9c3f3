import ReportVault.Proofs.Engine.Action
import ReportVault.Proofs.Store.Unstorable

/-!
# ReportVault.Proofs.Engine.Faults

Stores of which any call may fail at any time.

In `Store.failing` a call fails whenever it is made.  In `Store.faulty` the calls are counted, and
the same call may fail once and succeed another time.  A call that fails may have been carried out
in part: `Vault.Leaves` says what it may leave, and `Faults.AreSafe` that no failure leaves anything
else.  Faults that are `early` do nothing.

The failure of a call may be any one.  A record that cannot be decoded once is a call to read it
that fails so, and one that cannot be encoded once is a call to write it that does.
-/

namespace ReportVault

open FileSystem

/-- Which calls fail: for the number of a call, the call and the state it is made in, the failure
and the state that it leaves. -/
def Faults (σ : Type) : Type 1 :=
  Nat → {α : Type} → Store.Call α → σ → Option (Failure × σ)

/-- The store with faults; it counts its calls. -/
def Store.faulty (store : Store (StateM σ)) (faults : Faults σ) : Store (StateM (σ × Nat)) :=
  ⟨fun call => ExceptT.mk fun (s, n) =>
    match faults n call s with
    | some (failure, after) => (.error failure, after, n + 1)
    | none => (((store.perform call).run s).1, ((store.perform call).run s).2, n + 1)⟩

/-- The calls that fail do so before anything is done. -/
def Faults.early (fails : Nat → {α : Type} → Store.Call α → Option Failure) : Faults σ :=
  fun n _ call s => (fails n call).map (·, s)

theorem Store.run_faulty (store : Store (StateM σ)) (faults : Faults σ) (call : Store.Call α)
    (s : σ) (n : Nat) :
    ((store.faulty faults).perform call).run (s, n) =
      match faults n call s with
      | some (failure, after) => (.error failure, after, n + 1)
      | none => (((store.perform call).run s).1, ((store.perform call).run s).2, n + 1) := rfl

/-- With early faults a call does nothing, or what it does without faults. -/
theorem Store.run_early (store : Store (StateM σ))
    (fails : Nat → {α : Type} → Store.Call α → Option Failure) (call : Store.Call α) (s : σ)
    (n : Nat) :
    (∃ failure,
      ((store.faulty (.early fails)).perform call).run (s, n) = (.error failure, s, n + 1)) ∨
    ((store.faulty (.early fails)).perform call).run (s, n) =
      (((store.perform call).run s).1, ((store.perform call).run s).2, n + 1) := by
  rw [run_faulty, Faults.early]
  cases fails n call with
  | some failure => exact Or.inl ⟨failure, rfl⟩
  | none => exact Or.inr rfl

/-- What a call answers was answered by the store without faults. -/
theorem Store.answer_of_faulty {store : Store (StateM σ)} {faults : Faults σ}
    {call : Store.Call α} {s : σ} {n : Nat} {answer : α}
    (h : (((store.faulty faults).perform call).run (s, n)).1 = .ok answer) :
    ((store.perform call).run s).1 = .ok answer := by
  rw [run_faulty] at h
  cases hfails : faults n call s with
  | some found =>
    rw [hfails] at h
    cases h
  | none => rwa [hfails] at h

/-- The same early faults on both sides. -/
theorem Store.Agrees.faulty {σ τ : Type} {S : σ → τ → Prop}
    {P : {α : Type} → Store.Call α → Prop} {s : Store (StateM σ)} {t : Store (StateM τ)}
    (h : Store.Agrees S P s t) (fails : Nat → {α : Type} → Store.Call α → Option Failure) :
    Store.Agrees (fun x y => S x.1 y.1 ∧ x.2 = y.2) P (s.faulty (.early fails))
      (t.faulty (.early fails)) := by
  rintro α call hcall ⟨a, n⟩ ⟨b, _⟩ ⟨hab, rfl⟩
  obtain ⟨hanswer, hproper, hafter⟩ := h call hcall a b hab
  rw [run_faulty, run_faulty, Faults.early, Faults.early]
  cases fails n call with
  | some failure => exact ⟨rfl, fun _ ha => absurd ha (by simp), hab, rfl⟩
  | none => exact ⟨hanswer, hproper, hafter, rfl⟩

/-- Where a call fails every time or never, it is the store in which these calls fail. -/
theorem agrees_of_same_faults {place : Location}
    {fails : Nat → {α : Type} → Store.Call α → Option Failure}
    {always : {α : Type} → Store.Call α → Option Failure}
    (h : ∀ (n : Nat) {α : Type} (call : Store.Call α), fails n call = always call) :
    Store.Agrees (fun x top => x.1 = top ∧ ∃ v : Vault, v.IsHeldIn place top)
      Store.Call.NamesEntries (place.store.faulty (.early fails)) (place.store.failing always) := by
  rintro α call hnames ⟨top, n⟩ _ ⟨rfl, v, hheld⟩
  obtain ⟨⟨w, -, hw⟩, hanswer⟩ := hheld.exists_after call hnames
  rw [Store.run_faulty, Faults.early, h, Store.failing]
  dsimp only
  cases always call with
  | some failure => exact ⟨rfl, fun _ ha => (by cases ha), rfl, v, hheld⟩
  | none => exact ⟨rfl, hanswer, rfl, w, hw⟩

/-! ## What a failure leaves -/

/-- What a call may leave of a vault, carried out in full, in part or not at all: nothing is there
that was not there before and was not to be written. -/
structure Vault.Leaves (call : Store.Call α) (v w : Vault) : Prop where
  files : ∀ id name contents, w.item? id name = some (.file contents) →
    v.item? id name = some (.file contents) ∨ call.change? = some (.write id name contents)
  reports : ∀ tier id contents, (w.reports tier).lookup id = some contents →
    (∃ t, (v.reports t).lookup id = some contents) ∨
      ∃ t, call.change? = some (.writeReport id t contents)

namespace Vault

variable {v w : Vault} {call : Store.Call α}

theorem Leaves.refl (call : Store.Call α) (v : Vault) : v.Leaves call v :=
  ⟨fun _ _ _ h => Or.inl h, fun tier _ _ h => Or.inl ⟨tier, h⟩⟩

/-- A call that is carried out leaves what its change makes. -/
theorem Leaves.apply (v : Vault) {c : Change} (hc : call.change? = some c) :
    v.Leaves call (c.apply v) where
  files id name contents h := by
    cases c with
    | write other file written =>
      rw [Change.apply, item?_setFile] at h
      split at h
      · next he =>
        obtain ⟨rfl, rfl⟩ := he
        obtain rfl : written = contents := by simpa using h
        exact Or.inr hc
      · exact Or.inl h
    | delete other file =>
      rw [Change.apply, item?_dropFile] at h
      exact Or.inl (Option.ite_none_left_eq_some.1 h).2
    | deleteSession other =>
      rw [Change.apply, item?_close] at h
      exact Or.inl (Option.ite_none_left_eq_some.1 h).2
    | writeReport other tier written => exact Or.inl h
    | deleteReport other => exact Or.inl h
    | deleteAll => exact absurd h (by simp [Change.apply, item?, Vault.files, empty])
  reports tier id contents h := by
    by_cases hspares : c.SparesReport id
    · rw [lookup_reports_apply hspares] at h
      exact Or.inl ⟨tier, h⟩
    · cases c with
      | writeReport other t written =>
        obtain rfl : other = id := not_not.1 hspares
        rw [Change.apply, lookup_setReport_self] at h
        obtain ⟨-, he⟩ := Option.ite_none_right_eq_some.1 h
        exact Or.inr ⟨t, by rw [hc, Option.some.inj he]⟩
      | deleteReport other =>
        obtain rfl : other = id := not_not.1 hspares
        rw [Change.apply, lookup_dropReport_self] at h
        exact absurd h (by simp)
      | deleteAll => exact absurd h (by simp [Change.apply, empty])
      | _ => exact absurd trivial hspares

end Vault

/-- No failure leaves what the call could not leave. -/
def Faults.AreSafe (faults : Faults Node) (place : Location) : Prop :=
  ∀ (n : Nat) {α : Type} (call : Store.Call α) (v : Vault) (top : Node) (failure : Failure)
    (after : Node), v.IsHeldIn place top → faults n call top = some (failure, after) →
      ∃ w : Vault, w.IsHeldIn place after ∧ v.Leaves call w

theorem Faults.areSafe_early (fails : Nat → {α : Type} → Store.Call α → Option Failure)
    (place : Location) : (Faults.early fails).AreSafe place := by
  intro n α call v top failure after hheld hfails
  obtain ⟨_, -, he⟩ := Option.map_eq_some_iff.1 hfails
  obtain rfl : top = after := congrArg Prod.snd he
  exact ⟨v, hheld, .refl call v⟩

/-- After any call the directory of a faulty store holds a vault that the call may leave. -/
theorem Vault.IsHeldIn.exists_leaves {v : Vault} {place : Location} {top : Node}
    (h : v.IsHeldIn place top) {faults : Faults Node} (hfaults : faults.AreSafe place)
    {call : Store.Call α} (hnames : call.NamesEntries) (n : Nat) :
    let run := ((place.store.faulty faults).perform call).run (top, n)
    (∃ w : Vault, w.IsHeldIn place run.2.1 ∧ v.Leaves call w) ∧
      ∀ a, run.1 = .ok a → call.IsProperAnswer a := by
  intro run
  have hrun : run = _ := place.store.run_faulty faults call top n
  rw [hrun]
  cases hfails : faults n call top with
  | some found =>
    exact ⟨hfaults n call v top found.1 found.2 h hfails, fun _ ha => absurd ha (by simp)⟩
  | none =>
    obtain ⟨⟨w, hw, hheld⟩, hanswer⟩ := h.exists_after call hnames
    refine ⟨⟨w, hheld, ?_⟩, hanswer⟩
    rcases hw with rfl | ⟨c, hc, rfl⟩
    · exact .refl call _
    · exact .apply v hc

end ReportVault
