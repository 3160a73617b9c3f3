import ReportVault.Proofs.Run
import ReportVault.Proofs.Store.WellFormed

/-!
# ReportVault.Proofs.Store.Change

Changes of a store, and a log of them.

A run of an engine is seen as the sequence of the changes that it makes: `Store.logged` is a store
that writes down every change that succeeds.  `Vault.after` makes the changes one by one.
-/

namespace ReportVault

open FileSystem

/-- A change of what a store holds. -/
inductive Change
  | write (id : SessionId) (name : String) (contents : Bytes)
  | delete (id : SessionId) (name : String)
  | deleteSession (id : SessionId)
  | writeReport (id : SessionId) (tier : Tier) (contents : Bytes)
  | deleteReport (id : SessionId)
  | deleteAll
  deriving DecidableEq, Repr

namespace Change

/-- The call that makes the change. -/
def call : Change → Store.Call Unit
  | .write id name contents => .write id name contents
  | .delete id name => .delete id name
  | .deleteSession id => .deleteSession id
  | .writeReport id tier contents => .writeReport id tier contents
  | .deleteReport id => .deleteReport id
  | .deleteAll => .deleteAll

/-- What is held after the change. -/
def apply (v : Vault) : Change → Vault
  | .write id name contents => v.setFile id name contents
  | .delete id name => v.dropFile id name
  | .deleteSession id => v.close id
  | .writeReport id tier contents => v.setReport id tier contents
  | .deleteReport id => v.dropReport id
  | .deleteAll => Vault.empty

/-- Whether the change leaves the files of a session alone. -/
def SparesFiles (id : SessionId) : Change → Prop
  | .write other _ _ => other ≠ id
  | .delete other _ => other ≠ id
  | .deleteSession other => other ≠ id
  | .deleteAll => False
  | _ => True

/-- Whether the change leaves a file of a session alone. -/
def SparesFile (id : SessionId) (name : String) : Change → Prop
  | .write other file _ => other = id → file ≠ name
  | .delete other file => other = id → file ≠ name
  | .deleteSession other => other ≠ id
  | .deleteAll => False
  | _ => True

/-- Whether the change leaves the report of a session alone. -/
def SparesReport (id : SessionId) : Change → Prop
  | .writeReport other _ _ => other ≠ id
  | .deleteReport other => other ≠ id
  | .deleteAll => False
  | _ => True

/-- Whether the change is one that finalizing sessions makes. -/
def Finalizes : Change → Prop
  | .write .. => False
  | .delete .. => False
  | .deleteAll => False
  | _ => True

/-- Whether the session and the file of the change can be stored. -/
def IsProper : Change → Prop
  | .write id name _ => id.IsStorable ∧ IsEntryName name
  | .writeReport id _ _ => id.IsStorable
  | _ => True

/-- To finalize sessions leaves the files of each one alone, or closes it. -/
theorem Finalizes.sparesFiles_or_eq {c : Change} (h : c.Finalizes) (id : SessionId) :
    c.SparesFiles id ∨ c = .deleteSession id := by
  cases c with
  | write other name contents => exact h.elim
  | delete other name => exact h.elim
  | deleteSession other =>
    by_cases he : other = id
    · exact Or.inr (he ▸ rfl)
    · exact Or.inl he
  | writeReport other tier contents => exact Or.inl trivial
  | deleteReport other => exact Or.inl trivial
  | deleteAll => exact h.elim

end Change

/-- The change that a call makes, if it is not one that only looks. -/
def Store.Call.change? : Store.Call α → Option Change
  | .write id name contents => some (.write id name contents)
  | .read _ _ => none
  | .delete id name => some (.delete id name)
  | .slots _ => none
  | .openIds => none
  | .deleteSession id => some (.deleteSession id)
  | .reportIds => none
  | .readReport _ => none
  | .writeReport id tier contents => some (.writeReport id tier contents)
  | .deleteReport id => some (.deleteReport id)
  | .deleteAll => some .deleteAll

/-- A store with a log: each change that succeeds is written down. -/
def Store.logged (store : Store (StateM σ)) : Store (StateM (σ × List Change)) :=
  ⟨fun call => ExceptT.mk fun (s, log) =>
    match (store.perform call).run s with
    | (.ok a, after) => (.ok a, after, log ++ call.change?.toList)
    | (.error failure, after) => (.error failure, after, log)⟩

@[simp] theorem Change.change?_call (c : Change) : c.call.change? = some c := by
  cases c <;> rfl

/-- What is written down for a call and its answer. -/
def Store.Call.logs (call : Store.Call α) : Except Failure α → List Change
  | .ok _ => call.change?.toList
  | .error _ => []

theorem Store.run_logged (store : Store (StateM σ)) (call : Store.Call α) (s : σ)
    (log : List Change) :
    (store.logged.perform call).run (s, log) =
      (((store.perform call).run s).1, ((store.perform call).run s).2,
        log ++ call.logs ((store.perform call).run s).1) := by
  simp only [Store.logged, ExceptT.run_mk]
  rcases (store.perform call).run s with ⟨_ | _, after⟩
  · simp [Store.Call.logs]
  · rfl

/-- What a store holds after the changes, made one by one with calls. -/
def Store.performed (store : Store (StateM σ)) (s : σ) (changes : List Change) : σ :=
  changes.foldl (fun s c => ((store.perform c.call).run s).2) s

theorem Store.performed_concat (store : Store (StateM σ)) (s : σ) (changes : List Change)
    (c : Change) :
    store.performed s (changes ++ [c]) =
      ((store.perform c.call).run (store.performed s changes)).2 :=
  List.foldl_concat ..

/-- A call that only looks makes no change. -/
theorem Store.Call.change?_of_isRead {call : Store.Call α} (h : call.isRead = true) :
    call.change? = none := by
  cases call <;> first | rfl | exact absurd h (by simp [Store.Call.isRead])

/-- A call that only looks is not written down. -/
theorem Store.Call.logs_of_isRead {call : Store.Call α} (h : call.isRead = true)
    (answer : Except Failure α) : call.logs answer = [] := by
  cases answer with
  | ok a => rw [logs, change?_of_isRead h, Option.toList_none]
  | error failure => rfl

namespace Vault

/-- What is held after changes, made one by one. -/
def after (v : Vault) (changes : List Change) : Vault := changes.foldl Change.apply v

@[simp] theorem after_nil (v : Vault) : v.after [] = v := rfl

@[simp] theorem after_cons (v : Vault) (c : Change) (changes : List Change) :
    v.after (c :: changes) = (c.apply v).after changes := rfl

@[simp] theorem after_append (v : Vault) (changes more : List Change) :
    v.after (changes ++ more) = (v.after changes).after more := List.foldl_append

/-- A session that can be stored is closed. -/
theorem perform_deleteSession (v : Vault) (place : Location) {id : SessionId}
    (hid : id.IsStorable) : v.perform place (.deleteSession id) = (.ok (), v.close id) := by
  rw [perform, ifPlain, hid.checkedName]

theorem perform_writeReport (v : Vault) (place : Location) {id : SessionId} (hid : id.IsStorable)
    (tier : Tier) (contents : Bytes) :
    v.perform place (.writeReport id tier contents) = (.ok (), v.setReport id tier contents) := by
  rw [perform, ifPlain, hid.checkedName]

theorem perform_deleteReport (v : Vault) (place : Location) {id : SessionId}
    (hid : id.IsStorable) : v.perform place (.deleteReport id) = (.ok (), v.dropReport id) := by
  rw [perform, ifPlain, hid.checkedName]

/-- A change by which sessions are finalized is made, if its session can be stored. -/
theorem perform_finalizes (v : Vault) (place : Location) {c : Change} (hc : c.Finalizes)
    (hid : ∀ id, c.call.session? = some id → id.IsStorable) :
    c.call.IsProper ∧ v.perform place c.call = (.ok (), c.apply v) := by
  cases c with
  | write id name contents => exact hc.elim
  | delete id name => exact hc.elim
  | deleteSession id => exact ⟨(hid id rfl).isShort, v.perform_deleteSession place (hid id rfl)⟩
  | writeReport id tier contents =>
    exact ⟨(hid id rfl).isShort, v.perform_writeReport place (hid id rfl) tier contents⟩
  | deleteReport id => exact ⟨(hid id rfl).isShort, v.perform_deleteReport place (hid id rfl)⟩
  | deleteAll => exact hc.elim

theorem perform_write (v : Vault) (place : Location) {id : SessionId} (hid : id.IsStorable)
    {name : String} (hname : v.item? id name ≠ some .directory) (contents : Bytes) :
    v.perform place (.write id name contents) = (.ok (), v.setFile id name contents) := by
  rw [perform, ifPlain, hid.checkedName]
  dsimp only
  split
  · next hitem => exact absurd hitem hname
  · rfl

theorem perform_delete (v : Vault) (place : Location) {id : SessionId} (hid : id.IsStorable)
    {name : String} (hname : v.item? id name ≠ some .directory) :
    v.perform place (.delete id name) = (.ok (), v.dropFile id name) := by
  rw [perform, ifPlain, hid.checkedName]
  dsimp only
  split
  · next hitem => exact absurd hitem hname
  · rfl

theorem perform_slots (v : Vault) (place : Location) {id : SessionId} (hid : id.IsStorable) :
    v.perform place (.slots id) = (.ok (v.files id).slots, v) := by
  rw [perform, ifPlain, hid.checkedName]

theorem perform_read (v : Vault) (place : Location) {id : SessionId} (hid : id.IsStorable)
    (name : String) : v.perform place (.read id name) = (v.readAnswer place id name, v) := by
  rw [perform, ifPlain, hid.checkedName]

theorem perform_readReport (v : Vault) (place : Location) {id : SessionId} (hid : id.IsStorable) :
    v.perform place (.readReport id) = (.ok (v.report? id), v) := by
  rw [perform, ifPlain, hid.checkedName]

/-- A call that only looks changes nothing. -/
theorem perform_of_isRead (v : Vault) (place : Location) (call : Store.Call α)
    (hcall : call.isRead = true) : (v.perform place call).2 = v := by
  cases call <;> simp only [Store.Call.isRead, Bool.false_eq_true] at hcall
  case read id name =>
    rw [perform, ifPlain]
    split <;> rfl
  case slots id =>
    rw [perform, ifPlain]
    split <;> rfl
  case openIds => rfl
  case reportIds => rfl
  case readReport id =>
    rw [perform, ifPlain]
    split <;> rfl

/-- A call makes the change that is written down for it. -/
theorem perform_snd_eq_after (v : Vault) (place : Location) (call : Store.Call α) :
    (v.perform place call).2 = v.after (call.logs (v.perform place call).1) := by
  have hplain : ∀ {id : SessionId} {answer : Except Failure α × Vault},
      answer.2 = v.after (call.logs answer.1) →
        (v.ifPlain id answer).2 = v.after (call.logs (v.ifPlain id answer).1) := by
    intro id answer hanswer
    rw [ifPlain]
    split
    · rfl
    · exact hanswer
  cases call with
  | write id name contents => exact hplain (by split <;> rfl)
  | delete id name => exact hplain (by split <;> rfl)
  | deleteSession id => exact hplain rfl
  | writeReport id tier contents => exact hplain rfl
  | deleteReport id => exact hplain rfl
  | deleteAll => rfl
  | _ => rw [Store.Call.logs_of_isRead rfl, v.perform_of_isRead place _ rfl]; rfl

/-- A call makes its change or none. -/
theorem perform_snd (v : Vault) (place : Location) (call : Store.Call α) :
    (v.perform place call).2 = v ∨
      ∃ c, call.change? = some c ∧ (v.perform place call).2 = c.apply v := by
  rw [perform_snd_eq_after]
  cases (v.perform place call).1 with
  | error failure => exact Or.inl rfl
  | ok a =>
    cases hc : call.change? with
    | none => exact Or.inl (by rw [Store.Call.logs, hc]; rfl)
    | some c => exact Or.inr ⟨c, rfl, by rw [Store.Call.logs, hc]; rfl⟩

/-! ## What is there after a change -/

variable {v : Vault} {id other : SessionId}

@[simp] theorem files_setFile_self (name : String) (contents : Bytes) :
    (v.setFile id name contents).files id = setEntry name (.file contents) (v.files id) :=
  files_of_lookup (Finmap.lookup_insert _)

@[simp] theorem files_dropFile_self (name : String) :
    (v.dropFile id name).files id = dropEntry name (v.files id) := by
  rw [dropFile]
  split
  · next hclosed =>
    rw [Vault.files, hclosed]
    rfl
  · next files hopen => rw [setFiles, files_of_lookup (Finmap.lookup_insert _), files_of_lookup hopen]

theorem item?_setFiles (files : Files) (name : String) :
    (v.setFiles other files).item? id name =
      if other = id then files.lookup name else v.item? id name := by
  by_cases he : other = id
  · rw [if_pos he, he, item?, files_of_lookup (Finmap.lookup_insert _)]
  · rw [if_neg he, item?, Vault.files, setFiles, Finmap.lookup_insert_of_ne _ (Ne.symm he), item?,
      Vault.files]

theorem item?_setFile (file name : String) (contents : Bytes) :
    (v.setFile other file contents).item? id name =
      if other = id ∧ file = name then some (.file contents) else v.item? id name := by
  rw [setFile, item?_setFiles]
  by_cases he : other = id
  · subst he
    by_cases hf : file = name
    · simp [hf]
    · simp [hf, lookup_setEntry_of_ne _ _ (Ne.symm hf), item?]
  · simp [he]

theorem item?_dropFile (file name : String) :
    (v.dropFile other file).item? id name =
      if other = id ∧ file = name then none else v.item? id name := by
  cases hitem : v.item? other file with
  | none =>
    rw [dropFile_of_item?_eq_none hitem]
    by_cases he : other = id ∧ file = name
    · rw [if_pos he, ← he.1, ← he.2, hitem]
    · rw [if_neg he]
  | some item =>
    rw [dropFile_of_item?_eq_some hitem, item?_setFiles]
    by_cases he : other = id
    · subst he
      by_cases hf : file = name
      · simp [hf]
      · simp [hf, lookup_dropEntry_of_ne _ (Ne.symm hf), item?]
    · simp [he]

theorem mem_sessions_dropFile (file : String) :
    id ∈ (v.dropFile other file).sessions ↔ id ∈ v.sessions := by
  rw [dropFile]
  split
  · rfl
  · next files hopen =>
    rw [setFiles, Finmap.mem_insert, or_iff_right_of_imp]
    rintro rfl
    exact Finmap.mem_iff.2 ⟨files, hopen⟩

theorem reports_dropFile (file : String) : (v.dropFile other file).reports = v.reports := by
  rw [dropFile]
  split <;> rfl

@[simp] theorem lookup_close_self : (v.close id).sessions.lookup id = none :=
  Finmap.lookup_erase _ _

theorem lookup_close_of_ne (h : other ≠ id) :
    (v.close id).sessions.lookup other = v.sessions.lookup other := Finmap.lookup_erase_ne h

theorem item?_close (name : String) :
    (v.close other).item? id name = if other = id then none else v.item? id name := by
  by_cases he : other = id
  · rw [if_pos he, he, item?, Vault.files, lookup_close_self]
    rfl
  · rw [if_neg he, item?, Vault.files, lookup_close_of_ne (Ne.symm he), item?, Vault.files]

theorem lookup_setReport_self (tier t : Tier) (contents : Bytes) :
    ((v.setReport id tier contents).reports t).lookup id =
      if t = tier then some contents else none := by
  simp only [setReport]
  split
  · exact Finmap.lookup_insert _
  · exact Finmap.lookup_erase _ _

theorem lookup_setReport_of_ne (h : other ≠ id) (tier t : Tier) (contents : Bytes) :
    ((v.setReport id tier contents).reports t).lookup other = (v.reports t).lookup other := by
  simp only [setReport]
  split
  · exact Finmap.lookup_insert_of_ne _ h
  · exact Finmap.lookup_erase_ne h

@[simp] theorem lookup_dropReport_self (t : Tier) : ((v.dropReport id).reports t).lookup id = none :=
  Finmap.lookup_erase _ _

theorem lookup_dropReport_of_ne (h : other ≠ id) (t : Tier) :
    ((v.dropReport id).reports t).lookup other = (v.reports t).lookup other :=
  Finmap.lookup_erase_ne h

/-- What a change is not about stays as it is. -/
theorem lookup_apply {c : Change} (h : c.SparesFiles id) :
    (c.apply v).sessions.lookup id = v.sessions.lookup id := by
  cases c with
  | write other name contents => exact Finmap.lookup_insert_of_ne _ (Ne.symm h)
  | delete other name =>
    rw [Change.apply, dropFile]
    split
    · rfl
    · exact Finmap.lookup_insert_of_ne _ (Ne.symm h)
  | deleteSession other => exact lookup_close_of_ne (Ne.symm h)
  | writeReport other tier contents => rfl
  | deleteReport other => rfl
  | deleteAll => exact h.elim

theorem files_eq_of_lookup {w : Vault} (h : v.sessions.lookup id = w.sessions.lookup id) :
    v.files id = w.files id := by
  rw [files, files, h]

theorem files_apply {c : Change} (h : c.SparesFiles id) : (c.apply v).files id = v.files id :=
  files_eq_of_lookup (lookup_apply h)

theorem item?_apply {c : Change} {name : String} (h : c.SparesFile id name) :
    (c.apply v).item? id name = v.item? id name := by
  cases c with
  | write other file contents => rw [Change.apply, item?_setFile, if_neg (not_and.2 h)]
  | delete other file => rw [Change.apply, item?_dropFile, if_neg (not_and.2 h)]
  | deleteSession other => rw [Change.apply, item?_close, if_neg h]
  | writeReport other tier contents => rfl
  | deleteReport other => rfl
  | deleteAll => exact h.elim

theorem lookup_reports_apply {c : Change} (h : c.SparesReport id) (t : Tier) :
    ((c.apply v).reports t).lookup id = (v.reports t).lookup id := by
  cases c with
  | write other name contents => rfl
  | delete other name => rw [Change.apply, reports_dropFile]
  | deleteSession other => rfl
  | writeReport other tier contents => exact lookup_setReport_of_ne (Ne.symm h) tier t contents
  | deleteReport other => exact lookup_dropReport_of_ne (Ne.symm h) t
  | deleteAll => exact absurd h (by simp [Change.SparesReport])

section After

variable {β : Type} {f : Vault → β} {P : Change → Prop} {changes : List Change} {d : Change}
  {made : β}

/-- What none of the changes touches is as it was. -/
theorem eq_after_of_spares (hspares : ∀ (w : Vault) (c : Change), P c → f (c.apply w) = f w)
    (h : ∀ c ∈ changes, P c) : f (v.after changes) = f v := by
  induction changes generalizing v with
  | nil => rfl
  | cons c changes ih =>
    rw [after_cons, ih fun e he => h e (List.mem_cons_of_mem _ he)]
    exact hspares v c (h c List.mem_cons_self)

/-- What one change decides and none of the others touches is as this one leaves it if it is made,
and otherwise as it was. -/
theorem eq_after_of_spares_or_eq (hspares : ∀ (w : Vault) (c : Change), P c → f (c.apply w) = f w)
    (hd : ∀ w : Vault, f (d.apply w) = made) (h : ∀ c ∈ changes, P c ∨ c = d) :
    f (v.after changes) = if d ∈ changes then made else f v := by
  induction changes generalizing v with
  | nil => rfl
  | cons c changes ih =>
    rw [after_cons, ih fun e he => h e (List.mem_cons_of_mem _ he)]
    by_cases hmem : d ∈ changes
    · rw [if_pos hmem, if_pos (List.mem_cons_of_mem _ hmem)]
    · rw [if_neg hmem]
      by_cases he : c = d
      · rw [he, if_pos List.mem_cons_self]
        exact hd v
      · rw [if_neg (by simp [hmem, Ne.symm he])]
        exact hspares v c ((h c List.mem_cons_self).resolve_right he)

end After

theorem lookup_after {changes : List Change} (h : ∀ c ∈ changes, c.SparesFiles id) :
    (v.after changes).sessions.lookup id = v.sessions.lookup id :=
  eq_after_of_spares (f := fun w => w.sessions.lookup id) (fun _ _ => lookup_apply) h

theorem item?_after {changes : List Change} {name : String}
    (h : ∀ c ∈ changes, c.SparesFile id name) : (v.after changes).item? id name = v.item? id name :=
  eq_after_of_spares (f := fun w => w.item? id name) (fun _ _ => item?_apply) h

theorem lookup_reports_after {changes : List Change} (h : ∀ c ∈ changes, c.SparesReport id)
    (t : Tier) : ((v.after changes).reports t).lookup id = (v.reports t).lookup id :=
  eq_after_of_spares (f := fun w => (w.reports t).lookup id)
    (fun _ _ hc => lookup_reports_apply hc t) h

/-- A session is open until it is closed. -/
theorem lookup_after_of_finalizes {changes : List Change} (h : ∀ c ∈ changes, c.Finalizes)
    (id : SessionId) :
    (v.after changes).sessions.lookup id =
      if .deleteSession id ∈ changes then none else v.sessions.lookup id := by
  refine eq_after_of_spares_or_eq (f := fun w => w.sessions.lookup id) (fun _ _ => lookup_apply)
    (fun _ => lookup_close_self) fun c hc => ?_
  exact (h c hc).sparesFiles_or_eq id

/-- What one change makes of the report of a session is there, if nothing else is done to it. -/
theorem lookup_reports_after_of_spares_or_eq {changes : List Change} {d : Change}
    {made : Tier → Option Bytes}
    (hd : ∀ (w : Vault) (t : Tier), ((d.apply w).reports t).lookup id = made t)
    (h : ∀ c ∈ changes, c.SparesReport id ∨ c = d) (t : Tier) :
    ((v.after changes).reports t).lookup id =
      if d ∈ changes then made t else (v.reports t).lookup id :=
  eq_after_of_spares_or_eq (f := fun w => (w.reports t).lookup id)
    (fun _ _ hc => lookup_reports_apply hc t) (fun w => hd w t) h

/-- A report that is written is there, if nothing else is done to the report of the session. -/
theorem lookup_reports_after_of_written {changes : List Change} {tier : Tier} {contents : Bytes}
    (h : ∀ c ∈ changes, c.SparesReport id ∨ c = .writeReport id tier contents) (t : Tier) :
    ((v.after changes).reports t).lookup id =
      if .writeReport id tier contents ∈ changes then if t = tier then some contents else none
      else (v.reports t).lookup id :=
  lookup_reports_after_of_spares_or_eq (fun _ t => lookup_setReport_self tier t contents) h t

/-- A report that is deleted is gone, if nothing else is done to the report of the session. -/
theorem lookup_reports_after_of_deleted {changes : List Change}
    (h : ∀ c ∈ changes, c.SparesReport id ∨ c = .deleteReport id) (t : Tier) :
    ((v.after changes).reports t).lookup id =
      if .deleteReport id ∈ changes then none else (v.reports t).lookup id :=
  lookup_reports_after_of_spares_or_eq (fun _ t => lookup_dropReport_self t) h t

/-- Reports are there until they are deleted. -/
theorem lookup_reports_after_deleted (ids : List SessionId) (t : Tier) :
    ((v.after (ids.map .deleteReport)).reports t).lookup id =
      if id ∈ ids then none else (v.reports t).lookup id := by
  have hchanges : ∀ c ∈ ids.map Change.deleteReport,
      c.SparesReport id ∨ c = .deleteReport id := by
    intro c hc
    obtain ⟨other, -, rfl⟩ := List.mem_map.1 hc
    by_cases he : other = id
    · exact Or.inr (he ▸ rfl)
    · exact Or.inl he
  have hmem : Change.deleteReport id ∈ ids.map Change.deleteReport ↔ id ∈ ids := by simp
  simp only [lookup_reports_after_of_deleted hchanges, hmem]

theorem report?_eq_of_lookup {w : Vault}
    (h : ∀ t, (v.reports t).lookup id = (w.reports t).lookup id) :
    v.report? id = w.report? id := by
  simp only [report?, h]

/-- A vault stays well formed when what is stored in it can be stored. -/
theorem IsWellFormed.after (hv : v.IsWellFormed) {changes : List Change}
    (h : ∀ c ∈ changes, c.IsProper) : (v.after changes).IsWellFormed := by
  induction changes generalizing v with
  | nil => exact hv
  | cons c changes ih =>
    have hc := h c List.mem_cons_self
    refine ih ?_ fun d hd => h d (List.mem_cons_of_mem _ hd)
    cases c with
    | write id name contents => exact hv.setFiles hc.1 ((hv.files_of id).setEntry hc.2 _)
    | delete id name => exact hv.dropFile id name
    | deleteSession id => exact hv.close id
    | writeReport id tier contents => exact hv.setReport hc tier contents
    | deleteReport id => exact hv.dropReport id
    | deleteAll => exact IsWellFormed.empty

end Vault

end ReportVault
