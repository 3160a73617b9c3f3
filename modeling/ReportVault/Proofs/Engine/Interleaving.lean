import ReportVault.Proofs.Engine.Action
import ReportVault.Proofs.Store.Unstorable

/-!
# ReportVault.Proofs.Engine.Interleaving

Operations on different sessions do not disturb each other.

An operation that is about one session asks its store for calls about that session only, so it does
the same from any two states that have the same of the session, and the files and the reports of
every other session stay as they are (`exists_step`).  Two threads that work on two sessions may
therefore be interleaved in any way (`interleaved_sessions_independent`).
-/

namespace ReportVault

open FileSystem Retention

/-! ## What a vault has of a session -/

/-- Both vaults have the same files and the same report of the session. -/
structure Vault.SameOf (id : SessionId) (v w : Vault) : Prop where
  files : v.sessions.lookup id = w.sessions.lookup id
  reports : ∀ tier, (v.reports tier).lookup id = (w.reports tier).lookup id

theorem Vault.lookup_setFiles_self {v : Vault} {id : SessionId} {files : Files} :
    (v.setFiles id files).sessions.lookup id = some files := Finmap.lookup_insert _

namespace Vault.SameOf

variable {u v w : Vault} {id other : SessionId}

theorem refl (id : SessionId) (v : Vault) : v.SameOf id v := ⟨rfl, fun _ => rfl⟩

theorem trans (h : u.SameOf id v) (hnext : v.SameOf id w) : u.SameOf id w :=
  ⟨h.files.trans hnext.files, fun tier => (h.reports tier).trans (hnext.reports tier)⟩

theorem item?_eq (h : v.SameOf id w) (name : String) : v.item? id name = w.item? id name := by
  rw [Vault.item?, Vault.item?, Vault.files_eq_of_lookup h.files]

/-- A change of another session makes no difference. -/
theorem apply_of_spares (v : Vault) {c : Change} (hfiles : c.SparesFiles id)
    (hreport : c.SparesReport id) : (c.apply v).SameOf id v where
  files := Vault.lookup_apply hfiles
  reports := Vault.lookup_reports_apply hreport

theorem setFile (h : v.SameOf id w) (name : String) (contents : Bytes) :
    (v.setFile id name contents).SameOf id (w.setFile id name contents) where
  files := by
    rw [Vault.setFile, Vault.setFile, Vault.files_eq_of_lookup h.files,
      Vault.lookup_setFiles_self, Vault.lookup_setFiles_self]
  reports := h.reports

theorem dropFile (h : v.SameOf id w) (name : String) :
    (v.dropFile id name).SameOf id (w.dropFile id name) := by
  simp only [Vault.dropFile, h.files]
  cases hopen : w.sessions.lookup id with
  | none => exact h
  | some files =>
    exact ⟨Vault.lookup_setFiles_self.trans Vault.lookup_setFiles_self.symm, h.reports⟩

theorem close (h : v.SameOf id w) : (v.close id).SameOf id (w.close id) :=
  ⟨Vault.lookup_close_self.trans Vault.lookup_close_self.symm, h.reports⟩

theorem setReport (h : v.SameOf id w) (tier : Tier) (contents : Bytes) :
    (v.setReport id tier contents).SameOf id (w.setReport id tier contents) where
  files := h.files
  reports t := by rw [Vault.lookup_setReport_self, Vault.lookup_setReport_self]

theorem dropReport (h : v.SameOf id w) : (v.dropReport id).SameOf id (w.dropReport id) where
  files := h.files
  reports t := by rw [Vault.lookup_dropReport_self, Vault.lookup_dropReport_self]

/-- A call about the session has the same answer in both vaults, and both have the same of the
session afterwards. -/
theorem perform (h : v.SameOf id w) (place : Location) {call : Store.Call α}
    (hcall : call.session? = some id) :
    (v.perform place call).1 = (w.perform place call).1 ∧
      (v.perform place call).2.SameOf id (w.perform place call).2 := by
  have hplain : ∀ {answer answer' : Except Failure α × Vault},
      answer.1 = answer'.1 ∧ answer.2.SameOf id answer'.2 →
        (v.ifPlain id answer).1 = (w.ifPlain id answer').1 ∧
          (v.ifPlain id answer).2.SameOf id (w.ifPlain id answer').2 := by
    intro answer answer' hanswer
    rw [Vault.ifPlain, Vault.ifPlain]
    cases Store.checkedName id with
    | error failure => exact ⟨rfl, h⟩
    | ok name => exact hanswer
  cases call <;> simp only [Store.Call.session?, Option.some.injEq, reduceCtorEq] at hcall <;>
    subst hcall <;> refine hplain ?_
  case write name contents =>
    rw [h.item?_eq]
    split
    · exact ⟨rfl, h⟩
    · exact ⟨rfl, h.setFile name contents⟩
  case read name => exact ⟨by rw [Vault.readAnswer, Vault.readAnswer, h.item?_eq], h⟩
  case delete name =>
    rw [h.item?_eq]
    split
    · exact ⟨rfl, h⟩
    · exact ⟨rfl, h.dropFile name⟩
  case slots => exact ⟨by rw [Vault.files_eq_of_lookup h.files], h⟩
  case deleteSession => exact ⟨rfl, h.close⟩
  case readReport => exact ⟨by rw [Vault.report?_eq_of_lookup h.reports], h⟩
  case writeReport tier contents => exact ⟨rfl, h.setReport tier contents⟩
  case deleteReport => exact ⟨rfl, h.dropReport⟩

end Vault.SameOf

/-- A change that a call about one session makes is no matter of another one. -/
theorem Store.Call.spares_of_session? {call : Store.Call α} {id other : SessionId} {c : Change}
    (hcall : call.session? = some id) (hc : call.change? = some c) (hne : other ≠ id) :
    c.SparesFiles other ∧ c.SparesReport other := by
  cases call <;> simp only [session?, change?, Option.some.injEq, reduceCtorEq] at hcall hc <;>
    subst hcall <;> subst hc
  case write => exact ⟨hne.symm, trivial⟩
  case delete => exact ⟨hne.symm, trivial⟩
  case deleteSession => exact ⟨hne.symm, trivial⟩
  case writeReport => exact ⟨trivial, hne.symm⟩
  case deleteReport => exact ⟨trivial, hne.symm⟩

/-! ## Operations about one session -/

namespace Engine

/-- The session that an operation is about. -/
def Action.session? : Action → Option SessionId
  | .persistReport report => some report.id
  | .persistEvent _ _ _ id _ => some id
  | .persistUser id _ => some id
  | .finalize .. => none
  | .finalizeNative _ id _ _ => some id
  | .openIds => none
  | .hasFinalized => none
  | .loadFinalized => none
  | .startTime id => some id
  | .deleteReport id => some id
  | .deleteAll => none

variable {place : Location} {v w : Vault} {top other : Node} {id : SessionId} {a : Action}

/-- An operation that is about a session makes calls about that session only. -/
theorem Action.allowed_of_session? {P : {α : Type} → Store.Call α → Prop}
    (ha : a.session? = some id)
    (hP : ∀ {α : Type} (call : Store.Call α), call.session? = some id → call.NamesEntries →
      P call) : a.Allowed P := by
  have hfiles : AllowsFiles P id := ⟨hP _ rfl trivial, fun _ hname => hP _ rfl hname⟩
  have hstoring : AllowsStoring P id :=
    ⟨hP _ rfl trivial, fun _ _ hname => hP _ rfl hname, fun _ hname => hP _ rfl hname⟩
  cases a <;> simp only [session?, Option.some.injEq, reduceCtorEq] at ha <;> subst ha
  case persistReport report => exact hstoring.records
  case persistEvent => exact hstoring
  case persistUser => exact hstoring.records
  case finalizeNative =>
    exact ⟨hfiles, hP _ rfl trivial, fun _ _ => hP _ rfl trivial, hP _ rfl trivial⟩
  case startTime => exact hfiles
  case deleteReport => exact hP _ rfl trivial

/-- Other sessions stay as they are. -/
theorem exists_frame (k : Codec) (ha : a.session? = some id) (hv : v.IsHeldIn place top) :
    ∃ after : Vault, after.IsHeldIn place (a.run ⟨place.store, k⟩ top).2 ∧
      ∀ third, third ≠ id → after.SameOf third v := by
  have hkeeps : place.store.Keeps
      (fun top => ∃ after : Vault, after.IsHeldIn place top ∧
        ∀ third, third ≠ id → after.SameOf third v)
      (fun call => call.session? = some id ∧ call.NamesEntries) := by
    rintro α call ⟨hcall, hnames⟩ top ⟨w, hw, hsame⟩
    obtain ⟨⟨after, hchange, hafter⟩, hanswer⟩ := hw.exists_after call hnames
    refine ⟨⟨after, hafter, fun third hthird => ?_⟩, hanswer⟩
    rcases hchange with rfl | ⟨c, hc, rfl⟩
    · exact hsame third hthird
    · obtain ⟨hfiles, hreport⟩ := Store.Call.spares_of_session? hcall hc hthird
      exact (Vault.SameOf.apply_of_spares w hfiles hreport).trans (hsame third hthird)
  exact hkeeps.run k (Action.allowed_of_session? ha fun _ hcall hnames => ⟨hcall, hnames⟩)
    ⟨v, hv, fun third _ => .refl third v⟩

/-- Of a session that cannot be stored nothing is kept. -/
theorem isHeldIn_of_not_isStorable (k : Codec) (hid : ¬ id.IsStorable)
    (ha : a.session? = some id) (hv : v.IsHeldIn place top) :
    v.IsHeldIn place (a.run ⟨place.store, k⟩ top).2 := by
  have hkeeps : place.store.Keeps (v.IsHeldIn place)
      (fun call => call.session? = some id ∧ call.NamesEntries) := by
    rintro α call ⟨hcall, hnames⟩ top hv
    cases hplain : Store.isPlainName id.name with
    | true =>
      have hlong : Node.maxNameBytes < id.name.utf8ByteSize :=
        Nat.not_le.1 fun hshort => hid ⟨hplain, hshort⟩
      exact Vault.IsHeldIn.perform_of_long hplain hlong hv call hcall hnames
    | false =>
      obtain ⟨hrun, -⟩ := Vault.IsHeldIn.perform_of_not_plain v place top hplain hcall
      rw [hrun]
      exact ⟨hv, fun _ hanswer => absurd hanswer (by simp)⟩
  exact hkeeps.run k (Action.allowed_of_session? ha fun _ hcall hnames => ⟨hcall, hnames⟩) hv

/-- From two directories that have the same of the session, an operation about it leads to two that
have the same of it. -/
theorem exists_same (k : Codec) (ha : a.session? = some id) (hv : v.IsHeldIn place top)
    (hw : w.IsHeldIn place other) (hsame : v.SameOf id w) :
    ∃ after after' : Vault, after.IsHeldIn place (a.run ⟨place.store, k⟩ top).2 ∧
      after'.IsHeldIn place (a.run ⟨place.store, k⟩ other).2 ∧ after.SameOf id after' := by
  by_cases hid : id.IsStorable
  · have hagrees : Store.Agrees
        (fun top other => ∃ v w : Vault, v.IsHeldIn place top ∧ w.IsHeldIn place other ∧
          v.SameOf id w)
        (fun call => call.session? = some id ∧ call.NamesEntries) place.store place.store := by
      rintro α call ⟨hcall, hnames⟩ top other ⟨v, w, hv, hw, hsame⟩
      have hproper : call.IsProper := hnames.isProper fun found hfound => by
        obtain rfl : id = found := Option.some.inj (hcall.symm.trans hfound)
        exact hid.isShort
      obtain ⟨hanswer, hafter⟩ := hv.perform call hproper
      obtain ⟨hanswer', hafter'⟩ := hw.perform call hproper
      obtain ⟨heq, hsame'⟩ := hsame.perform place hcall
      exact ⟨hanswer.trans (heq.trans hanswer'.symm), fun found hfound =>
        hv.isWellFormed.isProperAnswer place call (hanswer ▸ hfound), _, _, hafter, hafter', hsame'⟩
    have hallowed := Action.allowed_of_session?
      (P := fun call => call.session? = some id ∧ call.NamesEntries) ha
      fun _ hcall hnames => ⟨hcall, hnames⟩
    exact (a.agree_run (k := k) hagrees hallowed top other ⟨v, w, hv, hw, hsame⟩).2.2
  · exact ⟨v, w, isHeldIn_of_not_isStorable k hid ha hv, isHeldIn_of_not_isStorable k hid ha hw,
      hsame⟩

/-- One operation about a session: of that session it makes the same wherever the same is there, and
every other session stays as it is. -/
theorem exists_step (k : Codec) (ha : a.session? = some id) (hv : v.IsHeldIn place top)
    (hw : w.IsHeldIn place other) (hsame : v.SameOf id w) :
    ∃ after after' : Vault, after.IsHeldIn place (a.run ⟨place.store, k⟩ top).2 ∧
      after'.IsHeldIn place (a.run ⟨place.store, k⟩ other).2 ∧ after.SameOf id after' ∧
        ∀ third, third ≠ id → after.SameOf third v := by
  obtain ⟨after, after', hafter, hafter', hsame'⟩ := exists_same k ha hv hw hsame
  obtain ⟨framed, hframed, hthird⟩ := exists_frame k ha hv
  obtain rfl := hafter.unique hframed
  exact ⟨after, after', hafter, hafter', hsame', hthird⟩

end Engine

/-! ## Interleavings -/

/-- The last list has the elements of the other two, those of each in their order. -/
inductive Interleaving {α : Type} : List α → List α → List α → Prop
  | nil : Interleaving [] [] []
  | left {a : α} {as bs merged : List α} :
    Interleaving as bs merged → Interleaving (a :: as) bs (a :: merged)
  | right {b : α} {as bs merged : List α} :
    Interleaving as bs merged → Interleaving as (b :: bs) (b :: merged)

section Interleaving

variable {place : Location} {a b : SessionId} {first second merged : List Engine.Action}

/-- The run of an interleaving from a state that has of each of the sessions what the state has from
which its own operations run alone. -/
theorem Interleaving.exists_after (h : Interleaving first second merged) (k : Codec) (hne : a ≠ b)
    (hfirst : ∀ x ∈ first, x.session? = some a) (hsecond : ∀ x ∈ second, x.session? = some b)
    {v va vb : Vault} {top topa topb : Node} (hv : v.IsHeldIn place top)
    (hva : va.IsHeldIn place topa) (hvb : vb.IsHeldIn place topb) (ha : v.SameOf a va)
    (hb : v.SameOf b vb) :
    ∃ w wa wb : Vault,
      w.IsHeldIn place (Engine.after ⟨place.store, k⟩ top merged) ∧
      wa.IsHeldIn place (Engine.after ⟨place.store, k⟩ topa first) ∧
      wb.IsHeldIn place (Engine.after ⟨place.store, k⟩ topb second) ∧
      w.SameOf a wa ∧ w.SameOf b wb ∧ ∀ third, third ≠ a → third ≠ b → w.SameOf third v := by
  induction h generalizing v va vb top topa topb with
  | nil => exact ⟨v, va, vb, hv, hva, hvb, ha, hb, fun third _ _ => .refl third v⟩
  | left _ ih =>
    obtain ⟨u, ua, hu, hua, hsame, hothers⟩ :=
      Engine.exists_step k (hfirst _ List.mem_cons_self) hv hva ha
    obtain ⟨w, wa, wb, hw, hwa, hwb, hsamea, hsameb, hthird⟩ :=
      ih (fun x hx => hfirst x (List.mem_cons_of_mem _ hx)) hsecond hu hua hvb hsame
        ((hothers b hne.symm).trans hb)
    exact ⟨w, wa, wb, hw, hwa, hwb, hsamea, hsameb, fun third hta htb =>
      (hthird third hta htb).trans (hothers third hta)⟩
  | right _ ih =>
    obtain ⟨u, ub, hu, hub, hsame, hothers⟩ :=
      Engine.exists_step k (hsecond _ List.mem_cons_self) hv hvb hb
    obtain ⟨w, wa, wb, hw, hwa, hwb, hsamea, hsameb, hthird⟩ :=
      ih hfirst (fun x hx => hsecond x (List.mem_cons_of_mem _ hx)) hu hva hub
        ((hothers a hne).trans ha) hsame
    exact ⟨w, wa, wb, hw, hwa, hwb, hsamea, hsameb, fun third hta htb =>
      (hthird third hta htb).trans (hothers third htb)⟩

/-- Operations on two sessions, interleaved in any way: each session has in the end the files and
the report that it has when its own operations run alone from the same state, and every third
session has the files and the report that it had. -/
theorem interleaved_sessions_independent (k : Codec) {v : Vault} {tree : Node}
    (hv : v.IsHeldIn place tree) (hne : a ≠ b) (hfirst : ∀ x ∈ first, x.session? = some a)
    (hsecond : ∀ x ∈ second, x.session? = some b) (h : Interleaving first second merged) :
    ∃ w wa wb : Vault,
      w.IsHeldIn place (Engine.after ⟨place.store, k⟩ tree merged) ∧
      wa.IsHeldIn place (Engine.after ⟨place.store, k⟩ tree first) ∧
      wb.IsHeldIn place (Engine.after ⟨place.store, k⟩ tree second) ∧
      w.SameOf a wa ∧ w.SameOf b wb ∧ ∀ third, third ≠ a → third ≠ b → w.SameOf third v :=
  h.exists_after k hne hfirst hsecond hv hv hv (.refl a v) (.refl b v)

/-- The same for an event of one session and a user and a native crash of another one, which come
before and after the event. -/
theorem interleaved_sessions_independent_two :
    let place := Location.named Store.openSessions isEntryName_openSessions
    let event := Engine.Action.persistEvent {} (some "x") (Event.log 0 "x") ⟨"a"⟩ true
    let user := Engine.Action.persistUser ⟨"b"⟩ "y"
    let crash := Engine.Action.finalizeNative {} ⟨"b"⟩ ⟨none, []⟩ none
    ∃ w wa wb : Vault,
      w.IsHeldIn place (place.engine.after (.directory []) [user, event, crash]) ∧
      wa.IsHeldIn place (place.engine.after (.directory []) [event]) ∧
      wb.IsHeldIn place (place.engine.after (.directory []) [user, crash]) ∧
      w.SameOf ⟨"a"⟩ wa ∧ w.SameOf ⟨"b"⟩ wb ∧
        ∀ third, third ≠ ⟨"a"⟩ → third ≠ ⟨"b"⟩ → w.SameOf third Vault.empty :=
  interleaved_sessions_independent .json (Vault.IsHeldIn.empty_named isEntryName_openSessions)
    (by decide) (by simp [Engine.Action.session?]) (by simp [Engine.Action.session?])
    (.right (.left (.right .nil)))

end Interleaving

end ReportVault
