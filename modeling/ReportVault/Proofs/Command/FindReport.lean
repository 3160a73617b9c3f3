import ReportVault.Command.Run
import ReportVault.Proofs.Engine.LocalFaults
import ReportVault.Proofs.Engine.Looking
import ReportVault.Proofs.Engine.ReadFailures

/-!
# ReportVault.Proofs.Command.FindReport

Which report an argument of the command line stands for.

An argument stands for the one report that is loaded of a session whose identifier begins like it.
No session is loaded twice, so that the report is the only one iff its session is
(`filter_eq_singleton_iff`).  A whole identifier is no exception to this: it stands for its report
only if no other identifier that is loaded goes on behind it (`findReport_eq_ok_iff`).
-/

namespace ReportVault.Command

open FileSystem

variable {σ α : Type} {session : String} {loaded : List (SessionId × Report)}

theorem matchesId_iff {id : SessionId} :
    matchesId session id = true ↔ session.toList <+: id.name.toList := List.isPrefixOf_iff_prefix

/-- The report that an argument stands for among those that are loaded. -/
def resolveIn (loaded : List (SessionId × Report)) (session : String) : Except Problem Report :=
  match loaded.filter fun (id, _) => matchesId session id with
  | [] => .error (.reportNotFound session)
  | [(_, report)] => .ok report
  | found => .error (.ambiguous session (found.map (·.1)))

/-- A report is looked for among those that are loaded, and nothing changes. -/
theorem run_findReport {e : Engine (StateM σ)} (h : e.store.QuietReads) (session : String) (s : σ) :
    (findReport e session).run s = (resolveIn (e.loadFinalized s).1 session, s) := by
  have hload : e.loadFinalized s = ((e.loadFinalized s).1, s) :=
    Prod.ext rfl (Engine.quiet_loadFinalized h s)
  rw [findReport, run_bind_lift hload, resolveIn]
  generalize (e.loadFinalized s).1.filter (fun (id, _) => matchesId session id) = found
  rcases found with _ | ⟨_, _ | _⟩ <;> rfl

/-! ## One session only -/

/-- Where no session stands twice, an entry is the only one that is picked iff no other session
is. -/
theorem filter_eq_singleton_iff {l : List (SessionId × α)} (hl : l.Pairwise fun a b => a.1 ≠ b.1)
    {p : SessionId → Bool} {id : SessionId} {a : α} :
    l.filter (fun entry => p entry.1) = [(id, a)] ↔
      (id, a) ∈ l ∧ p id = true ∧ ∀ entry ∈ l, p entry.1 = true → entry.1 = id := by
  constructor
  · intro h
    have hmem : ∀ entry, entry ∈ l.filter (fun entry => p entry.1) ↔ entry = (id, a) :=
      fun entry => by rw [h, List.mem_singleton]
    simp only [List.mem_filter] at hmem
    obtain ⟨hin, hp⟩ := (hmem (id, a)).2 rfl
    exact ⟨hin, hp, fun entry hentry hpicked =>
      congrArg Prod.fst ((hmem entry).1 ⟨hentry, hpicked⟩)⟩
  · rintro ⟨hin, hp, honly⟩
    have hpairwise := hl.filter fun entry => p entry.1
    have hkey : ∀ entry ∈ l.filter (fun entry => p entry.1), entry.1 = id := fun entry hentry =>
      honly entry (List.mem_filter.1 hentry).1 (List.mem_filter.1 hentry).2
    have hmem : (id, a) ∈ l.filter (fun entry => p entry.1) := List.mem_filter.2 ⟨hin, hp⟩
    rcases hpicked : l.filter (fun entry => p entry.1) with _ | ⟨first, _ | ⟨second, rest⟩⟩
    · rw [hpicked] at hmem
      exact absurd hmem List.not_mem_nil
    · rw [hpicked] at hmem
      rw [List.mem_singleton.1 hmem, hpicked]
    · -- two that are picked would be of one session
      rw [hpicked] at hpairwise hkey
      have hfirst := hkey first List.mem_cons_self
      have hsecond := hkey second (List.mem_cons_of_mem _ List.mem_cons_self)
      exact absurd (hfirst.trans hsecond.symm) (List.rel_of_pairwise_cons hpairwise
        List.mem_cons_self)

section Distinct

variable (hloaded : loaded.Pairwise fun a b => a.1 ≠ b.1)

include hloaded

theorem resolveIn_eq_ok_iff {r : Report} :
    resolveIn loaded session = .ok r ↔ ∃ id, (id, r) ∈ loaded ∧
      session.toList <+: id.name.toList ∧
        ∀ other ∈ loaded, session.toList <+: other.1.name.toList → other.1 = id := by
  simp only [← matchesId_iff, ← filter_eq_singleton_iff hloaded]
  rw [resolveIn]
  generalize loaded.filter (fun entry => matchesId session entry.1) = found
  rcases found with _ | ⟨⟨id, report⟩, _ | ⟨second, rest⟩⟩ <;> simp

end Distinct

theorem resolveIn_eq_notFound (h : ∀ other ∈ loaded, ¬ session.toList <+: other.1.name.toList) :
    resolveIn loaded session = .error (.reportNotFound session) := by
  have hnone : loaded.filter (fun (id, _) => matchesId session id) = [] :=
    List.filter_eq_nil_iff.2 fun entry hentry => by
      rw [matchesId_iff]
      exact h entry hentry
  rw [resolveIn, hnone]

/-- Where two sessions begin like the argument, all that do are named. -/
theorem resolveIn_eq_ambiguous {a b : SessionId × Report} (ha : a ∈ loaded) (hb : b ∈ loaded)
    (hne : a.1 ≠ b.1) (hfirst : session.toList <+: a.1.name.toList)
    (hsecond : session.toList <+: b.1.name.toList) :
    resolveIn loaded session =
      .error (.ambiguous session ((loaded.map (·.1)).filter (matchesId session))) := by
  have hmem : ∀ entry ∈ loaded, session.toList <+: entry.1.name.toList →
      entry ∈ loaded.filter (fun (id, _) => matchesId session id) := fun entry hentry hbegins =>
    List.mem_filter.2 ⟨hentry, matchesId_iff.2 hbegins⟩
  have ha := hmem a ha hfirst
  have hb := hmem b hb hsecond
  rw [resolveIn, List.filter_map]
  change _ = Except.error (Problem.ambiguous session
    ((loaded.filter fun (id, _) => matchesId session id).map (·.1)))
  generalize loaded.filter (fun (id, _) => matchesId session id) = found at ha hb
  rcases found with _ | ⟨first, _ | ⟨second, rest⟩⟩
  · exact absurd ha List.not_mem_nil
  · rw [List.mem_singleton.1 ha, List.mem_singleton.1 hb] at hne
    exact absurd rfl hne
  · rfl

/-! ## Directories -/

/-- What an argument stands for, whatever the tree is.  It stands for a report iff exactly one
session that is loaded begins like it, and then for the report of that session.  So a whole
identifier stands for its report iff no other identifier that is loaded goes on behind it.
Otherwise all that begin like the argument are named, or that there is none is told; and nothing
changes in any case. -/
theorem findReport_eq_ok_iff (root : Path) (top : Node) (session : String) :
    let e := Engine.ofDirectory root
    let loaded := (e.loadFinalized top).1
    let begins (id : SessionId) := session.toList <+: id.name.toList
    (∀ r, (findReport e session).run top = (.ok r, top) ↔ ∃ id, (id, r) ∈ loaded ∧ begins id ∧
      ∀ other ∈ loaded, begins other.1 → other.1 = id) ∧
    (∀ id r, (id, r) ∈ loaded → id.name = session →
      ((findReport e session).run top = (.ok r, top) ↔
        ∀ other ∈ loaded, begins other.1 → other.1 = id)) ∧
    (∀ a ∈ loaded, ∀ b ∈ loaded, a.1 ≠ b.1 → begins a.1 → begins b.1 →
      (findReport e session).run top =
        (.error (.ambiguous session ((loaded.map (·.1)).filter (matchesId session))), top)) ∧
    ((∀ other ∈ loaded, ¬ begins other.1) →
      (findReport e session).run top = (.error (.reportNotFound session), top)) := by
  intro e loaded begins
  have hdistinct : loaded.Pairwise fun a b => a.1 ≠ b.1 := pairwise_loadFinalized root top
  have hrun : (findReport e session).run top = (resolveIn loaded session, top) :=
    run_findReport (Store.quietReads_inDirectory root) session top
  have hfound : ∀ r, (findReport e session).run top = (.ok r, top) ↔ ∃ id, (id, r) ∈ loaded ∧
      begins id ∧ ∀ other ∈ loaded, begins other.1 → other.1 = id := fun r => by
    rw [hrun, Prod.mk.injEq, and_iff_left rfl, resolveIn_eq_ok_iff hdistinct]
  refine ⟨hfound, ?_, ?_, ?_⟩
  · rintro id r hid rfl
    rw [hfound]
    constructor
    · rintro ⟨other, -, -, honly⟩ entry hentry hbegins
      exact (honly entry hentry hbegins).trans (honly (id, r) hid List.prefix_rfl).symm
    · exact fun honly => ⟨id, hid, List.prefix_rfl, honly⟩
  · intro a ha b hb hne hfirst hsecond
    rw [hrun, resolveIn_eq_ambiguous ha hb hne hfirst hsecond]
  · intro hnone
    rw [hrun, resolveIn_eq_notFound hnone]

/-! ## A directory of reports -/

namespace Filed

/-- The store. -/
def place : Location := .named "data" OneEvent.isEntryName_data

/-- A report with one event. -/
def report (id : SessionId) : Report :=
  (Report.header "1" ⟨"app", "1", "1.0"⟩ id 0).withEvents [Event.log 0 "x"]

/-- The files of the reports, each under the identifier that is given with it. -/
def entries : List (SessionId × Report) → List (String × Node)
  | [] => []
  | (id, r) :: filed => setEntry id.name (.file r.encode) (entries filed)

/-- The store with the reports in its normal tier. -/
def tree (filed : List (SessionId × Report)) : Node :=
  .directory [("data", .directory [("reports", .directory (entries filed))])]

/-- The contents of the files. -/
def files : List (SessionId × Report) → Finmap fun _ : SessionId => Bytes
  | [] => ∅
  | (id, r) :: filed => (files filed).insert id r.encode

/-- The files by their tiers. -/
def reports (filed : List (SessionId × Report)) : Tier → Finmap fun _ : SessionId => Bytes
  | .normal => files filed
  | _ => ∅

variable {filed : List (SessionId × Report)} {id : SessionId} {r : Report}

theorem mem_of_lookup (h : filed.lookup id = some r) : (id, r) ∈ filed := by
  obtain ⟨before, after, hsplit, -⟩ := List.lookup_eq_some_iff.1 h
  exact hsplit ▸ List.mem_append_right _ List.mem_cons_self

theorem lookup_files (filed : List (SessionId × Report)) (id : SessionId) :
    (files filed).lookup id = (filed.lookup id).map Report.encode := by
  induction filed with
  | nil => rfl
  | cons entry filed ih =>
    obtain ⟨other, r⟩ := entry
    by_cases he : id = other
    · rw [he, List.lookup_cons_self]
      exact Finmap.lookup_insert _
    · rw [List.lookup_cons, beq_false_of_ne he, ← ih]
      exact Finmap.lookup_insert_of_ne _ he

theorem shows_entries (hids : ∀ entry ∈ filed, entry.1.IsStorable) :
    Shows HoldsReport (entries filed) (files filed) := by
  induction filed with
  | nil => exact Shows.nil
  | cons entry filed ih =>
    exact (ih fun other hother => hids other (List.mem_cons_of_mem _ hother)).setEntry
      (hids entry List.mem_cons_self) rfl

theorem holds (hids : ∀ entry ∈ filed, entry.1.IsStorable) :
    TiersHold place (reports filed) (tree filed) where
  leadsOn tier := by cases tier <;> rfl
  shows tier := by
    cases tier with
    | native => exact Shows.nil
    | priority => exact Shows.nil
    | normal => exact shows_entries hids

/-- The reports are loaded, and no other one. -/
theorem mem_loaded_iff (hfiled : ∀ entry ∈ filed, entry.1.IsStorable ∧ entry.2.events ≠ []) :
    (id, r) ∈ (place.engine.loadFinalized (tree filed)).1 ↔ filed.lookup id = some r := by
  have hholds : TiersHold place (⟨∅, reports filed⟩ : Vault).reports (tree filed) :=
    holds fun entry hentry => (hfiled entry hentry).1
  rw [hholds.loadFinalized, Vault.mem_loadable_iff]
  constructor
  · rintro ⟨tier, contents, hlookup, -, hdecode, -⟩
    cases tier with
    | normal =>
      rw [show (reports filed .normal).lookup id = _ from lookup_files filed id] at hlookup
      obtain ⟨found, hfound, rfl⟩ := Option.map_eq_some_iff.1 hlookup
      rw [Codec.decodeReport_json_eq_ok_iff, Report.decode?_encode] at hdecode
      rw [hfound, hdecode]
    | _ => exact absurd hlookup (by simp [reports])
  · intro hlookup
    have hmem := mem_of_lookup hlookup
    refine ⟨.normal, r.encode, (lookup_files filed id).trans (by rw [hlookup]; rfl),
      fun higher hlt => ?_, Codec.decodeReport_json_eq_ok_iff.2 r.decode?_encode,
      Or.inl (hfiled _ hmem).2⟩
    cases higher with
    | normal => exact absurd hlt (by decide)
    | _ => exact Finmap.notMem_empty

/-! ## An identifier that another one goes on behind -/

/-- A session. -/
def first : SessionId := ⟨"a"⟩

/-- A session whose identifier begins like that of the other one. -/
def second : SessionId := ⟨"ab"⟩

theorem isStorable_first : first.IsStorable := ⟨by decide, by decide⟩

theorem isStorable_second : second.IsStorable := ⟨by decide, by decide⟩

/-- The longer identifier is the only one that begins like itself. -/
theorem eq_second_of_begins {id : SessionId} (hid : id = first ∨ id = second)
    (h : second.name.toList <+: id.name.toList) : id = second := by
  rcases hid with rfl | rfl
  · have hlonger : ¬ second.name.toList <+: first.name.toList := by decide
    exact absurd h hlonger
  · rfl

/-- The reports of both. -/
def nested : List (SessionId × Report) := [(first, report first), (second, report second)]

theorem eq_of_lookup_nested {id : SessionId} {r : Report} (h : nested.lookup id = some r) :
    (id = first ∨ id = second) ∧ r = report id := by
  have hmem := mem_of_lookup h
  simp only [nested, List.mem_cons, Prod.mk.injEq, List.not_mem_nil, or_false] at hmem
  rcases hmem with ⟨rfl, rfl⟩ | ⟨rfl, rfl⟩
  · exact ⟨Or.inl rfl, rfl⟩
  · exact ⟨Or.inr rfl, rfl⟩

theorem isFiled_nested : ∀ entry ∈ nested, entry.1.IsStorable ∧ entry.2.events ≠ [] := by
  simp [nested, isStorable_first, isStorable_second, report, Report.withEvents]

end Filed

open Filed in
/-- A report is loaded, and no argument stands for it: each one that its identifier begins with, the
whole identifier too, is how the other identifier begins. -/
theorem nested_report_has_no_name :
    (first, report first) ∈ (place.engine.loadFinalized (tree nested)).1 ∧
      (∃ found, (findReport place.engine first.name).run (tree nested) =
        (.error (.ambiguous first.name found), tree nested)) ∧
      ∀ session, ((findReport place.engine session).run (tree nested)).1 ≠ .ok (report first) := by
  have hquiet : place.engine.store.QuietReads := Store.quietReads_inDirectory place.path
  have hfirst : (first, report first) ∈ (place.engine.loadFinalized (tree nested)).1 :=
    (mem_loaded_iff isFiled_nested).2 rfl
  have hsecond : (second, report second) ∈ (place.engine.loadFinalized (tree nested)).1 :=
    (mem_loaded_iff isFiled_nested).2 rfl
  have hlonger : first.name.toList <+: second.name.toList := by decide
  have hambiguous := resolveIn_eq_ambiguous hfirst hsecond (by decide) List.prefix_rfl hlonger
  refine ⟨hfirst, ⟨_, (run_findReport hquiet _ _).trans (congrArg (·, tree nested) hambiguous)⟩,
    fun session hfound => ?_⟩
  rw [run_findReport hquiet] at hfound
  obtain ⟨id, hloaded, hbegins, honly⟩ :=
    (resolveIn_eq_ok_iff (pairwise_loadFinalized place.path (tree nested))).1 hfound
  have hid : first = id :=
    congrArg Report.id (eq_of_lookup_nested ((mem_loaded_iff isFiled_nested).1 hloaded)).2
  subst hid
  exact absurd (honly _ hsecond (hbegins.trans hlonger)) (by decide)

open Filed in
/-- The longer identifier stands for its report. -/
theorem findReport_eq_ok_iff_nested :
    (second, report second) ∈ (place.engine.loadFinalized (tree nested)).1 ∧
      (findReport place.engine second.name).run (tree nested) =
        (.ok (report second), tree nested) := by
  have hsecond : (second, report second) ∈ (place.engine.loadFinalized (tree nested)).1 :=
    (mem_loaded_iff isFiled_nested).2 rfl
  refine ⟨hsecond,
    ((findReport_eq_ok_iff place.path (tree nested) second.name).2.1 second _ hsecond rfl).2 ?_⟩
  exact fun other hloaded => eq_second_of_begins
    (eq_of_lookup_nested ((mem_loaded_iff isFiled_nested).1 hloaded)).1

end ReportVault.Command
