import ReportVault.Proofs.Engine.Resume

/-!
# ReportVault.Proofs.Engine.Leftovers

A session whose directory was not removed completely.

When a pass has written the report of a session, it removes the directory of the session.  That is
not done at once: if the process ends meanwhile, any of the files may be left.  The next pass makes
a report of what is left and writes it over the first one.  `Files.Spares` says when this keeps the
events and the tier of the report, and `interrupted_cleanup_spares_iff` that it does in no other
case.
-/

namespace ReportVault

open FileSystem Retention
open Engine (Assembled)

/-- In a part of a directory a name stands for what it stands for in the whole, or for nothing. -/
theorem lookup_of_sublist {rest entries : List (String × α)} (h : rest.Sublist entries)
    (hnodup : (entries.map Prod.fst).Nodup) (name : String) :
    rest.lookup name = none ∨ rest.lookup name = entries.lookup name := by
  cases hrest : rest.lookup name with
  | none => exact Or.inl rfl
  | some a =>
    have hmem := (lookup_eq_some_iff (hnodup.sublist (h.map Prod.fst))).1 hrest
    exact Or.inr ((lookup_eq_some_iff hnodup).2 (h.subset hmem)).symm

namespace Files

theorem header?_of_sublist {rest files : Files} (h : rest.Sublist files)
    (hfiles : files.IsWellFormed) : rest.header? = none ∨ rest.header? = files.header? := by
  rcases lookup_of_sublist h hfiles.nodup SessionFile.header with he | he
  · exact Or.inl (by rw [header?, contents?, he, Option.bind_none])
  · exact Or.inr (by rw [header?, header?, contents?, contents?, he])

/-- If these files are left of a session, a pass leaves the events of its report and the tier: no
report is made of the files, as there is no event file, no header, or nothing to report; or one with
the same events is made, for the same tier. -/
def Spares (files : Files) (cap : Nat) (tier : Tier) (r : Report) : Prop :=
  files.slots = [] ∨ files.header? = none ∨
    (files.newestEvents cap = [] ∧ r.nativePayload = none) ∨
    (files.newestEvents cap = r.events ∧
      (if r.nativePayload.isSome then .native
        else if files.isMarked then .priority else .normal) = tier)

end Files

namespace Vault

/-- The directory of the session is gone, or some of its files are. -/
def IsPartlyClosed (v u : Vault) (id : SessionId) : Prop :=
  u = v.close id ∨ ∃ rest, rest.Sublist (v.files id) ∧ u = v.setFiles id rest

namespace IsPartlyClosed

variable {v u : Vault} {id : SessionId} (h : v.IsPartlyClosed u id)

include h

theorem reports_eq : u.reports = v.reports := by
  rcases h with rfl | ⟨rest, -, rfl⟩ <;> rfl

theorem files_sublist : (u.files id).Sublist (v.files id) := by
  rcases h with rfl | ⟨rest, hrest, rfl⟩
  · rw [files, lookup_close_self]
    exact List.nil_sublist _
  · rwa [files_of_lookup (Finmap.lookup_insert _)]

theorem mem_sessions {other : SessionId} (hopen : other ∈ u.sessions) (hne : other ≠ id) :
    other ∈ v.sessions := by
  rcases h with rfl | ⟨rest, -, rfl⟩
  · exact (Finmap.mem_erase.1 hopen).2
  · exact (Finmap.mem_insert.1 hopen).resolve_left hne

variable {w : Vault} (hclosed : ∀ other, v.sessions.lookup other = w.sessions.lookup other ∨
  v.sessions.lookup other = none)

include hclosed

/-- If only closings have come before, the session is still among the newest ones. -/
theorem mem_newest {current : Option SessionId} {n : Nat} (hchosen : id ∈ w.newest current n)
    (hopen : id ∈ u.sessions) : id ∈ u.newest current n := by
  obtain ⟨hkey, hcurrent⟩ := Finset.mem_filter.1 (top_subset hchosen)
  refine mem_top_of_subset (fun other hother => ?_) hchosen
    (Finset.mem_filter.2 ⟨Finmap.mem_keys.2 hopen, hcurrent⟩)
  obtain ⟨hmem, hother⟩ := Finset.mem_filter.1 hother
  by_cases hself : other = id
  · exact Finset.mem_filter.2 ⟨hself ▸ hkey, hother⟩
  · have hv : other ∈ v.sessions := h.mem_sessions (Finmap.mem_keys.1 hmem) hself
    refine Finset.mem_filter.2 ⟨Finmap.mem_keys.2 ?_, hother⟩
    rcases hclosed other with hsame | hnone
    · exact Finmap.mem_iff.2 (hsame ▸ Finmap.mem_iff.1 hv)
    · exact absurd hv (Finmap.lookup_eq_none.1 hnone)

/-- A header that is left is the one that was there. -/
theorem header?_eq (hw : w.IsWellFormed) {header : Report}
    (hheader : (u.files id).header? = some header) : (w.files id).header? = some header := by
  have hsub : (u.files id).Sublist (w.files id) := by
    refine h.files_sublist.trans ?_
    rcases hclosed id with hsame | hnone
    · exact (files_eq_of_lookup hsame).symm ▸ List.Sublist.refl _
    · rw [files, hnone]
      exact List.nil_sublist _
  rw [← hheader]
  exact ((Files.header?_of_sublist hsub (hw.files_of id)).resolve_left (by rw [hheader]; simp)).symm

end IsPartlyClosed

end Vault

/-- What is assembled beside a recorded report is complete if there is an event that can be decoded
or the report has a native crash. -/
theorem Files.isComplete_assembled_iff (files : Files) {header first : Report} (id : SessionId)
    (time : Int64) (cap : Nat)
    (hpayload : first.nativePayload = none → header.nativePayload = none) :
    (files.assembled id time cap header (some first)).report.isComplete = true ↔
      ¬ (files.newestEvents cap = [] ∧ first.nativePayload = none) := by
  have hevents : (files.assembled id time cap header (some first)).report.events =
      files.newestEvents cap := Assembled.events_ofParts ..
  rw [Report.isComplete, hevents, Files.assembled, Assembled.nativePayload_ofParts,
    Option.bind_some, not_and_or, Bool.or_eq_true, Bool.not_eq_true', List.isEmpty_eq_false_iff]
  refine or_congr_right ?_
  cases hfirst : first.nativePayload with
  | none => simp [hpayload hfirst]
  | some payload => simp

namespace Pass

variable {place : Location} {caps : Caps} {current : Option SessionId} {time : Int64}
  {u : Vault} {id : SessionId} {tier : Tier} {first : Report}

/-- What is there after a pass over a session that has a report, whatever is left of its files. -/
theorem hasReport_again (hid : id.IsStorable) (h : u.HasReport id tier first)
    (hnewest : id ∈ u.sessions → id ∈ u.newest current caps.openSessions)
    (hplace : ¬ (plain place caps current time).Evicts u id)
    (hpayload : ∀ header, (u.files id).header? = some header → first.nativePayload = none →
      header.nativePayload = none) :
    ∃ (tier' : Tier) (second : Report),
      (u.after ((plain place caps current time).changes u)).HasReport id tier' second ∧
      (second.events = first.events ∧ tier' = tier ↔
        (u.files id).Spares caps.events tier first) := by
  have hrecorded : u.recorded? id = some first := h.recorded?_eq
  have hcomplete := fun header hheader =>
    (u.files id).isComplete_assembled_iff id time caps.events (hpayload header hheader)
  -- The session is assembled again from what is left of it, or its report stays as it is.
  by_cases hmade : (u.files id).slots ≠ [] ∧ ∃ header, (u.files id).header? = some header ∧
      ¬ ((u.files id).newestEvents caps.events = [] ∧ first.nativePayload = none)
  · obtain ⟨hslots, header, hheader, hreport⟩ := hmade
    have hopen : id ∈ u.sessions := by
      by_contra hclosed
      refine hslots ?_
      rw [Vault.files_eq_nil hclosed]
      exact Files.Holds.nil.slots_eq
    have hafter := hasReport_of_isComplete (v := u) hid (hnewest hopen) hplace hslots hheader
      (by rw [hrecorded]; exact (hcomplete header hheader).2 hreport)
    rw [hrecorded] at hafter
    refine ⟨_, _, hafter, ?_⟩
    rw [Files.Spares, or_iff_right hslots, or_iff_right (by rw [hheader]; simp),
      or_iff_right hreport, Files.assembled, Assembled.events_ofParts, Assembled.tier_ofParts,
      Option.bind_some]
  · have hnone : ∀ a ∈ (plain place caps current time).assembled u, a.id ≠ id := by
      rintro a ha rfl
      obtain ⟨hslots, header, hheader, hassembled, hreport⟩ :=
        (outcome_plain_eq_some_iff hid).1 (mem_assembled.1 ha).2
      rw [hrecorded] at hassembled
      exact hmade ⟨hslots, header, hheader,
        (hcomplete header hheader).1 (by rw [hassembled]; exact hreport)⟩
    refine ⟨tier, first, hasReport_of_not_mem h hplace hnone, iff_of_true ⟨rfl, rfl⟩ ?_⟩
    by_contra hspares
    rw [Files.Spares, not_or, not_or, not_or] at hspares
    obtain ⟨header, hheader⟩ := Option.ne_none_iff_exists'.1 hspares.2.1
    exact hmade ⟨hspares.1, header, hheader, hspares.2.2.1⟩

end Pass

section Cleanup

variable {place : Location} {tree : Node} {v : Vault} {id : SessionId}

/-- What becomes of a report when the directory of its session was not removed completely after it
was written, and a pass with the same settings does not evict the session: the session has a
report, and it has the events of the first one and its tier exactly if the files that are left
spare it. -/
theorem interrupted_cleanup_spares_iff (hheld : v.IsHeldIn place tree) {caps : Caps}
    {current : Option SessionId} {time : Int64} {before : List Change} {tier : Tier}
    {contents : Bytes}
    (hwritten : before ++ [.writeReport id tier contents] <+:
      (Engine.finalize ⟨place.store.logged, .json⟩ caps current time (tree, [])).2.2)
    {u : Vault} (hu : (v.after (before ++ [.writeReport id tier contents])).IsPartlyClosed u id)
    {cut : Node} (hcut : u.IsHeldIn place cut)
    (hplace : ¬ (Pass.plain place caps current time).Evicts u id) :
    ∃ (first second : Report) (w : Vault) (tier' : Tier),
      Report.decode? contents = some first ∧
      w.IsHeldIn place (place.engine.finalize caps current time cut).2 ∧
      w.HasReport id tier' second ∧
      (second.events = first.events ∧ tier' = tier ↔
        (u.files id).Spares caps.events tier first) := by
  let p := Pass.plain place caps current time
  have hv := hheld.isWellFormed
  rw [Pass.log_finalize_plain hheld] at hwritten
  obtain ⟨a, ha, rfl, he⟩ : ∃ a, p.Writes v a ∧ a.id = id ∧
      Change.writeReport id tier contents = .writeReport id a.tier a.report.encode := by
    have hmem : Change.writeReport id tier contents ∈
        before ++ [.writeReport id tier contents] := by simp
    rcases Pass.sparesReport_or_of_mem_beginning hwritten id hmem with h | h | ⟨-, h⟩
    · exact absurd rfl h
    · exact h
    · exact absurd h (by simp)
  obtain ⟨rfl, rfl⟩ : tier = a.tier ∧ contents = a.report.encode := by simpa using he
  obtain ⟨hkept, houtcome⟩ := Pass.mem_assembled.1 ha.1
  have hid := hv.isStorable_open _ (Pass.open_of_mem_kept hkept).1
  have hlookup := Pass.lookup_after_beginning hwritten
  have hreport : u.HasReport a.id a.tier a.report := by
    intro t
    rw [hu.reports_eq, Vault.after_append]
    exact Vault.lookup_setReport_self a.tier t _
  have hnewest : a.id ∈ u.sessions → a.id ∈ u.newest current caps.openSessions :=
    hu.mem_newest hlookup (Pass.mem_kept_plain.1 hkept)
  have hpayload : ∀ header, (u.files a.id).header? = some header →
      a.report.nativePayload = none → header.nativePayload = none := by
    intro header hheader hnone
    obtain ⟨-, found, hfound, hassembled, -⟩ := (Pass.outcome_plain_eq_some_iff hid).1 houtcome
    obtain rfl : header = found := by
      rw [hu.header?_eq hlookup hv hheader] at hfound
      exact Option.some.inj hfound
    rw [← hassembled, Files.assembled, Assembled.nativePayload_ofParts] at hnone
    exact (Option.or_eq_none_iff.1 hnone).2
  obtain ⟨tier', second, hsecond, hiff⟩ :=
    Pass.hasReport_again hid hreport hnewest hplace hpayload
  exact ⟨a.report, second, _, tier', a.report.decode?_encode,
    (Pass.finalize_directory (p := p) hcut).2, hsecond, hiff⟩

end Cleanup

/-! ## An event that is lost -/

namespace TwoEvents

open OneEvent (session header)

/-- The second event file. -/
def later : Slot := .new 2 false

/-- The session had one event, and then another one. -/
def vault : Vault := OneEvent.vault.setFile session later.fileName (Event.log 0 "y").encode

/-- A pass in which no call fails. -/
def pass : Pass := .plain OneEvent.pass.place {} none 0

theorem files_vault : vault.files session =
    [(SessionFile.header, .file header.encode),
      (OneEvent.slot.fileName, .file (Event.log 0 "x").encode),
      (later.fileName, .file (Event.log 0 "y").encode)] := by
  rw [vault, Vault.files_setFile_self, OneEvent.files_vault]
  rfl

theorem holds_vault : (vault.files session).Holds [OneEvent.slot, later]
    [Event.log 0 "x", Event.log 0 "y"] := by
  have hheader : Files.Holds (setEntry SessionFile.header (.file header.encode) []) [] [] :=
    Files.Holds.nil.setEntry_of_not_slot (by decide) _
  have hslot : Slot.ofFileName? OneEvent.slot.fileName = some OneEvent.slot :=
    Slot.ofFileName?_name 1 false
  have hlater : Slot.ofFileName? later.fileName = some later := Slot.ofFileName?_name 2 false
  have hone := hheader.append hslot (Slot.isEntryName_name 1 false).2 (by simp) (Event.log 0 "x")
  exact hone.append hlater (Slot.isEntryName_name 2 false).2 (by decide) (Event.log 0 "y")

theorem header?_vault : (vault.files session).header? = some header := by
  rw [Files.header?, Files.contents?, files_vault]
  exact header.decode?_encode

/-- What is made of the session. -/
def first : Assembled := (vault.files session).assembled session 0 8 header none

theorem events_first : first.report.events = [Event.log 0 "x", Event.log 0 "y"] := by
  rw [first, Files.assembled, Assembled.events_ofParts, holds_vault.newestEvents_eq]
  rfl

theorem outcome_vault : pass.outcome vault session = .ok (some first) := by
  refine (Pass.outcome_plain_eq_some_iff OneEvent.isStorable).2
    ⟨by rw [holds_vault.slots_eq]; simp, header, header?_vault, rfl, ?_⟩
  rw [Report.isComplete, events_first]
  rfl

theorem alone (other : SessionId) (h : other ∈ vault.sessions) : other = session := by
  have hkeys : vault.sessions.keys = {session} := rfl
  rwa [← Finmap.mem_keys, hkeys, Finset.mem_singleton] at h

theorem kept_vault : pass.surplus vault = [] ∧ pass.kept vault = [session] := by
  have hkeys : vault.sessions.keys = {session} := rfl
  have hcandidates : pass.candidates vault = [session] := by
    rw [Pass.candidates, Medium.openIds_eq, hkeys, Finset.sort_singleton]
    rfl
  rw [Pass.surplus, Pass.kept, hcandidates]
  exact ⟨rfl, rfl⟩

theorem not_evicts_vault : ¬ pass.Evicts vault session := by
  have hfinalized : vault.finalized = ∅ := rfl
  have hout : ∀ other, other ∉ vault.finalized := fun other => by
    rw [hfinalized]
    exact Finset.notMem_empty other
  exact Pass.not_evicts_of_alone rfl
    (fun other h => alone other (h.resolve_right (hout other))) (by decide)

/-- The report is written, and then the session is closed. -/
theorem writes_first :
    [.writeReport session first.tier first.report.encode] <+: pass.changes vault := by
  have hassembled : pass.assembled vault = [first] := by
    have hmade : pass.assembling vault session = (some first, {}) := by
      rw [Pass.assembling, outcome_vault]
    rw [Pass.assembled, kept_vault.2]
    simp only [List.filterMap_cons, List.filterMap_nil, hmade]
  have hsweeping : pass.sweeping vault = [] := by
    rw [Pass.sweeping, kept_vault.1, kept_vault.2, List.flatMap_nil, List.flatMap_singleton,
      Pass.clearing, outcome_vault]
    rfl
  have hplaced : (pass.verdict vault).isEvicted session = false :=
    Bool.eq_false_iff.2 fun h => not_evicts_vault (Or.inl h)
  rw [Pass.changes, Pass.settling, hsweeping, hassembled, List.flatMap_singleton, Pass.placing,
    show first.id = session from Assembled.id_ofParts .., hplaced]
  exact List.prefix_append [_] _

/-- The first event file is gone, and the others are left. -/
def left : Vault :=
  (vault.after [.writeReport session first.tier first.report.encode]).dropFile session
    OneEvent.slot.fileName

theorem files_left : left.files session = dropEntry OneEvent.slot.fileName (vault.files session) := rfl

theorem holds_left : (left.files session).Holds [later] [Event.log 0 "y"] :=
  holds_vault.dropOldest

theorem header?_left : (left.files session).header? = some header := by
  have hne : SessionFile.header ≠ OneEvent.slot.fileName := by decide
  rw [files_left, Files.header?, Files.contents?, lookup_dropEntry_of_ne _ hne]
  exact header?_vault

theorem isPartlyClosed_left :
    (vault.after [.writeReport session first.tier first.report.encode]).IsPartlyClosed left
      session :=
  Or.inr ⟨_, List.filter_sublist, rfl⟩

theorem exists_tree : ∃ tree cut, vault.IsHeldIn OneEvent.pass.place tree ∧
    left.IsHeldIn OneEvent.pass.place cut := by
  obtain ⟨_, hone⟩ := OneEvent.exists_tree
  obtain ⟨tree, hheld⟩ : ∃ tree, vault.IsHeldIn OneEvent.pass.place tree :=
    hone.exists_setFile OneEvent.isStorable (Slot.isEntryName_name 2 false) (by decide)
      (Event.log 0 "y").encode
  obtain ⟨_, hwritten⟩ :=
    hheld.exists_setReport OneEvent.isStorable first.tier first.report.encode
  have hcut := (hwritten.perform (.delete session OneEvent.slot.fileName)
    ⟨OneEvent.isStorable.isShort, (Slot.isEntryName_name 1 false).1⟩).2
  exact ⟨tree, _, hheld, hcut⟩

theorem mem_newest_left : session ∈ left.newest none ({} : Caps).openSessions := by
  have hkeys : left.sessions.keys = {session} := rfl
  rw [Vault.newest, hkeys, Finset.filter_singleton, if_pos (by simp), top_of_card_le (by simp)]
  exact Finset.mem_singleton_self session

theorem not_evicts_left : ¬ pass.Evicts left session := by
  have halone : ∀ other, other ∈ left.sessions ∨ other ∈ left.finalized → other = session := by
    rintro other (hopen | hmem)
    · by_contra hne
      exact hne (alone other ((Finmap.mem_insert.1 hopen).resolve_left hne))
    · by_contra hne
      obtain ⟨t, ht⟩ := Vault.mem_finalized.1 hmem
      have hnone : (left.reports t).lookup other = none :=
        Vault.lookup_setReport_of_ne hne first.tier t _
      exact Finmap.lookup_eq_none.1 hnone ht
  exact Pass.not_evicts_of_alone rfl halone (by decide)

end TwoEvents

/-- One of two events is lost, if its file alone was removed when the process ended. -/
theorem interrupted_cleanup_loses_event :
    ∃ (tree cut : Node) (u : Vault) (first second : Report) (w : Vault) (tier tier' : Tier),
      TwoEvents.vault.IsHeldIn OneEvent.pass.place tree ∧
      [.writeReport OneEvent.session tier first.encode] <+:
        (Engine.finalize ⟨OneEvent.pass.place.store.logged, .json⟩ {} none 0 (tree, [])).2.2 ∧
      (TwoEvents.vault.after [.writeReport OneEvent.session tier first.encode]).IsPartlyClosed u
        OneEvent.session ∧
      u.IsHeldIn OneEvent.pass.place cut ∧
      ¬ (Pass.plain OneEvent.pass.place {} none 0).Evicts u OneEvent.session ∧
      w.IsHeldIn OneEvent.pass.place (OneEvent.pass.place.engine.finalize {} none 0 cut).2 ∧
      w.HasReport OneEvent.session tier' second ∧
      first.events = [Event.log 0 "x", Event.log 0 "y"] ∧ second.events = [Event.log 0 "y"] := by
  obtain ⟨tree, cut, hheld, hcut⟩ := TwoEvents.exists_tree
  have hevents : ∀ recorded, ((TwoEvents.left.files OneEvent.session).assembled OneEvent.session 0 8
      OneEvent.header recorded).report.events = [Event.log 0 "y"] := fun recorded => by
    rw [Files.assembled, Assembled.events_ofParts, TwoEvents.holds_left.newestEvents_eq]
    rfl
  have hbegin : [.writeReport OneEvent.session TwoEvents.first.tier
      TwoEvents.first.report.encode] <+:
        (Engine.finalize ⟨OneEvent.pass.place.store.logged, .json⟩ {} none 0 (tree, [])).2.2 := by
    rw [Pass.log_finalize_plain hheld]
    exact TwoEvents.writes_first
  have hslots : (TwoEvents.left.files OneEvent.session).slots ≠ [] := by
    rw [TwoEvents.holds_left.slots_eq]
    simp
  have hplace : ¬ (Pass.plain OneEvent.pass.place {} none 0).Evicts TwoEvents.left
      OneEvent.session := TwoEvents.not_evicts_left
  have hsecond := Pass.hasReport_of_isComplete OneEvent.isStorable TwoEvents.mem_newest_left
    hplace hslots TwoEvents.header?_left
    (by rw [Report.isComplete, hevents]; rfl)
  exact ⟨tree, cut, TwoEvents.left, TwoEvents.first.report, _, _, TwoEvents.first.tier, _, hheld,
    hbegin, TwoEvents.isPartlyClosed_left, hcut, hplace,
    (Pass.finalize_directory (p := .plain OneEvent.pass.place {} none 0) hcut).2, hsecond,
    TwoEvents.events_first, hevents _⟩

/-- The same files, seen from whether they spare the report. -/
theorem interrupted_cleanup_spares_iff_two_events :
    ∃ (cut : Node) (first second : Report) (w : Vault) (tier' : Tier),
      TwoEvents.left.IsHeldIn OneEvent.pass.place cut ∧
      w.IsHeldIn OneEvent.pass.place (OneEvent.pass.place.engine.finalize {} none 0 cut).2 ∧
      w.HasReport OneEvent.session tier' second ∧
      (second.events = first.events ∧ tier' = TwoEvents.first.tier ↔
        (TwoEvents.left.files OneEvent.session).Spares 8 TwoEvents.first.tier first) := by
  obtain ⟨tree, cut, hheld, hcut⟩ := TwoEvents.exists_tree
  have hbegin : [] ++ [.writeReport OneEvent.session TwoEvents.first.tier
      TwoEvents.first.report.encode] <+:
        (Engine.finalize ⟨OneEvent.pass.place.store.logged, .json⟩ {} none 0 (tree, [])).2.2 := by
    rw [Pass.log_finalize_plain hheld]
    exact TwoEvents.writes_first
  obtain ⟨first, second, w, tier', -, hw, hsecond, hiff⟩ := interrupted_cleanup_spares_iff hheld
    hbegin TwoEvents.isPartlyClosed_left hcut TwoEvents.not_evicts_left
  exact ⟨cut, first, second, w, tier', hcut, hw, hsecond, hiff⟩

end ReportVault
