import ReportVault.Proofs.Store.Anywhere

/-!
# ReportVault.Proofs.Store.Damage

Writes to a store that fail do no damage.

In any tree a file of a session that cannot be written leaves every file as it is, and no temporary
one.  A report that cannot be written may be half moved, from one tier to another: it is still whole,
and it is still there (`failed_writes_do_no_damage`).
-/

namespace ReportVault.Store

open FileSystem

/-- A write that fails does no damage, whatever the tree is.  If a file of a session cannot be
written, nothing happens but that directories are made on the way to it.  If a report cannot be
written, nothing else happens but at the reports of the session, each of which is as it was, the
complete new one, or gone; and there is still one if there was one. -/
theorem failed_writes_do_no_damage (root : Path) (id : SessionId) (top after : Node)
    (failure : Failure) (contents : Bytes) :
    (∀ name, ((inDirectory inMemory root).perform (.write id name contents)).run top =
        (.error failure, after) →
      ∀ names, after.at? names = top.at? names ∨
        ((root.child openSessions).child id.name).LeadsThrough names ∧
          top.at? names = none ∧ after.at? names = some .empty) ∧
    ∀ tier, ((inDirectory inMemory root).perform (.writeReport id tier contents)).run top =
        (.error failure, after) →
      (∀ names, (∀ other, reportNames? root id other ≠ some names) →
        after.at? names = top.at? names ∨
          (root.child tier.directory).LeadsThrough names ∧
            top.at? names = none ∧ after.at? names = some .empty) ∧
      (∀ other names found, reportNames? root id other = some names →
        after.at? names = some (.file found) →
          top.at? names = some (.file found) ∨ other = tier ∧ found = contents) ∧
      ((∃ other names found, reportNames? root id other = some names ∧
          top.at? names = some (.file found)) →
        ∃ other names found, reportNames? root id other = some names ∧
          after.at? names = some (.file found)) := by
  constructor
  · intro name h
    obtain ⟨made, hmade, houtcome⟩ := exists_writeOutcome root id top name contents
    rw [h] at houtcome
    cases houtcome with
    | failed => exact hmade.eq_or_made
  · intro tier h
    obtain ⟨made, hmade, houtcome⟩ := Directory.exists_reportOutcome root id top tier contents
    rw [h] at houtcome
    cases houtcome with
    | failed =>
      refine ⟨fun names _ => hmade.eq_or_made names, fun other names found _ hfound =>
        Or.inl ((hmade.at?_eq_file_iff not_false).1 hfound), ?_⟩
      rintro ⟨other, names, found, hnames, hfound⟩
      exact ⟨other, names, found, hnames, (hmade.at?_eq_file_iff not_false).2 hfound⟩
    | @written place _ hplace hwritten hothers =>
      refine ⟨fun names hnot => ?_, fun other names found hnames hfound => ?_, fun _ =>
        ⟨tier, place, contents, hplace, hwritten⟩⟩
      · have hne : names ≠ place := fun he => hnot tier (he ▸ hplace)
        rcases hothers names hne with hsame | ⟨⟨other, -, hother⟩, -⟩
        · rw [hsame]
          exact hmade.eq_or_made names
        · exact absurd hother (hnot other)
      · by_cases he : names = place
        · subst he
          rw [hwritten] at hfound
          cases hfound
          exact Or.inr ⟨tier_eq_of_reportNames? hnames hplace, rfl⟩
        · rcases hothers names he with hsame | ⟨-, hnone⟩
          · rw [hsame] at hfound
            exact Or.inl ((hmade.at?_eq_file_iff not_false).1 hfound)
          · rw [hnone] at hfound
            cases hfound

/-- A session whose directory cannot be made because of a file, and a report that cannot be moved
because of a directory. -/
theorem failed_writes_do_no_damage_blocked :
    let root : Path := .ofNames ["data"]
    let top : Node := .directory [("data", .directory [
      ("open-sessions", .file [7]),
      ("reports", .directory [("s", .file [1])]),
      ("priority-reports", .directory [("s", .directory [])])])]
    let written := ((inDirectory inMemory root).perform (.write ⟨"s"⟩ "user" [2])).run top
    let moved := ((inDirectory inMemory root).perform (.writeReport ⟨"s"⟩ .native [2])).run top
    written.1 =
        .error (.storage .createDirectory "data/open-sessions/s" .notADirectory) ∧
      moved.1 = .error (.storage .removeFile "data/priority-reports/s" .isADirectory) ∧
      (∀ found, written.2.at? ["data", "open-sessions"] = some (.file found) ↔ found = [7]) ∧
      ∃ other names found, reportNames? root ⟨"s"⟩ other = some names ∧
        moved.2.at? names = some (.file found) := by
  intro root top written moved
  have hwritten : written.1 =
      .error (.storage .createDirectory "data/open-sessions/s" .notADirectory) := by
    decide +kernel
  have hmoved : moved.1 =
      .error (.storage .removeFile "data/priority-reports/s" .isADirectory) := by
    decide +kernel
  have hfile := (failed_writes_do_no_damage root ⟨"s"⟩ top written.2 _ [2]).1 "user"
    (Prod.ext hwritten rfl) ["data", "open-sessions"]
  have hblocker : top.at? ["data", "open-sessions"] = some (.file [7]) := rfl
  have hreport : top.at? ["data", "reports", "s"] = some (.file [1]) := rfl
  refine ⟨hwritten, hmoved, fun found => ?_, ?_⟩
  · rcases hfile with hsame | ⟨-, hnone, -⟩
    · rw [hsame, hblocker]
      simp [eq_comm]
    · rw [hblocker] at hnone
      cases hnone
  · exact ((failed_writes_do_no_damage root ⟨"s"⟩ top moved.2 _ [2]).2 .native
      (Prod.ext hmoved rfl)).2.2 ⟨.normal, ["data", "reports", "s"], [1], rfl, hreport⟩

end ReportVault.Store
