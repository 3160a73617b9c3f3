import Mathlib.Algebra.Ring.Int.Defs
import ReportVault.Config
import ReportVault.FileSystem.Entries
import ReportVault.Proofs.Toml.Lines

/-!
# ReportVault.Proofs.Retention.Settings

The caps of a settings file, one by one.

A text of lines `key = value` gives each cap on its own: the value of its line, unless there is none
or it is negative.  The other lines and the order of the lines do not matter, and in a configuration
the same lines under the header `[retention]` give the same caps (`settings_degrade_cap_by_cap`).
-/

namespace ReportVault.Retention

open Toml

variable {entries : List (String × Int)} {name : String} {n fallback : Nat}

/-- A cap is what its entry gives, or its own default without an entry that is not negative. -/
structure IsCap (entries : List (String × Int)) (name : String) (fallback n : Nat) : Prop where
  given : ∀ i, (name, i) ∈ entries → 0 ≤ i → n = i
  absent : (∀ i, (name, i) ∈ entries → i < 0) → n = fallback

/-- Each key is given an integer that the reader can hold: an integer of 64 bits if it is the key of
a cap, and otherwise one of 128 bits. -/
structure AreGiven (entries : List (String × Int)) : Prop where
  distinct : (entries.map Prod.fst).Nodup
  caps : ∀ name ∈ [Caps.eventsName, Caps.reportsName, Caps.openSessionsName], ∀ i,
    (name, i) ∈ entries → -2 ^ 63 ≤ i ∧ i < 2 ^ 63
  others : ∀ entry ∈ entries, -2 ^ 127 ≤ entry.2 ∧ entry.2 < 2 ^ 128

namespace AreGiven

theorem lookup_eq_some_iff (h : AreGiven entries) {i : Int} :
    entries.lookup name = some i ↔ (name, i) ∈ entries :=
  FileSystem.lookup_eq_some_iff h.distinct

theorem isCap (h : AreGiven entries) (name : String) (fallback : Nat) :
    IsCap entries name fallback (Caps.orDefault (entries.lookup name) fallback) := by
  constructor
  · intro i hi hpos
    rw [h.lookup_eq_some_iff.2 hi, Caps.orDefault, if_pos hpos, Int.toNat_of_nonneg hpos]
  · intro hneg
    cases hlookup : entries.lookup name with
    | none => rfl
    | some i =>
      have hi := hneg i (h.lookup_eq_some_iff.1 hlookup)
      rw [Caps.orDefault, if_neg (by omega)]

/-- Every number can be held. -/
theorem areMembersHeld (h : AreGiven entries) :
    Value.areMembersHeld (Document.ofEntries entries) = true := by
  have hheld : ∀ {entries : List (String × Int)},
      (∀ entry ∈ entries, -2 ^ 127 ≤ entry.2 ∧ entry.2 < 2 ^ 128) →
        Value.areMembersHeld (Document.ofEntries entries) = true := by
    intro entries hall
    induction entries with
    | nil => rfl
    | cons entry entries ih =>
      obtain ⟨hlow, hhigh⟩ := hall entry List.mem_cons_self
      have hrest := ih fun other hother => hall other (List.mem_cons_of_mem _ hother)
      rw [Document.ofEntries, List.map_cons, Value.areMembersHeld, Value.isHeld, Bool.and_eq_true,
        decide_eq_true_iff]
      exact ⟨⟨hlow, hhigh⟩, hrest⟩
  exact hheld h.others

/-- A cap is read as it is given. -/
theorem given?_eq (h : AreGiven entries)
    (hname : name ∈ [Caps.eventsName, Caps.reportsName, Caps.openSessionsName]) :
    Caps.given? name (Document.ofEntries entries) = some (entries.lookup name) := by
  rw [Caps.given?, Document.lookup_ofEntries]
  cases hlookup : entries.lookup name with
  | none => rfl
  | some i =>
    have hrange := h.caps name hname i (h.lookup_eq_some_iff.1 hlookup)
    have hmin : Int64.minValue.toInt = -2 ^ 63 := rfl
    have hmax : Int64.maxValue.toInt = 2 ^ 63 - 1 := rfl
    show (Caps.int? (.integer (some i))).map some = _
    rw [Caps.int?, Text.int64?, if_pos (by omega)]
    rfl

theorem ofMembers?_eq (h : AreGiven entries) :
    Caps.ofMembers? (Document.ofEntries entries) = some (Caps.ofGiven
      (entries.lookup Caps.eventsName) (entries.lookup Caps.reportsName)
      (entries.lookup Caps.openSessionsName)) := by
  rw [Caps.ofMembers?, h.areMembersHeld, h.given?_eq (by simp), h.given?_eq (by simp),
    h.given?_eq (by simp)]
  rfl

theorem perm {others : List (String × Int)} (h : AreGiven entries) (hperm : others.Perm entries) :
    AreGiven others where
  distinct := (hperm.map Prod.fst).nodup_iff.2 h.distinct
  caps name hname i hi := h.caps name hname i (hperm.mem_iff.1 hi)
  others entry hentry := h.others entry (hperm.mem_iff.1 hentry)

/-- The order of the lines does not matter. -/
theorem lookup_eq_of_perm {others : List (String × Int)} (h : AreGiven entries)
    (hperm : others.Perm entries) (name : String) : others.lookup name = entries.lookup name := by
  refine Option.ext fun i => ?_
  rw [h.lookup_eq_some_iff, (h.perm hperm).lookup_eq_some_iff, hperm.mem_iff]

end AreGiven

/-- A configuration of a retention table has its caps. -/
theorem ofMembers?_retention (members : Members) :
    Config.ofMembers? [("retention", .table .header members)] =
      (Caps.ofMembers? members).map fun caps => { root := none, retention := caps } := by
  have hothers : [("retention", Value.table .header members)].filter (·.1 ≠ "retention") = [] := by
    simp
  have hroot : Config.root? [("retention", .table .header members)] = some none := rfl
  have hcaps : Config.retention? [("retention", .table .header members)] =
      Caps.ofMembers? members := rfl
  rw [Config.ofMembers?, hothers, hroot, hcaps]
  cases Caps.ofMembers? members <;> rfl

/-- What lines `key = value` set, whatever other keys there are among them.  Each cap is its own
value, or its own default if there is none or it is negative, independently of the other lines; the
order of the lines does not matter; and under a header a configuration has the same caps. -/
theorem settings_degrade_cap_by_cap {text : String} (hlines : Lines text.toList entries)
    (hgiven : AreGiven entries) :
    ∃ caps, Caps.parse? text = some caps ∧
      IsCap entries "max_custom_exception_events" 8 caps.events ∧
      IsCap entries "max_complete_sessions_count" 4 caps.reports ∧
      IsCap entries "max_open_sessions" 8 caps.openSessions ∧
      (∀ lineEnd ∈ ["\n", "\r\n"],
        Config.parse? ("[retention]" ++ lineEnd ++ text) =
          some { root := none, retention := caps }) ∧
      ∀ other others, Lines other.toList others → others.Perm entries →
        Caps.parse? other = some caps := by
  have hparse : ∀ {other : String} {others : List (String × Int)}, Lines other.toList others →
      others.Perm entries → Caps.parse? other = some (Caps.ofGiven
        (entries.lookup Caps.eventsName) (entries.lookup Caps.reportsName)
        (entries.lookup Caps.openSessionsName)) := by
    intro other others hother hperm
    have hothers := hgiven.perm hperm
    rw [Caps.parse?, Document.parse?_of_lines hother hothers.distinct, Option.bind_some,
      hothers.ofMembers?_eq]
    simp only [hgiven.lookup_eq_of_perm hperm]
  refine ⟨_, hparse hlines (.refl _), hgiven.isCap _ 8, hgiven.isCap _ 4, hgiven.isCap _ 8,
    fun lineEnd hend => ?_, fun other others hother hperm => hparse hother hperm⟩
  obtain ⟨tail, htail, hlineEnd⟩ : ∃ tail, lineEnd.toList ++ text.toList = tail ∧
      LineEnd tail text.toList := by
    simp only [List.mem_cons, List.not_mem_nil, or_false] at hend
    rcases hend with rfl | rfl
    · exact ⟨_, rfl, .lineFeed _⟩
    · exact ⟨_, rfl, .carriageReturn _⟩
  have hname : IsBareKey "retention" := by decide
  have hs : ("[retention]" ++ lineEnd ++ text).toList =
      '[' :: ("retention".toList ++ ']' :: tail) := by
    rw [String.toList_append, String.toList_append, List.append_assoc, htail]
    rfl
  rw [Config.parse?, Document.parse?_of_header hname hs hlineEnd hlines hgiven.distinct,
    Option.bind_some, ofMembers?_retention, hgiven.ofMembers?_eq, Option.map_some]

/-- Lines with a cap of zero, the least integer for another cap, and a key of no cap. -/
theorem settings_degrade_cap_by_cap_lines :
    let text := "max_open_sessions = 0\n" ++ "uploads = 12\n" ++
      "max_custom_exception_events = -9223372036854775808\n"
    Caps.parse? text = some { events := 8, reports := 4, openSessions := 0 } ∧
      Config.parse? ("[retention]" ++ "\n" ++ text) =
        some { root := none, retention := { events := 8, reports := 4, openSessions := 0 } } := by
  intro text
  let entries : List (String × Int) := [("max_open_sessions", 0), ("uploads", 12),
    ("max_custom_exception_events", -2 ^ 63)]
  have hkeys : ∀ entry ∈ entries, IsBareKey entry.1 := by
    simp only [entries, List.forall_mem_cons]
    exact ⟨by decide, by decide, by decide, by simp⟩
  have hlines : Lines text.toList entries := by
    have htext : text.toList = linesOf entries := by decide
    rw [htext]
    exact lines_linesOf hkeys
  have hgiven : AreGiven entries := by
    refine ⟨by decide, ?_, by decide⟩
    simp [entries, Caps.eventsName, Caps.reportsName, Caps.openSessionsName]
  obtain ⟨⟨events, reports, openSessions⟩, hparse, hevents, hreports, hopen, hconfig, -⟩ :=
    settings_degrade_cap_by_cap hlines hgiven
  obtain rfl : events = 8 := hevents.absent (by simp [entries])
  obtain rfl : reports = 4 := hreports.absent (by simp [entries])
  obtain rfl : openSessions = 0 := by
    have h := hopen.given 0 (by simp [entries]) (by decide)
    exact_mod_cast h
  exact ⟨hparse, hconfig "\n" (by simp)⟩

end ReportVault.Retention
