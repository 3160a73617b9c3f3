import Mathlib.Data.List.Forall2
import Mathlib.Data.List.Nodup
import ReportVault.Proofs.Codec.RoundTrip

/-!
# ReportVault.Proofs.Json.Rearranged

Records whose members stand in another order, or among others.

A record that is written as an object may be rearranged (`RearrangesRecord`): its members are put in
any order, fields that were left out are given as `null`, and members that are no fields are added.
What matters of the fields stays (`Fields.SameFor`), so a reader that takes its fields one by one
reads the same (`RearrangesRecord.keeps`), and a value that can be held can still be held
(`RearrangesRecord.keepsFit`).
-/

namespace ReportVault.Json

/-! ## Rearrangements -/

/-- What may become of a value. -/
abbrev Rearrangement := Value → Value → Prop

/-- A field of a record, with what may become of its value. -/
structure Field where
  name : String
  isOptional : Bool := false
  values : Rearrangement := Eq

/-- The value is `null`, a truth value, an integer of 64 bits or a string. -/
inductive Value.IsScalar : Value → Prop
  | null : IsScalar .null
  | bool (b : Bool) : IsScalar (.bool b)
  | int (i : Int) : Int64.minValue.toInt ≤ i → i < UInt64.size → IsScalar (.int i)
  | text (s : String) : IsScalar (.text s)

/-- The members of an object with these names and values. -/
def Fields.members (fs : Fields) : List (Option String × Value) := fs.map fun m => (some m.1, m.2)

/-- The member of a field has its name still, and a value that its own may become. -/
def KeepsMember (fields : List Field) (m k : String × Value) : Prop :=
  k.1 = m.1 ∧ ∃ f ∈ fields, f.name = m.1 ∧ f.values m.2 k.2

/-- An object with these fields is rearranged: its members are kept, fields that may be left out and
were left out are given as `null`, members that are no fields are added, and all of them stand in
any order. -/
inductive RearrangesRecord (fields : List Field) : Rearrangement
  | object {given kept nulls foreign all : Fields}
      (hkept : List.Forall₂ (KeepsMember fields) given kept)
      (hnulls : ∀ m ∈ nulls, m.2 = .null ∧ m.1 ∉ given.map Prod.fst ∧
        ∃ f ∈ fields, f.name = m.1 ∧ f.isOptional = true)
      (honce : (nulls.map Prod.fst).Nodup)
      (hforeign : ∀ m ∈ foreign, m.1 ∉ fields.map Field.name ∧ m.2.IsScalar)
      (horder : all.Perm (kept ++ (nulls ++ foreign))) :
      RearrangesRecord fields (.object given.members) (.object all.members)

/-- The items of an array are rearranged, each by itself. -/
inductive RearrangesItems (R : Rearrangement) : Rearrangement
  | array {items after : List Value} (h : List.Forall₂ R items after) :
      RearrangesItems R (.array items) (.array after)

/-! ## Members and fields -/

section Related

variable {R : α → β → Prop} {as : List α} {bs : List β}

theorem exists_of_mem_left (h : List.Forall₂ R as bs) {a : α} (ha : a ∈ as) : ∃ b ∈ bs, R a b := by
  induction h with
  | nil => exact absurd ha List.not_mem_nil
  | cons hfirst _ ih =>
    rcases List.mem_cons.1 ha with rfl | ha
    · exact ⟨_, List.mem_cons_self, hfirst⟩
    · obtain ⟨b, hb, hab⟩ := ih ha
      exact ⟨b, List.mem_cons_of_mem _ hb, hab⟩

theorem exists_of_mem_right (h : List.Forall₂ R as bs) {b : β} (hb : b ∈ bs) :
    ∃ a ∈ as, R a b := exists_of_mem_left h.flip hb

end Related

namespace Fields

variable {fs : Fields} {names : List String} {name : String} {v : Value}

theorem named?_members (fs : Fields) : named? fs.members = some fs := by
  induction fs with
  | nil => rfl
  | cons m fs ih =>
    rw [members] at ih
    simp [members, named?, ih]

theorem eq_of_members_eq {gs : Fields} (h : fs.members = gs.members) : fs = gs := by
  have hnamed := named?_members fs
  rw [h, named?_members] at hnamed
  exact (Option.some.inj hnamed).symm

theorem doMembersFit_members {room : Nat} :
    Value.doMembersFit room fs.members = true ↔ ∀ m ∈ fs, m.2.fits room = true := by
  induction fs with
  | nil => simp [members, Value.doMembersFit]
  | cons m fs ih =>
    rw [members] at ih
    simp [members, Value.doMembersFit, ih]

/-- A member whose name is given once is the one that is found. -/
theorem lookup_of_mem (hone : (fs.map Prod.fst).count name ≤ 1) (hmem : (name, v) ∈ fs) :
    fs.lookup name = some v := by
  induction fs with
  | nil => exact absurd hmem List.not_mem_nil
  | cons m fs ih =>
    obtain ⟨other, w⟩ := m
    by_cases he : name = other
    · subst he
      rw [List.map_cons, List.count_cons_self] at hone
      have hnone : name ∉ fs.map Prod.fst := List.count_eq_zero.1 (by omega)
      rcases List.mem_cons.1 hmem with heq | hmem
      · rw [List.lookup_cons_self, (Prod.mk.inj heq).2]
      · exact absurd (List.mem_map.2 ⟨_, hmem, rfl⟩) hnone
    · rw [lookup_of_ne he]
      refine ih ?_ ((List.mem_cons.1 hmem).resolve_left fun heq => he (Prod.mk.inj heq).1)
      rwa [List.map_cons, List.count_cons_of_ne (Ne.symm he)] at hone

theorem mem_of_lookup (h : fs.lookup name = some v) : (name, v) ∈ fs := by
  induction fs with
  | nil => simp at h
  | cons m fs ih =>
    obtain ⟨other, w⟩ := m
    by_cases he : name = other
    · subst he
      rw [List.lookup_cons_self, Option.some.injEq] at h
      exact h ▸ List.mem_cons_self
    · rw [lookup_of_ne he] at h
      exact List.mem_cons_of_mem _ (ih h)

theorem not_mem_of_lookup (h : fs.lookup name = none) : name ∉ fs.map Prod.fst := by
  intro hmem
  obtain ⟨m, hm, rfl⟩ := List.mem_map.1 hmem
  exact absurd (List.lookup_eq_none_iff.1 h m hm) (by simp)

end Fields

/-- What matters of the fields is the same: their values, and which of them are not given. -/
structure Fields.SameFor (fields : List Field) (fs gs : Fields) : Prop where
  given : ∀ f ∈ fields, ∀ v, fs.lookup f.name = some v →
    ∃ w, gs.lookup f.name = some w ∧ f.values v w
  absent : ∀ f ∈ fields, fs.lookup f.name = none →
    gs.lookup f.name = none ∨ f.isOptional = true ∧ gs.lookup f.name = some .null

namespace RearrangesRecord

variable {fields : List Field} {v w : Value} {given kept nulls foreign all : Fields} {name : String}

theorem names_kept (hkept : List.Forall₂ (KeepsMember fields) given kept) :
    kept.map Prod.fst = given.map Prod.fst := by
  induction hkept with
  | nil => rfl
  | cons h _ ih => rw [List.map_cons, List.map_cons, h.1, ih]

/-- A field that was given once is given once afterwards, and no other one is given twice. -/
theorem count_le_one (hnames : kept.map Prod.fst = given.map Prod.fst)
    (hnulls : ∀ m ∈ nulls, m.1 ∉ given.map Prod.fst) (honce : (nulls.map Prod.fst).Nodup)
    (hforeign : ∀ m ∈ foreign, m.1 ≠ name) (horder : all.Perm (kept ++ (nulls ++ foreign)))
    (hone : (given.map Prod.fst).count name ≤ 1) : (all.map Prod.fst).count name ≤ 1 := by
  have hnone : (foreign.map Prod.fst).count name = 0 := List.count_eq_zero.2 fun hmem => by
    obtain ⟨m, hm, he⟩ := List.mem_map.1 hmem
    exact hforeign m hm he
  have hnull := List.nodup_iff_count.1 honce name
  rw [(horder.map Prod.fst).count_eq, List.map_append, List.map_append, List.count_append,
    List.count_append, hnames, hnone]
  by_cases hgiven : name ∈ given.map Prod.fst
  · have hzero : (nulls.map Prod.fst).count name = 0 := List.count_eq_zero.2 fun hmem => by
      obtain ⟨m, hm, rfl⟩ := List.mem_map.1 hmem
      exact hnulls m hm hgiven
    omega
  · rw [List.count_eq_zero.2 hgiven]
    omega

theorem eq_of_name_eq (hnodup : (fields.map Field.name).Nodup) {f g : Field} (hf : f ∈ fields)
    (hg : g ∈ fields) (h : f.name = g.name) : f = g := List.inj_on_of_nodup_map hnodup hf hg h

/-- The members of a rearranged object: no field is given twice, and what matters of the fields is
the same. -/
theorem exists_members (given : Fields) (h : RearrangesRecord fields (.object given.members) w)
    (hnodup : (fields.map Field.name).Nodup)
    (hunique : given.areUnique (fields.map Field.name) = true) :
    ∃ all : Fields, w = .object all.members ∧ all.areUnique (fields.map Field.name) = true ∧
      Fields.SameFor fields given all := by
  generalize hv : Value.object given.members = v at h
  cases h with
  | @object started kept nulls foreign all hkept hnulls honce hforeign horder =>
  obtain rfl := Fields.eq_of_members_eq (Value.object.inj hv)
  have hnames := names_kept hkept
  have hcount : ∀ name ∈ fields.map Field.name, (all.map Prod.fst).count name ≤ 1 :=
    fun name hname => count_le_one hnames (fun m hm => (hnulls m hm).2.1) honce
      (fun m hm he => (hforeign m hm).1 (he ▸ hname)) horder
      (Fields.areUnique_iff.1 hunique name hname)
  refine ⟨all, rfl, Fields.areUnique_iff.2 hcount, fun f hf v hlookup => ?_, fun f hf hlookup => ?_⟩
  · obtain ⟨⟨name, w⟩, hw, rfl, g, hg, hname, hvalues⟩ :=
      exists_of_mem_left hkept (Fields.mem_of_lookup hlookup)
    obtain rfl := eq_of_name_eq hnodup hg hf hname
    have hmem := horder.mem_iff.2 (List.mem_append_left _ hw)
    exact ⟨w, Fields.lookup_of_mem (hcount _ (List.mem_map_of_mem hf)) hmem, hvalues⟩
  · have hnot := Fields.not_mem_of_lookup hlookup
    cases hafter : all.lookup f.name with
    | none => exact Or.inl rfl
    | some w =>
      refine Or.inr ?_
      have hmem := horder.mem_iff.1 (Fields.mem_of_lookup hafter)
      rcases List.mem_append.1 hmem with hmem | hmem
      · exact absurd (List.mem_map.2 ⟨_, hmem, rfl⟩) (hnames ▸ hnot)
      rcases List.mem_append.1 hmem with hmem | hmem
      · obtain ⟨rfl, -, g, hg, hname, hoptional⟩ := hnulls _ hmem
        obtain rfl := eq_of_name_eq hnodup hg hf hname
        exact ⟨hoptional, rfl⟩
      · exact absurd (List.mem_map_of_mem hf) (hforeign _ hmem).1

end RearrangesRecord

/-! ## Reading -/

/-- What is read on the one side is read on the other. -/
def Keeps (x y : Option α) : Prop := ∀ a, x = some a → y = some a

namespace Keeps

variable {x y : Option α} {f g : α → Option β}

theorem refl (x : Option α) : Keeps x x := fun _ h => h

theorem bind (hx : Keeps x y) (hf : ∀ a, Keeps (f a) (g a)) : Keeps (x >>= f) (y >>= g) := by
  intro b hb
  obtain ⟨a, ha, hb⟩ := Option.bind_eq_some_iff.1 hb
  exact Option.bind_eq_some_iff.2 ⟨a, hx a ha, hf a b hb⟩

theorem mapM {read : Value → Option α} {R : Rearrangement}
    (hread : ∀ v w, R v w → Keeps (read v) (read w))
    {items after : List Value} (h : List.Forall₂ R items after) :
    Keeps (items.mapM read) (after.mapM read) := by
  induction h with
  | nil => exact refl _
  | cons hfirst _ ih =>
    rw [List.mapM_cons, List.mapM_cons]
    exact (hread _ _ hfirst).bind fun _ => ih.bind fun _ => refl _

end Keeps

/-- A value that a reader takes is taken as the same thing after it was rearranged. -/
def Rearrangement.IsReadBy (R : Rearrangement) (read : Value → Option α) : Prop :=
  ∀ v w, R v w → Keeps (read v) (read w)

theorem isReadBy_eq (read : Value → Option α) : Rearrangement.IsReadBy Eq read := by
  rintro v _ rfl
  exact .refl _

theorem RearrangesItems.isReadBy {R : Rearrangement} {read : Value → Option α}
    (hR : R.IsReadBy read) : Rearrangement.IsReadBy (RearrangesItems R) (Value.asList? read) := by
  rintro _ _ ⟨h⟩
  exact Keeps.mapM hR h

namespace Fields.SameFor

variable {fields : List Field} {fs gs : Fields} {f : Field} {read : Value → Option α}

/-- A field that must be given. -/
theorem required (h : SameFor fields fs gs) (hf : f ∈ fields)
    (hread : Rearrangement.IsReadBy f.values read) :
    Keeps (fs.required f.name read) (gs.required f.name read) := by
  intro a ha
  obtain ⟨v, hv, ha⟩ := Option.bind_eq_some_iff.1 ha
  obtain ⟨w, hw, hvalues⟩ := h.given f hf v hv
  exact Option.bind_eq_some_iff.2 ⟨w, hw, hread v w hvalues a ha⟩

/-- A field with a default. -/
theorem withDefault (h : SameFor fields fs gs) (hf : f ∈ fields) (hmust : f.isOptional = false)
    (hread : Rearrangement.IsReadBy f.values read) (d : α) :
    Keeps (fs.withDefault f.name d read) (gs.withDefault f.name d read) := by
  intro a ha
  rw [Fields.withDefault] at ha ⊢
  cases hv : fs.lookup f.name with
  | none =>
    rw [hv] at ha
    rcases h.absent f hf hv with hw | ⟨hoptional, -⟩
    · rw [hw]
      exact ha
    · rw [hmust] at hoptional
      cases hoptional
  | some v =>
    rw [hv] at ha
    obtain ⟨w, hw, hvalues⟩ := h.given f hf v hv
    rw [hw]
    exact hread v w hvalues a ha

/-- A field that may be left out, or be `null`. -/
theorem optional (h : SameFor fields fs gs) (hf : f ∈ fields)
    (hkeeps : Rearrangement.IsReadBy f.values read) (hnull : read .null = none)
    (hvalues : ∀ w, f.values .null w → w = .null) :
    Keeps (fs.optional f.name read) (gs.optional f.name read) := by
  intro a ha
  rw [Fields.optional] at ha ⊢
  cases hv : fs.lookup f.name with
  | none =>
    rw [hv] at ha
    rcases h.absent f hf hv with hw | ⟨-, hw⟩
    · rw [hw]
      exact ha
    · rw [hw]
      exact ha
  | some v =>
    rw [hv] at ha
    obtain ⟨w, hw, hrelated⟩ := h.given f hf v hv
    rw [hw]
    by_cases hv : v = .null
    · rw [hv] at ha hrelated
      rw [hvalues w hrelated]
      exact ha
    · have hread : (read v).map some = some a := by
        cases v <;> first | exact ha | exact absurd rfl hv
      obtain ⟨x, hx, rfl⟩ := Option.map_eq_some_iff.1 hread
      have hafter := hkeeps v w hrelated x hx
      cases w <;> first
        | exact congrArg (Option.map some) hafter
        | (rw [hnull] at hafter; cases hafter)

/-! Fields whose values are never rearranged. -/

section Plain

variable {name : String} (h : SameFor fields fs gs)

include h

theorem requiredPlain (hf : { name := name } ∈ fields) (read : Value → Option α) :
    Keeps (fs.required name read) (gs.required name read) := h.required hf (isReadBy_eq read)

theorem withDefaultPlain (hf : { name := name } ∈ fields) (read : Value → Option α) (d : α) :
    Keeps (fs.withDefault name d read) (gs.withDefault name d read) :=
  h.withDefault hf rfl (isReadBy_eq read) d

theorem optionalPlain (hf : { name := name, isOptional := true } ∈ fields)
    {read : Value → Option α} (hnull : read .null = none) :
    Keeps (fs.optional name read) (gs.optional name read) :=
  h.optional hf (isReadBy_eq read) hnull fun _ hw => hw.symm

end Plain

end Fields.SameFor

/-- A record is no `null`, and becomes none. -/
theorem RearrangesRecord.eq_null {fields : List Field} (w : Value)
    (h : RearrangesRecord fields .null w) : w = .null := by
  cases h

/-- A reader that takes the fields of a record one by one reads the same. -/
theorem RearrangesRecord.keeps {fields : List Field} {v w : Value} {f : Fields → Option α}
    (h : RearrangesRecord fields v w) (hnodup : (fields.map Field.name).Nodup)
    (hf : ∀ fs gs, Fields.SameFor fields fs gs → Keeps (f fs) (f gs)) :
    Keeps (Fields.ofValue? (fields.map Field.name) v >>= f)
      (Fields.ofValue? (fields.map Field.name) w >>= f) := by
  intro a ha
  obtain ⟨fs, hfs, ha⟩ := Option.bind_eq_some_iff.1 ha
  obtain ⟨given, rfl⟩ : ∃ given : Fields, v = .object given.members := by
    obtain ⟨hkept, -, -, -, -⟩ := h
    exact ⟨_, rfl⟩
  rw [Fields.ofValue?, Fields.named?_members, Option.filter_eq_some_iff, Option.some.injEq] at hfs
  obtain ⟨rfl, hunique⟩ := hfs
  obtain ⟨all, rfl, hafter, hsame⟩ := exists_members given h hnodup hunique
  refine Option.bind_eq_some_iff.2 ⟨all, ?_, hf _ _ hsame a ha⟩
  rw [Fields.ofValue?, Fields.named?_members, Option.filter_eq_some_iff]
  exact ⟨rfl, hafter⟩

/-! ## Texts -/

/-- The text is another one for the same record: it writes what may become of the value that the
first one writes, with white space wherever it may stand. -/
def IsRearranged (R : Rearrangement) (whole bs : Bytes) : Prop :=
  ∃ v w before text after, Value.ofBytes? whole = some v ∧ R v w ∧ IsBlank before ∧
    w.IsWritten text ∧ IsBlank after ∧ bs = before ++ (text ++ after)

/-- What a reader finds in the text of a record, it finds in every rearranged one. -/
theorem IsRearranged.keeps {R : Rearrangement} {whole bs : Bytes} {read : Value → Option α}
    (h : IsRearranged R whole bs) (hobject : ∀ v w, R v w → ∃ members, w = .object members)
    (hread : R.IsReadBy read) :
    Keeps ((Value.ofBytes? whole).bind read) ((Value.ofBytes? bs).bind read) := by
  obtain ⟨v, w, before, text, after, hwhole, hrearranged, hbefore, htext, hafter, rfl⟩ := h
  obtain ⟨members, rfl⟩ := hobject v w hrearranged
  rw [hwhole, Value.ofBytes?_of_isWritten hbefore htext hafter]
  exact hread v _ hrearranged

theorem RearrangesRecord.exists_object {fields : List Field} {v w : Value}
    (h : RearrangesRecord fields v w) : ∃ members, w = .object members := by
  cases h
  exact ⟨_, rfl⟩

/-! ## Room -/

theorem Value.IsScalar.fits {v : Value} (h : v.IsScalar) (room : Nat) : v.fits room = true := by
  cases h with
  | null => rfl
  | bool b => rfl
  | int i hlow hhigh =>
    have hleast : Int64.minValue.toInt = -9223372036854775808 := by decide
    exact Number.isInRange_ofInt (by rw [UInt64.size] at *; omega)
  | text s => rfl

/-- A value that can be held can be held after it was rearranged. -/
def Rearrangement.KeepsFit (R : Rearrangement) : Prop :=
  ∀ v w, R v w → ∀ room, v.fits room = true → w.fits room = true

theorem keepsFit_eq : Rearrangement.KeepsFit Eq := by
  rintro v _ rfl room h
  exact h

theorem RearrangesItems.keepsFit {R : Rearrangement} (hR : R.KeepsFit) :
    Rearrangement.KeepsFit (RearrangesItems R) := by
  rintro _ _ ⟨h⟩ room hroom
  cases room with
  | zero => exact hroom
  | succ room =>
    show Value.doItemsFit room _ = true
    replace hroom : Value.doItemsFit room _ = true := hroom
    induction h with
    | nil => rfl
    | cons hfirst _ ih =>
      rw [Value.doItemsFit, Bool.and_eq_true] at hroom ⊢
      exact ⟨hR _ _ hfirst room hroom.1, ih hroom.2⟩

theorem RearrangesRecord.keepsFit {fields : List Field}
    (hfields : ∀ f ∈ fields, Rearrangement.KeepsFit f.values) :
    Rearrangement.KeepsFit (RearrangesRecord fields) := by
  rintro _ _ ⟨hkept, hnulls, -, hforeign, horder⟩ room hroom
  cases room with
  | zero => exact hroom
  | succ room =>
    have hgiven := Fields.doMembersFit_members.1 hroom
    refine Fields.doMembersFit_members.2 fun m hm => ?_
    rcases List.mem_append.1 (horder.mem_iff.1 hm) with hm | hm
    · obtain ⟨given, hmem, -, f, hf, -, hvalues⟩ := exists_of_mem_right hkept hm
      exact hfields f hf _ _ hvalues room (hgiven _ hmem)
    rcases List.mem_append.1 hm with hm | hm
    · rw [(hnulls m hm).1]
      rfl
    · exact (hforeign m hm).2.fits room

end ReportVault.Json
