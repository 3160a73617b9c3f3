import Mathlib.Data.List.Basic
import ReportVault.Json.Printer
import ReportVault.Json.Reader

/-!
# ReportVault.Proofs.Json.Lexeme

Reading back the tokens that are written.

A text can be spelled in many ways: with its own bytes, with short escapes and with UTF-16 units
(`IsSpelling`).  `absorb_of_isSpelling` says that every spelling is read as the bytes of the text,
and the printed form is one of them (`isSpelling_escape`).  A number token is read digit by digit,
and since nothing marks its end, it ends where a byte follows that no number goes on with
(`endsNumber`).
-/

namespace ReportVault.Json

open Ascii

/-! ## Strings -/

/-- The bytes of a character. -/
def charBytes (c : Char) : Bytes := Bytes.ofText (String.ofList [c])

/-- The bytes are the escape of a UTF-16 unit: four hexadecimal digits of either case. -/
def IsUnit (u : Nat) (bs : Bytes) : Prop :=
  ∃ b₃ b₂ b₁ b₀ d₃ d₂ d₁ d₀, hexDigit? b₃ = some d₃ ∧ hexDigit? b₂ = some d₂ ∧
    hexDigit? b₁ = some d₁ ∧ hexDigit? b₀ = some d₀ ∧
    u = 16 * (16 * (16 * d₃ + d₂) + d₁) + d₀ ∧ bs = [byte '\\', byte 'u', b₃, b₂, b₁, b₀]

/-- The code point of a leading and a trailing surrogate. -/
def pairValue (high low : Nat) : Nat := 0x10000 + (high - 0xd800) * 0x400 + (low - 0xdc00)

/-- Inside a string token, the second bytes spell the text that the first ones are. -/
inductive IsSpelling : Bytes → Bytes → Prop
  | nil : IsSpelling [] []
  /-- A byte that stands for itself. -/
  | plain {b : UInt8} {text bs : Bytes} : b ≠ byte '"' → b ≠ byte '\\' → ¬ b < 0x20 →
      IsSpelling text bs → IsSpelling (b :: text) (b :: bs)
  /-- A backslash and one character. -/
  | short {b c : UInt8} {text bs : Bytes} : TextSoFar.shortEscape? b = some c →
      IsSpelling text bs → IsSpelling (c :: text) (byte '\\' :: b :: bs)
  /-- The UTF-16 unit of a character. -/
  | unit {c : Char} {text unit bs : Bytes} : IsUnit c.toNat unit →
      IsSpelling text bs → IsSpelling (charBytes c ++ text) (unit ++ bs)
  /-- The two UTF-16 units of a character. -/
  | pair {c : Char} {high low : Nat} {text first second bs : Bytes} :
      0xd800 ≤ high → high < 0xdc00 → 0xdc00 ≤ low → low < 0xe000 → c.toNat = pairValue high low →
      IsUnit high first → IsUnit low second →
      IsSpelling text bs → IsSpelling (charBytes c ++ text) (first ++ (second ++ bs))

/-- The bytes are a string token for the text. -/
def IsToken (s : String) (bs : Bytes) : Prop :=
  ∃ inner, IsSpelling (Bytes.ofText s) inner ∧ bs = byte '"' :: (inner ++ [byte '"'])

namespace TextSoFar

variable {t : TextSoFar}

/-- Take in bytes none of which ends the token. -/
def absorb (t : TextSoFar) : Bytes → Option TextSoFar
  | [] => some t
  | b :: bs => if t.endsAt b then none else (t.step b).bind fun t => t.absorb bs

theorem absorb_append (t : TextSoFar) (bs cs : Bytes) :
    t.absorb (bs ++ cs) = (t.absorb bs).bind fun t => t.absorb cs := by
  induction bs generalizing t with
  | nil => rfl
  | cons b bs ih =>
    simp only [List.cons_append, absorb]
    split
    · rfl
    · cases t.step b with
      | none => rfl
      | some t => simpa using ih t

/-- Inside an escape no byte ends the token. -/
theorem absorb_cons_of_escape (ht : (t.escape == .plain) = false) (b : UInt8) (bs : Bytes) :
    t.absorb (b :: bs) = (t.step b).bind fun t => t.absorb bs := by
  rw [absorb, endsAt, ht, Bool.false_and, if_neg Bool.false_ne_true]

/-- A backslash begins an escape. -/
theorem absorb_backslash (ht : t.escape = .plain) (bs : Bytes) :
    t.absorb (byte '\\' :: bs) = ({ t with escape := .backslash } : TextSoFar).absorb bs := by
  have hend : t.endsAt (byte '\\') = false := by
    simp only [endsAt, Bool.and_eq_false_iff]
    exact Or.inr (by decide)
  simp [absorb, hend, step, ht]

/-- A short escape stands for one byte. -/
theorem absorb_shortEscape (ht : t.escape = .plain) {b c : UInt8} (hu : (b == byte 'u') = false)
    (hb : shortEscape? b = some c) : t.absorb [byte '\\', b] = some (t.push [c]) := by
  rw [absorb_backslash ht, absorb_cons_of_escape rfl]
  simp [step, hu, hb, absorb, push]

/-- What the escape that ends was does not matter. -/
theorem pushUnit_escape (t : TextSoFar) (state : EscapeState) (u : Nat) :
    ({ t with escape := state } : TextSoFar).pushUnit u = t.pushUnit u := by
  unfold pushUnit
  split
  · rfl
  split
  · cases t.leading <;> rfl
  · rfl

/-- The escape of a unit adds the unit. -/
theorem absorb_unit (ht : t.escape = .plain) {u : Nat} {bs : Bytes} (h : IsUnit u bs) :
    t.absorb bs = some (t.pushUnit u) := by
  obtain ⟨b₃, b₂, b₁, b₀, d₃, d₂, d₁, d₀, h₃, h₂, h₁, h₀, rfl, rfl⟩ := h
  rw [absorb_backslash ht, absorb_cons_of_escape rfl]
  simp only [step, BEq.rfl, if_true, Option.bind_some]
  rw [absorb_cons_of_escape rfl]
  simp only [step, h₃, Option.map_some, Option.bind_some]
  rw [absorb_cons_of_escape rfl]
  simp only [step, h₂, Option.map_some, Option.bind_some]
  rw [absorb_cons_of_escape rfl]
  simp only [step, h₁, Option.map_some, Option.bind_some]
  rw [absorb_cons_of_escape rfl]
  simp only [step, h₀, Option.map_some, Option.bind_some, absorb, Nat.mul_zero, Nat.zero_add]
  exact congrArg some (pushUnit_escape t _ _)

/-- No character is a surrogate, so a character of one unit is added at once. -/
theorem pushUnit_char (t : TextSoFar) (c : Char) : t.pushUnit c.toNat = t.push (charBytes c) := by
  have hvalid : ¬ (0xd800 ≤ c.toNat ∧ c.toNat < 0xe000) := by
    have hc : c.val.toNat < 0xd800 ∨ 0xdfff < c.val.toNat ∧ c.val.toNat < 0x110000 := c.valid
    have hval : c.val.toNat = c.toNat := rfl
    omega
  rw [pushUnit, if_neg (by omega), if_neg (by omega), Char.ofNat_toNat, charBytes]

/-- Two surrogates add the character that they stand for. -/
theorem pushUnit_pair (ht : t.leading = none) {high low : Nat} {c : Char} (hhigh : 0xd800 ≤ high)
    (hhigh' : high < 0xdc00) (hlow : 0xdc00 ≤ low) (hlow' : low < 0xe000)
    (hc : c.toNat = pairValue high low) :
    (t.pushUnit high).pushUnit low = t.push (charBytes c) := by
  have hfirst : t.pushUnit high = { t with leading := some high, escape := .plain } := by
    rw [pushUnit, if_pos ⟨hhigh, hhigh'⟩, ht, Option.isNone_none, Bool.and_true]
  have hpoint : Char.ofNat (pairValue high low) = c := by rw [← hc, Char.ofNat_toNat]
  have htrailing : ¬ (0xd800 ≤ low ∧ low < 0xdc00) := by omega
  rw [hfirst, pushUnit, if_neg htrailing, if_pos ⟨hlow, hlow'⟩]
  show TextSoFar.mk ((charBytes (Char.ofNat (pairValue high low))).reverse ++ t.contents) none
    t.sound .plain = _
  rw [hpoint, push, ht, Option.isNone_none, Bool.and_true]

/-- After some bytes of a text the others are read. -/
theorem absorb_push {text bs : Bytes}
    (h : ∀ contents : Bytes, ({ contents := contents } : TextSoFar).absorb bs =
      some { contents := text.reverse ++ contents }) (contents piece : Bytes) :
    (({ contents := contents } : TextSoFar).push piece).absorb bs =
      some { contents := (piece ++ text).reverse ++ contents } := by
  simpa [push] using h (piece.reverse ++ contents)

/-- A spelling of a text is read as the bytes of the text. -/
theorem absorb_of_isSpelling {text bs : Bytes} (h : IsSpelling text bs) (contents : Bytes) :
    ({ contents := contents } : TextSoFar).absorb bs =
      some { contents := text.reverse ++ contents } := by
  induction h generalizing contents with
  | nil => rfl
  | @plain b text bs hquote hslash hcontrol _ ih =>
    have hend : ({ contents := contents } : TextSoFar).endsAt b = false := by simp [endsAt, hquote]
    have hstep : ({ contents := contents } : TextSoFar).step b =
        some (({ contents := contents } : TextSoFar).push [b]) := by
      simp [step, hslash, hcontrol]
    rw [absorb, hend, if_neg Bool.false_ne_true, hstep, Option.bind_some]
    exact absorb_push ih contents [b]
  | @short b c text bs hb _ ih =>
    have hu : (b == byte 'u') = false := by
      refine beq_eq_false_iff_ne.2 fun he => ?_
      rw [he, show shortEscape? (byte 'u') = none by decide] at hb
      cases hb
    have hpiece : byte '\\' :: b :: bs = [byte '\\', b] ++ bs := rfl
    rw [hpiece, absorb_append, absorb_shortEscape rfl hu hb, Option.bind_some]
    exact absorb_push ih contents [c]
  | @unit c text unit bs hunit _ ih =>
    rw [absorb_append, absorb_unit rfl hunit, Option.bind_some, pushUnit_char]
    exact absorb_push ih contents (charBytes c)
  | @pair c high low text first second bs hhigh hhigh' hlow hlow' hc hfirst hsecond _ ih =>
    have hplain : (({ contents := contents } : TextSoFar).pushUnit high).escape = .plain := by
      simp [pushUnit, hhigh, hhigh']
    rw [absorb_append, absorb_unit rfl hfirst, Option.bind_some, absorb_append,
      absorb_unit hplain hsecond, Option.bind_some, pushUnit_pair rfl hhigh hhigh' hlow hlow' hc]
    exact absorb_push ih contents (charBytes c)

theorem text_of_contents (s : String) :
    ({ contents := (Bytes.ofText s).reverse } : TextSoFar).text = some s := by
  simp [text]

end TextSoFar

/-! ### The printed form -/

/-- The escape of a control character is that of its unit. -/
theorem isSpelling_control {b : UInt8} (hb : b < 0x20) {text bs : Bytes} (h : IsSpelling text bs) :
    IsSpelling (b :: text)
      (bytes "\\u00" ++ [ofHexDigit (b.toNat / 16), ofHexDigit (b.toNat % 16)] ++ bs) := by
  have hlt : b.toNat < 32 := UInt8.lt_iff_toNat_lt.1 hb
  have hdigit : ∀ n : Fin 16, hexDigit? (ofHexDigit n.val) = some n.val := by decide
  have hzero : hexDigit? (byte '0') = some 0 := by decide
  have hchar : ∀ n : Fin 32, (Char.ofNat n.val).toNat = n.val ∧
      charBytes (Char.ofNat n.val) = [UInt8.ofNat n.val] := by decide
  obtain ⟨hvalue, hbytes⟩ := hchar ⟨b.toNat, hlt⟩
  have hunit : IsUnit (Char.ofNat b.toNat).toNat
      (bytes "\\u00" ++ [ofHexDigit (b.toNat / 16), ofHexDigit (b.toNat % 16)]) := by
    refine ⟨byte '0', byte '0', _, _, 0, 0, b.toNat / 16, b.toNat % 16, hzero, hzero,
      hdigit ⟨b.toNat / 16, by omega⟩, hdigit ⟨b.toNat % 16, by omega⟩, ?_, rfl⟩
    have hsame : (Char.ofNat b.toNat).toNat = b.toNat := hvalue
    omega
  have hspelled := IsSpelling.unit hunit h
  rwa [show charBytes (Char.ofNat b.toNat) = [b] by simpa using hbytes] at hspelled

/-- A byte and the text after it, as they are printed. -/
theorem isSpelling_escape_append (b : UInt8) {text bs : Bytes} (h : IsSpelling text bs) :
    IsSpelling (b :: text) (escape b ++ bs) := by
  unfold escape
  -- one case for each escape, in the order in which they are tried
  split
  · next hb => rw [eq_of_beq hb]; exact .short (by decide) h
  split
  · next hb => rw [eq_of_beq hb]; exact .short (by decide) h
  split
  · next hb => rw [eq_of_beq hb]; exact .short (by decide) h
  split
  · next hb => rw [eq_of_beq hb]; exact .short (by decide) h
  split
  · next hb => rw [eq_of_beq hb]; exact .short (by decide) h
  split
  · next hb => rw [eq_of_beq hb]; exact .short (by decide) h
  split
  · next hb => rw [eq_of_beq hb]; exact .short (by decide) h
  split
  · next hb => exact isSpelling_control hb h
  · next hquote hslash _ _ _ _ _ hcontrol =>
    exact .plain (fun he => hquote (beq_iff_eq.2 he)) (fun he => hslash (beq_iff_eq.2 he)) hcontrol h

/-- The printed form of a text is a spelling of it. -/
theorem isSpelling_escape (text : Bytes) : IsSpelling text (text.flatMap escape) := by
  induction text with
  | nil => exact .nil
  | cons b text ih => exact isSpelling_escape_append b ih

theorem isToken_quote (s : String) : IsToken s (quote (some s)) :=
  ⟨_, isSpelling_escape _, rfl⟩

namespace Reader

variable {stack : List Frame} {t u : TextSoFar} {bs : Bytes}

/-- A run goes on after its first step. -/
theorem run_cons {r q : Reader} {b : UInt8} (h : r.step b = some q) (bs : Bytes) :
    r.run (b :: bs) = q.run bs := by
  rw [run, h, Option.bind_some]

/-- Bytes inside a string token, whatever the token is for. -/
theorem run_absorb {wrap : TextSoFar → Reader}
    (hwrap : ∀ t b, t.endsAt b = false → (wrap t).step b = (t.step b).map wrap)
    (h : t.absorb bs = some u) (tail : Bytes) :
    (wrap t).run (bs ++ tail) = (wrap u).run tail := by
  induction bs generalizing t with
  | nil =>
    obtain rfl : t = u := Option.some.inj h
    rfl
  | cons b bs ih =>
    rw [TextSoFar.absorb] at h
    cases hend : t.endsAt b with
    | true => simp [hend] at h
    | false =>
      cases hstep : t.step b with
      | none => simp [hend, hstep] at h
      | some v =>
        simp only [hend, hstep, Bool.false_eq_true, if_false, Option.bind_some] at h
        simpa [run, hwrap t b hend, hstep] using ih h

/-- The bytes of a text, up to the quote that ends it. -/
theorem absorb_text {s : String} {inner : Bytes} (h : IsSpelling (Bytes.ofText s) inner) :
    ({} : TextSoFar).absorb inner = some { contents := (Bytes.ofText s).reverse } := by
  simpa using TextSoFar.absorb_of_isSpelling h []

/-- A text is read up to the quote that ends it, wherever it stands. -/
theorem run_text (wrap : TextSoFar → Reader) {done : Reader} {s : String} {inner : Bytes}
    (hwrap : ∀ t b, t.endsAt b = false → (wrap t).step b = (t.step b).map wrap)
    (hdone : (wrap { contents := (Bytes.ofText s).reverse }).step (byte '"') = some done)
    (h : IsSpelling (Bytes.ofText s) inner) (tail : Bytes) :
    (wrap {}).run (inner ++ byte '"' :: tail) = done.run tail := by
  rw [run_absorb hwrap (absorb_text h), run_cons hdone]

/-- The quote ends a text. -/
theorem endsAt_quote (s : String) :
    ({ contents := (Bytes.ofText s).reverse } : TextSoFar).endsAt (byte '"') = true := rfl

/-- A string token where a value is expected. -/
theorem run_token_value {s : String} {bs : Bytes} (h : IsToken s bs) (tail : Bytes) :
    (Reader.mk stack .value).run (bs ++ tail) = (deliver stack (.text s)).run tail := by
  obtain ⟨inner, hinner, rfl⟩ := h
  have hfirst : (Reader.mk stack .value).step (byte '"') = some ⟨stack, .text {}⟩ := rfl
  simp only [List.cons_append, List.append_assoc, List.nil_append]
  rw [run_cons hfirst]
  refine run_text (fun t => ⟨stack, .text t⟩) (fun t b hend => ?_) ?_ hinner tail
  · simp [step, hend]
  · simp only [step, endsAt_quote, if_true, TextSoFar.text_of_contents]

/-- A string token where a name is expected, after its first quote. -/
theorem run_token_name (done : List (Option String × Value)) {s : String} {inner : Bytes}
    (h : IsSpelling (Bytes.ofText s) inner) (tail : Bytes) :
    (Reader.mk stack (.name done {})).run (inner ++ byte '"' :: tail) =
      (Reader.mk stack (.colon done (some s))).run tail := by
  refine run_text (fun t => ⟨stack, .name done t⟩) (fun t b hend => ?_) ?_ h tail
  · simp [step, hend]
  · simp only [step, endsAt_quote, if_true, TextSoFar.text_of_contents]

end Reader

/-! ## Numbers -/

/-- The bytes that may follow a number inside a text. -/
def endsNumber (b : UInt8) : Bool := isSpace b || b == byte ',' || b == byte ']' || b == 0x7d

namespace NumberSoFar

/-- Digits after the first one. -/
theorem foldlM_step_digits (n : NumberSoFar) (hn : n.part = .whole) (ds : List Digit) :
    (ds.map ofDigit).foldlM step n =
      some { n with whole := ds.foldl (fun w d => 10 * w + d.val) n.whole } := by
  induction ds generalizing n with
  | nil => rfl
  | cons d ds ih =>
    have hstep : n.step (ofDigit d) = some { n with whole := 10 * n.whole + d.val } := by
      simp [step, hn]
    rw [List.map_cons, List.foldlM_cons, hstep]
    exact ih _ hn

/-- No number goes on with a byte that ends numbers. -/
theorem step_of_endsNumber (n : NumberSoFar) (hn : n.part = .zero ∨ n.part = .whole) {b : UInt8}
    (hb : endsNumber b = true) : n.step b = none := by
  have hclass : digit? b = none ∧ b ≠ byte '.' ∧ b ≠ byte 'e' ∧ b ≠ byte 'E' := by
    simp only [endsNumber, isSpace, Bool.or_eq_true, beq_iff_eq, or_assoc] at hb
    rcases hb with rfl | rfl | rfl | rfl | rfl | rfl | rfl <;> decide
  obtain ⟨hdigit, hpoint, hlower, hupper⟩ := hclass
  rcases hn with hn | hn <;> simp [step, hn, hdigit, hpoint, hlower, hupper]

end NumberSoFar

/-- The digits of a positive number: one that is not zero, and others. -/
theorem exists_digits {n : Nat} (hn : 0 < n) :
    ∃ (d : Digit) (ds : List Digit), digits n = ofDigit d :: ds.map ofDigit ∧ d ≠ 0 ∧
      ds.foldl (fun w d => 10 * w + d.val) d.val = n := by
  have hbyte : ∀ d : Digit, byte d.val.digitChar = ofDigit d := by decide
  induction n using Nat.strongRecOn with
  | ind n ih =>
    by_cases hlt : n < 10
    · refine ⟨⟨n, hlt⟩, [], ?_, ?_, rfl⟩
      · simp only [digits, Nat.toDigits_of_lt_base hlt, List.map_cons, List.map_nil]
        rw [← hbyte ⟨n, hlt⟩]
      · exact fun h => Nat.ne_of_gt hn (congrArg Fin.val h)
    · obtain ⟨d, ds, hds, hd, hvalue⟩ := ih (n / 10) (by omega) (by omega)
      refine ⟨d, ds ++ [⟨n % 10, by omega⟩], ?_, hd, ?_⟩
      · rw [digits, Nat.toDigits_of_base_le (by omega) (by omega), List.map_append]
        change digits (n / 10) ++ _ = _
        rw [hds, List.map_append, List.cons_append, List.map_singleton, List.map_singleton,
          ← hbyte ⟨n % 10, by omega⟩]
      · rw [List.foldl_append, hvalue]
        simp only [List.foldl_cons, List.foldl_nil]
        omega

namespace Reader

variable {stack : List Frame}

/-- Bytes of a number. -/
theorem run_number {n m : NumberSoFar} {bs : Bytes} (h : bs.foldlM NumberSoFar.step n = some m)
    (tail : Bytes) :
    (Reader.mk stack (.number n)).run (bs ++ tail) = (Reader.mk stack (.number m)).run tail := by
  induction bs generalizing n with
  | nil =>
    obtain rfl : n = m := Option.some.inj h
    rfl
  | cons b bs ih =>
    rw [List.foldlM_cons] at h
    obtain ⟨k, hk, h⟩ := Option.bind_eq_some_iff.1 h
    simpa [run, step, hk] using ih h

/-- After a value, a byte is taken in by the container around it. -/
theorem step_deliver (v : Value) (b : UInt8) :
    (deliver stack v).step b = afterValue (deliver stack v) b := by
  unfold deliver
  split <;> rfl

/-- A number ends where a byte follows that numbers do not go on with. -/
theorem run_number_end {n : NumberSoFar} {m : Number}
    (hpart : n.part = .zero ∨ n.part = .whole) (hm : n.number? = some m) {b : UInt8}
    (hb : endsNumber b = true) (tail : Bytes) :
    (Reader.mk stack (.number n)).run (b :: tail) =
      (deliver stack (.number m)).run (b :: tail) := by
  simp only [run, step_deliver]
  simp [step, n.step_of_endsNumber hpart hb, hm]

/-- A digit other than zero begins a number with more than one place. -/
theorem step_value_digit {d : Digit} (hd : d ≠ 0) :
    (Reader.mk stack .value).step (ofDigit d) =
      some ⟨stack, .number { part := .whole, whole := d.val }⟩ := by
  have hclass : ∀ d : Digit, isSpace (ofDigit d) = false ∧ (ofDigit d == byte '"') = false ∧
      (ofDigit d == 0x7b) = false ∧ (ofDigit d == byte '[') = false ∧
      (ofDigit d == byte 'n') = false ∧ (ofDigit d == byte 't') = false ∧
      (ofDigit d == byte 'f') = false ∧ (ofDigit d == byte '-') = false := by decide
  obtain ⟨h1, h2, h3, h4, h5, h6, h7, h8⟩ := hclass d
  simp [step, beginValue, NumberSoFar.start?, h1, h2, h3, h4, h5, h6, h7, h8, hd]

/-- A number that begins with such a digit, or with a minus sign and one, after its first digit. -/
theorem run_whole_end {i : Int} {d : Digit} {ds : List Digit}
    (hvalue : ds.foldl (fun w d => 10 * w + d.val) d.val = i.natAbs) {b : UInt8}
    (hb : endsNumber b = true) (tail : Bytes) :
    (Reader.mk stack
        (.number { part := .whole, negative := decide (i < 0), whole := d.val })).run
      (ds.map ofDigit ++ b :: tail) = (deliver stack (.int i)).run (b :: tail) := by
  rw [run_number (NumberSoFar.foldlM_step_digits _ rfl ds)]
  exact run_number_end (Or.inr rfl) (by simp [NumberSoFar.number?, Number.ofInt, hvalue]) hb tail

/-- An integer where a value is expected. -/
theorem run_int_value (i : Int) {b : UInt8} (hb : endsNumber b = true) (tail : Bytes) :
    (Reader.mk stack .value).run ((Number.ofInt i).toBytes ++ b :: tail) =
      (deliver stack (.int i)).run (b :: tail) := by
  rcases Int.lt_trichotomy i 0 with hi | rfl | hi
  · obtain ⟨d, ds, hds, hd, hvalue⟩ := exists_digits (n := i.natAbs) (by omega)
    have hbytes : (Number.ofInt i).toBytes = byte '-' :: ofDigit d :: ds.map ofDigit := by
      simp [Number.toBytes, Number.ofInt, hi, hds]
    have hminus : (Reader.mk stack .value).step (byte '-') =
      some ⟨stack, .number { part := .sign, negative := true }⟩ := rfl
    have hdigit : (Reader.mk stack (.number { part := .sign, negative := true })).step (ofDigit d) =
        some ⟨stack, .number { part := .whole, negative := true, whole := d.val }⟩ := by
      simp [step, NumberSoFar.step, hd]
    rw [hbytes, List.cons_append, List.cons_append, run_cons hminus, run_cons hdigit]
    simpa [hi] using run_whole_end hvalue hb tail
  · have hbytes : (Number.ofInt 0).toBytes = [byte '0'] := by decide
    have hdigit : (Reader.mk stack .value).step (byte '0') =
      some ⟨stack, .number { part := .zero }⟩ := rfl
    rw [hbytes, List.cons_append, List.nil_append, run_cons hdigit]
    exact run_number_end (Or.inl rfl) rfl hb tail
  · obtain ⟨d, ds, hds, hd, hvalue⟩ := exists_digits (n := i.natAbs) (by omega)
    have hneg : ¬ i < 0 := by omega
    have hbytes : (Number.ofInt i).toBytes = ofDigit d :: ds.map ofDigit := by
      simp [Number.toBytes, Number.ofInt, hneg, hds]
    rw [hbytes, List.cons_append, run_cons (step_value_digit hd)]
    simpa [hneg] using run_whole_end hvalue hb tail

end Reader

end ReportVault.Json
