import FirstRow.Proofs.Text.Utf16
import FirstRow.Sql.Default
import Mathlib.Data.List.TakeWhile

/-!
# What defaults are

A literal default is turned into what a column of its affinity stores, with two exceptions. Numbers of more than 31 bits and
reals count as the text that was written, so that a column of texts keeps that text as it is, and a column without an
affinity makes integers of reals that are whole. `Default.kept` says what is kept of a literal.
-/
namespace FirstRow.Sql

open FirstRow.Store (Datum Encoding)
open FirstRow.Text

/-! ## Numerals -/

namespace Numeral

theorem isBlank_of_isDigit {b : UInt8} (h : Octet.isDigit b = true) : Octet.isBlank b = false := by
  simp only [Octet.isDigit, Bool.and_eq_true, decide_eq_true_eq, UInt8.le_iff_toNat_le] at h
  simp only [Octet.isBlank, Bool.or_eq_false_iff, Bool.and_eq_false_iff, decide_eq_false_iff_not, UInt8.le_iff_toNat_le]
  have hlow : 0x30 ≤ b.toNat := h.1
  refine ⟨?_, .inr fun hhigh => ?_⟩
  · rintro rfl
    exact absurd hlow (by decide)
  · have hhigh : b.toNat ≤ 0x0D := hhigh
    omega

theorem ne_of_isDigit {b c : UInt8} (h : Octet.isDigit b = true) (hc : Octet.isDigit c = false) : b ≠ c := by
  rintro rfl
  rw [h] at hc
  cases hc

/-- A run of digits with or without a minus sign in front of it is a number, and it is the integer that it writes. -/
theorem read_digits (negative : Bool) {ds : List UInt8} (hne : ds ≠ []) (hdigits : ∀ b ∈ ds, Octet.isDigit b = true) :
    let n := read (Default.signed negative ds)
    n.isNumber = true ∧ n.isPlain = true ∧ n.toInt = if negative then -(Octet.value ds : Int) else Octet.value ds := by
  obtain ⟨b, rest, rfl⟩ := List.exists_cons_of_ne_nil hne
  have hb := hdigits b List.mem_cons_self
  have htake : (b :: rest).takeWhile Octet.isDigit = b :: rest :=
    List.takeWhile_eq_self_iff.mpr (by simpa using hdigits)
  have hminus : b ≠ 0x2D := ne_of_isDigit hb (by decide)
  have hplus : b ≠ 0x2B := ne_of_isDigit hb (by decide)
  have hblank := isBlank_of_isDigit hb
  cases negative
  · simp [read, Default.signed, hblank, hminus, hplus, htake, isNumber, isPlain, toInt]
  · have hsign : Octet.isBlank 0x2D = false := by decide
    simp [read, Default.signed, hsign, htake, isNumber, isPlain, toInt]

/-- Hexadecimal digits are no number, with or without a minus sign in front of them. -/
theorem read_hexadecimal (negative : Bool) {x : UInt8} (hx : x = 0x78 ∨ x = 0x58) (ds : List UInt8) :
    (read (Default.signed negative (0x30 :: x :: ds))).isNumber = false := by
  have hminus : Octet.isBlank 0x2D = false := by decide
  have hzero : Octet.isBlank 0x30 = false ∧ Octet.isDigit 0x30 = true := by decide
  have hmark : Octet.isDigit x = false ∧ Octet.isBlank x = false ∧ x ≠ 0x2E ∧ x ≠ 0x65 ∧ x ≠ 0x45 := by
    rcases hx with rfl | rfl <;> decide
  cases negative <;>
    simp [read, Default.signed, hminus, hzero.1, hzero.2, hmark.1, hmark.2.1, hmark.2.2.1, hmark.2.2.2.1, hmark.2.2.2.2,
      isNumber]

end Numeral

theorem value_dropWhile_zero (ds : List UInt8) : Octet.value (ds.dropWhile (· = 0x30)) = Octet.value ds := by
  induction ds with
  | nil => rfl
  | cons b ds ih =>
    rw [List.dropWhile_cons]
    split
    · next hzero =>
      obtain rfl : b = 0x30 := by simpa using hzero
      exact ih
    · rfl

theorem smallInteger?.bounded_eq_some {n k : Nat} {ds : List UInt8} {value : List UInt8 → Nat}
    (h : bounded n ds value = some k) : k = value ds ∧ k ≤ 0x7FFFFFFF := by
  unfold bounded at h
  split at h
  · cases h
  · next hsmall =>
    cases h
    simp only [Bool.or_eq_true, decide_eq_true_eq, not_or] at hsmall
    exact ⟨rfl, by omega⟩

theorem smallInteger?_le {ds : List UInt8} {n : Nat} (h : smallInteger? ds = some n) : n ≤ 0x7FFFFFFF := by
  unfold smallInteger? at h
  split at h
  · split at h
    · exact (smallInteger?.bounded_eq_some h).2
    · exact (smallInteger?.bounded_eq_some h).2
  · exact (smallInteger?.bounded_eq_some h).2

/-- A short integer in decimal digits is the integer that they write. -/
theorem smallInteger?_digits {ds : List UInt8} {n : Nat} (hdigits : ∀ b ∈ ds, Octet.isDigit b = true)
    (h : smallInteger? ds = some n) : n = Octet.value ds := by
  unfold smallInteger? at h
  split at h
  · next x rest =>
    have hx : ¬(x = 0x78 || x = 0x58) = true := by
      have hdigit := hdigits x (by simp)
      simp [Numeral.ne_of_isDigit hdigit (show Octet.isDigit 0x78 = false by decide),
        Numeral.ne_of_isDigit hdigit (show Octet.isDigit 0x58 = false by decide)]
    rw [if_neg hx] at h
    exact (smallInteger?.bounded_eq_some h).1.trans (value_dropWhile_zero (x :: rest))
  · exact (smallInteger?.bounded_eq_some h).1.trans (value_dropWhile_zero ds)

/-! ## Literals -/

namespace Default

/-- A number with or without a minus sign. -/
def withSign (negative : Bool) (e : Expr) : Expr :=
  if negative then .negative e else e

/-- What a literal stands for. Numbers can have signs. -/
inductive Literal : Expr → Datum → Prop where
  | null : Literal .null .null
  | integer (negative : Bool) {ds : List UInt8} : ds ≠ [] → (∀ b ∈ ds, Octet.isDigit b = true) →
      isInt64 (if negative then -(Octet.value ds : Int) else Octet.value ds) = true →
      Literal (withSign negative (.integer ds)) (.integer (if negative then -(Octet.value ds : Int) else Octet.value ds))
  /-- An integer of more than 64 bits is a real. -/
  | great (negative : Bool) {ds : List UInt8} : ds ≠ [] → (∀ b ∈ ds, Octet.isDigit b = true) →
      isInt64 (if negative then -(Octet.value ds : Int) else Octet.value ds) = false →
      Literal (withSign negative (.integer ds)) (.real (Numeral.read (signed negative ds)).toReal)
  | hexadecimal (negative : Bool) {x : UInt8} {ds : List UInt8} {n : Nat} : x = 0x78 ∨ x = 0x58 →
      smallInteger? (0x30 :: x :: ds) = some n →
      Literal (withSign negative (.integer (0x30 :: x :: ds))) (.integer (if negative then -(n : Int) else n))
  /-- A hexadecimal integer of more than 31 bits is a text. -/
  | long (negative : Bool) {x : UInt8} {ds : List UInt8} : x = 0x78 ∨ x = 0x58 →
      smallInteger? (0x30 :: x :: ds) = none →
      Literal (withSign negative (.integer (0x30 :: x :: ds))) (.text (signed negative (0x30 :: x :: ds)))
  | real (negative : Bool) {t : List UInt8} : (Numeral.read (signed negative t)).isNumber = true →
      (Numeral.read (signed negative t)).isPlain = false →
      Literal (withSign negative (.real t)) (.real (Numeral.read (signed negative t)).toReal)
  | string {s : List Char} : (∀ c ∈ s, c ≠ '\uFFFE' ∧ c ≠ '\uFFFF') →
      Literal (.string (Utf8.encode s)) (.text (Utf8.encode s))
  | blob (content : List UInt8) : Literal (.blob content) (.blob content)
  | truth (b : Bool) : Literal (.truth b) (.integer (if b then 1 else 0))
  | truthName {n : Name} {b : Bool} : n.truth? = some b → Literal (.name n) (.integer (if b then 1 else 0))
  | positive {e : Expr} {d : Datum} : Literal e d → Literal (.positive e) d

/-- The text of a number that counts as text, as it is written with its sign: of a real, or of an integer that has more
than 31 bits. -/
def numberText? : Expr → Option (List UInt8)
  | .integer ds => if smallInteger? ds = none then some ds else none
  | .real t => some t
  | .negative (.integer ds) => if smallInteger? ds = none then some (0x2D :: ds) else none
  | .negative (.real t) => some (0x2D :: t)
  | .positive e => numberText? e
  | _ => none

/-- What a column of an affinity keeps of a literal: what the affinity makes of it. But a column of texts keeps the text of
a number that counts as text, and a column without an affinity makes an integer of a real that is one. -/
def kept (a : Affinity) (e : Expr) (d : Datum) : Datum :=
  match a, numberText? e with
  | .text, some t => .text t
  | .blob, _ => Affinity.preferInteger d
  | a, _ => a.apply d

theorem value?_integer (enc : Encoding) (a : Affinity) (negative : Bool) (ds : List UInt8) :
    value? enc a (withSign negative (.integer ds)) = some (.plain (ofInteger a negative ds)) := by
  cases negative <;> rfl

theorem value?_real (enc : Encoding) (a : Affinity) (negative : Bool) (t : List UInt8) :
    value? enc a (withSign negative (.real t)) = some (.plain (ofNumberText a (signed negative t))) := by
  cases negative <;> rfl

theorem numberText?_integer (negative : Bool) (ds : List UInt8) :
    numberText? (withSign negative (.integer ds)) = if smallInteger? ds = none then some (signed negative ds) else none := by
  cases negative <;> rfl

theorem numberText?_real (negative : Bool) (t : List UInt8) :
    numberText? (withSign negative (.real t)) = some (signed negative t) := by
  cases negative <;> rfl

/-- A number that counts as text is kept as such, or as the number that it is. -/
theorem ofNumberText_eq_kept {a : Affinity} {e : Expr} {d : Datum} {t : List UInt8} (htext : numberText? e = some t)
    (hd : ∀ bs, d ≠ .text bs) (hnumber : Affinity.numberOfText t = Affinity.preferInteger d) :
    ofNumberText a t = kept a e d := by
  unfold kept
  rw [htext]
  cases a with
  | text => rfl
  | blob => exact hnumber
  | numeric | integer | real =>
    refine hnumber.trans ?_
    cases d <;> first | rfl | exact absurd rfl (hd _)

/-- What does not count as text is kept as the affinity makes it, and no reals are among it. -/
theorem apply_eq_kept {a : Affinity} {e : Expr} {d : Datum} (htext : numberText? e = none) (hd : ∀ x, d ≠ .real x) :
    a.apply d = kept a e d := by
  unfold kept
  rw [htext]
  cases a with
  | blob => cases d <;> first | rfl | exact absurd rfl (hd _)
  | text | numeric | integer | real => rfl

theorem numberOfText_plain {t : List UInt8} {n : Int} (hnumber : (Numeral.read t).isNumber = true)
    (hplain : (Numeral.read t).isPlain = true) (hn : (Numeral.read t).toInt = n) (hint : isInt64 n = true) :
    Affinity.numberOfText t = .integer n := by
  simp [Affinity.numberOfText, hnumber, hplain, hn, hint]

theorem numberOfText_real {t : List UInt8} (hnumber : (Numeral.read t).isNumber = true)
    (hreal : ((Numeral.read t).isPlain && isInt64 (Numeral.read t).toInt) = false) :
    Affinity.numberOfText t = Affinity.preferInteger (.real (Numeral.read t).toReal) := by
  simp only [Affinity.numberOfText, hnumber, hreal, Bool.not_true, Bool.false_eq_true, if_false]

/-- A text that a column keeps as one is not changed. -/
theorem eq_of_apply_text {a : Affinity} {bs bs' : List UInt8} (h : a.apply (.text bs) = .text bs') : bs' = bs := by
  have hprefer (x : Binary64) : Affinity.preferInteger (.real x) ≠ .text bs' := by
    simp only [Affinity.preferInteger]
    split <;> simp
  have hnumber (h : Affinity.numberOfText bs = .text bs') : bs' = bs := by
    unfold Affinity.numberOfText at h
    simp only at h
    split at h
    · cases h
      rfl
    · split at h
      · cases h
      · exact absurd h (hprefer _)
  cases a with
  | blob | text =>
    cases h
    rfl
  | numeric | integer | real => exact hnumber h

theorem stored_encode (enc : Encoding) {s : List Char} (hs : ∀ c ∈ s, c ≠ '\uFFFE' ∧ c ≠ '\uFFFF') :
    enc.stored (Utf8.encode s) = Utf8.encode s := by
  cases enc with
  | utf8 => rfl
  | utf16 order =>
    rw [Encoding.stored, Encoding.ofUtf8, Encoding.toUtf8, Utf16.ofUtf8_encode order hs, Utf16.toUtf8_encode]

/-- What a column of an affinity has as the default that is a literal. -/
theorem Literal.defaultValue_eq {e : Expr} {d : Datum} (h : Literal e d) (enc : Encoding) (a : Affinity) :
    defaultValue enc a e = kept a e d := by
  induction h with
  | null => cases a <;> rfl
  | @integer negative ds hne hdigits hint =>
    obtain ⟨hnumber, hplain, hn⟩ := Numeral.read_digits negative hne hdigits
    rw [defaultValue, value?_integer]
    simp only [Interim.datum, ofInteger]
    cases hsmall : smallInteger? ds with
    | none =>
      refine ofNumberText_eq_kept ?_ nofun (numberOfText_plain hnumber hplain hn hint)
      rw [numberText?_integer, if_pos hsmall]
    | some n =>
      obtain rfl := smallInteger?_digits hdigits hsmall
      refine apply_eq_kept ?_ nofun
      rw [numberText?_integer, if_neg (by simp [hsmall])]
  | @great negative ds hne hdigits hint =>
    obtain ⟨hnumber, hplain, hn⟩ := Numeral.read_digits negative hne hdigits
    have hlong : smallInteger? ds = none := by
      cases hsmall : smallInteger? ds with
      | none => rfl
      | some n =>
        have hle := smallInteger?_le hsmall
        obtain rfl := smallInteger?_digits hdigits hsmall
        simp only [isInt64, Bool.and_eq_false_iff, decide_eq_false_iff_not] at hint
        split at hint <;> omega
    rw [defaultValue, value?_integer]
    simp only [Interim.datum, ofInteger, hlong]
    refine ofNumberText_eq_kept ?_ nofun (numberOfText_real hnumber ?_)
    · rw [numberText?_integer, if_pos hlong]
    · rw [hn, hint, Bool.and_false]
  | @hexadecimal negative x ds n hx hsmall =>
    rw [defaultValue, value?_integer]
    simp only [Interim.datum, ofInteger, hsmall]
    refine apply_eq_kept ?_ nofun
    rw [numberText?_integer, if_neg (by simp [hsmall])]
  | @long negative x ds hx hlong =>
    have htext : Affinity.numberOfText (signed negative (0x30 :: x :: ds)) = .text (signed negative (0x30 :: x :: ds)) := by
      simp only [Affinity.numberOfText, Numeral.read_hexadecimal negative hx ds, Bool.not_false, if_true]
    rw [defaultValue, value?_integer]
    simp only [Interim.datum, ofInteger, hlong, kept, numberText?_integer, if_true]
    cases a <;> first | rfl | exact htext
  | @real negative t hnumber hplain =>
    rw [defaultValue, value?_real]
    refine ofNumberText_eq_kept (numberText?_real negative t) (by simp) (numberOfText_real hnumber ?_)
    rw [hplain, Bool.false_and]
  | @string s hs =>
    refine Eq.trans (b := a.apply (.text (Utf8.encode s))) ?_ (apply_eq_kept rfl nofun)
    show ofString enc a (Utf8.encode s) = _
    unfold ofString
    split
    · next bs h =>
      obtain rfl := eq_of_apply_text h
      rw [h, stored_encode enc hs]
    · rfl
  | blob content => cases a <;> rfl
  | truth b => exact apply_eq_kept rfl nofun
  | @truthName n b hn =>
    rw [defaultValue, value?, hn]
    exact apply_eq_kept rfl nofun
  | positive _ ih => exact ih

/-! ## Expressions without a value -/

/-- Only literals, with signs and casts, have a value. A parameter counts as null. -/
def HasValue : Expr → Prop
  | .null | .variable | .integer _ | .real _ | .string _ | .blob _ | .truth _ => True
  | .name n => n.truth?.isSome
  | .positive e | .negative e | .cast e _ => HasValue e
  | _ => False

theorem isSome_value? (enc : Encoding) (a : Affinity) (e : Expr) : (value? enc a e).isSome ↔ HasValue e := by
  fun_induction value? enc a e <;> simp_all [HasValue]

/-- What has no value makes no default. -/
theorem defaultValue_eq_null {e : Expr} (h : ¬HasValue e) (enc : Encoding) (a : Affinity) :
    defaultValue enc a e = .null := by
  have hnone : value? enc a e = none := by
    rwa [← isSome_value? enc a, Option.not_isSome_iff_eq_none] at h
  rw [defaultValue, hnone]

end Default

/-! ## Integers of 64 bits -/

/-- If a value is an integer, it has 64 bits. -/
def IsBounded : Datum → Prop
  | .integer n => isInt64 n = true
  | _ => True

theorem isInt64_iff {n : Int} : isInt64 n = true ↔ -0x8000000000000000 ≤ n ∧ n < 0x8000000000000000 := by
  simp [isInt64]

theorem isInt64_clampInt64 (n : Int) : isInt64 (clampInt64 n) = true := by
  rw [isInt64_iff, clampInt64]
  omega

theorem isInt64_of_int64? {x : Binary64} {n : Int} (h : x.int64? = some n) : isInt64 n = true := by
  unfold Binary64.int64? at h
  simp only at h
  split at h
  · next hbounds =>
    cases h
    simp only [Bool.and_eq_true, decide_eq_true_eq] at hbounds
    rw [isInt64_iff]
    omega
  · cases h

namespace Affinity

theorem isBounded_preferInteger {d : Datum} (h : IsBounded d) : IsBounded (preferInteger d) := by
  cases d with
  | real x =>
    simp only [preferInteger]
    split
    · next n hn => exact isInt64_of_int64? hn
    · trivial
  | null | integer | text | blob => exact h

theorem isBounded_numberOfText (bs : List UInt8) : IsBounded (numberOfText bs) := by
  unfold numberOfText
  simp only
  split
  · trivial
  · split
    · next h => exact (Bool.and_eq_true _ _ ▸ h).2
    · exact isBounded_preferInteger trivial

theorem isBounded_textOfNumber (d : Datum) : IsBounded (textOfNumber d) := by
  cases d <;> trivial

/-- Affinities make no integers of more than 64 bits. -/
theorem isBounded_apply (a : Affinity) {d : Datum} (h : IsBounded d) : IsBounded (a.apply d) := by
  cases a with
  | blob => exact h
  | text => exact isBounded_textOfNumber d
  | numeric | integer | real =>
    cases d with
    | text bs => exact isBounded_numberOfText bs
    | null | integer | real | blob => exact isBounded_preferInteger h

end Affinity

namespace Default

/-- If a value on the way to a default is an integer, it has 64 bits. -/
def Interim.IsBounded : Interim → Prop
  | plain d => Sql.IsBounded d
  | textBlob _ => True

theorem isBounded_numberOf (cutOff : Bool) (bs : List UInt8) : IsBounded (numberOf cutOff bs) := by
  unfold numberOf
  simp only
  split
  · next h => exact (Bool.and_eq_true _ _ ▸ h).2
  · split
    · next k hk =>
      split
      · exact isInt64_of_int64? hk
      · trivial
    · trivial

theorem isBounded_asNumber (enc : Encoding) {v : Interim} (h : v.IsBounded) : IsBounded (asNumber enc v) := by
  unfold asNumber
  split
  · exact isBounded_numberOf _ _
  · exact isBounded_numberOf _ _
  · exact isBounded_numberOf _ _
  · exact h

theorem isBounded_negate {d : Datum} (h : IsBounded d) : IsBounded (negate d) := by
  cases d with
  | integer n =>
    simp only [negate]
    split
    · trivial
    · have hn := isInt64_iff.mp h
      exact isInt64_iff.mpr (by omega)
  | null | real | text | blob => trivial

theorem isBounded_toInteger {d : Datum} (h : IsBounded d) : IsBounded (toInteger d) := by
  cases d with
  | real x =>
    show isInt64 x.toInt64 = true
    unfold Binary64.toInt64
    split
    · exact isInt64_clampInt64 _
    · split
      · rfl
      · split <;> rfl
  | text | blob => exact isInt64_clampInt64 _
  | null | integer => exact h

theorem isBounded_toReal (d : Datum) : IsBounded (toReal d) := by
  cases d <;> trivial

theorem isBounded_castTo (enc : Encoding) (a : Affinity) {v : Interim} (h : v.IsBounded) :
    (castTo enc a v).IsBounded := by
  cases a with
  | blob =>
    cases v with
    | plain d => cases d <;> trivial
    | textBlob => trivial
  | text =>
    cases v with
    | plain d => cases d <;> trivial
    | textBlob => trivial
  | numeric => exact isBounded_asNumber enc h
  | integer =>
    cases v with
    | plain d => exact isBounded_toInteger h
    | textBlob s => exact isInt64_clampInt64 _
  | real =>
    cases v with
    | plain d => exact isBounded_toReal d
    | textBlob s => trivial

theorem isBounded_ofNumberText (a : Affinity) (t : List UInt8) : IsBounded (ofNumberText a t) :=
  Affinity.isBounded_apply _ trivial

theorem isBounded_ofInteger (a : Affinity) (negative : Bool) (ds : List UInt8) : IsBounded (ofInteger a negative ds) := by
  unfold ofInteger
  split
  · next n hn =>
    have hle := smallInteger?_le hn
    refine Affinity.isBounded_apply a (isInt64_iff.mpr ?_)
    split <;> omega
  · exact isBounded_ofNumberText a _

theorem isBounded_truth (a : Affinity) (b : Bool) : IsBounded (a.apply (.integer (if b then 1 else 0))) :=
  Affinity.isBounded_apply a (by cases b <;> rfl)

/-- Every default that is an integer has 64 bits. -/
theorem isBounded_value? (enc : Encoding) (a : Affinity) (e : Expr) : ∀ v ∈ value? enc a e, v.IsBounded := by
  fun_induction value? enc a e with
  | case1 | case2 | case6 => rintro v ⟨⟩; trivial
  | case3 a ds => rintro v ⟨⟩; exact isBounded_ofInteger a false ds
  | case4 a t => rintro v ⟨⟩; exact isBounded_ofNumberText a t
  | case5 a s =>
    rintro v ⟨⟩
    have hbounded := Affinity.isBounded_apply a (d := .text s) trivial
    show IsBounded (ofString enc a s)
    unfold ofString
    split
    · trivial
    · exact hbounded
  | case7 a b => rintro v ⟨⟩; exact isBounded_truth a b
  | case8 a n =>
    intro v hv
    obtain ⟨b, -, rfl⟩ := Option.map_eq_some_iff.mp hv
    exact isBounded_truth a b
  | case9 a e ih => exact ih
  | case10 a ds => rintro v ⟨⟩; exact isBounded_ofInteger a true ds
  | case11 a t => rintro v ⟨⟩; exact isBounded_ofNumberText a _
  | case12 a e _ _ ih =>
    intro v hv
    obtain ⟨w, hw, rfl⟩ := Option.map_eq_some_iff.mp hv
    exact Affinity.isBounded_apply a (isBounded_negate (isBounded_asNumber enc (ih w hw)))
  | case13 a e t b ih =>
    intro v hv
    obtain ⟨w, hw, rfl⟩ := Option.map_eq_some_iff.mp hv
    have hcast := isBounded_castTo enc b (ih w hw)
    cases hresult : castTo enc b w with
    | plain d =>
      rw [hresult] at hcast
      exact Affinity.isBounded_apply a hcast
    | textBlob s => trivial
  | case14 => exact nofun

theorem isBounded_defaultValue (enc : Encoding) (a : Affinity) (e : Expr) : IsBounded (defaultValue enc a e) := by
  unfold defaultValue
  cases h : value? enc a e with
  | none => trivial
  | some v =>
    have hbounded := isBounded_value? enc a e v h
    cases v with
    | plain d => exact hbounded
    | textBlob s => trivial

end Default
end FirstRow.Sql
