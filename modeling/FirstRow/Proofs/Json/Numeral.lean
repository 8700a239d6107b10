import FirstRow.Proofs.Binary64.Shortest
import FirstRow.Proofs.Json.Grammar
import FirstRow.Proofs.Json.Reader

/-!
# Numbers as they are written

Integers and reals are written as numerals: `Numeral.chars` is the text of one. A well-formed numeral is a number of
the grammar, and the reader gives it back whatever follows, as long as that does not go on with the number. What is
left is to find the numeral of an integer and of a real, and to see that it means the number it was made from.
-/
namespace FirstRow.Json

open Grammar (Digits Whole)

/-! ## Numerals -/

/-- The exponent with its sign. -/
def powerChars : Option Int → List Char
  | none => []
  | some e => 'e' :: (if e < 0 then '-' else '+') :: Decimal.digits e.natAbs

/-- The point and the digits behind it. -/
def fractionChars (ds : List Char) : List Char :=
  if ds = [] then [] else '.' :: ds

def signChars (negative : Bool) : List Char :=
  if negative then ['-'] else []

def Numeral.chars (n : Numeral) : List Char :=
  signChars n.negative ++ (n.whole ++ (fractionChars n.fraction ++ powerChars n.power))

structure Numeral.WellFormed (n : Numeral) : Prop where
  whole : Whole n.whole
  fraction : ∀ c ∈ n.fraction, Decimal.isDigit c = true

theorem digits_digits (n : Nat) : Digits (Decimal.digits n) :=
  ⟨Decimal.digits_ne_nil n, Decimal.digits_all_isDigit n⟩

theorem whole_digits (n : Nat) : Whole (Decimal.digits n) := by
  rcases Nat.eq_zero_or_pos n with rfl | hn
  · rw [Decimal.digits_zero]
    exact .zero
  · exact .digits (digits_digits n) (Decimal.head?_digits_ne_zero hn)

/-- Digits before the point are digits. -/
theorem digits_of_whole {s : List Char} (h : Whole s) : Digits s := by
  cases h with
  | zero => exact ⟨by simp, by simp; rfl⟩
  | digits hs _ => exact hs

theorem Numeral.number_chars {n : Numeral} (h : n.WellFormed) : Grammar.Number n.chars := by
  refine .intro ?_ h.whole ?_ ?_
  · unfold signChars
    split <;> simp
  · unfold fractionChars
    split
    · exact .none
    · next hne => exact .digits ⟨hne, h.fraction⟩
  · cases n.power with
    | none => exact .none
    | some e =>
      have hsign : [if e < 0 then '-' else '+'] = [] ∨ [if e < 0 then '-' else '+'] = ['+'] ∨
          [if e < 0 then '-' else '+'] = ['-'] := by
        split <;> simp
      exact .digits (.inl rfl) hsign (digits_digits e.natAbs)

/-! ## Reading a numeral -/

/-- What can follow a number: nothing that goes on with it. -/
def Ends (rest : List Char) : Prop :=
  ∀ c ∈ rest.head?, Decimal.isDigit c = false ∧ c ≠ '.' ∧ c ≠ 'e' ∧ c ≠ 'E'

theorem ends_nil : Ends [] := by simp [Ends]

theorem ends_cons {c : Char} (hc : c ∈ [',', ']', '}']) (rest : List Char) : Ends (c :: rest) := by
  simp only [List.mem_cons, List.not_mem_nil, or_false] at hc
  rcases hc with rfl | rfl | rfl <;> simp [Ends] <;> decide

theorem readDigits?_append {ds rest : List Char} (hds : Digits ds)
    (hrest : ∀ c ∈ rest.head?, Decimal.isDigit c = false) : readDigits? (ds ++ rest) = some (ds, rest) := by
  have htake : rest.takeWhile Decimal.isDigit = [] := by
    cases rest with
    | nil => rfl
    | cons c rest => simp [hrest c (by simp)]
  have hdrop : rest.dropWhile Decimal.isDigit = rest := by
    cases rest with
    | nil => rfl
    | cons c rest => simp [hrest c (by simp)]
  unfold readDigits?
  rw [List.takeWhile_append_of_pos hds.all, List.dropWhile_append_of_pos hds.all, htake, hdrop, List.append_nil]
  simp [hds.ne_nil]

theorem readPower?_append {rest : List Char} (p : Option Int) (hrest : Ends rest) :
    readPower? (powerChars p ++ rest) = some (p, rest) := by
  cases p with
  | none =>
    cases rest with
    | nil => rfl
    | cons c rest =>
      have := hrest c (by simp)
      simp [powerChars, readPower?, this]
  | some e =>
    have hread := readDigits?_append (digits_digits e.natAbs) fun c hc => (hrest c hc).1
    simp only [powerChars, List.cons_append, readPower?, true_or, if_true]
    by_cases he : e < 0
    · simp only [if_pos he, hread, Option.map_some, Decimal.value_digits, Option.some.injEq, Prod.mk.injEq, and_true]
      omega
    · simp only [if_neg he, hread, Option.map_some, Decimal.value_digits, Option.some.injEq, Prod.mk.injEq, and_true]
      omega

theorem readFraction?_append {ds rest : List Char} (hds : ∀ c ∈ ds, Decimal.isDigit c = true)
    (hrest : ∀ c ∈ rest.head?, Decimal.isDigit c = false ∧ c ≠ '.') :
    readFraction? (fractionChars ds ++ rest) = some (ds, rest) := by
  by_cases hne : ds = []
  · subst hne
    cases rest with
    | nil => rfl
    | cons c rest =>
      have := hrest c (by simp)
      simp [fractionChars, readFraction?, this]
  · have hread := readDigits?_append ⟨hne, hds⟩ fun c hc => (hrest c hc).1
    simpa [fractionChars, hne, readFraction?] using hread

/-- The exponent does not go on with the digits in front of it. -/
theorem head?_powerChars_append {p : Option Int} {rest : List Char} (hrest : Ends rest) :
    ∀ c ∈ (powerChars p ++ rest).head?, Decimal.isDigit c = false ∧ c ≠ '.' := by
  cases p with
  | none => exact fun c hc => ⟨(hrest c hc).1, (hrest c hc).2.1⟩
  | some e =>
    intro c hc
    simp only [powerChars, List.cons_append, List.head?_cons, Option.mem_def, Option.some.injEq] at hc
    subst hc
    decide

theorem head?_fractionChars_append {ds rest : List Char}
    (hrest : ∀ c ∈ rest.head?, Decimal.isDigit c = false ∧ c ≠ '.') :
    ∀ c ∈ (fractionChars ds ++ rest).head?, Decimal.isDigit c = false := by
  unfold fractionChars
  split
  · exact fun c hc => (hrest c hc).1
  · intro c hc
    simp only [List.cons_append, List.head?_cons, Option.mem_def, Option.some.injEq] at hc
    subst hc
    decide

theorem readMagnitude?_append {n : Numeral} (h : n.WellFormed) {rest : List Char} (hrest : Ends rest) :
    readMagnitude? n.negative (n.whole ++ (fractionChars n.fraction ++ (powerChars n.power ++ rest))) =
      some (n, rest) := by
  have hpower := head?_powerChars_append (p := n.power) hrest
  have hzero : ¬(n.whole.head? = some '0' ∧ n.whole ≠ ['0']) := by
    generalize hw : n.whole = whole
    cases hw ▸ h.whole with
    | zero => simp
    | digits _ hne => exact fun hc => hne hc.1
  simp only [readMagnitude?, readDigits?_append (digits_of_whole h.whole) (head?_fractionChars_append hpower),
    Option.bind_eq_bind, Option.bind_some, if_neg hzero, readFraction?_append h.fraction hpower,
    readPower?_append n.power hrest]

/-- The reader gives a numeral back. -/
theorem readNumeral?_append {n : Numeral} (h : n.WellFormed) {rest : List Char} (hrest : Ends rest) :
    readNumeral? (n.chars ++ rest) = some (n, rest) := by
  have hread := readMagnitude?_append h hrest
  have hdigits := digits_of_whole h.whole
  simp only [Numeral.chars, List.append_assoc]
  generalize fractionChars n.fraction ++ (powerChars n.power ++ rest) = tail at hread ⊢
  unfold signChars
  split
  · next hneg =>
    rw [hneg] at hread
    simpa [readNumeral?] using hread
  · next hneg =>
    rw [Bool.not_eq_true] at hneg
    rw [hneg] at hread
    obtain ⟨hne, hall⟩ := hdigits
    cases hw : n.whole with
    | nil => exact absurd hw hne
    | cons d ds =>
      have hd : d ≠ '-' := by
        rintro rfl
        exact absurd (hall '-' (by simp [hw])) (by decide)
      rw [hw] at hread
      simpa [readNumeral?, hd] using hread

/-- A number begins with a digit or a minus sign. -/
theorem Numeral.exists_cons_chars {n : Numeral} (h : n.WellFormed) :
    ∃ c s, n.chars = c :: s ∧ (c = '-' ∨ Decimal.isDigit c = true) := by
  obtain ⟨hne, hall⟩ := digits_of_whole h.whole
  unfold chars signChars
  split
  · exact ⟨_, _, rfl, .inl rfl⟩
  · cases hw : n.whole with
    | nil => exact absurd hw hne
    | cons d ds => exact ⟨d, _, rfl, .inr (hall d (by simp [hw]))⟩

/-! ## The numeral of an integer -/

def Numeral.ofInt (n : Int) : Numeral :=
  ⟨decide (n < 0), Decimal.digits n.natAbs, [], none⟩

theorem Numeral.wellFormed_ofInt (n : Int) : (ofInt n).WellFormed :=
  ⟨whole_digits n.natAbs, by simp [ofInt]⟩

theorem Numeral.chars_ofInt (n : Int) : (ofInt n).chars = Decimal.integer n := by
  cases n with
  | ofNat n => simp [chars, ofInt, signChars, fractionChars, powerChars, Decimal.integer]
  | negSucc n => simp [chars, ofInt, signChars, fractionChars, powerChars, Decimal.integer, Int.negSucc_lt_zero]

theorem Numeral.json?_ofInt (n : Int) : (ofInt n).json? = some (.integer n) := by
  simp only [json?, ofInt, mantissa, List.append_nil, Decimal.value_digits, true_and, if_true, decide_eq_true_eq]
  congr 2
  split <;> omega

/-! ## The numeral of a real -/

/-- A numeral that is not an integer and has some digits, the first of them at the power `e` of ten. Zeros can stand on
both sides of the digits. -/
structure Numeral.Writes (n : Numeral) (negative : Bool) (ds : List Char) (e : Int) : Prop where
  wellFormed : n.WellFormed
  sign : n.negative = negative
  inexact : ¬(n.fraction = [] ∧ n.power = none)
  digits : ∃ a z : Nat, n.whole ++ n.fraction = List.replicate a '0' ++ ds ++ List.replicate z '0' ∧
    n.scale = e + 1 - ds.length - z

theorem Numeral.Writes.value {n : Numeral} {negative : Bool} {ds : List Char} {e : Int} (h : n.Writes negative ds e) :
    ∃ z : Nat, n.mantissa = Decimal.value ds * 10 ^ z ∧ n.scale = e + 1 - ds.length - z := by
  obtain ⟨a, z, hdigits, hscale⟩ := h.digits
  refine ⟨z, ?_, hscale⟩
  rw [mantissa, hdigits, Decimal.value_append, Decimal.value_append, Decimal.value_replicate_zero,
    Decimal.value_replicate_zero, List.length_replicate, Nat.zero_mul, Nat.zero_add, Nat.add_zero]

/-- Positional notation is a numeral. -/
theorem exists_numeral_positional {ds : List Char} {e : Int} (hds : Whole ds) (hzero : ds = ['0'] → e = 0)
    (negative : Bool) :
    ∃ n : Numeral, n.chars = signChars negative ++ Decimal.positional ds e ∧ n.Writes negative ds e := by
  have hdigits := digits_of_whole hds
  have hisdigit : Decimal.isDigit '0' = true := by decide
  unfold Decimal.positional
  split
  · next he =>
    refine ⟨⟨negative, ['0'], List.replicate (-e - 1).toNat '0' ++ ds, none⟩, ?_, ?_⟩
    · simp [Numeral.chars, fractionChars, powerChars, hdigits.ne_nil]
    · refine ⟨⟨.zero, ?_⟩, rfl, by simp [hdigits.ne_nil], (-e - 1).toNat + 1, 0, ?_, ?_⟩
      · intro c hc
        rcases List.mem_append.mp hc with hc | hc
        · rw [List.eq_of_mem_replicate hc, hisdigit]
        · exact hdigits.all c hc
      · simp [List.replicate_succ]
      · simp only [Numeral.scale, Option.getD_none, List.length_append, List.length_replicate]
        omega
  · next he =>
    simp only
    have hlength := List.length_pos_of_ne_nil hdigits.ne_nil
    split
    · next hlen =>
      refine ⟨⟨negative, ds ++ List.replicate (e.toNat + 1 - ds.length) '0', ['0'], none⟩, ?_, ?_⟩
      · simp [Numeral.chars, fractionChars, powerChars]
      · refine ⟨⟨?_, by simp [hisdigit]⟩, rfl, by simp, 0, e.toNat + 1 - ds.length + 1, ?_, ?_⟩
        · cases hds with
          | zero =>
            rw [hzero rfl]
            exact .zero
          | digits _ hne =>
            refine .digits ⟨by simp [hdigits.ne_nil], ?_⟩ ?_
            · intro c hc
              rcases List.mem_append.mp hc with hc | hc
              · exact hdigits.all c hc
              · rw [List.eq_of_mem_replicate hc, hisdigit]
            · rw [List.head?_append_of_ne_nil _ hdigits.ne_nil]
              exact hne
        · simp [List.replicate_succ']
        · simp only [Numeral.scale, Option.getD_none, List.length_singleton]
          omega
    · next hlen =>
      refine ⟨⟨negative, ds.take (e.toNat + 1), ds.drop (e.toNat + 1), none⟩, ?_, ?_⟩
      · have hne : ds.drop (e.toNat + 1) ≠ [] := by
          rw [ne_eq, List.drop_eq_nil_iff]
          omega
        simp [Numeral.chars, fractionChars, powerChars, hne]
      · refine ⟨⟨?_, fun c hc => hdigits.all c (List.mem_of_mem_drop hc)⟩, rfl, ?_, 0, 0, ?_, ?_⟩
        · cases hds with
          | zero => exact absurd hlen (by simp)
          | digits _ hne =>
            refine .digits ⟨?_, fun c hc => hdigits.all c (List.mem_of_mem_take hc)⟩ ?_
            · simp [List.take_eq_nil_iff, hdigits.ne_nil]
            · rw [List.head?_take, if_neg (by omega)]
              exact hne
        · simp only [List.drop_eq_nil_iff]
          omega
        · simp
        · simp only [Numeral.scale, Option.getD_none, List.length_drop]
          omega

/-- Exponential notation is a numeral. -/
theorem exists_numeral_exponential {ds : List Char} (e : Int) (hds : Whole ds) (negative : Bool) :
    ∃ n : Numeral, n.chars = signChars negative ++ exponential ds e ∧ n.Writes negative ds e := by
  have hdigits := digits_of_whole hds
  have hpower : powerChars (some e) =
      'e' :: (if e < 0 then '-' :: Decimal.digits e.natAbs else '+' :: Decimal.digits e.natAbs) := by
    by_cases he : e < 0 <;> simp [powerChars, he]
  cases ds with
  | nil => exact absurd rfl hdigits.ne_nil
  | cons d ds =>
    refine ⟨⟨negative, [d], ds, some e⟩, ?_, ⟨?_, fun c hc => hdigits.all c (List.mem_cons_of_mem d hc)⟩, rfl, by simp,
      0, 0, ?_, ?_⟩
    · simp only [Numeral.chars, hpower, fractionChars, exponential]
      cases ds <;> simp
    · cases hds with
      | zero => exact .zero
      | digits _ hne => exact .digits ⟨by simp, by simpa using hdigits.all d (by simp)⟩ hne
    · simp
    · simp only [Numeral.scale, Option.getD_some, List.length_cons]
      omega

/-- The digits of a real: those of a decimal that rounds to it, or zero. -/
theorem shortest_digits (x : Binary64) :
    Whole x.shortest.digits ∧ (x.shortest.digits = ['0'] → x.shortest.exponent = 0) ∧
      (x.significand = 0 ∧ Decimal.value x.shortest.digits = 0 ∨
        x.significand ≠ 0 ∧ 0 < Decimal.value x.shortest.digits ∧
          x.Near (Decimal.value x.shortest.digits *
            10 ^ (x.shortest.exponent + 1 - x.shortest.digits.length : Int))) := by
  by_cases hsig : x.significand = 0
  · rw [Binary64.shortest_zero hsig]
    exact ⟨.zero, fun _ => rfl, .inl ⟨hsig, by simp [Decimal.value_singleton]⟩⟩
  obtain ⟨d, k, hd, hnear, heq⟩ := Binary64.shortest_spec hsig
  have hvalue := Binary64.value_dropZeros (Decimal.digits d)
  obtain ⟨z, hz⟩ := Binary64.dropZeros_append (Decimal.digits d)
  have hlen := congrArg List.length hz
  rw [List.length_append, List.length_replicate] at hlen
  have hpos : 0 < (Decimal.digits d).length := List.length_pos_of_ne_nil (Decimal.digits_ne_nil d)
  rw [Decimal.value_digits] at hvalue
  have hvpos : 0 < Decimal.value (Binary64.dropZeros (Decimal.digits d)) := by
    rw [Nat.pos_iff_ne_zero]
    intro h0
    rw [h0, Nat.zero_mul] at hvalue
    omega
  have hne : Binary64.dropZeros (Decimal.digits d) ≠ [] := by
    intro hnil
    rw [hnil, Decimal.value_nil] at hvpos
    exact lt_irrefl _ hvpos
  rw [heq]
  refine ⟨.digits ⟨hne, fun c hc => ?_⟩ ?_, ?_, .inr ⟨hsig, hvpos, ?_⟩⟩
  · refine Decimal.digits_all_isDigit d c ?_
    rw [hz]
    exact List.mem_append_left _ hc
  · have hhead := Decimal.head?_digits_ne_zero hd
    rw [hz, List.head?_append_of_ne_nil _ hne] at hhead
    exact hhead
  · intro h0
    simp only at h0
    rw [h0] at hvpos
    exact absurd hvpos (by decide)
  · -- the zeros that were dropped are a power of ten
    simp only
    have hscale : (d : ℚ) * 10 ^ k = Decimal.value (Binary64.dropZeros (Decimal.digits d)) *
        10 ^ (k + ((Decimal.digits d).length - 1 : Nat) + 1 - (Binary64.dropZeros (Decimal.digits d)).length) := by
      conv_lhs => rw [hvalue]
      push_cast
      rw [mul_assoc, ← zpow_natCast, ← zpow_add₀ (by norm_num)]
      congr 2
      omega
    rw [← hscale]
    exact hnear

/-- A numeral that writes the digits of a real means the real. -/
theorem Numeral.Writes.json? {n : Numeral} (x : Binary64.Finite)
    (h : n.Writes x.val.negative x.val.shortest.digits x.val.shortest.exponent) : n.json? = some (.real x) := by
  obtain ⟨z, hmantissa, hscale⟩ := h.value
  have hx : Binary64.ofDecimal n.negative n.mantissa n.scale = x.val := by
    rw [h.sign, hmantissa]
    obtain ⟨-, -, ⟨hsig, hvalue⟩ | ⟨hsig, hvalue, hnear⟩⟩ := shortest_digits x.val
    · rw [hvalue, Nat.zero_mul]
      exact Binary64.ofDecimal_zero hsig _
    · refine Binary64.ofDecimal_of_near x.property hsig (Nat.mul_pos hvalue (Nat.pow_pos (by decide))) ?_
      rw [hscale]
      convert hnear using 1
      push_cast
      rw [mul_assoc, ← zpow_natCast, ← zpow_add₀ (by norm_num)]
      congr 2
      omega
  simp only [Numeral.json?, if_neg h.inexact, hx, x.property, dif_pos]

/-- The text of a real is a numeral that has the shortest digits of the real. -/
theorem exists_numeral_writes (x : Binary64) :
    ∃ n : Numeral, n.chars = realText x ∧ n.Writes x.negative x.shortest.digits x.shortest.exponent := by
  obtain ⟨hwhole, hzero, -⟩ := shortest_digits x
  have hsign : (if x.negative = true then ['-'] else []) = signChars x.negative := rfl
  unfold realText
  simp only [hsign]
  split
  · exact exists_numeral_positional hwhole hzero x.negative
  · exact exists_numeral_exponential x.shortest.exponent hwhole x.negative

/-- The text of a real is a numeral that means the real. -/
theorem exists_numeral_realText (x : Binary64.Finite) :
    ∃ n : Numeral, n.chars = realText x.val ∧ n.WellFormed ∧ ¬(n.fraction = [] ∧ n.power = none) ∧
      n.json? = some (.real x) := by
  obtain ⟨n, hchars, hn⟩ := exists_numeral_writes x.val
  exact ⟨n, hchars, hn.wellFormed, hn.inexact, hn.json? x⟩

end FirstRow.Json
