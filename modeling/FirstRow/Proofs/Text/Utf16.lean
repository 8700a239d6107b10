import FirstRow.Proofs.Text.Utf8
import FirstRow.Text.Utf16

/-!
# UTF-16 is read as it was written

The units of a text are read back from its octets, and its code points from the units: a surrogate that begins a pair
takes the next unit with it, and no other unit of a text is one. So stored UTF-16 gives the text as UTF-8. UTF-8 is
stored as the text that it is, apart from two characters.
-/
namespace FirstRow.Text.Utf16

variable {o : Order}

theorem unit_octets {u : Nat} (h : u < 0x10000) :
    ∃ a b, o.octets u = [a, b] ∧ o.unit a b = u := by
  have hlow : (u % 0x100).toUInt8.toNat = u % 0x100 := Utf8.toNat_toUInt8 (by omega)
  have hhigh : (u / 0x100).toUInt8.toNat = u / 0x100 := Utf8.toNat_toUInt8 (by omega)
  cases o with
  | littleEndian =>
    refine ⟨_, _, rfl, ?_⟩
    simp only [Order.unit, hlow, hhigh]
    omega
  | bigEndian =>
    refine ⟨_, _, rfl, ?_⟩
    simp only [Order.unit, hlow, hhigh]
    omega

/-- The units of a text are read from their octets. -/
theorem units_flatMap_octets {us : List Nat} (h : ∀ u ∈ us, u < 0x10000) : units o (us.flatMap o.octets) = us := by
  induction us with
  | nil => rfl
  | cons u us ih =>
    obtain ⟨a, b, hoctets, hunit⟩ := unit_octets (o := o) (h u (by simp))
    have hrest := ih fun v hv => h v (List.mem_cons_of_mem u hv)
    simp only [List.flatMap_cons, hoctets, List.cons_append, List.nil_append, units, hunit, hrest]

/-- A unit that is no surrogate stands for itself. -/
theorem points_cons {u : Nat} (h : isSurrogate u = false) (us : List Nat) : points (u :: us) = u :: points us := by
  cases us with
  | nil => rfl
  | cons v us => simp [points, h]

/-- The units of a character have sixteen bits. -/
theorem lt_of_mem_unitsOfPoint (c : Char) {u : Nat} (hu : u ∈ unitsOfPoint c.toNat) : u < 0x10000 := by
  have hvalid := Utf8.toNat_valid c
  unfold unitsOfPoint at hu
  split at hu
  · simp only [List.mem_singleton] at hu
    omega
  · simp only [List.mem_cons, List.not_mem_nil, or_false] at hu
    omega

/-- The units of a character are read as it, whatever follows them. -/
theorem points_unitsOfPoint (c : Char) (us : List Nat) : points (unitsOfPoint c.toNat ++ us) = c.toNat :: points us := by
  have hvalid := Utf8.toNat_valid c
  unfold unitsOfPoint
  split
  · next h =>
    refine points_cons ?_ us
    simp only [isSurrogate, Bool.and_eq_false_iff, decide_eq_false_iff_not]
    omega
  · next h =>
    have hfirst : isSurrogate (0xD800 + (c.toNat - 0x10000) / 0x400) = true := by
      simp only [isSurrogate, Bool.and_eq_true, decide_eq_true_eq]
      omega
    have hpoint : ((0xD800 + (c.toNat - 0x10000) / 0x400) % 0x400 + 0x40) * 0x400 +
        (0xDC00 + (c.toNat - 0x10000) % 0x400) % 0x400 = c.toNat := by
      omega
    simp only [List.cons_append, List.nil_append, points, hfirst, if_true, hpoint]

theorem points_flatMap (s : List Char) : points (s.flatMap fun c => unitsOfPoint c.toNat) = s.map Char.toNat := by
  induction s with
  | nil => rfl
  | cons c s ih => rw [List.flatMap_cons, points_unitsOfPoint, ih, List.map_cons]

/-- A text that was stored in UTF-16 is given out as UTF-8. -/
theorem toUtf8_encode (o : Order) (s : List Char) : toUtf8 o (encode o s) = Utf8.encode s := by
  have hencode : encode o s = (s.flatMap fun c => unitsOfPoint c.toNat).flatMap o.octets := by
    rw [encode, List.flatMap_assoc]
  have hunits : ∀ u ∈ s.flatMap fun c => unitsOfPoint c.toNat, u < 0x10000 := by
    intro u hu
    obtain ⟨c, -, hc⟩ := List.mem_flatMap.mp hu
    exact lt_of_mem_unitsOfPoint c hc
  rw [toUtf8, hencode, units_flatMap_octets hunits, points_flatMap, Utf8.encode, List.flatMap_map]

/-! ## UTF-8 that is stored -/

/-- An octet that continues a character adds its six bits. -/
theorem loosePoints_continuation (n m : Nat) (rest : List UInt8) :
    loosePoints (some n) ((0x80 + m % 0x40).toUInt8 :: rest) =
      loosePoints (some ((n * 0x40 + m % 0x40) % 0x100000000)) rest := by
  have hb : (0x80 + m % 0x40).toUInt8.toNat = 0x80 + m % 0x40 := Utf8.toNat_toUInt8 (by omega)
  have hcontinues : Utf8.isContinuation (0x80 + m % 0x40).toUInt8 = true := by
    simp only [Utf8.isContinuation, Bool.and_eq_true, decide_eq_true_eq, UInt8.le_iff_toNat_le, hb, UInt8.reduceToNat]
    omega
  rw [loosePoints, if_pos hcontinues, hb, show (0x80 + m % 0x40) % 0x40 = m % 0x40 by omega]

/-- An octet that begins a character of several octets. -/
theorem loosePoints_leading {v : Nat} (hlow : 0xC0 ≤ v) (hhigh : v < 0xF8) (rest : List UInt8) :
    loosePoints none (v.toUInt8 :: rest) =
      loosePoints (some (if v < 0xE0 then v % 0x20 else if v < 0xF0 then v % 0x10 else v % 8)) rest := by
  have hv : v.toUInt8.toNat = v := Utf8.toNat_toUInt8 (by omega)
  have hbits : leadingBits v.toUInt8 = if v < 0xE0 then v % 0x20 else if v < 0xF0 then v % 0x10 else v % 8 := by
    unfold leadingBits
    simp only [UInt8.lt_iff_toNat_lt, hv, UInt8.reduceToNat, if_pos hhigh]
  rw [loosePoints, if_neg (by simp only [UInt8.lt_iff_toNat_lt, hv, UInt8.reduceToNat]; omega), hbits]

/-- A character ends where no octet continues it. -/
theorem loosePoints_ended {n : Nat} {rest : List UInt8} (h : ∀ b ∈ rest.head?, Utf8.isContinuation b = false) :
    loosePoints (some n) rest = checked n :: loosePoints none rest := by
  cases rest with
  | nil => rfl
  | cons b rest => rw [loosePoints, if_neg (by simp [h b rfl]), loosePoints]

theorem checked_toNat {c : Char} (hlow : 0x80 ≤ c.toNat) (hc : c ≠ '\uFFFE' ∧ c ≠ '\uFFFF') : checked c.toNat = c.toNat := by
  have hvalid := Utf8.toNat_valid c
  have hne (d : Char) (hd : c ≠ d) : c.toNat ≠ d.toNat := fun h => hd (Char.toNat_inj.mp h)
  have hfirst : c.toNat ≠ 0xFFFE := hne _ hc.1
  have hsecond : c.toNat ≠ 0xFFFF := hne _ hc.2
  rw [checked, if_neg]
  simp only [isSurrogate, Bool.or_eq_true, Bool.and_eq_true, decide_eq_true_eq]
  omega

/-- The octets of a character are taken for it. -/
theorem loosePoints_encodePoint {c : Char} (hc : c ≠ '\uFFFE' ∧ c ≠ '\uFFFF') {rest : List UInt8}
    (hrest : ∀ b ∈ rest.head?, Utf8.isContinuation b = false) :
    loosePoints none (Utf8.encodePoint c.toNat ++ rest) = c.toNat :: loosePoints none rest := by
  have hvalid := Utf8.toNat_valid c
  have hended {n : Nat} (hn : n = c.toNat) (hlow : 0x80 ≤ c.toNat) :
      loosePoints (some n) rest = c.toNat :: loosePoints none rest := by
    rw [loosePoints_ended hrest, hn, checked_toNat hlow hc]
  unfold Utf8.encodePoint
  split
  · next h =>
    have hoctet : c.toNat.toUInt8.toNat = c.toNat := Utf8.toNat_toUInt8 (by omega)
    rw [List.singleton_append, loosePoints,
      if_pos (by simp only [UInt8.lt_iff_toNat_lt, hoctet, UInt8.reduceToNat]; omega), hoctet]
  · split
    · rw [List.cons_append, List.cons_append, List.nil_append, loosePoints_leading (by omega) (by omega),
        loosePoints_continuation, if_pos (by omega)]
      exact hended (by omega) (by omega)
    · split
      · rw [List.cons_append, List.cons_append, List.cons_append, List.nil_append,
          loosePoints_leading (by omega) (by omega), loosePoints_continuation, loosePoints_continuation,
          if_neg (by omega), if_pos (by omega)]
        exact hended (by omega) (by omega)
      · rw [List.cons_append, List.cons_append, List.cons_append, List.cons_append, List.nil_append,
          loosePoints_leading (by omega) (by omega), loosePoints_continuation, loosePoints_continuation,
          loosePoints_continuation, if_neg (by omega), if_neg (by omega)]
        exact hended (by omega) (by omega)

theorem head?_encode (s : List Char) : ∀ b ∈ (Utf8.encode s).head?, Utf8.isContinuation b = false := by
  intro b hb
  cases s with
  | nil => cases hb
  | cons c s =>
    have hvalid := Utf8.toNat_valid c
    have hsmall {v : Nat} (hv : v < 0x80 ∨ 0xC0 ≤ v ∧ v < 0x100) : Utf8.isContinuation v.toUInt8 = false := by
      have htoNat : v.toUInt8.toNat = v := Utf8.toNat_toUInt8 (by omega)
      simp only [Utf8.isContinuation, Bool.and_eq_false_iff, decide_eq_false_iff_not, UInt8.le_iff_toNat_le, htoNat,
        UInt8.reduceToNat]
      omega
    rw [Utf8.encode_cons] at hb
    unfold Utf8.encodePoint at hb
    split at hb
    · cases hb
      exact hsmall (by omega)
    · split at hb
      · cases hb
        exact hsmall (by omega)
      · split at hb <;> cases hb <;> exact hsmall (by omega)

/-- UTF-8 is stored as the text that it is. -/
theorem ofUtf8_encode (o : Order) {s : List Char} (hs : ∀ c ∈ s, c ≠ '\uFFFE' ∧ c ≠ '\uFFFF') :
    ofUtf8 o (Utf8.encode s) = encode o s := by
  have hpoints : loosePoints none (Utf8.encode s) = s.map Char.toNat := by
    induction s with
    | nil => rfl
    | cons c s ih =>
      rw [Utf8.encode_cons, loosePoints_encodePoint (hs c (by simp)) (head?_encode s),
        ih fun d hd => hs d (List.mem_cons_of_mem c hd), List.map_cons]
  have hunits (c : Char) : looseUnits c.toNat = unitsOfPoint c.toNat := by
    have hvalid := Utf8.toNat_valid c
    unfold looseUnits unitsOfPoint
    split
    · rw [if_pos (by omega)]
    · have hhigh : 0xD800 + (c.toNat - 0x10000) / 0x40000 % 4 * 0x100 + (c.toNat - 0x10000) / 0x10000 % 4 * 0x40 +
          c.toNat / 0x400 % 0x40 = 0xD800 + (c.toNat - 0x10000) / 0x400 := by
        omega
      have hlow : 0xDC00 + c.toNat % 0x400 = 0xDC00 + (c.toNat - 0x10000) % 0x400 := by
        omega
      rw [if_neg (by omega), hhigh, hlow]
  rw [ofUtf8, hpoints, List.flatMap_map, encode, List.flatMap_assoc]
  simp only [hunits]

end FirstRow.Text.Utf16
