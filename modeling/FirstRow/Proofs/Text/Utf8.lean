import FirstRow.Text.Utf8

/-!
# UTF-8 is read as it was written

The octets of a character are read as that character, whatever follows them; so a text is read back from its octets,
and different texts have different octets. The other way round, octets that can be read are those of the text that is
read: nothing else is UTF-8. The statements go by the number of octets, and the places of the code point in them are
recovered by division.

What is written are the octets that a string has anyway, so there are as many of them as it takes up.
-/
namespace FirstRow.Text.Utf8

theorem toNat_toUInt8 {n : Nat} (h : n < 0x100) : n.toUInt8.toNat = n := by
  simp [Nat.toUInt8, Nat.mod_eq_of_lt h]

private theorem decodeFrom_one (k : Nat) {n : Nat} (rest : List UInt8) (h : n < 0x80) :
    decodeFrom k (n.toUInt8 :: rest) = (decodeFrom (k + 1) rest).map (Char.ofNat n :: ·) := by
  have hn : n.toUInt8.toNat = n := toNat_toUInt8 (by omega)
  rw [decodeFrom.eq_def]
  simp [UInt8.lt_iff_toNat_lt, hn, h]

private theorem decodeFrom_two (k : Nat) {n : Nat} (rest : List UInt8) (h : 0x80 ≤ n) (h' : n < 0x800) :
    decodeFrom k ((0xC0 + n / 0x40).toUInt8 :: (0x80 + n % 0x40).toUInt8 :: rest) =
      (decodeFrom (k + 2) rest).map (Char.ofNat n :: ·) := by
  have h₀ : (0xC0 + n / 0x40).toUInt8.toNat = 0xC0 + n / 0x40 := toNat_toUInt8 (by omega)
  have h₁ : (0x80 + n % 0x40).toUInt8.toNat = 0x80 + n % 0x40 := toNat_toUInt8 (by omega)
  have hv : (0xC0 + n / 0x40) % 0x20 * 0x40 + (0x80 + n % 0x40) % 0x40 = n := by omega
  rw [decodeFrom.eq_def]
  simp only [UInt8.lt_iff_toNat_lt, isContinuation, UInt8.le_iff_toNat_le, low, h₀, h₁]
  simp only [UInt8.reduceToNat, hv]
  rw [if_neg (by omega), if_neg (by omega), if_pos (by omega), if_pos (by simp; omega)]

/-- Surrogates have no octets that can be read: that is what the second octet is looked at for. -/
private theorem decodeFrom_three (k : Nat) {n : Nat} (rest : List UInt8) (h : 0x800 ≤ n) (h' : n < 0x10000)
    (hs : ¬ (0xD800 ≤ n ∧ n ≤ 0xDFFF)) :
    decodeFrom k ((0xE0 + n / 0x1000).toUInt8 :: (0x80 + n / 0x40 % 0x40).toUInt8 :: (0x80 + n % 0x40).toUInt8 ::
        rest) =
      (decodeFrom (k + 3) rest).map (Char.ofNat n :: ·) := by
  have h₀ : (0xE0 + n / 0x1000).toUInt8.toNat = 0xE0 + n / 0x1000 := toNat_toUInt8 (by omega)
  have h₁ : (0x80 + n / 0x40 % 0x40).toUInt8.toNat = 0x80 + n / 0x40 % 0x40 := toNat_toUInt8 (by omega)
  have h₂ : (0x80 + n % 0x40).toUInt8.toNat = 0x80 + n % 0x40 := toNat_toUInt8 (by omega)
  have hv : (0xE0 + n / 0x1000) % 0x10 * 0x1000 + (0x80 + n / 0x40 % 0x40) % 0x40 * 0x40 +
      (0x80 + n % 0x40) % 0x40 = n := by omega
  have hsecond : secondOfThree (0xE0 + n / 0x1000).toUInt8 (0x80 + n / 0x40 % 0x40).toUInt8 = true := by
    simp only [secondOfThree, isContinuation, ← UInt8.toNat_inj, UInt8.le_iff_toNat_le, h₀, h₁]
    simp only [UInt8.reduceToNat]
    split
    · simp; omega
    · split
      · simp; omega
      · simp; omega
  rw [decodeFrom.eq_def]
  simp only [hsecond, if_true]
  simp only [UInt8.lt_iff_toNat_lt, isContinuation, UInt8.le_iff_toNat_le, low, h₀, h₁, h₂]
  simp only [UInt8.reduceToNat, hv]
  rw [if_neg (by omega), if_neg (by omega), if_neg (by omega), if_pos (by omega), if_pos (by simp; omega)]

private theorem decodeFrom_four (k n : Nat) (rest : List UInt8) (h : 0x10000 ≤ n) (h' : n < 0x110000) :
    decodeFrom k ((0xF0 + n / 0x40000).toUInt8 :: (0x80 + n / 0x1000 % 0x40).toUInt8 ::
        (0x80 + n / 0x40 % 0x40).toUInt8 :: (0x80 + n % 0x40).toUInt8 :: rest) =
      (decodeFrom (k + 4) rest).map (Char.ofNat n :: ·) := by
  have h₀ : (0xF0 + n / 0x40000).toUInt8.toNat = 0xF0 + n / 0x40000 := toNat_toUInt8 (by omega)
  have h₁ : (0x80 + n / 0x1000 % 0x40).toUInt8.toNat = 0x80 + n / 0x1000 % 0x40 := toNat_toUInt8 (by omega)
  have h₂ : (0x80 + n / 0x40 % 0x40).toUInt8.toNat = 0x80 + n / 0x40 % 0x40 := toNat_toUInt8 (by omega)
  have h₃ : (0x80 + n % 0x40).toUInt8.toNat = 0x80 + n % 0x40 := toNat_toUInt8 (by omega)
  have hv : (0xF0 + n / 0x40000) % 8 * 0x40000 + (0x80 + n / 0x1000 % 0x40) % 0x40 * 0x1000 +
      (0x80 + n / 0x40 % 0x40) % 0x40 * 0x40 + (0x80 + n % 0x40) % 0x40 = n := by omega
  have hsecond : secondOfFour (0xF0 + n / 0x40000).toUInt8 (0x80 + n / 0x1000 % 0x40).toUInt8 = true := by
    simp only [secondOfFour, isContinuation, ← UInt8.toNat_inj, UInt8.le_iff_toNat_le, h₀, h₁]
    simp only [UInt8.reduceToNat]
    split
    · simp; omega
    · split
      · simp; omega
      · simp; omega
  rw [decodeFrom.eq_def]
  simp only [hsecond, if_true]
  simp only [UInt8.lt_iff_toNat_lt, isContinuation, UInt8.le_iff_toNat_le, low, h₀, h₁, h₂, h₃]
  simp only [UInt8.reduceToNat, hv]
  rw [if_neg (by omega), if_neg (by omega), if_neg (by omega), if_neg (by omega), if_pos (by omega),
    if_pos (by simp; omega), if_pos (by simp; omega)]

theorem toNat_valid (c : Char) : c.toNat < 0xD800 ∨ 0xDFFF < c.toNat ∧ c.toNat < 0x110000 :=
  c.valid

/-- The octets of a character are read as that character. -/
theorem decodeFrom_encodePoint (k : Nat) (c : Char) (rest : List UInt8) :
    decodeFrom k (encodePoint c.toNat ++ rest) =
      (decodeFrom (k + (encodePoint c.toNat).length) rest).map (c :: ·) := by
  have hc : Char.ofNat c.toNat = c := c.ofNat_toNat
  have hv := toNat_valid c
  unfold encodePoint
  split
  · next h => simpa [hc] using decodeFrom_one k rest h
  · split
    · next h h' => simpa [hc] using decodeFrom_two k rest (by omega) h'
    · split
      · next h h' h'' => simpa [hc] using decodeFrom_three k rest (by omega) h'' (by omega)
      · next h h' h'' => simpa [hc] using decodeFrom_four k c.toNat rest (by omega) (by omega)

theorem decodeFrom_encode (k : Nat) (s : List Char) : decodeFrom k (encode s) = .ok s := by
  induction s generalizing k with
  | nil => rfl
  | cons c rest ih => rw [encode_cons, decodeFrom_encodePoint, ih]; rfl

/-- A text is read back from its octets. -/
@[simp] theorem decode_encode (s : List Char) : decode (encode s) = .ok s :=
  decodeFrom_encode 0 s

/-- Different texts have different octets. -/
theorem encode_injective {s t : List Char} (h : encode s = encode t) : s = t := by
  have hs := decode_encode s
  rw [h, decode_encode] at hs
  exact (Except.ok.inj hs).symm

/-! ## Nothing else is read -/

private theorem toNat_ofNat {n : Nat} (h : n < 0xD800 ∨ 0xDFFF < n ∧ n < 0x110000) : (Char.ofNat n).toNat = n := by
  have hv : n.isValidChar := h
  rw [Char.ofNat, dif_pos hv]
  rfl

private theorem toUInt8_eq {n : Nat} {b : UInt8} (h : n = b.toNat) : n.toUInt8 = b := by
  subst h
  simp [Nat.toUInt8_eq]

private theorem encodePoint_one {b₀ : UInt8} (h : b₀ < 0x80) : encodePoint (Char.ofNat b₀.toNat).toNat = [b₀] := by
  simp only [UInt8.lt_iff_toNat_lt, UInt8.reduceToNat] at h
  rw [toNat_ofNat (by omega), encodePoint, if_pos h, toUInt8_eq rfl]

private theorem encodePoint_two {b₀ b₁ : UInt8} (h₀ : ¬ b₀ < 0xC2) (h₀' : b₀ < 0xE0) (h₁ : isContinuation b₁ = true) :
    encodePoint (Char.ofNat (b₀.toNat % 0x20 * 0x40 + low b₁)).toNat = [b₀, b₁] := by
  simp only [UInt8.lt_iff_toNat_lt, isContinuation, Bool.and_eq_true, decide_eq_true_eq, UInt8.le_iff_toNat_le,
    UInt8.reduceToNat] at h₀ h₀' h₁
  rw [toNat_ofNat (by unfold low; omega), encodePoint, if_neg (by unfold low; omega), if_pos (by unfold low; omega)]
  rw [toUInt8_eq (b := b₀) (by unfold low; omega), toUInt8_eq (b := b₁) (by unfold low; omega)]

/-- The second octet keeps the code point away from the shorter forms and from the surrogates. -/
private theorem encodePoint_three {b₀ b₁ b₂ : UInt8} (h₀ : ¬ b₀ < 0xE0) (h₀' : b₀ < 0xF0)
    (h₁ : secondOfThree b₀ b₁ = true) (h₂ : isContinuation b₂ = true) :
    encodePoint (Char.ofNat (b₀.toNat % 0x10 * 0x1000 + low b₁ * 0x40 + low b₂)).toNat = [b₀, b₁, b₂] := by
  have hv : b₁.toNat / 0x40 = 2 ∧ 0x20 ≤ b₀.toNat % 0x10 * 0x40 + b₁.toNat % 0x40 ∧
      (b₀.toNat % 0x10 * 0x40 + b₁.toNat % 0x40 < 0x360 ∨ 0x37F < b₀.toNat % 0x10 * 0x40 + b₁.toNat % 0x40) := by
    simp only [UInt8.lt_iff_toNat_lt, secondOfThree, isContinuation, ← UInt8.toNat_inj, UInt8.le_iff_toNat_le,
      UInt8.reduceToNat] at h₀ h₀' h₁
    split at h₁
    · simp at h₁; omega
    · split at h₁
      · simp at h₁; omega
      · simp at h₁; omega
  simp only [UInt8.lt_iff_toNat_lt, isContinuation, Bool.and_eq_true, decide_eq_true_eq, UInt8.le_iff_toNat_le,
    UInt8.reduceToNat] at h₀ h₀' h₂
  rw [toNat_ofNat (by unfold low; omega), encodePoint, if_neg (by unfold low; omega), if_neg (by unfold low; omega),
    if_pos (by unfold low; omega)]
  rw [toUInt8_eq (b := b₀) (by unfold low; omega), toUInt8_eq (b := b₁) (by unfold low; omega),
    toUInt8_eq (b := b₂) (by unfold low; omega)]

private theorem encodePoint_four {b₀ b₁ b₂ b₃ : UInt8} (h₀ : ¬ b₀ < 0xF0) (h₀' : b₀ < 0xF5)
    (h₁ : secondOfFour b₀ b₁ = true) (h₂ : isContinuation b₂ = true) (h₃ : isContinuation b₃ = true) :
    encodePoint (Char.ofNat (b₀.toNat % 8 * 0x40000 + low b₁ * 0x1000 + low b₂ * 0x40 + low b₃)).toNat =
      [b₀, b₁, b₂, b₃] := by
  have hv : b₁.toNat / 0x40 = 2 ∧ 0x10 ≤ b₀.toNat % 8 * 0x40 + b₁.toNat % 0x40 ∧
      b₀.toNat % 8 * 0x40 + b₁.toNat % 0x40 < 0x110 := by
    simp only [UInt8.lt_iff_toNat_lt, secondOfFour, isContinuation, ← UInt8.toNat_inj, UInt8.le_iff_toNat_le,
      UInt8.reduceToNat] at h₀ h₀' h₁
    split at h₁
    · simp at h₁; omega
    · split at h₁
      · simp at h₁; omega
      · simp at h₁; omega
  simp only [UInt8.lt_iff_toNat_lt, isContinuation, Bool.and_eq_true, decide_eq_true_eq, UInt8.le_iff_toNat_le,
    UInt8.reduceToNat] at h₀ h₀' h₂ h₃
  rw [toNat_ofNat (by unfold low; omega), encodePoint, if_neg (by unfold low; omega), if_neg (by unfold low; omega),
    if_neg (by unfold low; omega)]
  rw [toUInt8_eq (b := b₀) (by unfold low; omega), toUInt8_eq (b := b₁) (by unfold low; omega),
    toUInt8_eq (b := b₂) (by unfold low; omega), toUInt8_eq (b := b₃) (by unfold low; omega)]

private theorem map_cons_eq_ok {r : Except Fault (List Char)} {c : Char} {s : List Char}
    (h : r.map (c :: ·) = .ok s) : ∃ t, r = .ok t ∧ s = c :: t := by
  cases r with
  | error e => cases h
  | ok t => exact ⟨t, rfl, (Except.ok.inj h).symm⟩

/-- Octets that can be read are those of the text that is read. -/
theorem encode_of_decodeFrom {k : Nat} {bs : List UInt8} {s : List Char} (h : decodeFrom k bs = .ok s) :
    encode s = bs := by
  fun_induction decodeFrom k bs generalizing s <;> try cases h
  case case1 => rfl
  case case2 hb ih =>
    obtain ⟨t, ht, rfl⟩ := map_cons_eq_ok h
    rw [encode_cons, ih ht, encodePoint_one hb]
    rfl
  case case5 h₀ h₀' _ _ h₁ ih =>
    obtain ⟨t, ht, rfl⟩ := map_cons_eq_ok h
    rw [encode_cons, ih ht, encodePoint_two h₀ h₀' h₁]
    rfl
  case case9 h₀ h₀' _ h₁ _ _ h₂ ih =>
    obtain ⟨t, ht, rfl⟩ := map_cons_eq_ok h
    rw [encode_cons, ih ht, encodePoint_three h₀ h₀' h₁ h₂]
    rfl
  case case15 h₀ h₀' _ h₁ _ h₂ _ _ h₃ ih =>
    obtain ⟨t, ht, rfl⟩ := map_cons_eq_ok h
    rw [encode_cons, ih ht, encodePoint_four h₀ h₀' h₁ h₂ h₃]
    rfl

/-- Octets are UTF-8 exactly if they are the octets of a text. -/
theorem decode_eq_ok_iff {bs : List UInt8} {s : List Char} : decode bs = .ok s ↔ encode s = bs := by
  constructor
  · exact encode_of_decodeFrom
  · rintro rfl
    exact decode_encode s

/-! ## Octets of one character -/

theorem encodePoint_ne_nil (n : Nat) : encodePoint n ≠ [] := by
  unfold encodePoint
  split
  · simp
  · split
    · simp
    · split <;> simp

/-- An octet below 0x80 is a character of its own and no part of another one. -/
theorem mem_encodePoint_iff {b : UInt8} (hb : b < 0x80) (c : Char) :
    b ∈ encodePoint c.toNat ↔ c.toNat = b.toNat := by
  have hv := toNat_valid c
  simp only [UInt8.lt_iff_toNat_lt, UInt8.reduceToNat] at hb
  unfold encodePoint
  split
  · rw [List.mem_singleton, ← UInt8.toNat_inj, toNat_toUInt8 (by omega)]
    omega
  · split
    · simp only [List.mem_cons, List.not_mem_nil, or_false, ← UInt8.toNat_inj]
      rw [toNat_toUInt8 (by omega), toNat_toUInt8 (by omega)]
      omega
    · split
      · simp only [List.mem_cons, List.not_mem_nil, or_false, ← UInt8.toNat_inj]
        rw [toNat_toUInt8 (by omega), toNat_toUInt8 (by omega), toNat_toUInt8 (by omega)]
        omega
      · simp only [List.mem_cons, List.not_mem_nil, or_false, ← UInt8.toNat_inj]
        rw [toNat_toUInt8 (by omega), toNat_toUInt8 (by omega), toNat_toUInt8 (by omega), toNat_toUInt8 (by omega)]
        omega

theorem mem_encode_iff {b : UInt8} (hb : b < 0x80) (s : List Char) :
    b ∈ encode s ↔ ∃ c ∈ s, c.toNat = b.toNat := by
  simp only [encode, List.mem_flatMap, mem_encodePoint_iff hb]

theorem zero_mem_encode {s : List Char} : 0 ∈ encode s ↔ '\x00' ∈ s := by
  rw [mem_encode_iff (by decide)]
  constructor
  · rintro ⟨c, hc, h⟩
    obtain rfl : c = '\x00' := Char.toNat_inj.mp h
    exact hc
  · exact fun h => ⟨_, h, rfl⟩

/-- An octet below 0x80 at the end of a text is the last character. -/
theorem getLast?_of_encode {s : List Char} {b : UInt8} {c : Char} (hb : b < 0x80) (hc : c.toNat = b.toNat)
    (h : (encode s).getLast? = some b) : s.getLast? = some c := by
  rcases List.eq_nil_or_concat s with rfl | ⟨t, d, rfl⟩
  · cases h
  · have hlast : (encodePoint d.toNat).getLast? = some b := by
      rw [List.concat_eq_append, encode_append, encode_cons, encode_nil, List.append_nil, List.getLast?_append] at h
      cases hp : (encodePoint d.toNat).getLast? with
      | none => exact absurd (List.getLast?_eq_none_iff.mp hp) (encodePoint_ne_nil _)
      | some b' => simpa [hp] using h
    have hd : d.toNat = b.toNat := (mem_encodePoint_iff hb d).mp (List.mem_of_getLast? hlast)
    obtain rfl : d = c := Char.toNat_inj.mp (hd.trans hc.symm)
    simp

/-! ## Octets of strings -/

/-- The octets of a character are those that it has in a string. -/
theorem encodePoint_eq_utf8EncodeChar (c : Char) : encodePoint c.toNat = String.utf8EncodeChar c := by
  have hv := toNat_valid c
  have hval : c.val.toNat = c.toNat := rfl
  unfold encodePoint String.utf8EncodeChar
  simp only [hval, Nat.toUInt8_eq]
  generalize c.toNat = n at hv
  by_cases h₁ : n < 0x80
  · rw [if_pos h₁, if_pos (by omega)]
  by_cases h₂ : n < 0x800
  · rw [if_neg h₁, if_pos h₂, if_neg (by omega), if_pos (by omega), show 0xC0 + n / 0x40 = n / 64 % 32 + 192 by omega,
      show 0x80 + n % 0x40 = n % 64 + 128 by omega]
  by_cases h₃ : n < 0x10000
  · rw [if_neg h₁, if_neg h₂, if_pos h₃, if_neg (by omega), if_neg (by omega), if_pos (by omega),
      show 0xE0 + n / 0x1000 = n / 4096 % 16 + 224 by omega, show 0x80 + n / 0x40 % 0x40 = n / 64 % 64 + 128 by omega,
      show 0x80 + n % 0x40 = n % 64 + 128 by omega]
  · rw [if_neg h₁, if_neg h₂, if_neg h₃, if_neg (by omega), if_neg (by omega), if_neg (by omega),
      show 0xF0 + n / 0x40000 = n / 262144 % 8 + 240 by omega,
      show 0x80 + n / 0x1000 % 0x40 = n / 4096 % 64 + 128 by omega,
      show 0x80 + n / 0x40 % 0x40 = n / 64 % 64 + 128 by omega, show 0x80 + n % 0x40 = n % 64 + 128 by omega]

/-- A string has as many octets as it takes up. -/
theorem length_ofString (s : String) : (ofString s).length = s.utf8ByteSize := by
  have hencode : encode s.toList = s.toList.flatMap String.utf8EncodeChar := by
    simp only [encode, encodePoint_eq_utf8EncodeChar]
  rw [ofString, hencode, ← String.size_toByteArray, ← String.utf8Encode_toList, List.utf8Encode, List.size_toByteArray]

end FirstRow.Text.Utf8
