/-!
# UTF-8

Scalar values as octets and back. `decode` accepts exactly the well-formed sequences (no overlong form, no
surrogate, nothing above U+10FFFF) and otherwise says where the first fault stands and how long it is.
-/
namespace FirstRow.Text.Utf8

/-- The octets of a code point, shortest form. Surrogates are written like any other code point of their size,
which only a text in UTF-16 with an unpaired one can ask for. -/
def encodePoint (n : Nat) : List UInt8 :=
  if n < 0x80 then [n.toUInt8]
  else if n < 0x800 then [(0xC0 + n / 0x40).toUInt8, (0x80 + n % 0x40).toUInt8]
  else if n < 0x10000 then
    [(0xE0 + n / 0x1000).toUInt8, (0x80 + n / 0x40 % 0x40).toUInt8, (0x80 + n % 0x40).toUInt8]
  else
    [(0xF0 + n / 0x40000).toUInt8, (0x80 + n / 0x1000 % 0x40).toUInt8, (0x80 + n / 0x40 % 0x40).toUInt8,
      (0x80 + n % 0x40).toUInt8]

/-- The octets of a text. -/
def encode (s : List Char) : List UInt8 :=
  s.flatMap fun c => encodePoint c.toNat

/-- The octets of a string. -/
def ofString (s : String) : List UInt8 :=
  encode s.toList

/-- The first fault of a sequence of octets: how many octets before it are well formed, and how many octets it
takes up; `none` where the sequence ends inside a character that began well. -/
structure Fault where
  validUpTo : Nat
  length? : Option Nat
deriving DecidableEq

/-- The wording of a fault. -/
def Fault.message (f : Fault) : String :=
  match f.length? with
  | some n => s!"invalid utf-8 sequence of {n} bytes from index {f.validUpTo}"
  | none => s!"incomplete utf-8 byte sequence from index {f.validUpTo}"

/-- The octets that continue a character. -/
def isContinuation (b : UInt8) : Bool :=
  decide (0x80 ≤ b) && decide (b ≤ 0xBF)

/-- The second octet of a three-octet character: no overlong form, no surrogate. -/
def secondOfThree (b₀ b₁ : UInt8) : Bool :=
  if b₀ = 0xE0 then decide (0xA0 ≤ b₁) && decide (b₁ ≤ 0xBF)
  else if b₀ = 0xED then decide (0x80 ≤ b₁) && decide (b₁ ≤ 0x9F)
  else isContinuation b₁

/-- The second octet of a four-octet character: no overlong form, nothing above U+10FFFF. -/
def secondOfFour (b₀ b₁ : UInt8) : Bool :=
  if b₀ = 0xF0 then decide (0x90 ≤ b₁) && decide (b₁ ≤ 0xBF)
  else if b₀ = 0xF4 then decide (0x80 ≤ b₁) && decide (b₁ ≤ 0x8F)
  else isContinuation b₁

/-- The six payload bits of a continuation. -/
def low (b : UInt8) : Nat :=
  b.toNat % 0x40

/-- Decode the octets that stand from index `k` on. -/
def decodeFrom (k : Nat) : List UInt8 → Except Fault (List Char)
  | [] => .ok []
  | b₀ :: rest =>
    if b₀ < 0x80 then
      (decodeFrom (k + 1) rest).map (Char.ofNat b₀.toNat :: ·)
    else if b₀ < 0xC2 then .error ⟨k, some 1⟩
    else if b₀ < 0xE0 then
      match rest with
      | [] => .error ⟨k, none⟩
      | b₁ :: rest =>
        if isContinuation b₁ then
          (decodeFrom (k + 2) rest).map (Char.ofNat (b₀.toNat % 0x20 * 0x40 + low b₁) :: ·)
        else .error ⟨k, some 1⟩
    else if b₀ < 0xF0 then
      match rest with
      | [] => .error ⟨k, none⟩
      | b₁ :: rest =>
        if secondOfThree b₀ b₁ then
          match rest with
          | [] => .error ⟨k, none⟩
          | b₂ :: rest =>
            if isContinuation b₂ then
              (decodeFrom (k + 3) rest).map
                (Char.ofNat (b₀.toNat % 0x10 * 0x1000 + low b₁ * 0x40 + low b₂) :: ·)
            else .error ⟨k, some 2⟩
        else .error ⟨k, some 1⟩
    else if b₀ < 0xF5 then
      match rest with
      | [] => .error ⟨k, none⟩
      | b₁ :: rest =>
        if secondOfFour b₀ b₁ then
          match rest with
          | [] => .error ⟨k, none⟩
          | b₂ :: rest =>
            if isContinuation b₂ then
              match rest with
              | [] => .error ⟨k, none⟩
              | b₃ :: rest =>
                if isContinuation b₃ then
                  (decodeFrom (k + 4) rest).map
                    (Char.ofNat (b₀.toNat % 8 * 0x40000 + low b₁ * 0x1000 + low b₂ * 0x40 + low b₃) :: ·)
                else .error ⟨k, some 3⟩
            else .error ⟨k, some 2⟩
        else .error ⟨k, some 1⟩
    else .error ⟨k, some 1⟩

/-- Read octets as text. -/
def decode (bs : List UInt8) : Except Fault (List Char) :=
  decodeFrom 0 bs

/-- Read octets as text; every octet that belongs to no character becomes U+FFFD. -/
def decodeLossy (bs : List UInt8) : List Char :=
  go bs.length bs
where
  /-- One fault is replaced at a time; the length of the input bounds their number. -/
  go : Nat → List UInt8 → List Char
    | 0, _ => []
    | fuel + 1, bs =>
      match decode bs with
      | .ok s => s
      | .error f =>
        let good := (decode (bs.take f.validUpTo)).toOption.getD []
        match f.length? with
        | none => good ++ ['\uFFFD']
        | some n => good ++ '\uFFFD' :: go fuel (bs.drop (f.validUpTo + n))

/-- Octets as a string, read like `decodeLossy`. -/
def lossyString (bs : List UInt8) : String :=
  String.ofList (decodeLossy bs)

@[simp] theorem encode_nil : encode [] = [] := rfl

@[simp] theorem encode_cons (c : Char) (s : List Char) :
    encode (c :: s) = encodePoint c.toNat ++ encode s := by
  simp [encode]

@[simp] theorem encode_append (s t : List Char) : encode (s ++ t) = encode s ++ encode t := by
  simp [encode]

@[simp] theorem decode_nil : decode [] = .ok [] := by
  rw [decode, decodeFrom.eq_def]

end FirstRow.Text.Utf8
