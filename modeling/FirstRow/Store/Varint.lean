/-!
# Variable-length integers

An integer of up to 64 bits in one to nine octets: seven bits in each of the first eight, most significant first,
all but the last with the top bit set; the ninth octet has eight bits. Octets beyond the end of the input count as
zero, so reading always ends.
-/
namespace FirstRow.Store.Varint

/-- Read on, with `acc` read so far and at most `left` more octets of seven bits. Gives the value and how many
octets were read. -/
def decodeFrom (acc : Nat) : Nat → List UInt8 → Nat × Nat
  | 0, bs => (acc * 0x100 + (bs.headD 0).toNat, 1)
  | left + 1, bs =>
    let b := (bs.headD 0).toNat
    if b < 0x80 then (acc * 0x80 + b, 1)
    else
      let (v, n) := decodeFrom (acc * 0x80 + (b - 0x80)) left bs.tail
      (v, n + 1)

/-- The integer at the head of the input, and how many octets it takes. -/
def decode (bs : List UInt8) : Nat × Nat :=
  decodeFrom 0 8 bs

/-- An unsigned integer of 64 bits as a signed one. -/
def signed (n : Nat) : Int :=
  if n < 0x8000000000000000 then n else (n : Int) - 0x10000000000000000

/-- A number of 32 bits at the head of the input, and how many octets it takes; greater ones count as the greatest. -/
def decode32 (bs : List UInt8) : Nat × Nat :=
  let (v, n) := decode bs
  (min v 0xFFFFFFFF, n)

/-- The length of a payload, as cells hold it: every octet gives seven bits, the ninth too, and of the whole the
low 32 bits count. -/
def decodeLength (bs : List UInt8) : Nat × Nat :=
  let (v, n) := decode bs
  if n < 9 then (v % 0x100000000, n) else ((v / 0x100 * 0x80 + v % 0x80) % 0x100000000, n)

/-- The octets of an integer that is written in `n` octets of seven bits each; all but the last say that more
follow. -/
def groups : Nat → Nat → List UInt8
  | 0, _ => []
  | n + 1, v => (0x80 + v / Nat.pow 0x80 n % 0x80).toUInt8 :: groups n v

/-- An integer in exactly `n` octets, one to nine of them. -/
def encodeIn (n : Nat) (v : Nat) : List UInt8 :=
  if n = 9 then groups 8 (v / 0x100) ++ [(v % 0x100).toUInt8]
  else groups (n - 1) (v / 0x80) ++ [(v % 0x80).toUInt8]

end FirstRow.Store.Varint
