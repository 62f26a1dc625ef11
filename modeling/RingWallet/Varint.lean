import RingWallet.Bytes

/-!
# Variable-length numbers

Seven bits to the byte, least significant first; every byte but the last has its top bit set.
-/

set_option autoImplicit false

namespace RingWallet.Varint

/-- The bytes of a number, seven bits at a time. -/
def encodeNat (value : Nat) : Blob :=
  if 0x80 ≤ value then UInt8.ofNat (value % 0x80 + 0x80) :: encodeNat (value / 0x80)
  else [UInt8.ofNat value]
termination_by value

/-- The bytes of a 64-bit word. -/
def encode (value : UInt64) : Blob := encodeNat value.toNat

/-- Reads a number back, with what follows it. -/
def decode : Blob → Option (Nat × Blob)
  | [] => none
  | b :: rest =>
    if b < 0x80 then some (b.toNat, rest)
    else (decode rest).map fun (high, tail) => (b.toNat % 0x80 + 0x80 * high, tail)

end RingWallet.Varint
