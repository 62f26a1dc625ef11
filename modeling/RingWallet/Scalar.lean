import RingWallet.Bytes

/-!
# Scalars

Numbers modulo the prime order `groupOrder` of the signature group. A scalar is stored as 32
little-endian bytes; the canonical form of a scalar is the one that spells a number below the
order, so it is the only form that `Scalar.ofCanonical?` accepts.
-/

set_option autoImplicit false

namespace RingWallet

/-- The prime order of the group that keys and signatures live in. -/
def groupOrder : Nat := Nat.pow 2 252 + 27742317777372353535851937790883648493

/-- A number modulo the group order. -/
abbrev Scalar := Fin groupOrder

namespace Scalar

/-- A number reduced modulo the group order. -/
def ofNat (n : Nat) : Scalar := ⟨n % groupOrder, Nat.mod_lt _ (by decide)⟩

def zero : Scalar := ofNat 0

/-- The sum of some scalars. -/
def sum (scalars : List Scalar) : Scalar := scalars.foldr (· + ·) zero

/-- Little-endian bytes of any length, reduced modulo the group order. -/
def ofBlob (bytes : Blob) : Scalar := ofNat (ofLittleEndian bytes)

/-- The scalar that the bytes spell, if they spell a number below the group order. -/
def ofCanonical? (bytes : Bytes32) : Option Scalar :=
  if h : bytes.toNat < groupOrder then some ⟨bytes.toNat, h⟩ else none

/-- The canonical 32 bytes of a scalar. -/
def toBytes (s : Scalar) : Bytes32 := Bytes.ofNat s.val

/-- A scalar is read back from its bytes. -/
theorem ofCanonical?_toBytes (s : Scalar) : ofCanonical? s.toBytes = some s := by
  have h : s.toBytes.toNat = s.val :=
    Bytes.toNat_ofNat (Nat.lt_trans s.isLt (by decide))
  simp [ofCanonical?, h]

/-- The bytes of a scalar are those from which it was read. -/
theorem toBytes_of_ofCanonical? {bytes : Bytes32} {s : Scalar}
    (h : ofCanonical? bytes = some s) : s.toBytes = bytes := by
  unfold ofCanonical? at h
  split at h
  · cases h
    exact Bytes.ofNat_toNat bytes
  · cases h

end Scalar

end RingWallet
