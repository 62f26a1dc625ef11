import RingWallet.Scalar

/-!
# Cryptographic suites

Keys, signatures and transaction ids are defined over a `Suite`: a hash function to 32 bytes and a
commutative group of points with a base point and a 32-byte encoding. The wallet runs on Keccak-256
and Ed25519 (`RingWallet.Ed25519`); nothing else in the library looks inside a suite, so that what
is proved about it rests on the group laws alone.
-/

set_option autoImplicit false

namespace RingWallet

/-- A hash function and a group of points. The group may be larger than the prime-order subgroup
that the base point generates: its cofactor is 8. -/
structure Suite where
  /-- The hash function. -/
  digest : Blob → Bytes32
  Point : Type
  [decEq : DecidableEq Point]
  /-- The neutral element. -/
  zero : Point
  /-- The sum of two points. -/
  add : Point → Point → Point
  /-- A multiple of a point. -/
  smul : Nat → Point → Point
  /-- The generator of the subgroup of order `groupOrder`. -/
  base : Point
  /-- The point that a 32-byte string stands for. -/
  decode? : Bytes32 → Option Point
  /-- The 32-byte string of a point. -/
  encode : Point → Bytes32

namespace Suite

instance (S : Suite) : DecidableEq S.Point := S.decEq

variable (S : Suite)

/-- A multiple of the base point. -/
def mulBase (s : Scalar) : S.Point := S.smul s.val S.base

/-- Eight times a point: it lies in the subgroup of prime order. -/
def clearCofactor (P : S.Point) : S.Point := S.smul 8 P

/-- Whether a point lies in the subgroup of prime order. -/
def isTorsionFree (P : S.Point) : Bool := S.smul groupOrder P = S.zero

/-- The digest of a message, read as a little-endian number modulo the group order. -/
def hashToScalar (message : Blob) : Scalar := .ofBlob (S.digest message).toList

end Suite

end RingWallet
