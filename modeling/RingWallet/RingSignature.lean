import RingWallet.Keys

/-!
# Ring signatures

A signature over a ring of keys has one pair `(c, r)` for each member. Each pair fixes two points,
and the challenges `c` of all members have to add up to the hash of the message and of these
points. Whoever knows one secret key of the ring can arrange that: the pairs of the other members
are drawn at random, and the signer's own pair closes the sum. `RingSignature.generate` signs,
`RingSignature.check` verifies.
-/

set_option autoImplicit false

namespace RingWallet

/-- One member's pair, as canonical scalars. -/
structure Signature where
  c : Bytes32
  r : Bytes32
deriving DecidableEq

namespace Signature

def zero : Signature := ⟨.zero, .zero⟩

/-- The 64 bytes of a signature: the challenge, then the response. -/
def toBlob (s : Signature) : Blob := s.c.toList ++ s.r.toList

end Signature

/-- The point of a key image that may appear in a signature: it decodes to a point of the subgroup
of prime order other than the neutral element. -/
def KeyImage.point? (S : Suite) (image : KeyImage) : Option S.Point :=
  (S.decode? image.bytes).filter fun P => S.isTorsionFree P && P ≠ S.zero

namespace RingSignature

variable (S : Suite)

/-- The encodings of the two points that a pair fixes for the member with point `P` and hashed
point `H`: `c P + r G` and `r H + c I`. -/
def commitment (image P H : S.Point) (c r : Scalar) : Blob :=
  (S.encode (S.add (S.smul c.val P) (S.mulBase r))).toList
    ++ (S.encode (S.add (S.smul r.val H) (S.smul c.val image))).toList

/-- The encodings of the signer's own two points, for a nonce: `k G` and `k H`. -/
def ownCommitment (H : S.Point) (nonce : Scalar) : Blob :=
  (S.encode (S.mulBase nonce)).toList ++ (S.encode (S.smul nonce.val H)).toList

/-- Goes through the ring from position `position` on. The signer's pair is `(0, nonce)` for a drawn
nonce, every other pair is drawn, challenge first. The result is the pairs and the encodings of
all points. A member that is no point ends it, after the draws of the members before. -/
def draw {σ : Type} (next : RandomSource σ) (image : S.Point) (signer : Nat) :
    (position : Nat) → List PublicKey →
      ExceptT CryptoError (StateM σ) (List (Scalar × Scalar) × Blob)
  | _, [] => return ([], [])
  | position, key :: rest => do
    let P ← (key.point S : Except _ _)
    let H := hashToPoint S key
    if position = signer then
      let nonce ← (next.scalar : StateM σ Scalar)
      let (pairs, points) ← draw next image signer (position + 1) rest
      return ((.zero, nonce) :: pairs, ownCommitment S H nonce ++ points)
    else
      let c ← (next.scalar : StateM σ Scalar)
      let r ← (next.scalar : StateM σ Scalar)
      let (pairs, points) ← draw next image signer (position + 1) rest
      return ((c, r) :: pairs, commitment S image P H c r ++ points)

/-- The sum of the challenges of a list of pairs. -/
def challengeSum (pairs : List (Scalar × Scalar)) : Scalar := .sum (pairs.map Prod.fst)

/-- Signs a message hash for a ring. The secret belongs to the member at position `signer`. -/
def generate {σ : Type} (next : RandomSource σ) (message : Hash) (image : KeyImage)
    (ring : List PublicKey) (secret : SecretKey) (signer : Nat) :
    ExceptT CryptoError (StateM σ) (List Signature) := do
  if ring.length ≤ signer then
    throw (.signerOutsideRing signer ring.length)
  let some I := image.point? S | throw (.invalidPoint image.bytes)
  let x ← (secret.scalar : Except _ _)
  let (pairs, points) ← draw S next I signer 0 ring
  let challenge := S.hashToScalar (message.bytes.toList ++ points) - challengeSum pairs
  let closed := pairs.modify signer fun (_, nonce) => (challenge, nonce - challenge * x)
  return closed.map fun (c, r) => ⟨c.toBytes, r.toBytes⟩

/-- The pairs of a list of signatures and the encodings of their points, if every member is a point
and every number is canonical. -/
def points? (image : S.Point) : List (PublicKey × Signature) → Option (List Scalar × Blob)
  | [] => some ([], [])
  | (key, signature) :: rest => do
    let P ← S.decode? key.bytes
    let c ← Scalar.ofCanonical? signature.c
    let r ← Scalar.ofCanonical? signature.r
    let (challenges, points) ← points? image rest
    return (c :: challenges, commitment S image P (hashToPoint S key) c r ++ points)

/-- Whether the signatures are a ring signature of the message hash: there is one for each member
of a non-empty ring, and the challenges add up to the hash of the message and the points. -/
def check (message : Hash) (image : KeyImage) (ring : List PublicKey)
    (signatures : List Signature) : Bool :=
  if ring = [] ∨ ring.length ≠ signatures.length then false
  else
    match image.point? S with
    | none => false
    | some I =>
      match points? S I (ring.zip signatures) with
      | none => false
      | some (challenges, points) =>
        decide (S.hashToScalar (message.bytes.toList ++ points) = .sum challenges)

end RingSignature

end RingWallet
