import RingWallet.Suite
import RingWallet.Hex
import RingWallet.Varint
import RingWallet.Random

/-!
# Keys, derivations and key images

A wallet owns an output when the output's one-time key is the one derived from the transaction's
public key and the wallet's view secret. `KeyDerivation.ofKeys` is the secret that sender and
receiver share, `KeyDerivation.publicKey` and `KeyDerivation.secretKey` are the two halves of the
one-time key, and `KeyImage.ofKeys` is the mark that a spent output leaves behind.
-/

set_option autoImplicit false

namespace RingWallet

/-- A digest that names a transaction, a block or a payment. -/
structure Hash where
  bytes : Bytes32
deriving DecidableEq

/-- The encoding of a point. -/
structure PublicKey where
  bytes : Bytes32
deriving DecidableEq

/-- The canonical encoding of a scalar. -/
structure SecretKey where
  bytes : Bytes32
deriving DecidableEq

/-- The secret that a transaction key and a view key share. -/
structure KeyDerivation where
  bytes : Bytes32
deriving DecidableEq

/-- The mark of a spent output: one for each one-time key, whoever signs. -/
structure KeyImage where
  bytes : Bytes32
deriving DecidableEq

/-- Why an operation on keys fails. -/
inductive CryptoError where
  /-- The bytes stand for no usable point. -/
  | invalidPoint (bytes : Bytes32)
  /-- The bytes spell a number that is not below the group order. -/
  | invalidScalar
  /-- The text is no hexadecimal form. -/
  | invalidHex (cause : HexError)
  /-- The text spells bytes, but not 32 of them. -/
  | wrongLength (found : Nat)
  /-- The position of the signer lies outside the ring. -/
  | signerOutsideRing (index size : Nat)
deriving DecidableEq

/-- The wording of the error. -/
def CryptoError.message : CryptoError → String
  | .invalidPoint bytes => s!"Invalid point encoding: {bytes.hex}"
  | .invalidScalar => "Invalid scalar encoding"
  | .invalidHex cause => s!"Invalid hex: {cause.message}"
  | .wrongLength found => s!"Invalid hex: expected 32 bytes, got {found}"
  | .signerOutsideRing index size =>
    s!"Ring signature error: secret index {index} outside ring of {size}"

/-- 32 bytes from their hexadecimal form. -/
def Bytes.ofHex (text : String) : Except CryptoError Bytes32 :=
  match Hex.decode text with
  | .error cause => .error (.invalidHex cause)
  | .ok bytes => (Bytes.ofBlob? bytes).elim (.error (.wrongLength bytes.length)) .ok

namespace Hash

instance : Ord Hash := ⟨compareOn bytes⟩

instance : Std.TransOrd Hash := inferInstanceAs (Std.TransCmp (compareOn bytes))

instance : Std.LawfulEqOrd Hash where
  eq_of_compare {a b} h := by
    cases a
    cases b
    exact congrArg mk (Std.LawfulEqOrd.eq_of_compare (α := Bytes32) h)

/-- 32 zero bytes, which name nothing. -/
def null : Hash := ⟨.zero⟩

instance : Inhabited Hash := ⟨null⟩

def isNull (h : Hash) : Bool := h = null

def hex (h : Hash) : String := h.bytes.hex

/-- The form of a digest in diagnostics. -/
def description (h : Hash) : String := s!"Hash({h.hex})"

def ofHex (text : String) : Except CryptoError Hash := return ⟨← Bytes.ofHex text⟩

/-- The digest of a message in a suite. -/
def ofMessage (S : Suite) (message : Blob) : Hash := ⟨S.digest message⟩

end Hash

namespace PublicKey

/-- 32 zero bytes. -/
def zero : PublicKey := ⟨.zero⟩

instance : Inhabited PublicKey := ⟨zero⟩

def hex (k : PublicKey) : String := k.bytes.hex

/-- The form of a key in diagnostics. -/
def description (k : PublicKey) : String := s!"PublicKey({k.hex})"

def ofHex (text : String) : Except CryptoError PublicKey := return ⟨← Bytes.ofHex text⟩

/-- The key of a point. -/
def ofPoint (S : Suite) (P : S.Point) : PublicKey := ⟨S.encode P⟩

/-- The point of a key. -/
def point (S : Suite) (k : PublicKey) : Except CryptoError S.Point :=
  (S.decode? k.bytes).elim (.error (.invalidPoint k.bytes)) .ok

/-- Whether a key stands for a point. -/
def isValid (S : Suite) (k : PublicKey) : Bool := (S.decode? k.bytes).isSome

end PublicKey

namespace SecretKey

def ofScalar (s : Scalar) : SecretKey := ⟨s.toBytes⟩

/-- The scalar of a secret key; only the canonical form is accepted. -/
def scalar (k : SecretKey) : Except CryptoError Scalar :=
  (Scalar.ofCanonical? k.bytes).elim (.error .invalidScalar) .ok

/-- The canonical form of a scalar spells the scalar. -/
@[simp] theorem scalar_ofScalar (a : Scalar) : (ofScalar a).scalar = .ok a := by
  rw [scalar, ofScalar, Scalar.ofCanonical?_toBytes]
  rfl

def ofHex (text : String) : Except CryptoError SecretKey := do
  let k : SecretKey := ⟨← Bytes.ofHex text⟩
  let _ ← k.scalar
  return k

def hex (k : SecretKey) : String := k.bytes.hex

/-- The form of a secret key in diagnostics, which does not show it. -/
def description (_ : SecretKey) : String := "SecretKey(<redacted>)"

/-- The public key of a secret key: its multiple of the base point. -/
def publicKey (S : Suite) (k : SecretKey) : Except CryptoError PublicKey := do
  return .ofPoint S (S.mulBase (← k.scalar))

/-- A fresh pair of keys. -/
def generate (S : Suite) {σ : Type} (next : RandomSource σ) : StateM σ (PublicKey × SecretKey) := do
  let secret ← next.scalar
  return (.ofPoint S (S.mulBase secret), .ofScalar secret)

end SecretKey

namespace KeyDerivation

/-- The secret shared by the owner of `secret` and whoever knows the secret of `key`: eight times
the product of the two. -/
def ofKeys (S : Suite) (key : PublicKey) (secret : SecretKey) :
    Except CryptoError KeyDerivation := do
  let P ← key.point S
  let a ← secret.scalar
  return ⟨S.encode (S.clearCofactor (S.smul a.val P))⟩

/-- The bytes that are hashed for the output at a position. -/
def message (D : KeyDerivation) (index : Nat) : Blob :=
  D.bytes.toList ++ Varint.encodeNat index

/-- The scalar that separates the outputs of one transaction. -/
def scalar (S : Suite) (D : KeyDerivation) (index : Nat) : Scalar :=
  S.hashToScalar (D.message index)

/-- The one-time key of an output paid to `base`. -/
def publicKey (S : Suite) (D : KeyDerivation) (index : Nat) (base : PublicKey) :
    Except CryptoError PublicKey := do
  let P ← base.point S
  return .ofPoint S (S.add (S.mulBase (D.scalar S index)) P)

/-- The secret of the one-time key of an output paid to the owner of `base`. -/
def secretKey (S : Suite) (D : KeyDerivation) (index : Nat) (base : SecretKey) :
    Except CryptoError SecretKey := do
  let b ← base.scalar
  return .ofScalar (D.scalar S index + b)

end KeyDerivation

/-- Tries the counters from `counter` on: the key followed by the counter is hashed until the
digest stands for a point outside the small subgroup, which is then cleared of its cofactor. The
base point stands in when every 32-bit counter fails. -/
def hashToPointFrom (S : Suite) (key : PublicKey) : (attempts counter : Nat) → S.Point
  | 0, _ => S.base
  | attempts + 1, counter =>
    match S.decode? (S.digest (key.bytes.toList ++ littleEndian 4 counter)) with
    | some P =>
      let Q := S.clearCofactor P
      if Q = S.zero then hashToPointFrom S key attempts (counter + 1) else Q
    | none => hashToPointFrom S key attempts (counter + 1)

/-- A point of the subgroup of prime order for a key, of which nobody knows the logarithm. -/
def hashToPoint (S : Suite) (key : PublicKey) : S.Point := hashToPointFrom S key UInt32.size 0

namespace KeyImage

instance : Ord KeyImage := ⟨compareOn bytes⟩

instance : Std.TransOrd KeyImage := inferInstanceAs (Std.TransCmp (compareOn bytes))

instance : Std.LawfulEqOrd KeyImage where
  eq_of_compare {a b} h := by
    cases a
    cases b
    exact congrArg mk (Std.LawfulEqOrd.eq_of_compare (α := Bytes32) h)

/-- 32 zero bytes: the image of an output whose secret is unknown. -/
def null : KeyImage := ⟨.zero⟩

instance : Inhabited KeyImage := ⟨null⟩

def isNull (i : KeyImage) : Bool := i = null

def hex (i : KeyImage) : String := i.bytes.hex

/-- The form of a key image in diagnostics. -/
def description (i : KeyImage) : String := s!"KeyImage({i.hex})"

def ofHex (text : String) : Except CryptoError KeyImage := return ⟨← Bytes.ofHex text⟩

/-- The key image of a one-time key pair. -/
def ofKeys (S : Suite) (key : PublicKey) (secret : SecretKey) : Except CryptoError KeyImage := do
  let x ← secret.scalar
  return ⟨S.encode (S.smul x.val (hashToPoint S key))⟩

end KeyImage

end RingWallet
