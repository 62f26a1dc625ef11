import RingWallet.Codec
import RingWallet.RingSignature
import RingWallet.Saturating

/-!
# Transactions

A transaction spends outputs of earlier transactions and creates new ones. Each input names a ring
of outputs of one amount and the key image of the one that is really spent; its ring signature
signs the hash of the prefix, which is everything but the signatures. The id of a transaction is
the hash of its binary encoding.
-/

set_option autoImplicit false

namespace RingWallet

/-- An input of a transaction. -/
inductive TxIn where
  /-- The single input of a block's reward transaction. -/
  | generated (height : UInt64)
  /-- A ring of outputs of one amount, by their relative global indices, and the key image of the
  output that is spent. -/
  | toKey (amount : UInt64) (offsets : List UInt64) (image : KeyImage)
deriving DecidableEq

namespace TxIn

/-- The key image of an input that spends an output. -/
def keyImage? : TxIn → Option KeyImage
  | generated _ => none
  | toKey _ _ image => some image

def amount : TxIn → UInt64
  | generated _ => 0
  | toKey amount _ _ => amount

/-- A 32-bit tag, then the fields of the input. -/
def codec : Codec TxIn where
  encode
    | generated height => Codec.word32.encode 0 ++ Codec.word.encode height
    | toKey amount offsets image =>
      Codec.word32.encode 1 ++ Codec.word.encode amount
        ++ (Codec.list Codec.word).encode offsets ++ Codec.keyImage.encode image
  decode input := do
    let (tag, rest) ← Codec.word32.decode input
    if tag = 0 then
      let (height, rest) ← Codec.word.decode rest
      return (generated height, rest)
    else if tag = 1 then
      let (amount, rest) ← Codec.word.decode rest
      let (offsets, rest) ← (Codec.list Codec.word).decode rest
      let (image, rest) ← Codec.keyImage.decode rest
      return (toKey amount offsets image, rest)
    else throw (.invalidVariant tag.toNat 2)

end TxIn

/-- An amount paid to a one-time key. -/
structure TxOut where
  amount : UInt64
  key : PublicKey
deriving DecidableEq

namespace TxOut

def codec : Codec TxOut :=
  (Codec.word.pair Codec.publicKey).via (fun o => (o.amount, o.key)) fun (amount, key) =>
    ⟨amount, key⟩

end TxOut

/-- The signed part of a transaction. -/
structure TxPrefix where
  version : UInt8
  /-- A height or a Unix time before which the outputs cannot be spent. -/
  unlockTime : UInt64
  inputs : List TxIn
  outputs : List TxOut
  extra : Blob
deriving DecidableEq

namespace TxPrefix

def codec : Codec TxPrefix :=
  (Codec.byte.pair (Codec.word.pair ((Codec.list TxIn.codec).pair
    ((Codec.list TxOut.codec).pair (Codec.list Codec.byte))))).via
    (fun p => (p.version, p.unlockTime, p.inputs, p.outputs, p.extra))
    fun (version, unlockTime, inputs, outputs, extra) =>
      ⟨version, unlockTime, inputs, outputs, extra⟩

/-- The hash that the ring signatures sign. -/
def hash (S : Suite) (p : TxPrefix) : Hash := .ofMessage S (codec.encode p)

end TxPrefix

namespace Signature

def codec : Codec Signature :=
  ((Codec.bytes 32).pair (Codec.bytes 32)).via (fun s => (s.c, s.r)) fun (c, r) => ⟨c, r⟩

end Signature

/-- A transaction: the signed part and one ring signature for each input. -/
structure Transaction where
  signedPart : TxPrefix
  signatures : List (List Signature)
deriving DecidableEq

namespace Transaction

/-- The version of the transactions that the wallet makes. -/
def currentVersion : UInt8 := 1

def codec : Codec Transaction :=
  (TxPrefix.codec.pair (Codec.list (Codec.list Signature.codec))).via
    (fun t => (t.signedPart, t.signatures)) fun (signedPart, signatures) => ⟨signedPart, signatures⟩

/-- The binary encoding of a transaction. -/
def toBlob (t : Transaction) : Blob := codec.encode t

/-- The transaction that a blob starts with. -/
def ofBlob (bytes : Blob) : Except BlobError Transaction := codec.read bytes

/-- The id of a transaction. -/
def hash (S : Suite) (t : Transaction) : Hash := .ofMessage S t.toBlob

def unlockTime (t : Transaction) : UInt64 := t.signedPart.unlockTime

def inputs (t : Transaction) : List TxIn := t.signedPart.inputs

def outputs (t : Transaction) : List TxOut := t.signedPart.outputs

def extra (t : Transaction) : Blob := t.signedPart.extra

/-- The total of the outputs, up to the largest word. -/
def outputsAmount (t : Transaction) : UInt64 :=
  t.outputs.foldl (fun total out => total.addSat out.amount) 0

/-- The total of the inputs, up to the largest word. -/
def inputsAmount (t : Transaction) : UInt64 :=
  t.inputs.foldl (fun total input => total.addSat input.amount) 0

end Transaction

end RingWallet
