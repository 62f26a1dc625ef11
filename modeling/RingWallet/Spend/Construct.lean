import RingWallet.Account
import RingWallet.Ledger.Extra
import RingWallet.Ledger.Offsets
import RingWallet.Ledger.Transaction
import RingWallet.Spend.Destination
import RingWallet.Wallet.Error

/-!
# Making a signed transaction

`construct` turns rings with one own output each, and destinations, into a signed transaction. The
one-time secrets are derived anew from the account, and a ring whose real member is not the key
that belongs to the derived secret is refused.
-/

set_option autoImplicit false

namespace RingWallet

/-- An output to spend, in its ring. -/
structure Source where
  /-- The global index and the key of each member, by ascending index. -/
  ring : List (UInt64 × PublicKey)
  /-- The position of the real output in the ring. -/
  position : Nat
  /-- The public key of the transaction that created the real output. -/
  txKey : PublicKey
  /-- The position of the real output in that transaction. -/
  outputIndex : Nat
  amount : UInt64

namespace Source

def keys (s : Source) : List PublicKey := s.ring.map Prod.snd

end Source

/-- A source together with the secret of its real output. -/
structure SpendableSource where
  source : Source
  secret : SecretKey
  image : KeyImage

namespace SpendableSource

/-- The input that spends the source. -/
def input (s : SpendableSource) : TxIn :=
  .toKey s.source.amount (Offsets.toRelative (s.source.ring.map Prod.fst)) s.image

end SpendableSource

namespace Construct

variable (S : Suite)

/-- Derives the secret of the real output of a source. -/
def spendable (keys : AccountKeys) (spendSecret : SecretKey) (s : Source) :
    Except TransactionError SpendableSource := do
  let some (_, realKey) := s.ring[s.position]?
    | throw (.notConstructed (.signerOutsideRing s.position s.ring.length))
  let derivation ← (KeyDerivation.ofKeys S s.txKey keys.viewSecret).mapError .crypto
  let secret ← (derivation.secretKey S s.outputIndex spendSecret).mapError .crypto
  let key ← (secret.publicKey S).mapError .crypto
  if key ≠ realKey then
    throw (.notConstructed (.outputKeyMismatch key realKey))
  let image ← (KeyImage.ofKeys S key secret).mapError .crypto
  return ⟨s, secret, image⟩

/-- Derives the secrets of all sources, and adds up their amounts. -/
def spendables (keys : AccountKeys) (spendSecret : SecretKey) (total : UInt64) :
    List Source → Except TransactionError (List SpendableSource × UInt64)
  | [] => .ok ([], total)
  | s :: rest => do
    let prepared ← spendable S keys spendSecret s
    let some total := total.addChecked s.amount | throw .amountOverflow
    let (others, total) ← spendables keys spendSecret total rest
    return (prepared :: others, total)

/-- The outputs for some destinations, from position `index` on, and the sum of the amounts. -/
def outputs (txSecret : SecretKey) (index : Nat) (total : UInt64) :
    List Destination → Except TransactionError (List TxOut × UInt64)
  | [] => .ok ([], total)
  | d :: rest => do
    let derivation ← (KeyDerivation.ofKeys S d.address.viewKey txSecret).mapError .crypto
    let key ← (derivation.publicKey S index d.address.spendKey).mapError .crypto
    let some total := total.addChecked d.amount | throw .amountOverflow
    let (others, total) ← outputs txSecret (index + 1) total rest
    return (⟨d.amount, key⟩ :: others, total)

/-- One ring signature for each source. -/
def sign {σ : Type} (next : RandomSource σ) (message : Hash) :
    List SpendableSource → ExceptT TransactionError (StateM σ) (List (List Signature))
  | [] => return []
  | s :: rest => do
    let signature ← (RingSignature.generate S next message s.image s.source.keys s.secret
      s.source.position).adapt .crypto
    return signature :: (← sign next message rest)

end Construct

open Construct in
/-- A signed transaction that spends the sources. The outputs stand in ascending order of their
amounts; what they leave of the inputs is the fee. -/
def construct (S : Suite) {σ : Type} (next : RandomSource σ) (sender : AccountKeys)
    (sources : List Source) (destinations : List Destination) (extra : Blob)
    (unlockTime : UInt64) : ExceptT TransactionError (StateM σ) Transaction := do
  let some spendSecret := sender.spendSecret | throw .viewOnly
  if sources.isEmpty then
    throw (.notConstructed .noSources)
  let (txKey, txSecret) ← (SecretKey.generate S next : StateM σ _)
  let (prepared, money) ← (spendables S sender spendSecret 0 sources : Except _ _)
  let sorted := destinations.mergeSort fun a b => a.amount ≤ b.amount
  let (outs, spent) ← (outputs S txSecret 0 0 sorted : Except _ _)
  if money < spent then
    throw (.notConstructed (.outputsExceedInputs spent money))
  let signedPart : TxPrefix :=
    { version := Transaction.currentVersion
      unlockTime
      inputs := prepared.map SpendableSource.input
      outputs := outs
      extra := Extra.encodeKey txKey ++ extra }
  let signatures ← sign S next (signedPart.hash S) prepared
  return { signedPart, signatures }

namespace Transaction

/-- Whether the inputs of a transaction are signed, each for its ring. -/
def signatureChecks (S : Suite) (t : Transaction) (rings : List (List PublicKey)) : List Bool :=
  (rings.zip (t.inputs.zip t.signatures)).map fun (ring, input, signatures) =>
    RingSignature.check S (t.signedPart.hash S) (input.keyImage?.getD .null) ring signatures

end Transaction

end RingWallet
