import RingWallet.Ledger.Extra
import RingWallet.Wallet.Session

/-!
# Scanning transactions

Every transaction of a new block is looked through for outputs that pay the account and for inputs
that spend its outputs. Scanning a transaction twice records nothing new.
-/

set_option autoImplicit false

namespace RingWallet

/-- What a transaction did to the wallet. -/
structure ScanOutcome where
  received : UInt64 := 0
  spent : UInt64 := 0
deriving DecidableEq

namespace Scan

variable (S : Suite)

/-- The positions, from `index` on, of the outputs that pay an address. -/
def ownOutputs (address : Address) (derivation : KeyDerivation) (index : Nat) :
    List TxOut → Except CryptoError (List Nat)
  | [] => .ok []
  | out :: rest => do
    let key ← derivation.publicKey S index address.spendKey
    let others ← ownOutputs address derivation (index + 1) rest
    return if key = out.key then index :: others else others

/-- The sum of the amounts of the outputs at some positions, up to the largest word. -/
def amountAt (outs : List TxOut) (positions : List Nat) : UInt64 :=
  positions.foldl (fun total i => total.addSat ((outs[i]?.map TxOut.amount).getD 0)) 0

/-- The secret that the sender of a transaction shares with an account, from the transaction key
in its extra bytes. -/
def derivation? (keys : AccountKeys) (fields : List ExtraField) : Option KeyDerivation :=
  (Extra.publicKeyOf? fields).bind fun key => (KeyDerivation.ofKeys S key keys.viewSecret).toOption

/-- The key image of an own output; a view-only account knows none. -/
def keyImageOf (keys : AccountKeys) (derivation : KeyDerivation) (index : Nat)
    (key : PublicKey) : Except WalletError (Option KeyImage) := do
  let some spendSecret := keys.spendSecret | return none
  let secret ← (derivation.secretKey S index spendSecret).mapError .crypto
  let derived ← (secret.publicKey S).mapError .crypto
  if derived ≠ key then
    throw (.consistency (.outputKeyMismatch derived key))
  let image ← (KeyImage.ofKeys S derived secret).mapError .crypto
  return some image

section

variable {σ : Type} (env : Environment σ)

/-- The global indices of the outputs of a transaction, one for each. -/
def fetchIndices (tx : Transaction) (txHash : Hash) : WalletM σ (List UInt64) := do
  let reply ← WalletM.ask (env.getIndices txHash)
  WalletM.checkStatus .outputIndices reply.status
  if reply.indices.length ≠ tx.outputs.length then
    throw (.protocol (.indexCount tx.outputs.length reply.indices.length))
  return reply.indices

/-- Records the own outputs at some positions, and returns the sum of the amounts of those that
are new. -/
def recordOutputs (tx : Transaction) (txHash : Hash) (height : Nat) (derivation : KeyDerivation)
    (indices : List UInt64) : List Nat → UInt64 → WalletM σ UInt64
  | [], received => return received
  | index :: rest, received => do
    let some (out, globalIndex) := (tx.outputs.zip indices)[index]?
      | recordOutputs tx txHash height derivation indices rest received
    let w ← WalletM.wallet
    let image ← WalletM.orFail id (keyImageOf S w.account.keys derivation index out.key)
    if w.history.isRecorded image txHash index then
      recordOutputs tx txHash height derivation indices rest received
    else
      WalletM.modifyHistory fun h => h.record
        { blockHeight := height, tx, txHash, outputIndex := index, globalIndex, spent := false
          keyImage := image.getD .null } image
      WalletM.tell (.moneyReceived height txHash out.amount)
      recordOutputs tx txHash height derivation indices rest (received.addSat out.amount)

/-- Marks the own outputs that some inputs spend, and returns the sum of their amounts. An input is
passed over if the index leads to no output, be it that it does not know the image or that it points
beyond the outputs. -/
def recordSpends (txHash : Hash) (height : Nat) : List TxIn → UInt64 → WalletM σ UInt64
  | [], spent => return spent
  | input :: rest, spent => do
    let h ← WalletM.history
    match input.keyImage?.bind fun image => (h.transferOf? image).map (image, ·) with
    | none => recordSpends txHash height rest spent
    | some (image, t) =>
      WalletM.modifyHistory fun h => h.spend image
      WalletM.tell (.moneySpent height txHash t.amount)
      recordSpends txHash height rest (spent.addSat t.amount)

/-- Records what a transaction leaves with the wallet under its payment id, if it has one. -/
def recordPayment (tx : Transaction) (txHash : Hash) (height : Nat) (fields : List ExtraField)
    (received : UInt64) : WalletM σ Unit :=
  match (Extra.paymentIdOf? fields).filter fun id => !id.isNull with
  | some id =>
    if received = 0 then pure ()
    else WalletM.modifyHistory fun h => h.addPayment id
      { txHash, amount := received, blockHeight := height, unlockTime := tx.unlockTime }
  | none => pure ()

/-- Scans a transaction of the block at some height. A transaction without a usable public key is
passed over. -/
def transaction (tx : Transaction) (txHash : Hash) (height : Nat) : WalletM σ ScanOutcome := do
  WalletM.modifyHistory fun h => { h with unconfirmed := h.unconfirmed.erase txHash }
  let fields := (Extra.parse tx.extra).1
  let account := (← WalletM.wallet).account
  match derivation? S account.keys fields with
  | none =>
    WalletM.tell (.skipTransaction height txHash)
    return {}
  | some derivation =>
    let own ← WalletM.orFail .crypto (ownOutputs S account.address derivation 0 tx.outputs)
    let money := amountAt tx.outputs own
    let received ← if own ≠ [] ∧ money ≠ 0 then do
        let indices ← fetchIndices env tx txHash
        recordOutputs S tx txHash height derivation indices own 0
      else pure 0
    let spent ← recordSpends txHash height tx.inputs 0
    recordPayment tx txHash height fields (money.subSat spent)
    return { received, spent }

end

end Scan

end RingWallet
