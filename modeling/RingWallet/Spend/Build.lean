import RingWallet.Spend.Construct
import RingWallet.Wallet.Balance

/-!
# Building transfers

`build` selects outputs that cover a request, asks the daemon for decoys to form rings, spreads the
destinations and the change over outputs, signs, and checks the size. `buildSplit` spreads a
request over as few transactions as keep below the size limit. Nothing in the wallet changes until
a transaction is sent (`RingWallet.Spend.Send`).
-/

set_option autoImplicit false

namespace RingWallet

/-- A signed transaction that has not been sent yet. -/
structure PendingTransaction where
  tx : Transaction
  hash : Hash
  fee : UInt64
  dust : UInt64
  change : Destination
  selected : List Handle
deriving DecidableEq

namespace PendingTransaction

/-- The key images of the inputs, separated by blanks. -/
def keyImages (p : PendingTransaction) : String :=
  String.intercalate " " ((p.tx.inputs.filterMap TxIn.keyImage?).map KeyImage.hex)

end PendingTransaction

/-- What to pay, and how. -/
structure TransferRequest where
  destinations : List Destination
  /-- The number of decoys for each input. -/
  mixin : UInt64 := 0
  unlockTime : UInt64 := 0
  fee : UInt64 := 0
  extra : Blob := []
  paymentId : Option String := none
  strategy : SplitStrategy := .digits
  dustPolicy : DustPolicy
  /-- The positions of transfers that are not to be spent. -/
  excluded : List Nat := []

namespace TransferRequest

/-- A request with the default way to split amounts. -/
def standard (config : Config) (destinations : List Destination) (mixin unlockTime fee : UInt64)
    (extra : Blob) : TransferRequest :=
  { destinations, mixin, unlockTime, fee, extra
    dustPolicy := { threshold := config.dustThreshold } }

end TransferRequest

namespace Extra

/-- Extra bytes with a nonce added. -/
def addNonce (extra nonce : Blob) : Except TransactionError Blob :=
  match encodeNonce? nonce with
  | some bytes => .ok (extra ++ bytes)
  | none => .error (.nonceTooLong nonce.length)

/-- Extra bytes that hold a payment id, given as text. -/
def ofPaymentId (text : String) : Except TransactionError Blob :=
  match parsePaymentId? text with
  | some id => addNonce [] (paymentNonce id)
  | none => .error (.wrongPaymentId text)

end Extra

namespace Build

/-- The checked sum of the amounts of some destinations, on top of `total`. -/
def sumAmounts (total : UInt64) : List Destination → Except TransactionError UInt64
  | [] => .ok total
  | d :: rest =>
    match total.addChecked d.amount with
    | some total => sumAmounts total rest
    | none => .error .amountOverflow

/-- The sum of the destinations, and that sum with the fee, for a request that can be met. -/
def neededMoney (config : Config) (r : TransferRequest) :
    Except TransactionError (UInt64 × UInt64) := do
  if r.destinations.isEmpty || r.destinations.any (fun d => d.amount = 0) then
    throw .zeroDestination
  let money ← sumAmounts 0 r.destinations
  let some needed := money.addChecked r.fee | throw .amountOverflow
  if r.fee < config.minFee then
    throw (.feeTooLow r.fee config.minFee)
  return (money, needed)

/-- A ring of some decoys and the real member, which comes before the first decoy that is not below
it, and the position of the real member. -/
def ringOf (decoys : List (UInt64 × PublicKey)) (real : UInt64 × PublicKey) :
    List (UInt64 × PublicKey) × Nat :=
  let position := decoys.findIdx fun d => real.1 ≤ d.1
  (decoys.insertIdx position real, position)

/-- The members that a ring takes from the decoys of the daemon: the first `mixin` ones by index,
other than the real one. -/
def chooseDecoys (mixin realIndex : UInt64) (decoys : List Daemon.Decoy) :
    Except ProtocolError (List (UInt64 × PublicKey)) :=
  let sorted := decoys.mergeSort fun a b => a.globalIndex ≤ b.globalIndex
  let chosen := (sorted.filter fun d => d.globalIndex ≠ realIndex).take mixin.toNat
  chosen.mapM fun d => do
    let key ← (PublicKey.ofHex d.key).mapError (.decoyKey d.key)
    return (d.globalIndex, key)

/-- The ring for a selected output. -/
def sourceOf (w : Wallet) (mixin : UInt64) (handle : Handle) (decoys : List Daemon.Decoy) :
    Except WalletError Source := do
  let some t := w.history.transfers[handle.index]?
    | throw (.consistency (.missingOutput handle.index))
  let some out := t.output? | throw (.consistency (.missingOutput handle.index))
  let chosen ← (chooseDecoys mixin t.globalIndex decoys).mapError .protocol
  let (ring, position) := ringOf chosen (t.globalIndex, out.key)
  let some txKey := Extra.publicKey? t.tx.extra
    | throw (.transaction (.notConstructed (.missingTxKey t.txHash)))
  return { ring, position, txKey, outputIndex := t.outputIndex, amount := out.amount }

/-- The number of decoys to ask for, one more than a ring needs, as the real output may be among
them. -/
def decoyCount (mixin : UInt64) : Except WalletError UInt64 :=
  match mixin.addChecked 1 with
  | some count => .ok count
  | none => .error .overflow

/-- What a split left over as dust becomes an output, unless it is left to the fee. -/
def dustOutput (policy : DustPolicy) (own : Address) (dust : UInt64) : List Destination :=
  if dust = 0 ∨ policy.addToFee then [] else [⟨dust, policy.address.getD own⟩]

section

variable {σ : Type} (env : Environment σ)

/-- The decoys of the daemon for some selected outputs, one list for each. -/
def fetchDecoys (w : Wallet) (mixin : UInt64) (selected : List Handle) :
    WalletM σ (List (List Daemon.Decoy)) := do
  if mixin = 0 then
    return selected.map fun _ => []
  let amounts := selected.map fun h => ((w.history.transfers[h.index]?).map Transfer.amount).getD 0
  let count ← WalletM.orFail id (decoyCount mixin)
  let reply ← WalletM.ask (env.getDecoys { amounts, count })
  WalletM.checkStatus .decoys reply.status
  if reply.amounts.length ≠ selected.length then
    throw (.protocol (.amountCount reply.amounts.length selected.length))
  let scanty := reply.amounts.filter fun a => a.decoys.length < mixin.toNat
  if !scanty.isEmpty then
    throw (.transaction (.notEnoughDecoys (scanty.map fun a => (a.amount, a.decoys.length)) mixin))
  return reply.amounts.map Daemon.DecoysOfAmount.decoys

end

end Build

section

variable (S : Suite) {σ : Type} (env : Environment σ)

open Build

/-- Builds a signed transaction for a request. -/
def build (r : TransferRequest) : WalletM σ PendingTransaction := do
  let w ← WalletM.wallet
  let (money, needed) ← WalletM.orFail .transaction (neededMoney w.config r)
  let extra ← match r.paymentId with
    | some text => do
      let id ← WalletM.orFail .transaction (Extra.ofPaymentId text)
      pure (r.extra ++ id)
    | none => pure r.extra
  let now ← WalletM.outside env.now
  let (found, selected) ← WalletM.outside
    (Balance.select env.random w now needed (r.mixin = 0) r.dustPolicy.threshold r.excluded)
  if found < needed then
    throw (.transaction (.notEnoughMoney found money r.fee))
  let decoys ← fetchDecoys env w r.mixin selected
  let sources ← WalletM.orFail id
    ((selected.zip decoys).mapM fun (h, ds) => sourceOf w r.mixin h ds)
  let own := w.account.address
  let change : Destination := ⟨found - needed, own⟩
  let (paid, dust) := r.strategy.split r.destinations change r.dustPolicy.threshold
  if r.dustPolicy.threshold < dust then
    throw (.consistency (.invalidDust dust r.dustPolicy.threshold))
  let result ← WalletM.outside (construct S env.random w.account.keys sources
    (paid ++ dustOutput r.dustPolicy own dust) extra r.unlockTime).run
  let tx ← WalletM.orFail .transaction result
  let size := tx.toBlob.length
  if w.config.transactionSizeLimit ≤ size then
    throw (.transaction (.tooBig size w.config.transactionSizeLimit))
  return { tx, hash := tx.hash S, fee := r.fee, dust, change, selected }

/-- Builds one transaction for each list of destinations, none of which spends what an earlier one
spends. -/
def buildAll (request : List Destination → TransferRequest) :
    (excluded : List Nat) → List (List Destination) → WalletM σ (List PendingTransaction)
  | _, [] => return []
  | excluded, destinations :: rest => do
    let p ← build S env { request destinations with excluded }
    let others ← buildAll request (excluded ++ p.selected.map Handle.index) rest
    return p :: others

/-- Tries to build `parts` transactions, then one more, until all stay below the size limit or
`attempts` attempts were made. -/
def buildSplitFrom (request : List Destination → TransferRequest)
    (destinations : List Destination) :
    (attempts parts : Nat) → (last : WalletError) → WalletM σ (List PendingTransaction)
  | 0, _, last => throw last
  | attempts + 1, parts, _ => do
    match ← WalletM.outcome (buildAll S env request [] (spreadOver destinations parts)) with
    | .ok pending => return pending
    | .error e =>
      if e.isTooBig then buildSplitFrom request destinations attempts (parts + 1) e else throw e

/-- Builds as few transactions as are needed to stay below the size limit, each of which pays the
fee. -/
def buildSplit (destinations : List Destination) (mixin unlockTime fee : UInt64) (extra : Blob) :
    WalletM σ (List PendingTransaction) := do
  let config := (← WalletM.wallet).config
  buildSplitFrom S env (fun ds => .standard config ds mixin unlockTime fee extra) destinations
    config.maxSplitAttempts 1 (.transaction (.notConstructed .noSplitAttempts))

end

end RingWallet
