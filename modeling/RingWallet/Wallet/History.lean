import RingWallet.Address
import RingWallet.Ledger.Transaction

/-!
# What a wallet has learned

The history of a wallet: the ids of the blocks it has seen, the outputs that it owns, with the key
images that tell when they are spent, the transactions that it sent and that no block holds yet,
and the funds received under payment ids. Heights count blocks from zero; an unknown id is null.

`History.detach` forgets everything learned from some height on.
-/

set_option autoImplicit false

namespace RingWallet

/-- An output that the wallet owns. -/
structure Transfer where
  blockHeight : Nat
  /-- The transaction that created the output. -/
  tx : Transaction
  txHash : Hash
  /-- The position of the output in the transaction. -/
  outputIndex : Nat
  /-- The position of the output among all outputs of its amount. -/
  globalIndex : UInt64
  spent : Bool
  /-- Null if the wallet is view-only. -/
  keyImage : KeyImage
deriving DecidableEq

namespace Transfer

def output? (t : Transfer) : Option TxOut := t.tx.outputs[t.outputIndex]?

def amount (t : Transfer) : UInt64 := (t.output?.map TxOut.amount).getD 0

def codec : Codec Transfer :=
  (Codec.position.pair (Transaction.codec.pair (Codec.hash.pair (Codec.position.pair
    (Codec.word.pair (Codec.bool.pair Codec.keyImage)))))).via
    (fun t => (t.blockHeight, t.tx, t.txHash, t.outputIndex, t.globalIndex, t.spent, t.keyImage))
    fun (blockHeight, tx, txHash, outputIndex, globalIndex, spent, keyImage) =>
      ⟨blockHeight, tx, txHash, outputIndex, globalIndex, spent, keyImage⟩

end Transfer

/-- The sum of the amounts of some transfers, up to the largest word. -/
def totalAmount (transfers : List Transfer) : UInt64 :=
  transfers.foldl (fun total t => total.addSat t.amount) 0

/-- A transaction that the wallet sent and that no block holds yet. -/
structure Unconfirmed where
  tx : Transaction
  /-- What comes back to the wallet. -/
  change : UInt64
  /-- Unix time. -/
  sentTime : UInt64
deriving DecidableEq

namespace Unconfirmed

def codec : Codec Unconfirmed :=
  (Transaction.codec.pair (Codec.word.pair Codec.word)).via
    (fun u => (u.tx, u.change, u.sentTime)) fun (tx, change, sentTime) => ⟨tx, change, sentTime⟩

end Unconfirmed

/-- Funds received under a payment id. -/
structure Payment where
  txHash : Hash
  amount : UInt64
  blockHeight : Nat
  unlockTime : UInt64
deriving DecidableEq

namespace Payment

def codec : Codec Payment :=
  (Codec.hash.pair (Codec.word.pair (Codec.position.pair Codec.word))).via
    (fun p => (p.txHash, p.amount, p.blockHeight, p.unlockTime))
    fun (txHash, amount, blockHeight, unlockTime) => ⟨txHash, amount, blockHeight, unlockTime⟩

end Payment

/-- What a wallet has learned from the chain and from its own sending. -/
structure History where
  /-- Block ids by height. -/
  chain : List Hash := []
  transfers : List Transfer := []
  /-- The position in `transfers` of the output that has a key image. -/
  keyImages : Std.ExtTreeMap KeyImage Nat := ∅
  unconfirmed : Std.ExtTreeMap Hash Unconfirmed := ∅
  /-- Payments by payment id. -/
  payments : Std.ExtTreeMap Hash (List Payment) := ∅

namespace History

instance : Inhabited History := ⟨{}⟩

/-- The number of blocks. -/
def height (h : History) : Nat := h.chain.length

/-- Adds an output, found by its key image if it has one. -/
def record (h : History) (t : Transfer) (image : Option KeyImage) : History :=
  { h with
    transfers := h.transfers ++ [t]
    keyImages := match image with
      | some image => h.keyImages.insert image h.transfers.length
      | none => h.keyImages }

/-- Whether an output is recorded already: by its key image, or by its place if that is unknown. -/
def isRecorded (h : History) (image : Option KeyImage) (txHash : Hash) (index : Nat) : Bool :=
  match image with
  | some image => h.keyImages.contains image
  | none => h.transfers.any fun t => t.txHash = txHash && t.outputIndex = index

/-- The output that has a key image. -/
def transferOf? (h : History) (image : KeyImage) : Option Transfer :=
  h.keyImages[image]?.bind fun index => h.transfers[index]?

/-- Marks the output at a position as spent. -/
def spendAt (h : History) (index : Nat) : History :=
  { h with transfers := h.transfers.modify index fun t => { t with spent := true } }

/-- Marks the output that has a key image as spent. -/
def spend (h : History) (image : KeyImage) : History :=
  (h.keyImages[image]?).elim h h.spendAt

/-- Adds a payment, unless its transaction has one under the same id. -/
def addPayment (h : History) (id : Hash) (p : Payment) : History :=
  let records := (h.payments[id]?).getD []
  if records.any fun q => q.txHash = p.txHash then h
  else { h with payments := h.payments.insert id (records ++ [p]) }

/-- Forgets what was learned from the blocks at `height` and above. Transfers stand in the order in
which they were found, so that they are cut off at the first one that is too high. -/
def detach (h : History) (height : Nat) : History :=
  let kept := h.transfers.takeWhile fun t => t.blockHeight < height
  let dropped := h.transfers.drop kept.length
  { h with
    chain := h.chain.take height
    transfers := kept
    keyImages := dropped.foldl (fun images t =>
      if t.keyImage.isNull then images else images.erase t.keyImage) h.keyImages
    payments := h.payments.filterMap fun _ records =>
      match records.filter fun p => p.blockHeight < height with
      | [] => none
      | kept => some kept }

/-- Fills the chain with unknown ids up to `height` blocks. -/
def assumeScanned (h : History) (height : Nat) : History :=
  { h with chain := h.chain ++ List.replicate (height - h.chain.length) .null }

/-- The payments received under an id. -/
def paymentsOf (h : History) (id : Hash) : List Payment := (h.payments[id]?).getD []

/-! ## The fingerprint of a chain -/

/-- Distances from the end of the chain, the next one being `distance`: ten steps of one, then
steps that double. `count` steps were made before, and the last step was `step`. -/
def fingerprintDistances (length : Nat) (count step distance : Nat) : List Nat :=
  if distance < length ∧ 0 < step then
    distance :: if count < 10 then fingerprintDistances length (count + 1) step (distance + 1)
      else fingerprintDistances length (count + 1) (2 * step) (distance + 2 * step)
  else []
termination_by length - distance

/-- The ids by which the daemon finds the last common block, newest first: the last ten, then ids
at doubling distances, then the first one. Unknown ids are left out. -/
def fingerprint (h : History) : List Hash :=
  let known := (fingerprintDistances h.chain.length 0 1 1).filterMap fun distance =>
    h.chain[h.chain.length - distance]?
  (known ++ h.chain.take 1).filter fun id => !id.isNull

end History

end RingWallet
