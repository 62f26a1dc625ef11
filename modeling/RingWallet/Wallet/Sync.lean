import RingWallet.Ledger.Block
import RingWallet.Wallet.Scan

/-!
# Following the chain

A refresh asks the daemon for blocks, batch by batch, until there are no new ones. Each block is
compared with the own chain at its height: a new one is scanned and added, a known one is passed
over, and one with another id cuts the chain back to its height, unless it is the first of its
batch. Failures of the daemon are tried again after a delay; the blocks added before a failure
stay.
-/

set_option autoImplicit false

namespace RingWallet

/-- Where a refresh starts. -/
inductive RefreshStart where
  /-- The first batch starts at a height, zero leaving the choice to the daemon, which also chooses
  for all other batches. -/
  | fixed (height : Nat)
  /-- Every batch starts at the end of the own chain. -/
  | localChain
deriving DecidableEq

/-- A block with its transactions, decoded. -/
structure ParsedBlock where
  block : Block
  id : Hash
  txs : List (Hash × Transaction)

namespace Sync

variable (S : Suite)

/-- A blob of the ledger from its hexadecimal form. -/
def decodeBlob {α : Type} (kind : BlobKind) (ofBlob : Blob → Except BlobError α) (text : String) :
    Except ProtocolError α := do
  let bytes ← (Hex.decode text).mapError (.undecodableHex kind)
  (ofBlob bytes).mapError (.undecodableBlob kind)

/-- A transaction from its hexadecimal form. -/
def parseTransaction (text : String) : Except ProtocolError Transaction :=
  decodeBlob .transaction Transaction.ofBlob text

/-- A block from its hexadecimal form. -/
def parseBlock (text : String) : Except ProtocolError Block := decodeBlob .block Block.ofBlob text

/-- A block and the transactions that came with it. -/
def parseEntry (entry : Daemon.BlockEntry) : Except ProtocolError ParsedBlock := do
  let block ← parseBlock entry.block
  let txs ← entry.txs.mapM fun text => do
    let tx ← parseTransaction text
    return (tx.hash S, tx)
  return { block, id := block.hash S, txs }

section

variable {σ : Type} (env : Environment σ)

/-- Scans the transactions of a block, and notes those that brought funds. -/
def scanAll (height : Nat) : List (Hash × Transaction) → WalletM σ Unit
  | [] => pure ()
  | (txHash, tx) :: rest => do
    let outcome ← Scan.transaction S env tx txHash height
    if outcome.received ≠ 0 then
      WalletM.modifySummary fun s =>
        { s with receivedMoney := true, receivedTxHashes := s.receivedTxHashes ++ [txHash] }
    scanAll height rest

/-- Whether a block is young enough to be scanned for an account. -/
def isRelevant (w : Wallet) (block : Block) : Bool :=
  w.account.createTime < block.timestamp.addSat w.config.timestampTolerance

/-- All transactions of a block, the reward first. -/
def allTransactions (b : ParsedBlock) : List (Hash × Transaction) :=
  (b.block.minerTx.hash S, b.block.minerTx) :: b.txs

/-- Scans a block and adds it to the chain. -/
def addBlock (b : ParsedBlock) (height : Nat) (target : Option Hash) : WalletM σ Unit := do
  if isRelevant (← WalletM.wallet) b.block then
    scanAll S env height (allTransactions S b)
  if (allTransactions S b).any fun (txHash, _) => some txHash = target then
    WalletM.modifySummary fun s => { s with targetFound := true }
  WalletM.modifyHistory fun h => { h with chain := h.chain ++ [b.id] }
  WalletM.modifySummary fun s => { s with blocksFetched := s.blocksFetched + 1 }
  WalletM.tell (.newBlock height b.id)

/-- Forgets everything from a height on, and says how many blocks that were. -/
def detach (height : Nat) : WalletM σ Nat := do
  let h ← WalletM.history
  WalletM.modifyHistory fun h => h.detach height
  return h.height - height

/-- Compares a block with the chain at its height, and says whether it was added. `first` marks the
first block of a batch. -/
def placeBlock (b : ParsedBlock) (height : Nat) (first : Bool) (target : Option Hash) :
    WalletM σ Bool := do
  let h ← WalletM.history
  match h.chain[height]? with
  | none =>
    if h.height < height then
      throw (.consistency (.blockBeyondEnd height h.height))
    addBlock S env b height target
    return true
  | some id =>
    if id = b.id then
      return false
    else if id.isNull then
      WalletM.modifyHistory fun h => { h with chain := h.chain.set height b.id }
      return false
    else if first then
      throw (.consistency (.splitAtFirstBlock height))
    else
      let detached ← detach height
      WalletM.tell (.reorg height detached)
      addBlock S env b height target
      return true

/-- Places the blocks of a batch, and counts those that were added. It ends early once the target
was seen. -/
def placeBlocks (target : Option Hash) (height : Nat) (first : Bool) :
    List Daemon.BlockEntry → WalletM σ Nat
  | [] => return 0
  | entry :: rest => do
    let b ← WalletM.orFail .protocol (parseEntry S entry)
    let added ← placeBlock S env b height first target
    let more ← if (← get).summary.targetFound then pure 0
      else placeBlocks target (height + 1) false rest
    return more + if added then 1 else 0

/-- Fetches a batch and places its blocks. -/
def pullBatch (startHeight : Nat) (target : Option Hash) : WalletM σ Nat := do
  let h ← WalletM.history
  let reply ← WalletM.ask (env.getBlocks { blockIds := h.fingerprint.map Hash.hex, startHeight })
  WalletM.checkStatus .blocks reply.status
  placeBlocks S env target reply.startHeight true reply.blocks

/-- Whether the refresh is to stop, because a handler or another task has asked for it. -/
def stopRequested : WalletM σ Bool := do
  let asked ← WalletM.outside env.stopAsked
  modify fun s => { s with stop := asked || s.stop }
  return (← get).stop

/-- Fetches batches until one brings nothing new, the target was seen, or the wallet is asked to
stop. `tries` failures were tried again so far, and the next delay is `delay`. -/
def pullLoop (start : RefreshStart) (target : Option Hash) :
    (rounds : Nat) → (first : Bool) → (tries : Nat) → (delay : Delay) → WalletM σ Unit
  | 0, _, _, _ => throw .unfinished
  | rounds + 1, first, tries, delay => do
    if ← stopRequested env then
      return
    let s ← get
    let startHeight := match start with
      | .fixed height => if first then height else 0
      | .localChain => s.wallet.height
    match ← WalletM.outcome (pullBatch S env startHeight target) with
    | .ok added =>
      if added = 0 ∨ (← get).summary.targetFound then return
      else pullLoop start target rounds false tries delay
    | .error e =>
      let retry := s.wallet.config.retry
      if e.isRetryable ∧ tries < retry.maxRetries then
        WalletM.outside (env.sleep delay.waited)
        pullLoop start target rounds first (tries + 1) (retry.nextDelay delay)
      else throw e

/-- Follows the chain from some start, until the target was seen if there is one. Heights below the
start that the wallet has not seen count as scanned. -/
def pull (start : RefreshStart) (target : Option Hash) : WalletM σ RefreshSummary := do
  modify fun s => { s with stop := false, summary := {} }
  if let .fixed height := start then
    WalletM.modifyHistory fun h => h.assumeScanned height
  let retry := (← WalletM.wallet).config.retry
  pullLoop S env start target env.maxRounds true 0 retry.firstDelay
  let s ← get
  WalletM.tell (.refreshCompleted s.summary.blocksFetched s.wallet.height)
  return s.summary

/-- Follows the chain from the last block that the daemon knows as well. -/
def refresh : WalletM σ RefreshSummary := pull S env (.fixed 0) none

/-- Follows the chain from a height. -/
def refreshFrom (height : Nat) : WalletM σ RefreshSummary := pull S env (.fixed height) none

/-- Follows the chain from the end of the own chain. -/
def refreshFromLocalChain : WalletM σ RefreshSummary := pull S env .localChain none

/-- Follows the chain from a height until a transaction was seen. -/
def refreshUntil (height : Nat) (txHash : Hash) : WalletM σ RefreshSummary :=
  pull S env (.fixed height) (some txHash)

end

end Sync

end RingWallet
