import RingWallet.Wallet.Sync

/-!
# A world to run wallets in

A `Sandbox` is a daemon, a clock and a source of random words in one value, so that the whole run of
a wallet can be computed. Its daemon holds a chain of blocks. It counts the outputs of each amount
in the order in which they arrive, and this count is the global index of an output, which stays as
it is when blocks are taken back.
-/

set_option autoImplicit false

namespace RingWallet

/-- A daemon, a clock and a source of random words. -/
structure Sandbox where
  /-- The state of the source of random words. -/
  seed : UInt64 := 0
  /-- The Unix time. -/
  now : UInt64 := 0
  /-- How long the wallet has waited, in milliseconds. -/
  waitedMs : Nat := 0
  /-- The blocks and their ids. -/
  blocks : List (Hash × Daemon.BlockEntry) := []
  /-- The keys of the outputs of an amount, by their global indices. -/
  outputs : Std.ExtTreeMap UInt64 (List String) := ∅
  /-- The global indices of the outputs of a transaction. -/
  indices : Std.ExtTreeMap Hash (List UInt64) := ∅
  /-- The transactions that the daemon took. -/
  sent : List Blob := []
  /-- The most blocks of one answer. -/
  batchSize : Nat := 100
  /-- The most decoys for one amount. -/
  decoyLimit : Option Nat := none
  /-- Whether decoys come in ascending order of their indices. -/
  oldestFirst : Bool := false
  /-- The answer to a transaction. -/
  sendStatus : String := Daemon.okStatus

namespace Sandbox

/-! ## The chain -/

/-- The keys of the outputs of an amount. -/
def keysOf (b : Sandbox) (amount : UInt64) : List String := (b.outputs[amount]?).getD []

/-- Adds outputs of an amount. -/
def addOutputs (b : Sandbox) (amount : UInt64) (keys : List String) : Sandbox :=
  { b with outputs := b.outputs.insert amount (b.keysOf amount ++ keys) }

/-- Adds the outputs of a transaction, and gives their global indices. -/
def placeOutputs (b : Sandbox) : List TxOut → Sandbox × List UInt64
  | [] => (b, [])
  | out :: rest =>
    let index := UInt64.ofNat (b.keysOf out.amount).length
    let (b, others) := (b.addOutputs out.amount [out.key.hex]).placeOutputs rest
    (b, index :: others)

/-- Adds a transaction. -/
def addTransaction (S : Suite) (b : Sandbox) (tx : Transaction) : Sandbox :=
  let (b, indices) := b.placeOutputs tx.outputs
  { b with indices := b.indices.insert (tx.hash S) indices }

/-- Appends a block with its transactions, and gives its id. What cannot be decoded is handed out as
it is; such a block has the null id. -/
def addBlock (S : Suite) (b : Sandbox) (entry : Daemon.BlockEntry) : Sandbox × Hash :=
  let block := (Sync.parseBlock entry.block).toOption
  let txs := (block.map Block.minerTx).toList ++
    entry.txs.filterMap fun text => (Sync.parseTransaction text).toOption
  let id := (block.map (Block.hash S)).getD .null
  let b := txs.foldl (addTransaction S) b
  ({ b with blocks := b.blocks ++ [(id, entry)] }, id)

/-! ## Answers -/

/-- Blocks from the requested height on or, if that is zero, from the first block on whose id the
wallet knows. -/
def blocksReply (b : Sandbox) (r : Daemon.BlocksRequest) : Daemon.BlocksReply :=
  let common := r.blockIds.findSome? fun id => b.blocks.findIdx? fun block => block.1.hex = id
  let start := if 0 < r.startHeight then r.startHeight else common.getD 0
  { status := Daemon.okStatus, startHeight := start, currentHeight := b.blocks.length
    blocks := ((b.blocks.drop start).take b.batchSize).map Prod.snd }

def indicesReply (b : Sandbox) (tx : Hash) : Daemon.IndicesReply :=
  match b.indices[tx]? with
  | some indices => { status := Daemon.okStatus, indices }
  | none => { status := "Failed" }

/-- Outputs of an amount, as many as are asked for or, if there are fewer, all of them. -/
def decoysOf (b : Sandbox) (count : Nat) (amount : UInt64) : Daemon.DecoysOfAmount :=
  let known := (b.keysOf amount).zipIdx.map fun (key, index) =>
    (⟨UInt64.ofNat index, key⟩ : Daemon.Decoy)
  let ordered := if b.oldestFirst then known else known.reverse
  ⟨amount, ordered.take (min (b.decoyLimit.getD count) count)⟩

def decoysReply (b : Sandbox) (r : Daemon.DecoysRequest) : Daemon.DecoysReply :=
  { status := Daemon.okStatus, amounts := r.amounts.map (b.decoysOf r.count.toNat) }

def sendReply (b : Sandbox) (tx : Blob) : Daemon.SendReply × Sandbox :=
  ({ status := b.sendStatus },
    if b.sendStatus = Daemon.okStatus then { b with sent := b.sent ++ [tx] } else b)

/-! ## The environment -/

/-- Thirty years of 365 days, in milliseconds. -/
def longestWaitMs : Nat := 946080000000

/-- How long the clock runs for a delay, in milliseconds: a started millisecond is waited in full,
and no wait takes longer than `longestWaitMs`. -/
def waitMs (d : Delay) : Nat :=
  min ((d.nanos + Delay.nanosPerMs - 1) / Delay.nanosPerMs) longestWaitMs

/-- The sandbox as the environment of a wallet. -/
def environment : Environment Sandbox where
  getBlocks r := return .ok ((← get).blocksReply r)
  getIndices tx := return .ok ((← get).indicesReply tx)
  getDecoys r := return .ok ((← get).decoysReply r)
  send tx b :=
    let (reply, b) := b.sendReply tx
    (.ok reply, b)
  getHeight b := (.ok { status := Daemon.okStatus, height := b.blocks.length }, b)
  random b :=
    let (word, seed) := RandomSource.splitMix b.seed
    (word, { b with seed })
  now := return (← get).now
  sleep d := modify fun b => { b with waitedMs := b.waitedMs + waitMs d }

end Sandbox

end RingWallet
