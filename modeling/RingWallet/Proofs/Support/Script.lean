import RingWallet.Proofs.Hex
import RingWallet.Proofs.Support.SmallSuite
import RingWallet.Proofs.Wallet.Moves

/-!
# A daemon that follows a script

A `Script` holds the answers of a daemon, which it gives one after the other whatever it is asked.
With it a refresh can be followed by equations: `Script.exec_pullBatch_one` says what a batch of one
new block does, `Script.smooth_pull` that a refresh with such a batch goes through when the block is
added, and `Script.exec_pull_error` how it fails when the scan of the block does. The forms of the
blocks are read back by `Script.parseEntry_entry`, so that no hexadecimal text has to be evaluated.
-/

set_option autoImplicit false

namespace RingWallet

/-- The answers of a daemon, in order. After the last one it has no more blocks, and is busy when it
is asked for indices. -/
structure Script where
  batches : List Daemon.BlocksReply := []
  indices : List Daemon.IndicesReply := []

namespace Script

open Sync WalletM

def environment : Environment Script where
  getBlocks _ script :=
    match script.batches with
    | [] => (.ok { status := Daemon.okStatus }, script)
    | reply :: rest => (.ok reply, { script with batches := rest })
  getIndices _ script :=
    match script.indices with
    | [] => (.ok { status := Daemon.busyStatus }, script)
    | reply :: rest => (.ok reply, { script with indices := rest })
  getDecoys _ := return .ok { status := Daemon.okStatus }
  send _ := return .ok { status := Daemon.okStatus }
  getHeight := return .ok { status := Daemon.okStatus, height := 0 }
  random script := (0, script)
  now := return 0
  sleep _ := pure ()
  maxRounds := 2

/-- The indices of the outputs of a transaction. -/
def indicesOf (indices : List UInt64) : Daemon.IndicesReply where
  status := Daemon.okStatus
  indices := indices

/-- A new wallet of the small suite whose daemon follows a script. -/
def opened (config : Config) (script : Script) : Session Script where
  env := script
  wallet := ⟨SmallSuite.account, config, {}⟩

/-! ### Blocks in a script -/

/-- The form in which a block travels. -/
def entry (b : ParsedBlock) : Daemon.BlockEntry where
  block := Hex.encode b.block.toBlob
  txs := b.txs.map fun q => Hex.encode q.2.toBlob

/-- A batch of one block. -/
def batch (height : Nat) (b : ParsedBlock) : Daemon.BlocksReply where
  status := Daemon.okStatus
  startHeight := height
  blocks := [entry b]

/-- A block whose parts can be read back from their blobs. -/
structure Legible (S : Suite) (b : ParsedBlock) : Prop where
  block : Block.ofBlob b.block.toBlob = .ok b.block
  id : b.id = b.block.hash S
  txs : ∀ q ∈ b.txs, q.1 = q.2.hash S ∧ Transaction.ofBlob q.2.toBlob = .ok q.2

/-- A block of the small suite can be read if its header and its transactions are read back. -/
theorem legible_block {reward : Transaction} {txs : List Transaction}
    (of_block : (Block.ofBlob (SmallSuite.block reward txs).block.toBlob).toOption =
      some (SmallSuite.block reward txs).block)
    (of_txs : ∀ tx ∈ txs, (Transaction.ofBlob tx.toBlob).toOption = some tx) :
    Legible .small (SmallSuite.block reward txs) where
  block := Except.toOption_eq_some.mp of_block
  id := rfl
  txs q hq := by
    obtain ⟨tx, mem, rfl⟩ := List.mem_map.mp hq
    exact ⟨rfl, Except.toOption_eq_some.mp (of_txs tx mem)⟩

/-- What is encoded as hexadecimal text is decoded to what the bytes stand for. -/
theorem decodeBlob_encode {α : Type} {kind : BlobKind} {ofBlob : Blob → Except BlobError α}
    {bytes : Blob} {a : α} (legible : ofBlob bytes = .ok a) :
    decodeBlob kind ofBlob (Hex.encode bytes) = .ok a := by
  unfold decodeBlob
  rw [Hex.decode_encode]
  show (ofBlob bytes).mapError _ = .ok a
  rw [legible]
  rfl

/-- The form in which a block travels can be read back. -/
theorem parseEntry_entry {S : Suite} {b : ParsedBlock} (legible : Legible S b) :
    parseEntry S (entry b) = .ok b := by
  obtain ⟨block, id, txs⟩ := b
  obtain ⟨of_block, hash, of_txs⟩ := legible
  obtain rfl : id = block.hash S := hash
  -- only the transactions have to be read one by one
  replace of_block : Block.ofBlob block.toBlob = .ok block := of_block
  have decoded : (txs.map fun q => Hex.encode q.2.toBlob).mapM (fun text => do
      let tx ← parseTransaction text
      return (tx.hash S, tx)) = (.ok txs : Except ProtocolError (List (Hash × Transaction))) := by
    induction txs with
    | nil => rfl
    | cons q rest ih =>
      rw [List.forall_mem_cons] at of_txs
      obtain ⟨txHash, tx⟩ := q
      obtain ⟨⟨hash, of_tx⟩, of_rest⟩ := of_txs
      obtain rfl : txHash = tx.hash S := hash
      rw [List.map_cons, List.mapM_cons, parseTransaction, decodeBlob_encode of_tx, ih of_rest]
      rfl
  exact Except.bind_eq_ok.mpr ⟨block, decodeBlob_encode of_block,
    Except.bind_eq_ok.mpr ⟨txs, decoded, rfl⟩⟩

/-! ### Batches -/

variable {S : Suite} {start : Nat} {target : Option Hash} {s : Session Script}

/-- The session after the daemon gave its next batch. -/
def fetched (s : Session Script) : Session Script :=
  { s with env := { s.env with batches := s.env.batches.tail } }

/-- At the end of the script there are no blocks. -/
theorem exec_pullBatch_nil (done : s.env.batches = []) :
    exec (pullBatch S environment start target) s = (.ok 0, s) := by
  unfold pullBatch
  rw [exec_bind_ok _ (exec_history s)]
  have answer (r : Daemon.BlocksRequest) : exec (ask (environment.getBlocks r)) s =
      (.ok { status := Daemon.okStatus }, s) := by
    rw [exec_ask]
    simp only [environment, StateT.run, done]
    rfl
  rw [exec_bind_ok _ (answer _)]
  rfl

/-- A batch of one block that goes on top of the chain. -/
theorem exec_pullBatch_one {b : ParsedBlock} (legible : Legible S b)
    {rest : List Daemon.BlocksReply} (next : s.env.batches = batch s.history.height b :: rest) :
    exec (pullBatch S environment start target) s =
      exec (do addBlock S environment b s.history.height target; return 1) (fetched s) := by
  unfold pullBatch
  rw [exec_bind_ok _ (exec_history s)]
  -- the script answers every request alike, whatever it is for
  have answer (r : Daemon.BlocksRequest) : exec (ask (environment.getBlocks r)) s =
      (.ok (batch s.history.height b), fetched s) := by
    rw [exec_ask]
    unfold fetched
    simp only [environment, StateT.run, next]
    rfl
  rw [exec_bind_ok _ (answer _)]
  have accepted : exec (checkStatus .blocks (batch s.history.height b).status) (fetched s) =
      (.ok (), fetched s) := rfl
  rw [exec_bind_ok _ accepted]
  exact exec_placeBlocks_on_top S environment target (parseEntry_entry legible) true (fetched s)

/-! ### Refreshes -/

/-- Nobody asks the wallet to stop. -/
@[simp] theorem polled_environment (s : Session Script) : polled environment s = s :=
  polled_eq _ rfl

/-- A refresh that starts at the end of the chain, and whose only block is added. -/
theorem smooth_pull {b : ParsedBlock} {t : Session Script} (legible : Legible S b)
    (next : s.env.batches = [batch s.history.height b])
    (run : exec (addBlock S environment b s.history.height target)
      (fetched (started .localChain s)) = (.ok (), t))
    (last : t.env.batches = []) :
    Smooth S environment target .localChain s
      (t.told (.refreshCompleted t.summary.blocksFetched t.wallet.height)) := by
  have first : exec (pullBatch S environment (batchStart .localChain true (started .localChain s))
      target) (started .localChain s) = (.ok 1, t) :=
    (exec_pullBatch_one legible (s := started .localChain s) next).trans (exec_bind_ok _ run)
  -- the first batch brings the block, and the second one ends the loop
  have second (delay : Delay) :
      exec (pullLoop S environment .localChain target 1 false 0 delay) t = (.ok (), t) := by
    rw [exec_pullLoop_succ, polled_environment, exec_pullBatch_nil last]
    simp [afterBatch]
  have loop (delay : Delay) : exec (pullLoop S environment .localChain target environment.maxRounds
      true 0 delay) (started .localChain s) = (.ok (), t) := by
    show exec (pullLoop S environment .localChain target (1 + 1) true 0 delay) _ = _
    rw [exec_pullLoop_succ, polled_environment, first]
    -- both batches succeed
    have running : (started .localChain s).stop = false := rfl
    simp only [afterBatch, running, Bool.false_eq_true, if_false, second, ite_self]
  refine ⟨⟨t.summary, ?_⟩, .inr ⟨1, t, first, .inr (.inr ⟨0, t, exec_pullBatch_nil last, ?_⟩)⟩⟩
  · rw [exec_pull, loop]
  · exact .inl (.inl rfl)

/-- A refresh that starts at the end of the chain, and whose only block fails, in a wallet that does
not try again. -/
theorem exec_pull_error {b : ParsedBlock} {e : WalletError} {t : Session Script}
    (legible : Legible S b) {rest : List Daemon.BlocksReply}
    (next : s.env.batches = batch s.history.height b :: rest)
    (once : s.wallet.config.retry.maxRetries = 0)
    (run : exec (addBlock S environment b s.history.height target)
      (fetched (started .localChain s)) = (.error e, t)) :
    exec (pull S environment .localChain target) s = (.error e, t) := by
  have first : exec (pullBatch S environment (batchStart .localChain true (started .localChain s))
      target) (started .localChain s) = (.error e, t) :=
    (exec_pullBatch_one legible (s := started .localChain s) next).trans (exec_bind_error _ run)
  -- the only batch fails, and it is not tried again
  have loop (delay : Delay) : exec (pullLoop S environment .localChain target environment.maxRounds
      true 0 delay) (started .localChain s) = (.error e, t) := by
    show exec (pullLoop S environment .localChain target (1 + 1) true 0 delay) _ = _
    rw [exec_pullLoop_succ, polled_environment, first]
    have running : (started .localChain s).stop = false := rfl
    have no_more : (started .localChain s).wallet.config.retry.maxRetries = 0 := once
    simp only [afterBatch, running, no_more, Bool.false_eq_true, if_false, Nat.not_lt_zero,
      and_false]
  rw [exec_pull, loop]

end Script

end RingWallet
