import RingWallet.Proofs.Support.Script
import RingWallet.Proofs.Wallet.Batch
import RingWallet.Proofs.Wallet.Keeps

/-!
# A daemon that knows a chain

A `ChainServer` knows the blocks of a chain and the indices of their outputs. It answers a request
with all blocks from the height that it is asked for, or from the height of the first id that it
knows if the choice is left to it. In the environment `ChainServer.following` the daemon may go over
to another chain when a transaction is sent. `ChainServer.exec_refresh` says what a refresh does
with such a daemon.
-/

set_option autoImplicit false

namespace RingWallet

/-- The blocks of a chain, and the global indices of the outputs of a transaction. -/
structure ChainServer where
  blocks : List ParsedBlock
  indices : Hash → List UInt64 := fun _ => [0]

namespace ChainServer

/-- The height of the first id that the daemon knows. -/
def heightOf? (n : ChainServer) (ids : List String) : Option Nat :=
  ids.findSome? fun id => n.blocks.findIdx? fun b => b.id.hex = id

/-- The height of the first block of an answer. -/
def startOf (n : ChainServer) (r : Daemon.BlocksRequest) : Nat :=
  if r.startHeight = 0 then (n.heightOf? r.blockIds).getD 0 else r.startHeight

/-- The answer to a request for blocks. -/
def reply (n : ChainServer) (r : Daemon.BlocksRequest) : Daemon.BlocksReply where
  status := Daemon.okStatus
  startHeight := n.startOf r
  currentHeight := n.blocks.length
  blocks := (n.blocks.drop (n.startOf r)).map Script.entry

/-- A daemon whose chain depends on the state of the environment, which changes when a transaction
is sent. -/
def following {σ : Type} (server : σ → ChainServer) (sent : σ → σ) : Environment σ where
  getBlocks r e := (.ok ((server e).reply r), e)
  getIndices txHash e := (.ok ⟨Daemon.okStatus, (server e).indices txHash⟩, e)
  getDecoys _ e := (.ok { status := Daemon.okStatus }, e)
  send _ e := (.ok { status := Daemon.okStatus }, sent e)
  getHeight e := (.ok { status := Daemon.okStatus, height := (server e).blocks.length }, e)
  random e := (0, e)
  now e := (0, e)
  sleep _ e := ((), e)

/-- A daemon that stays with its chain. -/
def environment (n : ChainServer) : Environment Unit := following (fun _ => n) id

/-- The transactions of the chain. -/
def transactions (n : ChainServer) (S : Suite) : List Transaction :=
  n.blocks.flatMap fun b => (Sync.allTransactions S b).map Prod.snd

variable {S : Suite} {n : ChainServer}

/-- A block is known by its id. -/
theorem heightOf?_map_hex (n : ChainServer) (ids : List Hash) :
    n.heightOf? (ids.map Hash.hex) = firstKnown? n.blocks ids := by
  unfold heightOf? firstKnown?
  rw [List.findSome?_map]
  simp only [Function.comp_def, Hash.hex_inj]

/-- Every entry of a batch parses to its block. -/
theorem parsed_blocks (legible : ∀ b ∈ n.blocks, Script.Legible S b) (start : Nat) :
    List.Forall₂ (fun entry b => Sync.parseEntry S entry = .ok b)
      ((n.blocks.drop start).map Script.entry) (n.blocks.drop start) := by
  rw [List.forall₂_map_left_iff, List.forall₂_same]
  exact fun b mem => Script.parseEntry_entry (legible b (List.mem_of_mem_drop mem))

/-- The daemon serves the transactions of its chain and no others. -/
theorem serves (legible : ∀ b ∈ n.blocks, Script.Legible S b) :
    n.environment.Serves S fun tx => tx ∈ n.transactions S := by
  rintro request ⟨⟩ reply answer entry mem b parsed q hq
  obtain rfl := Except.ok.inj answer
  obtain ⟨b', kept, rfl⟩ := List.mem_map.mp mem
  have mem : b' ∈ n.blocks := List.mem_of_mem_drop kept
  rw [Script.parseEntry_entry (legible b' mem)] at parsed
  obtain rfl := Except.ok.inj parsed
  exact List.mem_flatMap.mpr ⟨b', mem, List.mem_map_of_mem hq⟩

section

variable {σ : Type} (S : Suite) (server : σ → ChainServer) (sent : σ → σ)

/-- The height from which the daemon sends blocks to a wallet, when the choice is left to it. -/
def startFor (n : ChainServer) (h : History) : Nat :=
  (firstKnown? n.blocks h.fingerprint).getD 0

/-- What a batch does to a session. -/
def batch (s : Session σ) : Except WalletError Nat × Session σ :=
  let start := (server s.env).startFor s.history
  WalletM.exec (Sync.placeAll S (following server sent) none start true
    ((server s.env).blocks.drop start)) s

variable {S server sent}

/-- A batch of the wallet is what `batch` says it is, if the blocks of the daemon can be read. -/
theorem exec_pullBatch {s : Session σ}
    (legible : ∀ b ∈ (server s.env).blocks, Script.Legible S b) :
    WalletM.exec (Sync.pullBatch S (following server sent) 0 none) s = batch S server sent s := by
  have start : (server s.env).startOf
      { blockIds := s.history.fingerprint.map Hash.hex, startHeight := 0 } =
      (server s.env).startFor s.history := by
    simp only [startOf, if_true, heightOf?_map_hex]
    rfl
  have parsed := parsed_blocks legible ((server s.env).startFor s.history)
  unfold batch
  rw [← start] at parsed ⊢
  exact Sync.exec_pullBatch_of_reply ((server s.env).reply _) rfl rfl parsed

/-- A batch that is asked for from a height on has the blocks from there. -/
theorem exec_pullBatch_from {start : Nat} (above : 0 < start) {s : Session σ}
    (legible : ∀ b ∈ (server s.env).blocks, Script.Legible S b) :
    WalletM.exec (Sync.pullBatch S (following server sent) start none) s =
      WalletM.exec (Sync.placeAll S (following server sent) none start true
        ((server s.env).blocks.drop start)) s := by
  have same : (server s.env).startOf
      { blockIds := s.history.fingerprint.map Hash.hex, startHeight := start } = start :=
    if_neg (Nat.ne_of_gt above)
  have parsed := parsed_blocks legible start
  rw [← same] at parsed
  refine (Sync.exec_pullBatch_of_reply ((server s.env).reply _) rfl rfl parsed).trans ?_
  rw [same]
  exact congrArg (fun n => WalletM.exec (Sync.placeAll S _ none n true _) s) same

/-- Nobody asks the wallet to stop. -/
@[simp] theorem polled_following (s : Session σ) : Sync.polled (following server sent) s = s :=
  Sync.polled_eq _ rfl

/-- A refresh that has its new blocks in one batch. -/
theorem exec_refresh {s t u : Session σ} {added : Nat}
    (legible : ∀ e, ∀ b ∈ (server e).blocks, Script.Legible S b)
    (first : batch S server sent (Sync.started (.fixed 0) s) = (.ok added, t)) (some : added ≠ 0)
    (running : t.stop = false ∧ t.summary.targetFound = false)
    (second : batch S server sent t = (.ok 0, u)) :
    WalletM.exec (Sync.refresh S (following server sent)) s =
      (.ok u.summary, u.told (.refreshCompleted u.summary.blocksFetched u.wallet.height)) := by
  have rounds : 2 ≤ (following server sent).maxRounds := show 2 ≤ UInt64.size by decide
  rw [← exec_pullBatch (legible _)] at first second
  have begun : (Sync.polled (following server sent) (Sync.started (.fixed 0) s)).stop = false := rfl
  have run := Sync.exec_refresh_of_batches begun first some running.2 second rounds
  simpa only [polled_following, running.1, Bool.false_eq_true, if_false] using run

/-- A refresh from the end of the chain that has all new blocks in one batch. -/
theorem exec_refreshFromLocalChain {s t : Session σ} {added : Nat}
    (legible : ∀ e, ∀ b ∈ (server e).blocks, Script.Legible S b) (above : 0 < s.history.height)
    (first : WalletM.exec (Sync.placeAll S (following server sent) none s.history.height true
      ((server s.env).blocks.drop s.history.height)) (Sync.started .localChain s) = (.ok added, t))
    (some : added ≠ 0) (running : t.stop = false ∧ t.summary.targetFound = false)
    (higher : 0 < t.history.height) (done : (server t.env).blocks.length ≤ t.history.height) :
    WalletM.exec (Sync.refreshFromLocalChain S (following server sent)) s =
      (.ok t.summary, t.told (.refreshCompleted t.summary.blocksFetched t.wallet.height)) := by
  -- the first batch brings the wallet to the end of the chain, and the second one finds nothing
  have batch : WalletM.exec (Sync.pullBatch S (following server sent) s.history.height none)
      (Sync.started .localChain s) = (.ok added, t) :=
    (exec_pullBatch_from above (legible _)).trans first
  have last : WalletM.exec (Sync.pullBatch S (following server sent) t.history.height none) t =
      (.ok 0, t) := by
    rw [exec_pullBatch_from higher (legible _), List.drop_eq_nil_of_le done]
    rfl
  -- the bound on the batches of the daemon leaves room for two
  have rounds : 2 ≤ (following server sent).maxRounds := show 2 ≤ UInt64.size by decide
  have run := @Sync.exec_pull_of_batches S σ (following server sent) none .localChain s t t added
    rfl batch some running.2 last rounds
  simp only [polled_following, ite_self] at run
  exact run

end

end ChainServer

end RingWallet
