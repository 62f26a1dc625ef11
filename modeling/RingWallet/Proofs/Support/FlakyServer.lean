import RingWallet.Proofs.Support.ChainServer
import RingWallet.Proofs.Wallet.Harvest

/-!
# A daemon that is busy at times

`ChainServer.flaky` is a daemon that knows a chain, sends at most so many blocks at once, and is
busy when its state says so: the state has a flag for each of the next questions. It feeds the
blocks of its chain (`ChainServer.feeds_flaky`), and what a refresh from the end of the chain does
with it can be computed without looking at the forms in which the blocks travel
(`ChainServer.exec_refresh_flaky`).
-/

set_option autoImplicit false

namespace RingWallet

namespace ChainServer

open Sync WalletM

/-- Some blocks from the height that was asked for. -/
def portion (n : ChainServer) (size : Nat) (r : Daemon.BlocksRequest) : Daemon.BlocksReply where
  status := Daemon.okStatus
  startHeight := r.startHeight
  currentHeight := n.blocks.length
  blocks := ((n.blocks.drop r.startHeight).take size).map Script.entry

/-- A daemon whose state tells which of the next questions find it busy. -/
def flaky (n : ChainServer) (size : Nat) : Environment (List Bool) where
  getBlocks r busy :=
    (.ok (if busy.head? = some true then { status := Daemon.busyStatus } else n.portion size r),
      busy.tail)
  getIndices txHash busy :=
    (.ok (if busy.head? = some true then { status := Daemon.busyStatus }
      else ⟨Daemon.okStatus, n.indices txHash⟩), busy.tail)
  getDecoys _ busy := (.ok { status := Daemon.okStatus }, busy)
  send _ busy := (.ok { status := Daemon.okStatus }, busy)
  getHeight busy := (.ok { status := Daemon.okStatus, height := n.blocks.length }, busy)
  random busy := (0, busy)
  now busy := (0, busy)
  sleep _ busy := ((), busy)
  maxRounds := 8

variable {S : Suite} {n : ChainServer} {size : Nat}

/-- The daemon feeds the blocks of its chain, if it sends one at least. -/
theorem feeds_flaky (legible : ∀ b ∈ n.blocks, Script.Legible S b) (some_at_once : size ≠ 0)
    (start : Nat) : (n.flaky size).Feeds S start (n.blocks.drop start) n.indices where
  blocks := by
    intro request busy reply above answer accepted
    obtain rfl := Except.ok.inj answer
    -- a daemon that is busy does not answer with a good status
    by_cases is_busy : busy.head? = some true
    · rw [if_pos is_busy] at accepted
      exact absurd accepted (by decide)
    rw [if_neg is_busy]
    -- what is left from the start on is the chain from the requested height on
    have from_start : (n.blocks.drop start).drop (request.startHeight - start) =
        n.blocks.drop request.startHeight := by
      rw [List.drop_drop, Nat.add_sub_cancel' above]
    refine ⟨rfl, (n.blocks.drop request.startHeight).take size, ?_, ?_, fun none => ?_⟩
    · rw [from_start]
      exact List.take_prefix _ _
    · show List.Forall₂ _ (((n.blocks.drop request.startHeight).take size).map Script.entry) _
      rw [List.forall₂_map_left_iff, List.forall₂_same]
      exact fun b mem => Script.parseEntry_entry
        (legible b (List.mem_of_mem_drop (List.mem_of_mem_take mem)))
    -- nothing is sent only if nothing is left, because at least one block is sent at once
    · have nothing_left := (List.take_eq_nil_iff.mp none).resolve_left some_at_once
      have := List.drop_eq_nil_iff.mp nothing_left
      rw [List.length_drop]
      omega
  tells := by
    intro txHash busy reply answer accepted
    obtain rfl := Except.ok.inj answer
    by_cases is_busy : busy.head? = some true
    · rw [if_pos is_busy] at accepted
      exact absurd accepted (by decide)
    · rw [if_neg is_busy]

variable (S n size)

/-- What a batch does to a session. -/
def attempt (s : Session (List Bool)) : Except WalletError Nat × Session (List Bool) :=
  let asked := { s with env := s.env.tail }
  if s.env.head? = some true then (.error (.daemonBusy .blocks), asked)
  else exec (placeAll S (n.flaky size) none s.wallet.height true
    ((n.blocks.drop s.wallet.height).take size)) asked

/-- What the batches of a refresh do to a session. -/
def attempts : (rounds tries : Nat) → Session (List Bool) →
    Except WalletError Unit × Session (List Bool)
  | 0, _, s => (.error .unfinished, s)
  | rounds + 1, tries, s =>
    if s.stop then (.ok (), s)
    else match n.attempt S size s with
      | (.ok added, t) =>
        if added = 0 ∨ t.summary.targetFound then (.ok (), t) else attempts rounds tries t
      | (.error e, t) =>
        if e.isRetryable ∧ tries < s.wallet.config.retry.maxRetries then
          attempts rounds (tries + 1) t
        else (.error e, t)

/-- What a refresh from the end of the chain does to a session. -/
def refreshed (s : Session (List Bool)) :
    Except WalletError RefreshSummary × Session (List Bool) :=
  match n.attempts S size (n.flaky size).maxRounds 0 (started .localChain s) with
  | (.ok (), t) =>
    (.ok t.summary, t.told (.refreshCompleted t.summary.blocksFetched t.wallet.height))
  | (.error e, t) => (.error e, t)

variable {S n size}

/-- A batch from the daemon is what `attempt` says it is. -/
theorem exec_pullBatch_flaky (legible : ∀ b ∈ n.blocks, Script.Legible S b)
    (s : Session (List Bool)) :
    exec (pullBatch S (n.flaky size) s.wallet.height none) s = n.attempt S size s := by
  unfold attempt
  by_cases is_busy : s.env.head? = some true
  · rw [if_pos is_busy]
    -- a busy daemon is refused before its blocks are looked at
    have asked : exec (ask ((n.flaky size).getBlocks
        { blockIds := s.history.fingerprint.map Hash.hex, startHeight := s.wallet.height })) s =
        (.ok { status := Daemon.busyStatus }, { s with env := s.env.tail }) := by
      rw [exec_ask]
      simp only [flaky, StateT.run, is_busy, if_true]
      rfl
    unfold pullBatch
    rw [exec_bind_ok _ (exec_history s), exec_bind_ok _ asked]
    rfl
  · rw [if_neg is_busy]
    -- otherwise the answer is the next portion of the chain, all of which can be read
    have answer : ((n.flaky size).getBlocks
        { blockIds := s.history.fingerprint.map Hash.hex, startHeight := s.wallet.height }).run
          s.env = (.ok (n.portion size
            { blockIds := s.history.fingerprint.map Hash.hex, startHeight := s.wallet.height }),
          s.env.tail) := by
      simp only [flaky, StateT.run, is_busy, if_false]
    refine exec_pullBatch_of_reply (n.portion size _) answer rfl ?_
    show List.Forall₂ _ (((n.blocks.drop s.wallet.height).take size).map Script.entry) _
    rw [List.forall₂_map_left_iff, List.forall₂_same]
    exact fun b mem => Script.parseEntry_entry
      (legible b (List.mem_of_mem_drop (List.mem_of_mem_take mem)))

/-- Nobody asks the wallet to stop. -/
theorem polled_flaky (n : ChainServer) (size : Nat) (s : Session (List Bool)) :
    polled (n.flaky size) s = s := polled_eq _ rfl

/-- The batches of a refresh are what `attempts` says they are. -/
theorem exec_pullLoop_flaky (legible : ∀ b ∈ n.blocks, Script.Legible S b) (rounds : Nat)
    (first : Bool) (tries : Nat) (delay : Delay) (s : Session (List Bool)) :
    exec (pullLoop S (n.flaky size) .localChain none rounds first tries delay) s =
      n.attempts S size rounds tries s := by
  induction rounds generalizing first tries delay s with
  | zero => rfl
  | succ rounds ih =>
    have batch : exec (pullBatch S (n.flaky size) (batchStart .localChain first s) none) s =
        n.attempt S size s := exec_pullBatch_flaky legible s
    rw [exec_pullLoop_succ, polled_flaky, attempts, batch]
    rcases n.attempt S size s with ⟨e | added, t⟩
    · simp only [afterBatch, ih]
      rfl
    · simp only [afterBatch, ih]

/-- A refresh from the daemon is what `refreshed` says it is. -/
theorem exec_refresh_flaky (legible : ∀ b ∈ n.blocks, Script.Legible S b)
    (s : Session (List Bool)) :
    exec (refreshFromLocalChain S (n.flaky size)) s = n.refreshed S size s := by
  unfold refreshFromLocalChain refreshed
  rw [exec_pull, exec_pullLoop_flaky legible]
  rcases n.attempts S size (n.flaky size).maxRounds 0 (started .localChain s) with ⟨e | ⟨⟩, t⟩
  · rfl
  · rfl

/-! ### A chain of two blocks -/

/-- A daemon that knows a chain in which the account receives a reward, and in the next block
another one and a payment that spends the first. -/
def small : ChainServer where
  blocks := [SmallSuite.funding, SmallSuite.rewarding]

/-- Both blocks of the small chain can be read. -/
theorem legible_small : ∀ b ∈ small.blocks, Script.Legible .small b := by
  unfold small
  rw [List.forall_mem_cons, List.forall_mem_singleton]
  exact ⟨Script.legible_block (by decide +kernel) (by decide +kernel),
    Script.legible_block (by decide +kernel) (by decide +kernel)⟩

end ChainServer

end RingWallet
