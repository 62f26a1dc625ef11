import RingWallet.Proofs.Wallet.Bounds
import RingWallet.Proofs.Wallet.Trace

/-!
# Refreshes that fail

A refresh keeps the blocks that were added before it fails. The block at which it fails is not taken
back: what the scan had found of it by then stays in the history, although its id is not in the
chain. The scan of a block begins anew when the block is tried again, so that several failed blocks
can stand at the end of a chain, one after the other.

The trace of a refresh (`Sync.traceOfPull`) is cut in two behind its last completed step:
`Sync.lastStep` is the session right after this step, and `Sync.lapses` are the blocks that failed
after it. `residue_of_pull_error` says what a refresh that fails leaves behind: the chain is the one
of the last completed step, and so is everything else, except for what the scans of the blocks that
failed after it had found. `residue_of_busy_daemon` is a refresh that leaves an output behind.
-/

set_option autoImplicit false

namespace RingWallet

open Relation Scan WalletM

namespace Sync

variable (S : Suite) {σ : Type} (env : Environment σ) (target : Option Hash)

/-- The session right after the last completed step of a refresh, or the one in which its batches
start if there is none. -/
def lastStep (start : RefreshStart) (s : Session σ) : Session σ :=
  sessionAfter (started start s) ((traceOfPull S env target start s).rdropWhile Move.isFailed)

/-- The blocks that failed after the last completed step of a refresh. -/
def lapses (start : RefreshStart) (s : Session σ) : List ParsedBlock :=
  ((traceOfPull S env target start s).rtakeWhile Move.isFailed).map Move.block

/-- The transactions of some blocks, scanned at a height. -/
def Tried (blocks : List ParsedBlock) (height : Nat) (id : Hash) (tx : Transaction) (n : Nat) :
    Prop :=
  (∃ b ∈ blocks, (id, tx) ∈ allTransactions S b) ∧ n = height

variable {S env target} {s t : Session σ} {trace : List (Move σ)}

/-- A scan takes back nothing of what was told. -/
theorem events_addBlock_error {b : ParsedBlock} {height : Nat} {e : WalletError}
    (run : exec (addBlock S env b height target) s = (.error e, t)) : s.events <+: t.events := by
  -- events are only told, never taken back
  have scan : s.events <+: (scanBlock S env b height s).2.events := by
    have framed : Framed env fun t : Session σ => s.events <+: t.events :=
      ⟨fun _ _ _ before => before, fun _ _ before => before,
        fun _ _ before => before.trans (List.prefix_append _ _)⟩
    exact keeps_scanBlock (fun txHash tx => framed.transaction S env tx txHash height)
      (fun _ _ _ _ before => before) b List.prefix_rfl
  rw [exec_addBlock] at run
  rcases scanned : scanBlock S env b height s with ⟨e' | ⟨⟩, u⟩
  · rw [scanned] at run scan
    obtain rfl := (Prod.mk.inj run).2
    exact scan
  · rw [scanned] at run
    cases run

/-- Blocks that fail do not get into the chain, and leave only what their scans found. -/
theorem Follows.residue (follows : Follows S env target s trace t)
    (failed : ∀ m ∈ trace, m.isFailed = true) :
    s.events <+: t.events ∧ t.history.chain = s.history.chain ∧
      Grows (Tried S (trace.map Move.block) s.history.height) s.history t.history := by
  induction trace generalizing s with
  | nil =>
    -- without a move nothing has changed
    obtain ⟨idle, -⟩ := follows
    rw [idle.history, idle.events]
    exact ⟨List.prefix_rfl, rfl, .refl _⟩
  | cons m rest ih =>
    rw [List.forall_mem_cons] at failed
    obtain ⟨-, idle, sound, later⟩ := follows
    obtain ⟨e, run⟩ : ∃ e, exec (addBlock S env m.block m.before.history.height target) m.before =
        (.error e, m.after) := by
      have kind : m.kind = .failed := of_decide_eq_true failed.1
      simpa only [Move.Sound, kind] using sound
    obtain ⟨told, chain, grows⟩ := ih later failed.2
    obtain ⟨h, changes, wallet⟩ := changes_of_addBlock_error run
    have after : m.after.history = h := congrArg Wallet.history wallet
    rw [idle.history] at changes
    rw [after, changes.chain_eq] at chain
    refine ⟨?_, chain, ?_⟩
    · rw [← idle.events]
      exact (events_addBlock_error run).trans told
    · -- the chain does not get longer, so all of the blocks are scanned at its height
      have same : m.after.history.height = s.history.height := by
        rw [after]
        exact congrArg List.length changes.chain_eq
      rw [after] at grows
      rw [← after, same, after] at grows
      refine (changes.grows.mono ?_).trans (grows.mono ?_)
      · rintro id tx n ⟨found, at_height⟩
        exact ⟨⟨m.block, List.mem_cons_self, found⟩, at_height⟩
      · rintro id tx n ⟨⟨b, mem, found⟩, at_height⟩
        exact ⟨⟨b, List.mem_cons_of_mem _ mem, found⟩, at_height⟩

/-- Without a move everything is as it was. -/
theorem Follows.history_eq (follows : Follows S env target s [] t) : t.history = s.history :=
  follows.1.history

/-- A refresh has done nothing since its last completed step but let blocks fail. -/
theorem follows_lastStep (S : Suite) (env : Environment σ) (target : Option Hash)
    (start : RefreshStart) (s : Session σ) :
    Follows S env target (lastStep S env target start s)
      ((traceOfPull S env target start s).rtakeWhile Move.isFailed)
      (afterBatches S env target start s) := by
  have whole := follows_pull S env target start s
  have parts : _ = traceOfPull S env target start s :=
    List.rdropWhile_append_rtakeWhile (p := Move.isFailed)
  rw [← parts] at whole
  exact whole.rest

end Sync

open Sync

variable (S : Suite) {σ : Type} (env : Environment σ)

/-- A refresh of a wallet that comes from any calls fails. Its trace says what it has done, up to
the end. The chain is the one that its last completed step left, or the one it started with. Of the
blocks that failed after that step there remains what their scans found: outputs and payments at the
height of the chain, spent flags of outputs whose key images are among the inputs, and transactions
that are no longer unconfirmed. All else is as the last completed step left it, and no output or
payment stands above the height of the chain. -/
theorem residue_of_pull_error (account : Account) (config : Config) (calls : List Call)
    (s₀ : Session σ) (created : Wallet.create account config = .ok s₀.wallet)
    (start : RefreshStart) (target : Option Hash) (e : WalletError) (t : Session σ)
    (run : exec (pull S env start target) (afterCalls S env calls s₀) = (.error e, t)) :
    let s := afterCalls S env calls s₀
    let u := lastStep S env target start s
    let tried := lapses S env target start s
    Follows S env target (started start s) (traceOfPull S env target start s) t ∧
      u.events <+: t.events ∧
      t.history.chain = u.history.chain ∧
      Grows (Tried S tried u.history.height) u.history t.history ∧
      (tried = [] → t.history = u.history) ∧
      t.history.Within (t.history.height + 1) := by
  intro s u tried
  have path := path_pull S env target start s
  rw [run] at path
  obtain rfl := eq_afterBatches_of_exec_pull S env target run
  have since := follows_lastStep S env target start s
  -- the moves after the last step are the lapses, all of which failed
  obtain ⟨told, chain, grows⟩ := since.residue fun m mem => List.mem_rtakeWhile_imp mem
  refine ⟨follows_pull S env target start s, told, chain, grows, fun none => ?_, ?_⟩
  · rw [List.map_eq_nil_iff.mp none] at since
    exact since.history_eq
  · -- the bound on the heights held before the call, and its moves keep it
    have before := within_afterCalls S env calls created
    refine path.within ?_
    cases start with
    | localChain => exact before
    | fixed height => exact before.assumeScanned height

/-! ### A daemon that gets busy

A block brings a new wallet a reward and a payment. The daemon gets busy when it is asked for the
indices of the payment, and the wallet does not try again. -/

open Script in
/-- The trace of a refresh whose only block fails, in a wallet that does not try again. -/
theorem Script.traceOfPull_error {S : Suite} {target : Option Hash} {s t : Session Script}
    {b : ParsedBlock} {e : WalletError} (legible : Legible S b) {rest : List Daemon.BlocksReply}
    (next : s.env.batches = batch s.history.height b :: rest)
    (once : s.wallet.config.retry.maxRetries = 0)
    (run : exec (addBlock S environment b s.history.height target)
      (fetched (started .localChain s)) = (.error e, t)) :
    traceOfPull S environment target .localChain s =
      [⟨.failed, b, fetched (started .localChain s), t⟩] := by
  have fails : exec (pullBatch S environment (batchStart .localChain true (started .localChain s))
      target) (started .localChain s) = (.error e, t) :=
    (exec_pullBatch_one legible (s := started .localChain s) next).trans (exec_bind_error _ run)
  have attempts : attemptsOfPull environment S target .localChain s =
      [⟨true, started .localChain s, .error e, t⟩] := by
    have running : (started .localChain s).stop = false := rfl
    have no_more : (started .localChain s).wallet.config.retry.maxRetries = 0 := once
    show Sync.attempts environment _ (1 + 1) true 0 _ (started .localChain s) = _
    rw [Sync.attempts, polled_environment]
    simp only [fails, running, no_more, Nat.not_lt_zero, Bool.false_eq_true, and_false, if_false]
  -- the daemon answers with the block, which goes on top
  have answer (r : Daemon.BlocksRequest) :
      (environment.getBlocks r).run (started .localChain s).env =
        (.ok (batch s.history.height b), (fetched (started .localChain s)).env) := by
    unfold fetched
    simp only [environment, StateT.run, show (started .localChain s).env = s.env from rfl, next]
    rfl
  have on_top : traceOfBlock S environment target b s.history.height true
      (fetched (started .localChain s)) =
        [moveOfAdd S environment target b (fetched (started .localChain s))] := by
    have unknown : (fetched (started .localChain s)).history.chain[s.history.height]? = none :=
      List.getElem?_eq_none (Nat.le_refl _)
    rw [traceOfBlock, unknown]
    exact if_neg (Nat.lt_irrefl _)
  have failed : moveOfAdd S environment target b (fetched (started .localChain s)) =
      ⟨.failed, b, fetched (started .localChain s), t⟩ := by
    rw [moveOfAdd, show (fetched (started .localChain s)).history.height = s.history.height
      from rfl, run]
  have ended : exec (placeBlock S environment b s.history.height true target)
      (fetched (started .localChain s)) = (.error e, t) :=
    (exec_placeBlock_on_top S environment target b true (fetched (started .localChain s))).trans
      (exec_bind_error _ run)
  rw [traceOfPull, attempts, List.flatMap_singleton, traceOfAttempt, traceOfBatch, answer]
  refine (if_pos rfl).trans ?_
  show traceOfBlocks S environment target s.history.height true [entry b]
    (fetched (started .localChain s)) = _
  rw [traceOfBlocks, parseEntry_entry legible]
  simp only [on_top, failed, ended, List.append_nil]

namespace Busy

open SmallSuite Script

/-- A block whose reward and whose transaction pay the account. -/
def block : ParsedBlock := SmallSuite.block (payment 3 10 [.generated 0]) [payment 4 6 []]

/-- A new wallet that does not try again, and whose daemon knows the indices of the reward only. -/
def unpaid : Session Script :=
  opened { retry := { maxRetries := 0 } } ⟨[batch 0 block], [indicesOf [0]]⟩

/-- The session in which the block has failed. -/
def broken : Session Script :=
  (exec (addBlock .small environment block 0 none) (fetched (started .localChain unpaid))).2

/-- The block can be read. -/
theorem legible_block : Legible .small block := by
  refine Script.legible_block (by decide +kernel) fun tx mem => ?_
  rw [List.mem_singleton.mp mem]
  decide +kernel

/-- The scan of the block fails. -/
theorem exec_addBlock_unpaid : ∃ e, exec (addBlock .small environment block 0 none)
    (fetched (started .localChain unpaid)) = (.error e, broken) :=
  exec_eq_error (by decide +kernel)

/-- The refresh fails, and leaves the session in which the block has failed. -/
theorem broken_of_unpaid :
    ∃ e, exec (refreshFromLocalChain .small environment) unpaid = (.error e, broken) := by
  obtain ⟨e, run⟩ := exec_addBlock_unpaid
  exact ⟨e, exec_pull_error legible_block (s := unpaid) rfl rfl run⟩

/-- The only move of the refresh is the failed block. -/
theorem traceOfPull_unpaid : traceOfPull .small environment none .localChain unpaid =
    [⟨.failed, block, fetched (started .localChain unpaid), broken⟩] := by
  obtain ⟨e, run⟩ := exec_addBlock_unpaid
  exact traceOfPull_error legible_block (s := unpaid) rfl rfl run

end Busy

open Busy in
/-- What the scan of the block had found remains, at the height of the chain. -/
theorem residue_of_pull_error_busy :
    Wallet.create SmallSuite.account { retry := { maxRetries := 0 } } = .ok unpaid.wallet ∧
      (∃ e, exec (pull .small Script.environment .localChain none)
        (afterCalls .small Script.environment [] unpaid) = (.error e, broken)) ∧
      let u := lastStep .small Script.environment none .localChain unpaid
      let tried := lapses .small Script.environment none .localChain unpaid
      u = started .localChain unpaid ∧ tried = [block] ∧
        u.events <+: broken.events ∧
        broken.history.chain = u.history.chain ∧
        Grows (Tried .small tried u.history.height) u.history broken.history ∧
        broken.history.Within (broken.history.height + 1) := by
  obtain ⟨e, run⟩ := broken_of_unpaid
  obtain ⟨-, told, chain, grows, -, within⟩ := residue_of_pull_error .small
    Script.environment SmallSuite.account { retry := { maxRetries := 0 } } [] unpaid rfl
    .localChain none e broken run
  refine ⟨rfl, ⟨e, run⟩, ?_, ?_, told, chain, grows, within⟩
  · rw [lastStep, traceOfPull_unpaid]
    rfl
  · rw [lapses, traceOfPull_unpaid]
    rfl

open Busy in
/-- The refresh fails with an empty chain, but the reward is there, at the height of the chain. -/
theorem residue_of_busy_daemon :
    Wallet.create SmallSuite.account { retry := { maxRetries := 0 } } = .ok unpaid.wallet ∧
      unpaid.history.transfers = [] ∧
      (∃ e, exec (refreshFromLocalChain .small Script.environment) unpaid = (.error e, broken)) ∧
      broken.history.chain = [] ∧
      broken.history.transfers.map Transfer.blockHeight = [broken.history.height] := by
  refine ⟨rfl, rfl, broken_of_unpaid, ?_⟩
  decide +kernel

end RingWallet
