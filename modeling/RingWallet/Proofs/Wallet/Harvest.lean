import RingWallet.Proofs.Wallet.LocalChain
import RingWallet.Proofs.Wallet.Rescan

/-!
# What a refresh gathers

A refresh from the end of the chain fetches the next blocks in batches. A batch can fail in the
middle of a block, when the daemon does not answer, and is then tried again. The transactions of the
block that were scanned before the failure are scanned once more, which changes nothing
(`Sync.scanAll_again`), and the scan goes on with the others.

`Harvest` is a function of the blocks and of the indices of their outputs: what a refresh without
any failure has gathered. `Sync.Progress` says how far a refresh has got, and it is kept by a batch
however it ends (`Sync.progress_pullBatch`), unless the failure is one that cannot pass. So a
refresh that succeeds leaves the harvest of all blocks, or was asked to stop before it had them all:
`Sync.harvest_of_refreshFromLocalChain`.
-/

set_option autoImplicit false

namespace RingWallet

open Scan WalletM

/-- If a daemon tells the indices of the outputs of a transaction, they are always the same. -/
def Environment.Tells {σ : Type} (env : Environment σ) (indices : Hash → List UInt64) : Prop :=
  ∀ txHash e reply, ((env.getIndices txHash).run e).1 = .ok reply →
    reply.status = Daemon.okStatus → reply.indices = indices txHash

/-- A daemon that is asked for blocks from a height on, not below `start`, answers with the next
ones of some blocks that stand there, if it answers at all. It may send some of them only, but not
none if there are any. -/
structure Environment.Feeds {σ : Type} (S : Suite) (env : Environment σ) (start : Nat)
    (blocks : List ParsedBlock) (indices : Hash → List UInt64) : Prop where
  blocks : ∀ request e reply, start ≤ request.startHeight →
    ((env.getBlocks request).run e).1 = .ok reply → reply.status = Daemon.okStatus →
    reply.startHeight = request.startHeight ∧
      ∃ sent, sent <+: blocks.drop (request.startHeight - start) ∧
        List.Forall₂ (fun entry b => Sync.parseEntry S entry = .ok b) reply.blocks sent ∧
        (sent = [] → start + blocks.length ≤ request.startHeight)
  tells : env.Tells indices

/-- What a wallet has gathered: its history, and the transactions that brought funds, in order. -/
structure Harvest where
  history : History
  txHashes : List Hash := []

namespace Harvest

/-- What the summary of a refresh says that has gathered this from a number of blocks. -/
def summary (y : Harvest) (blocksFetched : Nat) : RefreshSummary where
  blocksFetched := blocksFetched
  receivedMoney := !y.txHashes.isEmpty
  receivedTxHashes := y.txHashes

variable (S : Suite) (account : Account) (config : Config) (indices : Hash → List UInt64)

/-- One more transaction. -/
def scan (y : Harvest) (p : Placed) : Harvest where
  history := reread S account indices y.history p
  txHashes :=
    if gained S account indices y.history p = 0 then y.txHashes else y.txHashes ++ [p.txHash]

/-- The transactions of a block that are scanned when it is the next one. -/
def next (y : Harvest) (b : ParsedBlock) : List Placed :=
  Sync.placed S account config y.history.height [b]

/-- One more block. -/
def add (y : Harvest) (b : ParsedBlock) : Harvest :=
  let scanned := (next S account config y b).foldl (scan S account indices) y
  { scanned with history.chain := scanned.history.chain ++ [b.id] }

/-- Some more blocks. -/
def addAll (y : Harvest) (blocks : List ParsedBlock) : Harvest :=
  blocks.foldl (add S account config indices) y

variable {S account config indices}

/-- The transactions of a block leave the chain to the block. -/
theorem chain_scans (y : Harvest) (ps : List Placed) :
    (ps.foldl (scan S account indices) y).history.chain = y.history.chain := by
  induction ps generalizing y with
  | nil => rfl
  | cons p rest ih =>
    rw [List.foldl_cons, ih]
    exact (changes_reread indices y.history p).chain_eq

/-- A block adds its id to the chain. -/
theorem chain_add (y : Harvest) (b : ParsedBlock) :
    (add S account config indices y b).history.chain = y.history.chain ++ [b.id] := by
  show ((next S account config y b).foldl (scan S account indices) y).history.chain ++ [b.id] = _
  rw [chain_scans]

/-- The blocks add their ids to the chain, in their order. -/
theorem chain_addAll (y : Harvest) (blocks : List ParsedBlock) :
    (addAll S account config indices y blocks).history.chain =
      y.history.chain ++ blocks.map ParsedBlock.id := by
  unfold addAll
  induction blocks generalizing y with
  | nil => simp
  | cons b rest ih =>
    rw [List.foldl_cons, ih, chain_add, List.map_cons, List.append_assoc]
    rfl

end Harvest

namespace Scan

variable {S : Suite} {account : Account} {h : History} {p : Placed}
  {indices : Hash → List UInt64}

/-! ### What does not matter to a scan -/

/-- Whether the transaction was waited for does not matter to what its scan adds. -/
theorem reread_forget : reread S account indices (h.forget p.txHash) p =
    reread S account indices h p := by
  unfold reread settled
  simp only [History.forget_forget]

/-- Whether the transaction was waited for does not matter to the money it brings either. -/
theorem gained_forget : gained S account indices (h.forget p.txHash) p =
    gained S account indices h p := by
  unfold gained
  simp only [History.forget_forget]

end Scan

namespace Sync

variable {S : Suite} {σ : Type} {env : Environment σ} {account : Account} {config : Config}
  {indices : Hash → List UInt64} {h₀ : History}

/-- A failure that may pass, or none. -/
def Survives {α : Type} (r : Except WalletError α) : Prop :=
  ∀ e, r = .error e → e.isRetryable = true

/-- A wallet has gathered something, and has scanned no more than that. It may have ceased to wait
for the next transaction that it has to scan, when the scan of that was given up. -/
structure Paused (account : Account) (config : Config) (y : Harvest) (blocksFetched : Nat)
    (rest : List Placed) (s : Session σ) : Prop where
  own : s.wallet.account = account
  same : s.wallet.config = config
  summary : s.summary = y.summary blocksFetched
  history : s.history = y.history ∨
    ∃ p others, rest = p :: others ∧ s.history = y.history.forget p.txHash

/-- A wallet that has nothing left to scan. -/
theorem Paused.history_eq {y : Harvest} {k : Nat} {s : Session σ}
    (paused : Paused account config y k [] s) : s.history = y.history := by
  rcases paused.history with eq | ⟨p, _, none, -⟩
  · exact eq
  · cases none

/-- Only the wallet and the summary matter. -/
theorem Paused.congr {y : Harvest} {k : Nat} {rest : List Placed} {s t : Session σ}
    (paused : Paused account config y k rest s) (wallet : t.wallet = s.wallet)
    (summary : t.summary = s.summary) : Paused account config y k rest t where
  own := by rw [wallet, paused.own]
  same := by rw [wallet, paused.same]
  summary := summary.trans paused.summary
  history := by
    rw [show t.history = s.history from congrArg Wallet.history wallet]
    exact paused.history

/-- Whether the next transaction is still waited for does not matter once it is scanned. -/
theorem Paused.forget_eq {y : Harvest} {k : Nat} {p : Placed} {rest : List Placed} {s : Session σ}
    (paused : Paused account config y k (p :: rest) s) :
    s.history.forget p.txHash = y.history.forget p.txHash := by
  rcases paused.history with eq | ⟨p', _, here, eq⟩
  · rw [eq]
  · obtain ⟨rfl, -⟩ := List.cons.inj here
    rw [eq, History.forget_forget]

/-! ### The scans of a block -/

/-- However the scan of a transaction ends, the summary is as it was. -/
theorem summary_of_transaction {p : Placed} {s t : Session σ} {r : Except WalletError ScanOutcome}
    (run : exec (transaction S env p.tx p.txHash p.height) s = (r, t)) : t.summary = s.summary := by
  have framed : Framed env fun u : Session σ => u.summary = s.summary :=
    ⟨fun _ _ _ same => same, fun _ _ same => same, fun _ _ same => same⟩
  have kept := framed.transaction S env p.tx p.txHash p.height s rfl
  rwa [run] at kept

/-- A scan that is given up leaves the wallet before the same transaction. -/
theorem Paused.given_up {y : Harvest} {k : Nat} {p : Placed} {rest : List Placed} {s t : Session σ}
    {e : WalletError} (paused : Paused account config y k (p :: rest) s)
    (run : exec (transaction S env p.tx p.txHash p.height) s = (.error e, t))
    (may_pass : e.isRetryable = true) : Paused account config y k (p :: rest) t := by
  have wallet := forget_of_retryable run may_pass
  refine ⟨?_, ?_, (summary_of_transaction run).trans paused.summary, .inr ⟨p, rest, rfl, ?_⟩⟩
  · rw [wallet, Wallet.account_withHistory, paused.own]
  · rw [wallet, Wallet.config_withHistory, paused.same]
  · rw [Session.history, wallet, Wallet.history_withHistory, paused.forget_eq]

/-- Transactions that are remembered are scanned again without an effect, up to a failure. -/
theorem scanAll_again {again rest : List Placed} {height : Nat} {s t : Session σ}
    {r : Except WalletError Unit} (at_height : ∀ p ∈ again, p.height = height)
    (remembered : ∀ p ∈ again, Scannable S s.wallet.account p.tx ∧
      s.history.Remembers S s.wallet.account p)
    (run : exec (scanAll S env height ((again ++ rest).map fun p => (p.txHash, p.tx))) s = (r, t))
    (survives : Survives r) :
    (r ≠ .ok () ∧ t.wallet = s.wallet ∧ t.summary = s.summary) ∨
      ∃ u : Session σ, u.wallet = s.wallet ∧ u.summary = s.summary ∧
        exec (scanAll S env height (rest.map fun p => (p.txHash, p.tx))) u = (r, t) := by
  induction again generalizing s with
  | nil => exact .inr ⟨s, rfl, rfl, run⟩
  | cons p again ih =>
    rw [List.forall_mem_cons] at at_height remembered
    obtain ⟨rfl, at_height⟩ := at_height
    obtain ⟨⟨scannable, remembers⟩, remembered⟩ := remembered
    rw [List.cons_append, List.map_cons, scanAll, exec_bind] at run
    rcases first : exec (transaction S env p.tx p.txHash p.height) s with ⟨e | o, u⟩
    · -- the scan is given up, and the transaction was not waited for
      rw [first] at run
      obtain ⟨rfl, rfl⟩ := Prod.mk.inj run
      have wallet := forget_of_retryable first (survives e rfl)
      rw [History.forget_eq_self remembers.confirmed] at wallet
      exact .inl ⟨by simp, wallet, summary_of_transaction first⟩
    · rw [first] at run
      have summary := summary_of_transaction first
      obtain ⟨wallet, received⟩ := wallet_of_remembers first scannable remembers
      simp only [] at run
      rw [if_neg (by simpa using received)] at run
      -- what is remembered stays remembered, since nothing has changed
      have history : u.history = s.history := congrArg Wallet.history wallet
      rcases ih at_height (by rw [wallet, history]; exact remembered) run with
        ⟨failed, same, same'⟩ | ⟨v, same, same', later⟩
      · exact .inl ⟨failed, same.trans wallet, same'.trans summary⟩
      · exact .inr ⟨v, same.trans wallet, same'.trans summary, later⟩

section

variable (tells : env.Tells indices)

include tells

/-- A transaction that was scanned could be looked into. -/
theorem scannable_of_transaction {p : Placed} {s t : Session σ} {o : ScanOutcome}
    (run : exec (transaction S env p.tx p.txHash p.height) s = (.ok o, t)) :
    Scannable S s.wallet.account p.tx ∧ ∀ d own, Finds S s.wallet.account p.tx d own →
      Worth p.tx own → (indices p.txHash).length = p.tx.outputs.length := by
  obtain ⟨r, u, run', ends⟩ := exec_transaction S env p.tx p.txHash p.height s
  obtain ⟨rfl, rfl⟩ := Prod.mk.inj (run'.symm.trans run)
  cases ends with
  | passed unusable core =>
    refine ⟨fun d usable => ?_, fun d own finds => ?_⟩
    · cases unusable.symm.trans usable
    · cases unusable.symm.trans finds.usable
  -- a scan that completed had an answer of the right length
  | settled completed wallet =>
    refine ⟨scannable_of_completed completed, fun d own finds worth => ?_⟩
    obtain rfl := Option.some.inj (finds.usable.symm.trans completed.usable)
    obtain rfl := Except.ok.inj (finds.owned.symm.trans completed.owned)
    rw [← tells p.txHash s.env _ (congrArg Prod.fst (completed.asked worth)) rfl]
    exact completed.length_eq worth

/-- A scan that comes to its end brings the wallet before the next transaction. What it received is
in the summary as soon as that is written. -/
theorem Paused.scanned {y : Harvest} {k : Nat} {p : Placed} {rest : List Placed} {s t : Session σ}
    {o : ScanOutcome} (paused : Paused account config y k (p :: rest) s)
    (run : exec (transaction S env p.tx p.txHash p.height) s = (.ok o, t)) :
    o.received = gained S account indices y.history p ∧ t.summary = y.summary k ∧
      ∀ u : Session σ, u.wallet = t.wallet →
        u.summary = (Harvest.scan S account indices y p).summary k →
        Paused account config (Harvest.scan S account indices y p) k rest u := by
  obtain ⟨wallet, received⟩ := reread_of_transaction run fun reply => tells p.txHash s.env reply
  -- a pending entry for the transaction is dropped in any case, so that both histories are read
  -- alike
  have told : reread S account indices s.history p = reread S account indices y.history p := by
    rw [← reread_forget, paused.forget_eq, reread_forget]
  have worth : gained S account indices s.history p = gained S account indices y.history p := by
    rw [← gained_forget, paused.forget_eq, gained_forget]
  rw [paused.own, told] at wallet
  rw [paused.own, worth] at received
  refine ⟨received, (summary_of_transaction run).trans paused.summary, fun u same now => ?_⟩
  rw [wallet] at same
  refine ⟨?_, ?_, now, .inl ?_⟩
  · rw [same, Wallet.account_withHistory, paused.own]
  · rw [same, Wallet.config_withHistory, paused.same]
  · rw [Session.history, same, Wallet.history_withHistory]
    rfl

/-- The next transactions are scanned one after the other, up to a failure. -/
theorem scanAll_rest {rest past : List Placed} {height : Nat} {y : Harvest} {k : Nat}
    {s t : Session σ} {r : Except WalletError Unit} (at_height : ∀ p ∈ rest, p.height = height)
    (paused : Paused account config y k rest s) (trail : Trail S account past h₀ y.history)
    (run : exec (scanAll S env height (rest.map fun p => (p.txHash, p.tx))) s = (r, t))
    (survives : Survives r) :
    ∃ done later, rest = done ++ later ∧
      Paused account config (done.foldl (Harvest.scan S account indices) y) k later t ∧
      Trail S account (past ++ done) h₀
        (done.foldl (Harvest.scan S account indices) y).history ∧
      (r = .ok () → later = []) := by
  induction rest generalizing y past s with
  | nil =>
    obtain ⟨rfl, rfl⟩ := Prod.mk.inj run
    exact ⟨[], [], rfl, paused, (List.append_nil past).symm ▸ trail, fun _ => rfl⟩
  | cons p rest ih =>
    rw [List.forall_mem_cons] at at_height
    obtain ⟨rfl, at_height⟩ := at_height
    rw [List.map_cons, scanAll, exec_bind] at run
    rcases first : exec (transaction S env p.tx p.txHash p.height) s with ⟨e | o, u⟩
    · rw [first] at run
      obtain ⟨rfl, rfl⟩ := Prod.mk.inj run
      exact ⟨[], p :: rest, rfl, paused.given_up first (survives e rfl),
        (List.append_nil past).symm ▸ trail, by simp⟩
    · rw [first] at run
      obtain ⟨scannable, length⟩ := scannable_of_transaction tells first
      rw [paused.own] at scannable length
      have grown : Trail S account (past ++ [p]) h₀
          (Harvest.scan S account indices y p).history :=
        .scan (indices p.txHash) scannable length trail
      obtain ⟨received, before, resumed⟩ := paused.scanned tells first
      -- the summary is written before the scan goes on with the others
      obtain ⟨v, paused, run⟩ : ∃ v,
          Paused account config (Harvest.scan S account indices y p) k rest v ∧
          exec (scanAll S env p.height (rest.map fun p => (p.txHash, p.tx))) v = (r, t) := by
        simp only [] at run
        by_cases some_funds : o.received ≠ 0
        · rw [if_pos some_funds, exec_bind_ok _ (exec_modifySummary _ u)] at run
          refine ⟨_, resumed _ (by rfl) ?_, run⟩
          rw [received] at some_funds
          simp [before, Harvest.summary, Harvest.scan, some_funds]
        · rw [if_neg some_funds] at run
          refine ⟨u, resumed u rfl ?_, run⟩
          rw [received, not_not] at some_funds
          simp [before, Harvest.summary, Harvest.scan, some_funds]
      obtain ⟨done, later, rfl, paused, trail, all⟩ := ih at_height paused grown run
      refine ⟨p :: done, later, rfl, paused, ?_, all⟩
      rw [List.append_cons]
      exact trail

end

/-- The scan of the transactions `ps` of a block was interrupted, after a first part of them. -/
def Midway (S : Suite) (account : Account) (config : Config) (indices : Hash → List UInt64)
    (h₀ : History) (past ps : List Placed) (y : Harvest) (k : Nat) (s : Session σ) : Prop :=
  ∃ done rest, ps = done ++ rest ∧
    Paused account config (done.foldl (Harvest.scan S account indices) y) k rest s ∧
    Trail S account (past ++ done) h₀ (done.foldl (Harvest.scan S account indices) y).history

/-- A scan that has not begun is interrupted in front of the first transaction. -/
theorem Midway.begin {past ps : List Placed} {y : Harvest} {k : Nat} {s : Session σ}
    (paused : Paused account config y k [] s) (trail : Trail S account past h₀ y.history) :
    Midway S account config indices h₀ past ps y k s := by
  refine ⟨[], ps, rfl, ⟨paused.own, paused.same, paused.summary, .inl paused.history_eq⟩, ?_⟩
  rw [List.append_nil]
  exact trail

/-- The wallet in the middle of a block is still that of the account, under its configuration. -/
theorem Midway.account_eq {past ps : List Placed} {y : Harvest} {k : Nat} {s : Session σ}
    (mid : Midway S account config indices h₀ past ps y k s) :
    s.wallet.account = account ∧ s.wallet.config = config := by
  obtain ⟨done, rest, -, paused, -⟩ := mid
  exact ⟨paused.own, paused.same⟩

/-- An interrupted scan has not changed the chain. -/
theorem Midway.height_eq {past ps : List Placed} {y : Harvest} {k : Nat} {s : Session σ}
    (mid : Midway S account config indices h₀ past ps y k s) :
    s.history.height = y.history.height := by
  obtain ⟨done, rest, -, paused, -⟩ := mid
  have chain : (done.foldl (Harvest.scan S account indices) y).history.chain = y.history.chain :=
    Harvest.chain_scans y done
  unfold History.height
  rw [← chain]
  rcases paused.history with eq | ⟨p, _, _, eq⟩
  · rw [eq]
  · rw [eq]
    rfl

/-- Only the wallet and the summary matter. -/
theorem Midway.congr {past ps : List Placed} {y : Harvest} {k : Nat} {s t : Session σ}
    (mid : Midway S account config indices h₀ past ps y k s) (wallet : t.wallet = s.wallet)
    (summary : t.summary = s.summary) : Midway S account config indices h₀ past ps y k t := by
  obtain ⟨done, rest, eq, paused, trail⟩ := mid
  exact ⟨done, rest, eq, paused.congr wallet summary, trail⟩

section

variable (tells : env.Tells indices) (points : h₀.Points)

include tells points

/-- The scan of a block is resumed, and is interrupted again or comes to its end. -/
theorem midway_scanAll {past ps : List Placed} {height : Nat} {y : Harvest} {k : Nat}
    {s t : Session σ} {r : Except WalletError Unit}
    (order : SpendsInOrder S account h₀ (past ++ ps)) (at_height : ∀ p ∈ ps, p.height = height)
    (mid : Midway S account config indices h₀ past ps y k s)
    (run : exec (scanAll S env height (ps.map fun p => (p.txHash, p.tx))) s = (r, t))
    (survives : Survives r) :
    Midway S account config indices h₀ past ps y k t ∧ (r = .ok () →
      Paused account config (ps.foldl (Harvest.scan S account indices) y) k [] t ∧
      Trail S account (past ++ ps) h₀ (ps.foldl (Harvest.scan S account indices) y).history) := by
  have mid' := mid
  obtain ⟨done, rest, rfl, paused, trail⟩ := mid
  rw [List.forall_mem_append] at at_height
  rw [← List.append_assoc] at order
  -- what was scanned before the interruption is remembered
  obtain ⟨-, -, remembered⟩ := trail.remembers points order.of_append
  have again : ∀ p ∈ done, Scannable S s.wallet.account p.tx ∧
      s.history.Remembers S s.wallet.account p := by
    intro p mem
    obtain ⟨scannable, remembers⟩ := remembered p (List.mem_append_right _ mem)
    rw [paused.own]
    refine ⟨scannable, ?_⟩
    rcases paused.history with eq | ⟨q, _, _, eq⟩
    · rw [eq]
      exact remembers
    · rw [eq]
      exact remembers.forget q.txHash
  rcases scanAll_again at_height.1 again run survives with
    ⟨failed, wallet, summary⟩ | ⟨u, wallet, summary, run⟩
  · exact ⟨mid'.congr wallet summary, fun succeeds => absurd succeeds failed⟩
  · obtain ⟨more, later, rfl, paused, trail, all⟩ :=
      scanAll_rest tells at_height.2 (paused.congr wallet summary) trail run survives
    rw [← List.foldl_append] at paused trail
    rw [List.append_assoc] at trail
    refine ⟨⟨done ++ more, later, (List.append_assoc ..).symm, paused, trail⟩, fun succeeds => ?_⟩
    obtain rfl := all succeeds
    rw [List.append_nil]
    exact ⟨paused, trail⟩

/-- A block is taken up where its scan was interrupted. It is added, or interrupted again. -/
theorem midway_addBlock {past : List Placed} {b : ParsedBlock} {y : Harvest} {k : Nat}
    {s t : Session σ} {r : Except WalletError Unit}
    (order : SpendsInOrder S account h₀ (past ++ y.next S account config b))
    (mid : Midway S account config indices h₀ past (y.next S account config b) y k s)
    (run : exec (addBlock S env b s.history.height none) s = (r, t)) (survives : Survives r) :
    (r ≠ .ok () ∧ Midway S account config indices h₀ past (y.next S account config b) y k t) ∨
      r = .ok () ∧ Paused account config (y.add S account config indices b) (k + 1) [] t ∧
        Trail S account (past ++ y.next S account config b) h₀
          (y.add S account config indices b).history := by
  obtain ⟨own, same⟩ := mid.account_eq
  have height := mid.height_eq
  -- a block that is too old has no transactions to scan
  have scan : scanBlock S env b s.history.height s =
      exec (scanAll S env s.history.height
        ((y.next S account config b).map fun p => (p.txHash, p.tx))) s := by
    unfold scanBlock isRelevant Harvest.next placed
    rw [own, same, List.zipIdx_singleton, List.flatMap_singleton]
    by_cases young : account.createTime < b.block.timestamp.addSat config.timestampTolerance
    · simp only [young, decide_true, if_true, List.map_map, Function.comp_def, List.map_id']
    · simp only [young, decide_false, if_false]
      rfl
  have at_height : ∀ p ∈ y.next S account config b, p.height = s.history.height := by
    intro p mem
    unfold Harvest.next placed at mem
    rw [List.zipIdx_singleton, List.flatMap_singleton] at mem
    simp only [] at mem
    split at mem
    · obtain ⟨q, -, rfl⟩ := List.mem_map.mp mem
      exact height.symm
    · cases mem
  rw [exec_addBlock, scan] at run
  rcases scanned : exec (scanAll S env s.history.height
    ((y.next S account config b).map fun p => (p.txHash, p.tx))) s with ⟨e | ⟨⟩, u⟩
  · rw [scanned] at run
    obtain ⟨rfl, rfl⟩ := Prod.mk.inj run
    refine .inl ⟨by simp, (midway_scanAll tells points order at_height mid scanned ?_).1⟩
    exact survives
  · rw [scanned] at run
    obtain ⟨rfl, rfl⟩ := Prod.mk.inj run
    obtain ⟨paused, trail⟩ :=
      (midway_scanAll tells points order at_height mid scanned (by simp [Survives])).2 rfl
    refine .inr ⟨rfl, ⟨paused.own, paused.same, ?_, .inl ?_⟩, .append b.id trail⟩
    · rw [summary_appended_none, paused.summary]
      rfl
    · show ({ u.history with chain := u.history.chain ++ [b.id] } : History) = _
      rw [paused.history_eq]
      rfl

end

/-! ### Batches -/

variable {blocks : List ParsedBlock}

/-- A refresh from the end of the chain has added `k` of the next blocks, and may have been
interrupted in the one after them. -/
def Progress (S : Suite) (account : Account) (config : Config) (indices : Hash → List UInt64)
    (h₀ : History) (blocks : List ParsedBlock) (k : Nat) (s : Session σ) : Prop :=
  let y := Harvest.addAll S account config indices ⟨h₀, []⟩ (blocks.take k)
  k ≤ blocks.length ∧ Midway S account config indices h₀
    (placed S account config h₀.height (blocks.take k))
    ((blocks[k]?).elim [] (y.next S account config)) y k s

/-- Every added block makes the chain longer by one. -/
theorem height_addAll (h₀ : History) {k : Nat} (inside : k ≤ blocks.length) :
    (Harvest.addAll S account config indices ⟨h₀, []⟩ (blocks.take k)).history.height =
      h₀.height + k := by
  unfold History.height
  rw [Harvest.chain_addAll, List.length_append, List.length_map, List.length_take,
    Nat.min_eq_left inside]

/-- The height of the wallet counts the added blocks. -/
theorem Progress.height_eq {k : Nat} {s : Session σ}
    (progress : Progress S account config indices h₀ blocks k s) :
    s.history.height = h₀.height + k :=
  progress.2.height_eq.trans (height_addAll h₀ progress.1)

/-- The progress of a refresh is seen in the wallet and the summary alone. -/
theorem Progress.congr {k : Nat} {s t : Session σ}
    (progress : Progress S account config indices h₀ blocks k s) (wallet : t.wallet = s.wallet)
    (summary : t.summary = s.summary) : Progress S account config indices h₀ blocks k t :=
  ⟨progress.1, progress.2.congr wallet summary⟩

/-- A refresh without a target finds none, and its summary counts the added blocks. -/
theorem Progress.open_end {k : Nat} {s : Session σ}
    (progress : Progress S account config indices h₀ blocks k s) :
    s.summary.targetFound = false ∧ s.summary.blocksFetched = k := by
  obtain ⟨-, done, rest, -, paused, -⟩ := progress
  rw [paused.summary]
  exact ⟨rfl, rfl⟩

/-- A refresh that has added all blocks has gathered everything. -/
theorem Progress.complete {s : Session σ}
    (progress : Progress S account config indices h₀ blocks blocks.length s) :
    s.history = (Harvest.addAll S account config indices ⟨h₀, []⟩ blocks).history ∧
      s.summary =
        (Harvest.addAll S account config indices ⟨h₀, []⟩ blocks).summary blocks.length := by
  obtain ⟨-, done, rest, none, paused, -⟩ := progress
  rw [List.getElem?_eq_none (Nat.le_refl _)] at none
  obtain ⟨rfl, rfl⟩ := List.append_eq_nil_iff.mp none.symm
  rw [List.take_length] at paused
  exact ⟨paused.history_eq, paused.summary⟩

section

variable (tells : env.Tells indices) (points : h₀.Points)
  (order : SpendsInOrder S account h₀ (placed S account config h₀.height blocks))

include tells points order

/-- The next block is added, or its scan is interrupted. -/
theorem progress_addBlock {b : ParsedBlock} {k : Nat} {s t : Session σ}
    {r : Except WalletError Unit} (here : blocks[k]? = some b)
    (progress : Progress S account config indices h₀ blocks k s)
    (run : exec (addBlock S env b s.history.height none) s = (r, t)) (survives : Survives r) :
    (r ≠ .ok () ∧ Progress S account config indices h₀ blocks k t) ∨
      r = .ok () ∧ Progress S account config indices h₀ blocks (k + 1) t := by
  obtain ⟨inside, mid⟩ := progress
  have next_inside : k + 1 ≤ blocks.length := (List.getElem?_eq_some_iff.mp here).1
  rw [here, Option.elim_some] at mid
  -- the transactions of the block come after those of the blocks below it
  have grown : placed S account config h₀.height (blocks.take (k + 1)) =
      placed S account config h₀.height (blocks.take k) ++
        (Harvest.addAll S account config indices ⟨h₀, []⟩ (blocks.take k)).next S account config
          b := by
    unfold Harvest.next
    rw [height_addAll h₀ inside, List.take_add_one, here, Option.toList_some, placed_append,
      List.length_take, Nat.min_eq_left inside]
  have first : SpendsInOrder S account h₀ (placed S account config h₀.height (blocks.take k) ++
      (Harvest.addAll S account config indices ⟨h₀, []⟩ (blocks.take k)).next S account config
        b) := by
    rw [← grown]
    rw [← List.take_append_drop (k + 1) blocks, placed_append] at order
    exact order.of_append
  rcases midway_addBlock tells points first mid run survives with
    ⟨failed, again⟩ | ⟨succeeds, paused, trail⟩
  · refine .inl ⟨failed, inside, ?_⟩
    rw [here]
    exact again
  · refine .inr ⟨succeeds, next_inside, ?_⟩
    have added : Harvest.addAll S account config indices ⟨h₀, []⟩ (blocks.take (k + 1)) =
        (Harvest.addAll S account config indices ⟨h₀, []⟩ (blocks.take k)).add S account config
          indices b := by
      unfold Harvest.addAll
      rw [List.take_add_one, here, Option.toList_some, List.foldl_append]
      rfl
    rw [added, grown]
    exact .begin paused trail

/-- The blocks of a batch are added, up to one whose scan is interrupted. -/
theorem progress_addBlocks {sent : List ParsedBlock} {k : Nat} {s t : Session σ}
    {r : Except WalletError Unit} (part : sent <+: blocks.drop k)
    (progress : Progress S account config indices h₀ blocks k s)
    (run : exec (addBlocks S env none sent) s = (r, t)) (survives : Survives r) :
    ∃ k', Progress S account config indices h₀ blocks k' t := by
  induction sent generalizing s k with
  | nil =>
    obtain ⟨rfl, rfl⟩ := Prod.mk.inj run
    exact ⟨k, progress⟩
  | cons b sent ih =>
    obtain ⟨here, others⟩ := next_of_prefix_drop part
    rw [addBlocks, exec_bind_ok _ (exec_history s), exec_bind] at run
    rcases added : exec (addBlock S env b s.history.height none) s with ⟨e | ⟨⟩, u⟩
    -- a block that fails stays where it is in the progress
    · rw [added] at run
      obtain ⟨rfl, rfl⟩ := Prod.mk.inj run
      rcases progress_addBlock tells points order here progress added survives with
        ⟨-, again⟩ | ⟨none, -⟩
      · exact ⟨k, again⟩
      · cases none
    · rw [added] at run
      rcases progress_addBlock tells points order here progress added (by simp [Survives]) with
        ⟨failed, -⟩ | ⟨-, more⟩
      · exact absurd rfl failed
      · exact ih others more run

end

section

variable (feeds : env.Feeds S h₀.height blocks indices) (points : h₀.Points)
  (order : SpendsInOrder S account h₀ (placed S account config h₀.height blocks))

include feeds points order

/-- However a batch ends, the refresh has got as far as before or farther. It brings nothing only if
there is nothing left. -/
theorem progress_pullBatch {k : Nat} {s t : Session σ} {r : Except WalletError Nat}
    (progress : Progress S account config indices h₀ blocks k s)
    (run : exec (pullBatch S env s.history.height none) s = (r, t)) (survives : Survives r) :
    ∃ k', Progress S account config indices h₀ blocks k' t ∧ (r = .ok 0 → k' = blocks.length) := by
  rcases exec_pullBatch_cases S env none s.history.height s with
    ⟨error, e, failed⟩ | ⟨reply, e, answer, accepted⟩
  · obtain ⟨rfl, rfl⟩ := Prod.mk.inj (failed.symm.trans run)
    exact ⟨k, progress.congr rfl rfl, by simp⟩
  · have above : h₀.height ≤ s.history.height := by
      rw [progress.height_eq]
      exact Nat.le_add_right _ _
    obtain ⟨start, sent, part, parsed, all⟩ :=
      feeds.blocks _ s.env reply above (congrArg Prod.fst answer) accepted
    rw [show s.history.height - h₀.height = k by rw [progress.height_eq, Nat.add_sub_cancel_left]]
      at part
    let answered : Session σ := { s with env := e }
    have waiting : Progress S account config indices h₀ blocks k answered :=
      progress.congr rfl rfl
    rw [exec_pullBatch_of_reply reply answer accepted parsed,
      show reply.startHeight = answered.history.height from start] at run
    replace run := (exec_placeAll_on_top sent true waiting.open_end.1).symm.trans run
    rcases added : exec (addBlocks S env none sent) answered with ⟨error | ⟨⟩, u⟩
    all_goals
      rw [added] at run
      obtain ⟨rfl, rfl⟩ := Prod.mk.inj run
    · obtain ⟨k', farther⟩ := progress_addBlocks feeds.tells points order part waiting added
        fun e' is_e => survives e' (by rw [Except.error.inj is_e])
      exact ⟨k', farther, by simp⟩
    · obtain ⟨k', farther⟩ :=
        progress_addBlocks feeds.tells points order part waiting added (by simp [Survives])
      refine ⟨k', farther, fun none => ?_⟩
      -- nothing was sent, which means that nothing is left
      have empty : sent = [] := List.length_eq_zero_iff.mp (Except.ok.inj none)
      have end_of_blocks : h₀.height + blocks.length ≤ s.history.height := all empty
      rw [empty] at added
      obtain rfl := (Prod.mk.inj added).2
      have same := farther.height_eq.symm.trans waiting.height_eq
      have inside := progress.1
      rw [progress.height_eq] at end_of_blocks
      omega

/-! ### Refreshes -/

/-- A refresh that succeeds has got to the end of the blocks, or was asked to stop. -/
theorem progress_pullLoop {rounds : Nat} {first : Bool} {tries : Nat} {delay : Delay} {k : Nat}
    {s t : Session σ} (progress : Progress S account config indices h₀ blocks k s)
    (run : exec (pullLoop S env .localChain none rounds first tries delay) s = (.ok (), t)) :
    ∃ k', Progress S account config indices h₀ blocks k' t ∧
      (t.stop = true ∨ k' = blocks.length) := by
  induction rounds generalizing first tries delay s k with
  | zero => cases run
  | succ rounds ih =>
    rw [exec_pullLoop_succ] at run
    have looked : Progress S account config indices h₀ blocks k (polled env s) :=
      progress.congr rfl rfl
    by_cases stop : (polled env s).stop = true
    · rw [if_pos stop] at run
      obtain ⟨-, rfl⟩ := Prod.mk.inj run
      exact ⟨k, looked, .inl stop⟩
    rw [if_neg stop] at run
    rcases batch : exec (pullBatch S env (polled env s).history.height none) (polled env s) with
      ⟨e | added, u⟩
    all_goals
      rw [show exec (pullBatch S env (batchStart .localChain first s) none) (polled env s) = _
        from batch] at run
      simp only [afterBatch] at run
      split at run
    · -- the batch failed, and is tried again after a while
      next again =>
      obtain ⟨k', farther, -⟩ := progress_pullBatch feeds points order looked batch
        (fun e' is_e => by rw [← Except.error.inj is_e]; exact again.1)
      exact ih (by exact farther.congr rfl rfl) run
    · cases run
    -- a batch that adds nothing is the last one, and all blocks are there
    · next last =>
      obtain ⟨k', farther, done⟩ := progress_pullBatch feeds points order looked batch
        (by simp [Survives])
      obtain ⟨-, rfl⟩ := Prod.mk.inj run
      refine ⟨k', farther, .inr (done ?_)⟩
      rw [farther.open_end.1] at last
      rw [last.resolve_right Bool.false_ne_true]
    · obtain ⟨k', farther, -⟩ := progress_pullBatch feeds points order looked batch
        (by simp [Survives])
      exact ih farther run

end

/-- A refresh from the end of the chain that succeeds has gathered all blocks, whatever their
batches were and whatever failed in between. Otherwise it was asked to stop before it had them all.
-/
theorem harvest_of_refreshFromLocalChain {s t : Session σ} {summary : RefreshSummary}
    (feeds : env.Feeds S s.history.height blocks indices) (points : s.history.Points)
    (order : SpendsInOrder S s.wallet.account s.history
      (placed S s.wallet.account s.wallet.config s.history.height blocks))
    (run : exec (refreshFromLocalChain S env) s = (.ok summary, t)) :
    (t.stop = true ∧ summary.blocksFetched < blocks.length) ∨
      let y := Harvest.addAll S s.wallet.account s.wallet.config indices ⟨s.history, []⟩ blocks
      t.wallet = s.wallet.withHistory y.history ∧ summary = y.summary blocks.length := by
  unfold refreshFromLocalChain at run
  rw [exec_pull] at run
  rcases loop : exec (pullLoop S env .localChain none env.maxRounds true 0
    s.wallet.config.retry.firstDelay) (started .localChain s) with ⟨e | ⟨⟩, u⟩
  · rw [loop] at run
    cases run
  rw [loop] at run
  obtain ⟨result, rfl⟩ := Prod.mk.inj run
  obtain rfl := Except.ok.inj result
  have start : Progress S s.wallet.account s.wallet.config indices s.history blocks 0
      (started .localChain s) :=
    ⟨Nat.zero_le _, .begin ⟨rfl, rfl, rfl, .inl rfl⟩ (.refl s.history)⟩
  obtain ⟨k, progress, ended⟩ := progress_pullLoop feeds points order start loop
  -- only a stop can end the loop before the last block
  rcases Nat.lt_or_ge k blocks.length with short | all
  · refine .inl ⟨?_, ?_⟩
    · show (u.stop || _) = true
      rw [ended.resolve_right (Nat.ne_of_lt short), Bool.true_or]
    · rw [progress.open_end.2]
      exact short
  · obtain rfl : k = blocks.length := Nat.le_antisymm progress.1 all
    obtain ⟨own, same⟩ := progress.2.account_eq
    obtain ⟨history, gathered⟩ := progress.complete
    refine .inr ⟨?_, gathered⟩
    show u.wallet = ⟨s.wallet.account, s.wallet.config, Harvest.history _⟩
    rw [← history, ← own, ← same]
    rfl

end Sync

end RingWallet
