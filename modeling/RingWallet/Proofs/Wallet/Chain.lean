import RingWallet.Proofs.Wallet.Marks

/-!
# Scanning a chain

`Sync.addBlocks` scans blocks in order and adds them to the end of the chain. `Sync.scanned` are the
transactions that it looks into, at their heights: those of the blocks that are young enough for the
account, reward first, whose transaction key the account can use.

`Sync.addBlocks_induction` is the way to reason about a run that succeeds. What holds at its start
and is kept by each scan of a transaction and each new block holds at its end; it may speak of the
transactions that were looked into so far, and of the state of the daemon.
`Sync.addBlocks_tracked` is the same for what speaks of all transactions of the blocks.
-/

set_option autoImplicit false

namespace RingWallet

/-- A transaction at its place in the chain. -/
structure Placed where
  height : Nat
  txHash : Hash
  tx : Transaction

/-- The key images among the inputs of some transactions. -/
def spentImages (txs : List Placed) : List KeyImage :=
  txs.flatMap fun p => p.tx.inputs.filterMap TxIn.keyImage?

namespace Sync

open Scan WalletM

variable (S : Suite) {σ : Type} (env : Environment σ)

/-- Scans blocks and adds them to the end of the chain, one after the other. -/
def addBlocks (target : Option Hash) : List ParsedBlock → WalletM σ Unit
  | [] => pure ()
  | b :: rest => do
    addBlock S env b (← WalletM.history).height target
    addBlocks target rest

/-- The transactions of the blocks that are young enough for an account, at their heights; the first
block stands at the height `start`. -/
def placed (account : Account) (config : Config) (start : Nat) (blocks : List ParsedBlock) :
    List Placed :=
  (blocks.zipIdx start).flatMap fun (b, height) =>
    if account.createTime < b.block.timestamp.addSat config.timestampTolerance then
      (allTransactions S b).map fun (txHash, tx) => ⟨height, txHash, tx⟩
    else []

/-- Some blocks, and those above them. -/
theorem placed_append (account : Account) (config : Config) (start : Nat)
    (blocks more : List ParsedBlock) :
    placed S account config start (blocks ++ more) =
      placed S account config start blocks ++
        placed S account config (start + blocks.length) more := by
  unfold placed
  rw [List.zipIdx_append, List.flatMap_append]

/-- The first block alone, and the others from one height above. -/
theorem placed_cons (account : Account) (config : Config) (start : Nat) (b : ParsedBlock)
    (rest : List ParsedBlock) :
    placed S account config start (b :: rest) =
      placed S account config start [b] ++ placed S account config (start + 1) rest :=
  placed_append S account config start [b] rest

/-- The transactions from some height on are some of all. -/
theorem mem_placed_of_mem_drop {account : Account} {config : Config} {start n : Nat}
    {blocks : List ParsedBlock} {p : Placed}
    (mem : p ∈ placed S account config (start + n) (blocks.drop n)) :
    p ∈ placed S account config start blocks := by
  rcases Nat.lt_or_ge blocks.length n with beyond | inside
  · rw [List.drop_eq_nil_of_le (Nat.le_of_lt beyond)] at mem
    cases mem
  · have cut := placed_append S account config start (blocks.take n) (blocks.drop n)
    rw [List.take_append_drop, List.length_take, Nat.min_eq_left inside] at cut
    rw [cut]
    exact List.mem_append_right _ mem

/-- Whether an account can use the key of a transaction. -/
def isReadable (account : Account) (p : Placed) : Bool :=
  (derivation? S account.keys (Extra.parse p.tx.extra).1).isSome

/-- The transactions that a scan of some blocks looks into. -/
def scanned (account : Account) (config : Config) (start : Nat) (blocks : List ParsedBlock) :
    List Placed :=
  (placed S account config start blocks).filter (isReadable S account)

/-! ### Induction over a successful scan -/

/-- A property of the transactions of young blocks so far, of the state of the daemon, and of the
history, is kept by the scans of an account. -/
structure Tracked (account : Account) (motive : List Placed → σ → History → Prop) : Prop where
  /-- A transaction whose key the account cannot use is no longer unconfirmed. -/
  skip : ∀ past e h (p : Placed), isReadable S account p = false → motive past e h →
    motive (past ++ [p]) e (h.forget p.txHash)
  scan : ∀ past e e' h (p : Placed) d own indices,
    Completed S env account p.tx p.txHash e e' d own indices → p.height = h.height →
    motive past e h → motive (past ++ [p]) e'
      (settled S account.keys d p.tx p.txHash p.height indices own h)
  append : ∀ past e h id, motive past e h → motive past e { h with chain := h.chain ++ [id] }

/-- A property of the transactions looked into so far, of the state of the daemon, and of the
history, is kept by the scans of an account. -/
structure Kept (account : Account) (motive : List Placed → σ → History → Prop) : Prop where
  /-- A transaction whose key the account cannot use is no longer unconfirmed. -/
  skip : ∀ past e h (p : Placed), isReadable S account p = false → motive past e h →
    motive past e (h.forget p.txHash)
  scan : ∀ past e e' h (p : Placed) d own indices,
    Completed S env account p.tx p.txHash e e' d own indices → p.height = h.height →
    motive past e h → motive (past ++ [p]) e'
      (settled S account.keys d p.tx p.txHash p.height indices own h)
  append : ∀ past e h id, motive past e h → motive past e { h with chain := h.chain ++ [id] }

variable {S env} {account : Account} {config : Config} {motive : List Placed → σ → History → Prop}

/-- The transactions looked into are some of all. -/
theorem Kept.tracked (kept : Kept S env account motive) (past : List Placed) :
    Tracked S env account fun all => motive (past ++ all.filter (isReadable S account)) where
  skip all e h p unreadable before := by
    rw [List.filter_append, List.filter_cons_of_neg (by simp [unreadable]), List.filter_nil,
      List.append_nil]
    exact kept.skip _ e h p unreadable before
  scan all e e' h p d own indices completed on_top before := by
    -- a scan that completed had a usable key
    have readable : isReadable S account p = true := by
      rw [isReadable, completed.usable]
      rfl
    rw [List.filter_append, List.filter_cons_of_pos readable, List.filter_nil, ← List.append_assoc]
    exact kept.scan _ e e' h p d own indices completed on_top before
  append all e h id before := kept.append _ e h id before

/-- The scan of one transaction. -/
theorem transaction_induction (tracked : Tracked S env account motive) {p : Placed}
    {s t : Session σ} {o : ScanOutcome}
    (run : exec (transaction S env p.tx p.txHash p.height) s = (.ok o, t))
    (own : s.wallet.account = account) (on_top : p.height = s.history.height) {past : List Placed}
    (start : motive past s.env s.history) :
    (∃ h, t.wallet = s.wallet.withHistory h ∧ h.chain = s.history.chain) ∧
      motive (past ++ [p]) t.env t.history := by
  subst own
  -- a scan that succeeds ends in one of two ways
  obtain ⟨r, u, run', ends⟩ := exec_transaction S env p.tx p.txHash p.height s
  rw [run] at run'
  obtain ⟨rfl, rfl⟩ := Prod.mk.inj run'
  obtain ⟨h, wallet, changes⟩ := ends.changes (List.mem_singleton_self (p.txHash, p.tx))
  refine ⟨⟨h, wallet, changes.chain_eq⟩, ?_⟩
  cases ends with
  | passed unusable core =>
    have unreadable : isReadable S s.wallet.account p = false := by
      rw [isReadable, unusable]
      rfl
    rw [Session.env_of_core core, Session.history, Session.wallet_of_core core]
    exact tracked.skip past _ _ p unreadable start
  | settled completed wallet =>
    rw [Session.history, wallet]
    exact tracked.scan past _ _ _ p _ _ _ completed on_top start

/-- If the scans of some transactions come to their end, the first one does, and the others go on
from where it has led. -/
theorem scanAll_cons_eq_ok {height : Nat} {txHash : Hash} {tx : Transaction}
    {rest : List (Hash × Transaction)} {s t : Session σ}
    (run : exec (scanAll S env height ((txHash, tx) :: rest)) s = (.ok (), t)) :
    ∃ o u v, exec (transaction S env tx txHash height) s = (.ok o, u) ∧ v.core = u.core ∧
      exec (scanAll S env height rest) v = (.ok (), t) := by
  rw [scanAll, exec_bind_eq_ok] at run
  obtain ⟨o, u, first, run⟩ := run
  -- the summary may be written in between, which is not in the core of the session
  by_cases received : o.received ≠ 0
  · rw [if_pos received, exec_bind_ok _ (exec_modifySummary _ u)] at run
    refine ⟨o, u, _, first, ?_, run⟩
    rfl
  · rw [if_neg received] at run
    exact ⟨o, u, u, first, rfl, run⟩

/-- The scans of the transactions of a block. -/
theorem scanAll_induction (tracked : Tracked S env account motive) {height : Nat}
    {txs : List (Hash × Transaction)} {s t : Session σ}
    (run : exec (scanAll S env height txs) s = (.ok (), t)) (own : s.wallet.account = account)
    (on_top : height = s.history.height) {past : List Placed}
    (start : motive past s.env s.history) :
    (∃ h, t.wallet = s.wallet.withHistory h ∧ h.chain = s.history.chain) ∧
      motive (past ++ txs.map fun (txHash, tx) => (⟨height, txHash, tx⟩ : Placed))
        t.env t.history := by
  induction txs generalizing s past with
  | nil =>
    obtain rfl := (Prod.mk.inj run).2
    exact ⟨⟨s.history, rfl, rfl⟩, by simpa using start⟩
  | cons entry rest ih =>
    obtain ⟨txHash, tx⟩ := entry
    obtain ⟨o, u, v, first, core, run⟩ := scanAll_cons_eq_ok run
    obtain ⟨⟨h, wallet, chain⟩, now⟩ :=
      transaction_induction (p := ⟨height, txHash, tx⟩) tracked first own on_top start
    -- what was noted in the summary in between is not part of the wallet
    have same : v.wallet = u.wallet := Session.wallet_of_core core
    have sameHistory : v.history = u.history := congrArg Wallet.history same
    have at_u : u.history = h := congrArg Wallet.history wallet
    rw [List.map_cons, List.append_cons]
    obtain ⟨⟨h', wallet', chain'⟩, later⟩ := ih run (by rw [same, wallet]; exact own)
      (by rw [sameHistory, at_u, History.height, chain]; exact on_top)
      (by rw [Session.env_of_core core, sameHistory]; exact now)
    refine ⟨⟨h', ?_, ?_⟩, later⟩
    · rw [wallet', same, wallet, Wallet.withHistory_withHistory]
    · rw [chain', sameHistory, at_u, chain]

/-- The scan of a block, and its place in the chain. -/
theorem addBlock_induction (tracked : Tracked S env account motive) {b : ParsedBlock}
    {height : Nat} {target : Option Hash} {s t : Session σ}
    (run : exec (addBlock S env b height target) s = (.ok (), t))
    (own : s.wallet.account = account) (same : s.wallet.config = config)
    (on_top : height = s.history.height) {past : List Placed}
    (start : motive past s.env s.history) :
    (∃ h, t.wallet = s.wallet.withHistory h ∧ h.chain = s.history.chain ++ [b.id]) ∧
      motive (past ++ placed S account config height [b]) t.env t.history := by
  rw [exec_addBlock] at run
  rcases scan : scanBlock S env b height s with ⟨e | ⟨⟩, u⟩
  · rw [scan] at run
    cases run
  · rw [scan] at run
    obtain rfl : appended S b height target u = t := (Prod.mk.inj run).2
    obtain ⟨⟨h, wallet, chain⟩, now⟩ :
        (∃ h, u.wallet = s.wallet.withHistory h ∧ h.chain = s.history.chain) ∧
          motive (past ++ placed S account config height [b]) u.env u.history := by
      unfold scanBlock isRelevant at scan
      rw [own, same] at scan
      simp only [placed, List.zipIdx_singleton, List.flatMap_singleton]
      -- a block that is too old is added without a scan
      by_cases young : account.createTime < b.block.timestamp.addSat config.timestampTolerance
      · rw [if_pos (decide_eq_true young)] at scan
        rw [if_pos young]
        exact scanAll_induction tracked scan own on_top start
      · rw [if_neg (by simpa using young)] at scan
        rw [if_neg young]
        obtain rfl := (Prod.mk.inj scan).2
        exact ⟨⟨s.history, rfl, rfl⟩, by simpa using start⟩
    have at_u : u.history = h := congrArg Wallet.history wallet
    refine ⟨⟨{ h with chain := h.chain ++ [b.id] }, ?_, ?_⟩, tracked.append _ _ _ b.id now⟩
    · rw [Session.wallet_of_core (core_appended S b height target u), at_u, wallet]
      rfl
    · rw [← chain]

/-- A run that adds blocks without a failure keeps what each of its scans keeps. -/
theorem addBlocks_tracked (tracked : Tracked S env account motive) {target : Option Hash}
    {blocks : List ParsedBlock} {s t : Session σ}
    (run : exec (addBlocks S env target blocks) s = (.ok (), t)) (own : s.wallet.account = account)
    (same : s.wallet.config = config) {past : List Placed} (start : motive past s.env s.history) :
    (∃ h, t.wallet = s.wallet.withHistory h ∧
        h.chain = s.history.chain ++ blocks.map ParsedBlock.id) ∧
      motive (past ++ placed S account config s.history.height blocks) t.env t.history := by
  induction blocks generalizing s past with
  | nil =>
    obtain rfl := (Prod.mk.inj run).2
    exact ⟨⟨s.history, rfl, by simp⟩, by simpa [placed] using start⟩
  | cons b rest ih =>
    rw [addBlocks, exec_bind_ok _ (exec_history s), exec_bind_eq_ok] at run
    obtain ⟨⟨⟩, u, first, run⟩ := run
    obtain ⟨⟨h, wallet, chain⟩, now⟩ := addBlock_induction tracked first own same rfl start
    -- the next block is scanned at the new end of the chain
    have at_u : u.history = h := congrArg Wallet.history wallet
    obtain ⟨⟨h', wallet', chain'⟩, later⟩ := ih run (by rw [wallet]; exact own)
      (by rw [wallet]; exact same) now
    have next : u.history.height = s.history.height + 1 := by
      rw [at_u, History.height, chain, List.length_append]
      rfl
    refine ⟨⟨h', ?_, ?_⟩, ?_⟩
    · rw [wallet', wallet, Wallet.withHistory_withHistory]
    · rw [chain', at_u, chain, List.map_cons, List.append_assoc]
      rfl
    · rw [placed_cons, ← List.append_assoc, ← next]
      exact later

/-- A run that adds blocks without a failure keeps what each of its scans keeps, as far as it is
about transactions that are looked into. -/
theorem addBlocks_induction (kept : Kept S env account motive) {target : Option Hash}
    {blocks : List ParsedBlock} {s t : Session σ}
    (run : exec (addBlocks S env target blocks) s = (.ok (), t)) (own : s.wallet.account = account)
    (same : s.wallet.config = config) {past : List Placed} (start : motive past s.env s.history) :
    (∃ h, t.wallet = s.wallet.withHistory h ∧
        h.chain = s.history.chain ++ blocks.map ParsedBlock.id) ∧
      motive (past ++ scanned S account config s.history.height blocks) t.env t.history := by
  have none_yet : motive (past ++ ([] : List Placed).filter (isReadable S account)) s.env
      s.history := by
    rwa [List.filter_nil, List.append_nil]
  exact addBlocks_tracked (kept.tracked past) run own same none_yet

end Sync

end RingWallet
