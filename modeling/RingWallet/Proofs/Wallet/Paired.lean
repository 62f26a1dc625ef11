import RingWallet.Proofs.Wallet.Keeps

/-!
# Two wallets side by side

`WalletM.Coupled` says of two runs that both fail with the same error, or both succeed with results
that belong together, and that they end in sessions that are related. Two programs are run side by
side step by step (`WalletM.Coupled.bind`).

`Sync.Paired` lists what a relation between sessions has to keep so that it is kept by every
refresh, be it that it fails, is tried again, or cuts the chain back. It is to two wallets what
`Sync.Maintained` is to one. Such sessions agree in all that a refresh reads outside of its scans
(`Session.Abreast`), so that the daemon is asked the same questions and gives the same answers. What
is left to show is that the scan of a transaction keeps the relation and brings both wallets the
same.
-/

set_option autoImplicit false

namespace RingWallet

namespace WalletM

variable {σ α β γ δ : Type} {R : Session σ → Session σ → Prop} {Q : α → β → Prop}

/-- The ways in which two runs can end side by side. -/
inductive Coupled (R : Session σ → Session σ → Prop) (Q : α → β → Prop) :
    Except WalletError α × Session σ → Except WalletError β × Session σ → Prop
  | failed {e : WalletError} {s t : Session σ} (after : R s t) :
    Coupled R Q (.error e, s) (.error e, t)
  | succeeded {a : α} {b : β} {s t : Session σ} (result : Q a b) (after : R s t) :
    Coupled R Q (.ok a, s) (.ok b, t)

/-- However two coupled runs end, their sessions are still related. -/
theorem Coupled.after {p : Except WalletError α × Session σ} {q : Except WalletError β × Session σ}
    (coupled : Coupled R Q p q) : R p.2 q.2 := by
  cases coupled with
  | failed after => exact after
  | succeeded _ after => exact after

/-- Two steps in a row; what the first one found is known to the second. -/
theorem Coupled.bind {x : WalletM σ α} {y : WalletM σ β} {f : α → WalletM σ γ}
    {g : β → WalletM σ δ} {P : γ → δ → Prop} {s t : Session σ}
    (first : Coupled R Q (exec x s) (exec y t))
    (second : ∀ a b u v, exec x s = (.ok a, u) → Q a b → R u v →
      Coupled R P (exec (f a) u) (exec (g b) v)) :
    Coupled R P (exec (x >>= f) s) (exec (y >>= g) t) := by
  rw [exec_bind, exec_bind]
  revert first second
  generalize exec x s = p
  generalize exec y t = q
  rintro (after | ⟨result, after⟩) second
  · exact .failed after
  · exact second _ _ _ _ rfl result after

/-- The same value, or failure, without any step. -/
theorem coupled_orFail {ε : Type} (f : ε → WalletError) (r : Except ε α) {s t : Session σ}
    (rel : R s t) : Coupled R Eq (exec (orFail f r) s) (exec (orFail f r) t) := by
  rw [exec_orFail, exec_orFail]
  cases r with
  | error e => exact .failed rel
  | ok a => exact .succeeded rfl rel

/-- A status is good or bad for both. -/
theorem coupled_checkStatus (call : DaemonCall) (status : String) {s t : Session σ} (rel : R s t) :
    Coupled R Eq (exec (checkStatus call status) s) (exec (checkStatus call status) t) := by
  rw [exec_checkStatus, exec_checkStatus]
  cases statusResult call status with
  | error e => exact .failed rel
  | ok a => exact .succeeded rfl rel

/-- The same question to the same environment. -/
theorem coupled_ask {step : StateM σ (Except LedgerError α)} {s t : Session σ}
    (same : t.env = s.env) (after : ∀ env, R { s with env } { t with env }) :
    Coupled R Eq (exec (ask step) s) (exec (ask step) t) := by
  rw [exec_ask, exec_ask, same]
  cases (step.run s.env).1 with
  | error e => exact .failed (after _)
  | ok a => exact .succeeded rfl (after _)

end WalletM

open WalletM

/-- The sessions agree in what a refresh reads outside of its scans. -/
structure Session.Abreast {σ : Type} (s t : Session σ) : Prop where
  env : t.env = s.env
  createTime : t.wallet.account.createTime = s.wallet.account.createTime
  config : t.wallet.config = s.wallet.config
  chain : t.history.chain = s.history.chain
  stop : t.stop = s.stop
  summary : t.summary = s.summary

namespace Sync

variable {S : Suite} {σ : Type} {env : Environment σ} {served : Transaction → Prop}
  {R : Session σ → Session σ → Prop}

/-- A relation between sessions that the single steps of a refresh keep, made side by side. -/
structure Paired (S : Suite) {σ : Type} (env : Environment σ) (served : Transaction → Prop)
    (R : Session σ → Session σ → Prop) : Prop where
  abreast : ∀ {s t : Session σ}, R s t → s.Abreast t
  /-- The environment goes on. -/
  asked : ∀ {s t : Session σ} (env : σ), R s t → R { s with env } { t with env }
  /-- The flag is put down at the start of a refresh, or put up by another task. -/
  flagged : ∀ {s t : Session σ} (stop : Bool), R s t → R { s with stop } { t with stop }
  noted : ∀ {s t : Session σ} (summary : RefreshSummary), R s t →
    R { s with summary } { t with summary }
  told : ∀ {s t : Session σ} (e : Event), R s t → R (s.told e) (t.told e)
  /-- Ids are added or replaced. -/
  chain : ∀ {s t : Session σ} (ids : List Hash), R s t →
    R (s.withHistory { s.history with chain := ids })
      (t.withHistory { t.history with chain := ids })
  cut : ∀ {s t : Session σ} (n : Nat), R s t →
    R (s.withHistory (s.history.detach n)) (t.withHistory (t.history.detach n))
  /-- The scan of a transaction brings both the same. -/
  scan : ∀ {tx : Transaction} (height : Nat) {s t : Session σ}, served tx → R s t →
    Coupled R (fun o o' : ScanOutcome => o'.received = o.received)
      (exec (Scan.transaction S env tx (tx.hash S) height) s)
      (exec (Scan.transaction S env tx (tx.hash S) height) t)

namespace Paired

variable (paired : Paired S env served R) (target : Option Hash) {s t : Session σ}

include paired

/-! ### Blocks -/

/-- The transactions of a block are scanned side by side. -/
theorem scanAll (height : Nat) {txs : List (Hash × Transaction)}
    (known : ∀ q ∈ txs, q.1 = q.2.hash S ∧ served q.2) (rel : R s t) :
    Coupled R Eq (exec (scanAll S env height txs) s) (exec (scanAll S env height txs) t) := by
  induction txs generalizing s t with
  | nil => exact .succeeded rfl rel
  | cons q rest ih =>
    obtain ⟨txHash, tx⟩ := q
    rw [List.forall_mem_cons] at known
    obtain ⟨⟨genuine, mem⟩, known⟩ := known
    obtain rfl : txHash = tx.hash S := genuine
    rw [Sync.scanAll]
    refine (paired.scan height mem rel).bind fun o o' u v _ same after => ?_
    rw [same]
    -- whether the transaction is listed depends on what was received alone
    split
    · rw [exec_bind_ok _ (exec_modifySummary _ u), exec_bind_ok _ (exec_modifySummary _ v),
        (paired.abreast after).summary]
      exact ih known (paired.noted _ after)
    · exact ih known after

/-- A block is added side by side. -/
theorem addBlock {b : ParsedBlock}
    (known : ∀ q ∈ allTransactions S b, q.1 = q.2.hash S ∧ served q.2) (height : Nat)
    (rel : R s t) :
    Coupled R Eq (exec (addBlock S env b height target) s)
      (exec (addBlock S env b height target) t) := by
  -- whether the block is scanned depends on its age alone
  have relevant : isRelevant t.wallet b.block = isRelevant s.wallet b.block := by
    unfold isRelevant
    rw [(paired.abreast rel).createTime, (paired.abreast rel).config]
  have scan : Coupled R Eq (scanBlock S env b height s) (scanBlock S env b height t) := by
    unfold scanBlock
    rw [relevant]
    split
    · exact paired.scanAll height known rel
    · exact .succeeded rfl rel
  rw [exec_addBlock, exec_addBlock]
  revert scan
  generalize scanBlock S env b height s = p
  generalize scanBlock S env b height t = q
  rintro (after | @⟨_, _, u, v, -, after⟩)
  · exact .failed after
  · refine .succeeded rfl ?_
    unfold appended
    rw [(paired.abreast after).chain, (paired.abreast after).summary]
    exact paired.told _ (paired.noted _ (paired.chain _ after))

/-- A block is placed side by side. -/
theorem placeBlock {b : ParsedBlock}
    (known : ∀ q ∈ allTransactions S b, q.1 = q.2.hash S ∧ served q.2) (height : Nat) (first : Bool)
    (rel : R s t) :
    Coupled R Eq (exec (placeBlock S env b height first target) s)
      (exec (placeBlock S env b height first target) t) := by
  have added {u v : Session σ} (rel : R u v) :
      Coupled R Eq (exec (do Sync.addBlock S env b height target; return true) u)
        (exec (do Sync.addBlock S env b height target; return true) v) :=
    (paired.addBlock target known height rel).bind fun _ _ _ _ _ _ after => .succeeded rfl after
  have chain := (paired.abreast rel).chain
  have height_eq : t.history.height = s.history.height := congrArg List.length chain
  unfold Sync.placeBlock
  rw [exec_bind_ok _ (exec_history s), exec_bind_ok _ (exec_history t)]
  simp only [chain, height_eq]
  -- the chains are the same, so that the block is placed in the same way
  cases s.history.chain[height]? with
  | none =>
    simp only []
    split
    · exact .failed rel
    · exact added rel
  | some id =>
    simp only []
    split
    · exact .succeeded rfl rel
    · split
      · rw [exec_bind_ok _ (exec_modifyHistory _ s), exec_bind_ok _ (exec_modifyHistory _ t), chain]
        exact .succeeded rfl (paired.chain _ rel)
      · split
        · exact .failed rel
        · have cut (u : Session σ) : exec (detach height) u =
              (.ok (u.history.height - height), u.withHistory (u.history.detach height)) := rfl
          rw [exec_bind_ok _ (cut s), exec_bind_ok _ (cut t), height_eq,
            exec_bind_ok _ (exec_tell _ _), exec_bind_ok _ (exec_tell _ _)]
          exact added (paired.told _ (paired.cut height rel))

/-! ### Batches -/

/-- The blocks of a batch are placed side by side. -/
theorem placeBlocks {entries : List Daemon.BlockEntry}
    (serves : ∀ entry ∈ entries, ∀ b, parseEntry S entry = .ok b →
      ∀ q ∈ allTransactions S b, served q.2) (height : Nat) (first : Bool) (rel : R s t) :
    Coupled R Eq (exec (placeBlocks S env target height first entries) s)
      (exec (placeBlocks S env target height first entries) t) := by
  induction entries generalizing height first s t with
  | nil => exact .succeeded rfl rel
  | cons entry rest ih =>
    rw [List.forall_mem_cons] at serves
    rw [Sync.placeBlocks]
    -- both runs decode the same entry
    refine (coupled_orFail _ _ rel).bind fun b b' u v parsed same rel => ?_
    subst same
    have parsed := (exec_orFail_eq_ok.mp parsed).1
    have known : ∀ q ∈ allTransactions S b, q.1 = q.2.hash S ∧ served q.2 := fun q mem =>
      ⟨hash_eq_of_parseEntry parsed q.1 q.2 mem, serves.1 b parsed q mem⟩
    refine (paired.placeBlock target known height first rel).bind
      fun added added' u v _ same rel => ?_
    subst same
    rw [exec_bind_ok _ (exec_get u), exec_bind_ok _ (exec_get v), (paired.abreast rel).summary]
    -- both have found the target or neither has
    by_cases found : u.summary.targetFound = true
    · simp only [found, if_true]
      exact .succeeded rfl rel
    · simp only [found]
      refine (ih serves.2 (height + 1) false rel).bind fun more more' u v _ same rel => ?_
      subst same
      exact .succeeded rfl rel

/-- A batch runs side by side. -/
theorem pullBatch (serves : env.Serves S served) (startHeight : Nat) (rel : R s t) :
    Coupled R Eq (exec (pullBatch S env startHeight target) s)
      (exec (pullBatch S env startHeight target) t) := by
  have question : t.history.fingerprint = s.history.fingerprint := by
    unfold History.fingerprint
    -- the request names the ids of the chain, which both have
    rw [(paired.abreast rel).chain]
  unfold Sync.pullBatch
  rw [exec_bind_ok _ (exec_history s), exec_bind_ok _ (exec_history t), question]
  refine (coupled_ask (paired.abreast rel).env fun env => paired.asked env rel).bind
    fun reply reply' u v asked same rel => ?_
  subst same
  have answer := (exec_ask_eq_ok.mp asked).1
  refine (coupled_checkStatus _ _ rel).bind fun _ _ u v _ _ rel => ?_
  exact paired.placeBlocks target (serves _ _ reply answer) reply.startHeight true rel

/-! ### Refreshes -/

/-- Both wallets see the same flag when they look at it. -/
theorem polled (rel : R s t) : R (polled env s) (polled env t) := by
  have after := paired.flagged ((env.stopAsked.run s.env).1 || s.stop)
    (paired.asked (env.stopAsked.run s.env).2 rel)
  unfold Sync.polled
  rw [(paired.abreast rel).env, (paired.abreast rel).stop]
  exact after

/-- The batches of a refresh run side by side. -/
theorem pullLoop (serves : env.Serves S served) (start : RefreshStart) (rounds : Nat) (first : Bool)
    (tries : Nat) (delay : Delay) (rel : R s t) :
    Coupled R Eq (exec (pullLoop S env start target rounds first tries delay) s)
      (exec (pullLoop S env start target rounds first tries delay) t) := by
  induction rounds generalizing first tries delay s t with
  | zero => exact .failed rel
  | succ rounds ih =>
    -- both begin at the same height
    have same_start : batchStart start first t = batchStart start first s := by
      cases start with
      | fixed height => rfl
      | localChain => exact congrArg List.length (paired.abreast rel).chain
    have looked := paired.polled rel
    have batch := paired.pullBatch target serves (batchStart start first s) looked
    rw [exec_pullLoop_succ, exec_pullLoop_succ, (paired.abreast looked).stop, same_start,
      (paired.abreast rel).config]
    split
    · exact .succeeded rfl looked
    · -- only the outcome of the batch matters from here on
      revert batch
      generalize exec (Sync.pullBatch S env (batchStart start first s) target)
        (Sync.polled env s) = p
      generalize exec (Sync.pullBatch S env (batchStart start first s) target)
        (Sync.polled env t) = q
      rintro (@⟨e, u, v, after⟩ | @⟨added, _, u, v, rfl, after⟩)
      · -- a failure is tried again by both or given up by both
        simp only [afterBatch]
        split
        · rw [(paired.abreast after).env]
          exact ih first (tries + 1) _ (paired.asked _ after)
        · exact .failed after
      · simp only [afterBatch]
        rw [(paired.abreast after).summary]
        split
        · exact .succeeded rfl after
        · exact ih false tries delay after

/-- However a refresh ends, it ends in the same way for both. -/
theorem pull (serves : env.Serves S served) (start : RefreshStart) (rel : R s t) :
    Coupled R Eq (exec (pull S env start target) s) (exec (pull S env start target) t) := by
  -- the start fills both chains up to the same height
  have begun : R (started start s) (started start t) := by
    have ready := paired.noted {} (paired.flagged false rel)
    cases start with
    | localChain => exact ready
    | fixed height =>
      unfold started History.assumeScanned
      rw [(paired.abreast rel).chain]
      exact paired.chain _ ready
  have loop := paired.pullLoop target serves start env.maxRounds true 0
    s.wallet.config.retry.firstDelay begun
  rw [exec_pull, exec_pull, (paired.abreast rel).config]
  revert loop
  generalize exec (Sync.pullLoop S env start target env.maxRounds true 0
    s.wallet.config.retry.firstDelay) (started start s) = p
  generalize exec (Sync.pullLoop S env start target env.maxRounds true 0
    s.wallet.config.retry.firstDelay) (started start t) = q
  rintro (after | @⟨_, _, u, v, -, after⟩)
  · exact .failed after
  · have same : v.wallet.height = u.wallet.height :=
      congrArg List.length (paired.abreast after).chain
    simp only [(paired.abreast after).summary, same]
    exact .succeeded rfl (paired.told _ after)

end Paired

end Sync

/-! ### Calls -/

variable {S : Suite} {σ : Type} {env : Environment σ} {served : Transaction → Prop}
  {R : Session σ → Session σ → Prop}

namespace Sync.Paired

variable (paired : Sync.Paired S env served R) (serves : env.Serves S served) {s t : Session σ}

include paired serves

/-- A call other than to send keeps the relation, however it ends. -/
theorem call {call : Call} (unsent : ∀ pending, call ≠ .send pending) (rel : R s t) :
    R (exec (call.run S env) s).2 (exec (call.run S env) t).2 := by
  cases call with
  | refresh | refreshFrom | refreshFromLocalChain | refreshUntil =>
    rw [Call.run, exec_discard, exec_discard]
    exact (paired.pull _ serves _ rel).after
  | detach n => exact paired.cut n rel
  | assumeScanned n =>
    show R (s.withHistory (s.history.assumeScanned n)) (t.withHistory (t.history.assumeScanned n))
    unfold History.assumeScanned
    rw [(paired.abreast rel).chain]
    exact paired.chain _ rel
  -- no call sends anything, by assumption
  | send pending => exact absurd rfl (unsent pending)

/-- Calls that send nothing keep two sessions related. -/
theorem afterCalls {calls : List Call} (unsent : ∀ pending, .send pending ∉ calls)
    (rel : R s t) : R (afterCalls S env calls s) (afterCalls S env calls t) := by
  unfold RingWallet.afterCalls
  induction calls generalizing s t with
  | nil => exact rel
  | cons call rest ih =>
    refine ih (fun pending later => unsent pending (List.mem_cons_of_mem _ later)) ?_
    refine paired.call serves (fun pending same => unsent pending ?_) rel
    exact same ▸ List.mem_cons_self

end Sync.Paired

end RingWallet
