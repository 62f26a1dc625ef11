import RingWallet.Proofs.Wallet.Calls

/-!
# Properties that a refresh keeps

`WalletM.Keeps` says of a program that it keeps a property of sessions, however it ends. Most steps
only talk to the environment, write the summary or tell an event. `Sync.Maintained` lists the ones
that change the history, and `Sync.Maintained.pull` says that a property that they maintain is
kept by every refresh.

A property may depend on what the daemon serves (`Environment.Serves`) and on the events: no step
takes an event back (`Scan.events_transaction`), and a cut of the chain is always told. It may also
depend on the environment, to which a refresh sends nothing (`Sync.silent_pull`). `Scan.Stepwise`
takes a property through the single steps of a scan, each with the event that tells of it, and what
a scan leaves alone altogether is `Scan.Framed`.
-/

set_option autoImplicit false

namespace RingWallet

namespace WalletM

variable {σ α β : Type} {P : Session σ → Prop}

/-- However the program ends, it keeps a property of sessions. -/
def Keeps (P : Session σ → Prop) (x : WalletM σ α) : Prop := ∀ s, P s → P (exec x s).2

/-- Two steps in a row; what the first one found is known to the second. -/
theorem Keeps.bind {x : WalletM σ α} {f : α → WalletM σ β} (first : Keeps P x)
    (second : ∀ s a t, exec x s = (.ok a, t) → P t → P (exec (f a) t).2) : Keeps P (x >>= f) := by
  intro s hs
  rw [exec_bind]
  rcases run : exec x s with ⟨e | a, t⟩
  · have kept := first s hs
    rwa [run] at kept
  · have kept := first s hs
    rw [run] at kept
    exact second s a t run kept

/-- Two steps in a row, each of which keeps the property. -/
theorem Keeps.then {x : WalletM σ α} {f : α → WalletM σ β} (first : Keeps P x)
    (second : ∀ a, Keeps P (f a)) : Keeps P (x >>= f) :=
  first.bind fun _ a t _ ht => second a t ht

/-- Returning something else changes nothing. -/
theorem snd_exec_bind_pure (x : WalletM σ α) (b : α → β) (s : Session σ) :
    (exec (x >>= fun a => pure (b a)) s).2 = (exec x s).2 := by
  rw [exec_bind]
  rcases exec x s with ⟨e | a, t⟩
  · rfl
  · rfl

end WalletM

open WalletM

/-- Every transaction of every block that the daemon may send satisfies a property. -/
def Environment.Serves (S : Suite) {σ : Type} (env : Environment σ) (served : Transaction → Prop) :
    Prop :=
  ∀ request e reply, ((env.getBlocks request).run e).1 = .ok reply → ∀ entry ∈ reply.blocks,
    ∀ b, Sync.parseEntry S entry = .ok b → ∀ q ∈ Sync.allTransactions S b, served q.2

/-- Nothing is asked of the transactions of a daemon. -/
theorem serves_anything (S : Suite) {σ : Type} (env : Environment σ) :
    env.Serves S fun _ => True :=
  fun _ _ _ _ _ _ _ _ _ _ => trivial

namespace Scan

variable (S : Suite) {σ : Type} (env : Environment σ)

/-! ### The steps of a scan -/

/-- A property of sessions that the single steps of a scan at some height keep. A step that is told
comes together with its event. -/
structure Stepwise (env : Environment σ) (height : Nat) (P : Session σ → Prop) : Prop where
  env : ∀ s e, env.Silent s.env e → P s → P { s with env := e }
  forget : ∀ s txHash, P s → P (s.withHistory (s.history.forget txHash))
  skipped : ∀ s txHash, P s → P (s.told (.skipTransaction height txHash))
  record : ∀ s (t : Transfer) image, t.blockHeight = height → P s →
    P ((s.withHistory (s.history.record t image)).told (.moneyReceived height t.txHash t.amount))
  spend : ∀ s image txHash amount, P s →
    P ((s.withHistory (s.history.spend image)).told (.moneySpent height txHash amount))
  pay : ∀ s id payment, P s → P (s.withHistory (s.history.addPayment id payment))

variable {S env} {P : Session σ → Prop} {height : Nat}

/-- A step that changes the environment alone keeps the property. -/
theorem Stepwise.quiet {α : Type} {x : WalletM σ α} (stepwise : Stepwise env height P)
    (quiet : Quiet env x) : Keeps P x := by
  intro s hs
  obtain ⟨silent, apart⟩ := quiet s
  rw [apart]
  exact stepwise.env s _ silent hs

/-- Recording outputs keeps the property. -/
theorem Stepwise.recordOutputs (stepwise : Stepwise env height P) (tx : Transaction) (txHash : Hash)
    (d : KeyDerivation) (indices : List UInt64) (positions : List Nat) (received : UInt64) :
    Keeps P (recordOutputs S tx txHash height d indices positions received) := by
  induction positions generalizing received with
  | nil => exact stepwise.quiet (quiet_pure _)
  | cons index rest ih =>
    unfold Scan.recordOutputs
    split
    · next out globalIndex here =>
      refine .then (stepwise.quiet quiet_wallet) fun w => ?_
      refine .then (stepwise.quiet (quiet_orFail _ _)) fun image => ?_
      split
      · exact ih received
      · intro s hs
        rw [exec_bind_ok _ (exec_modifyHistory _ s), exec_bind_ok _ (exec_tell _ _)]
        -- what is told is the amount of the recorded output
        let new : Transfer :=
          { blockHeight := height, tx, txHash, outputIndex := index, globalIndex, spent := false
            keyImage := image.getD .null }
        have amount : new.amount = out.amount := by
          have found : tx.outputs[index]? = some out := (List.getElem?_zip_eq_some.mp here).1
          show ((tx.outputs[index]?).map TxOut.amount).getD 0 = out.amount
          rw [found]
          rfl
        exact ih _ _ (amount ▸ stepwise.record s new image rfl hs)
    · exact ih received

/-- Recording spends keeps the property. -/
theorem Stepwise.recordSpends (stepwise : Stepwise env height P) (txHash : Hash)
    (inputs : List TxIn) (spent : UInt64) : Keeps P (recordSpends txHash height inputs spent) := by
  induction inputs generalizing spent with
  | nil => exact stepwise.quiet (quiet_pure _)
  | cons input rest ih =>
    unfold Scan.recordSpends
    refine .then (fun s hs => hs) fun h => ?_
    split
    · exact ih spent
    · intro s hs
      rw [exec_bind_ok _ (exec_modifyHistory _ s), exec_bind_ok _ (exec_tell _ _)]
      exact ih _ _ (stepwise.spend s _ txHash _ hs)

/-- Asking for the indices of the outputs changes the environment alone. -/
theorem quiet_fetchIndices (env : Environment σ) (tx : Transaction) (txHash : Hash) :
    Quiet env (fetchIndices env tx txHash) := by
  intro s
  obtain ⟨r, run, -⟩ := exec_fetchIndices env tx txHash s
  rw [run]
  exact ⟨Relation.ReflTransGen.single (.getIndices txHash s.env), rfl⟩

/-- Taking in what is owned keeps the property. -/
theorem Stepwise.takeIn (stepwise : Stepwise env height P) (tx : Transaction) (txHash : Hash)
    (d : KeyDerivation) (own : List Nat) : Keeps P (Scan.takeIn S env tx txHash height d own) := by
  unfold Scan.takeIn
  split
  · refine .then (stepwise.quiet (quiet_fetchIndices env tx txHash)) fun indices => ?_
    exact stepwise.recordOutputs _ _ _ _ _ _
  · exact stepwise.quiet (quiet_pure _)

/-- Closing a scan keeps the property. -/
theorem Stepwise.close (stepwise : Stepwise env height P) (tx : Transaction) (txHash : Hash)
    (own : List Nat) (received : UInt64) : Keeps P (Scan.close tx txHash height own received) := by
  unfold Scan.close
  refine .then (stepwise.recordSpends _ _ _) fun spent => ?_
  refine .then (fun s hs => ?_) fun _ => stepwise.quiet (quiet_pure _)
  rw [exec_recordPayment]
  unfold History.credit
  split
  · split
    · exact hs
    · exact stepwise.pay s _ _ hs
  · exact hs

variable (S env)

/-- A scan keeps every such property, however it ends. -/
theorem Stepwise.transaction (stepwise : Stepwise env height P) (tx : Transaction) (txHash : Hash) :
    Keeps P (transaction S env tx txHash height) := by
  rw [transaction_eq]
  refine .then (fun s hs => stepwise.forget s _ hs) fun _ => .then (stepwise.quiet quiet_wallet) ?_
  intro w
  simp only []
  split
  · exact .then (fun s hs => stepwise.skipped s _ hs) fun _ => stepwise.quiet (quiet_pure _)
  · refine .then (stepwise.quiet (quiet_orFail _ _)) fun own => ?_
    exact .then (stepwise.takeIn tx txHash _ own) fun received =>
      stepwise.close tx txHash own received

/-! ### What a scan leaves alone -/

/-- A property of sessions that does not depend on the history, and that neither an event nor an
environment that goes on silently breaks. -/
structure Framed (env : Environment σ) (P : Session σ → Prop) : Prop where
  env : ∀ s e, env.Silent s.env e → P s → P { s with env := e }
  history : ∀ s h, P s → P (s.withHistory h)
  told : ∀ s e, P s → P (s.told e)

/-- A scan keeps every such property, however it ends. -/
theorem Framed.transaction (framed : Framed env P) (tx : Transaction) (txHash : Hash)
    (height : Nat) : Keeps P (transaction S env tx txHash height) := by
  have stepwise : Stepwise env height P :=
    { env := framed.env
      forget := fun s _ hs => framed.history s _ hs
      skipped := fun s _ hs => framed.told s _ hs
      record := fun _ _ _ _ hs => framed.told _ _ (framed.history _ _ hs)
      spend := fun _ _ _ _ hs => framed.told _ _ (framed.history _ _ hs)
      pay := fun s _ _ hs => framed.history s _ hs }
  exact stepwise.transaction S env tx txHash

/-- The events before a scan are the first ones after it. -/
theorem events_transaction (tx : Transaction) (txHash : Hash) (height : Nat) (s : Session σ) :
    s.events <+: (exec (transaction S env tx txHash height) s).2.events := by
  have framed : Framed env fun t : Session σ => s.events <+: t.events :=
    ⟨fun _ _ _ before => before, fun _ _ before => before,
      fun _ _ before => before.trans (List.prefix_append _ _)⟩
  exact framed.transaction S env tx txHash height s List.prefix_rfl

/-- A scan sends nothing. -/
theorem silent_transaction (tx : Transaction) (txHash : Hash) (height : Nat) (s : Session σ) :
    env.Silent s.env (exec (transaction S env tx txHash height) s).2.env := by
  have framed : Framed env fun t : Session σ => env.Silent s.env t.env :=
    ⟨fun _ _ silent before => before.trans silent, fun _ _ before => before,
      fun _ _ before => before⟩
  exact framed.transaction S env tx txHash height s (.refl s.env)

end Scan

namespace Sync

open Scan

variable {S : Suite} {σ : Type} {env : Environment σ} {served : Transaction → Prop}
  {P : Session σ → Prop}

/-! ### Blocks -/

/-- A property that the scan of every transaction keeps, and that a note in the summary does not
break. -/
theorem keeps_scanAll {height : Nat}
    (each : ∀ txHash tx, Keeps P (transaction S env tx txHash height))
    (noted : ∀ s summary, summary.targetFound = s.summary.targetFound →
      summary.blocksFetched = s.summary.blocksFetched → P s → P { s with summary })
    (txs : List (Hash × Transaction)) : Keeps P (scanAll S env height txs) := by
  induction txs with
  | nil => exact fun s hs => hs
  | cons q rest ih =>
    rw [Sync.scanAll]
    refine .then (each q.1 q.2) fun outcome => ?_
    split
    · exact .then (fun s hs => noted s _ rfl rfl hs) fun _ => ih
    · exact ih

/-- The scan of a block keeps what the scan of every transaction keeps. -/
theorem keeps_scanBlock {height : Nat}
    (each : ∀ txHash tx, Keeps P (transaction S env tx txHash height))
    (noted : ∀ s summary, summary.targetFound = s.summary.targetFound →
      summary.blocksFetched = s.summary.blocksFetched → P s → P { s with summary })
    (b : ParsedBlock) {s : Session σ} (hs : P s) : P (scanBlock S env b height s).2 := by
  unfold scanBlock
  split
  · exact keeps_scanAll each noted _ s hs
  · exact hs

/-! ### Batches -/

/-- A property that placing a block keeps, wherever it is placed. -/
theorem keeps_placeBlock {b : ParsedBlock} {target : Option Hash}
    (adopted : ∀ s n, s.history.chain[n]? = some .null → P s →
      P (s.withHistory { s.history with chain := s.history.chain.set n b.id }))
    (cut : ∀ s n, n < s.history.height → P s →
      P ((s.withHistory (s.history.detach n)).told (.reorg n (s.history.height - n))))
    (added : ∀ s, P s → P (exec (addBlock S env b s.history.height target) s).2)
    (height : Nat) (first : Bool) : Keeps P (placeBlock S env b height first target) := by
  intro s hs
  rcases exec_placeBlock_cases S env target b height first s with
    ⟨r, run, -⟩ | ⟨unknown, run⟩ | ⟨u, on_top, origin, run⟩
  · rw [run]
    exact hs
  · rw [run]
    exact adopted s height unknown hs
  · have begun : P u := by
      -- the block is put on top, either as it comes or after a cut
      rcases origin with rfl | ⟨-, below, rfl⟩
      · exact hs
      · exact cut s height below hs
    have grown := added u begun
    rw [← on_top] at grown
    rw [run, snd_exec_bind_pure]
    exact grown

/-- A property that every block of a reply keeps where it is placed. -/
theorem keeps_placeBlocks {target : Option Hash} {entries : List Daemon.BlockEntry} {start : Nat}
    {first : Bool}
    (each : ∀ k entry b, entries[k]? = some entry → parseEntry S entry = .ok b →
      Keeps P (placeBlock S env b (start + k) (first && k = 0) target)) :
    Keeps P (placeBlocks S env target start first entries) := by
  induction entries generalizing start first with
  | nil => exact fun s hs => hs
  | cons entry rest ih =>
    rw [Sync.placeBlocks]
    refine .bind (fun s hs => by rwa [exec_orFail]) ?_
    intro s b t decoded ht
    obtain ⟨parsed, rfl⟩ := exec_orFail_eq_ok.mp decoded
    have here := each 0 entry b rfl parsed
    rw [decide_eq_true rfl, Bool.and_true, Nat.add_zero] at here
    refine (here.then fun added => ?_) s ht
    refine .then (fun s hs => hs) fun u => ?_
    -- the number of added blocks does not matter
    simp only []
    split
    · exact fun s hs => hs
    · refine .then (ih fun k entry b at_k parsed => ?_) fun more => fun s hs => hs
      have later := each (k + 1) entry b at_k parsed
      rwa [decide_eq_false (Nat.succ_ne_zero k), Bool.and_false, ← Nat.add_assoc,
        Nat.add_right_comm] at later

/-- A property that every block that the daemon may send keeps. -/
theorem keeps_pullBatch {target : Option Hash}
    (moved : ∀ s e, env.Silent s.env e → P s → P { s with env := e })
    (placed : ∀ request e reply, ((env.getBlocks request).run e).1 = .ok reply →
      ∀ entry ∈ reply.blocks, ∀ b, parseEntry S entry = .ok b → ∀ height first,
        Keeps P (placeBlock S env b height first target)) (startHeight : Nat) :
    Keeps P (pullBatch S env startHeight target) := by
  unfold Sync.pullBatch
  refine .then (fun s hs => hs) fun h => .bind (fun s hs => ?_) ?_
  · rw [exec_ask]
    exact moved s _ (Relation.ReflTransGen.single (.getBlocks _ s.env)) hs
  · intro s reply t asked ht
    obtain ⟨answer, -⟩ := exec_ask_eq_ok.mp asked
    refine (Keeps.then (fun s hs => by rwa [exec_checkStatus]) fun _ => ?_) t ht
    exact keeps_placeBlocks fun k entry b at_k parsed =>
      placed _ _ reply answer entry (List.mem_of_getElem? at_k) b parsed _ _

/-- A property that batches keep is kept by any number of them, in spite of failures. -/
theorem keeps_pullLoop {target : Option Hash}
    (moved : ∀ s e stop, env.Silent s.env e → P s → P { s with env := e, stop })
    (batch : ∀ startHeight, Keeps P (pullBatch S env startHeight target)) (start : RefreshStart)
    (rounds : Nat) (first : Bool) (tries : Nat) (delay : Delay) :
    Keeps P (pullLoop S env start target rounds first tries delay) := by
  induction rounds generalizing first tries delay with
  | zero => exact fun s hs => hs
  | succ rounds ih =>
    intro s hs
    -- a look at the flag, like a wait, changes nothing but the environment and the flag itself
    have asked : P (polled env s) :=
      moved s _ _ (Relation.ReflTransGen.single (.stopAsked s.env)) hs
    have after := batch (batchStart start first s) (polled env s) asked
    rw [exec_pullLoop_succ]
    split
    · exact asked
    · rcases run : exec (pullBatch S env (batchStart start first s) target)
        (polled env s) with ⟨e | added, t⟩
      · rw [run] at after
        simp only [afterBatch]
        split
        · have slept : env.Silent t.env ((env.sleep delay.waited).run t.env).2 :=
            Relation.ReflTransGen.single (.sleep delay.waited t.env)
          exact ih _ _ _ _ (moved t _ t.stop slept after)
        · exact after
      · rw [run] at after
        simp only [afterBatch]
        split
        · exact after
        · exact ih _ _ _ _ after

/-- However a refresh ends, it keeps a property that its batches keep. -/
theorem keeps_pull
    (idle : ∀ s t : Session σ, t.wallet = s.wallet → s.events <+: t.events →
      env.Silent s.env t.env → P s → P t)
    {target : Option Hash} (batch : ∀ startHeight, Keeps P (pullBatch S env startHeight target))
    (scanned : ∀ s height, P s → P (s.withHistory (s.history.assumeScanned height)))
    (start : RefreshStart) : Keeps P (pull S env start target) := by
  intro s hs
  have begun : P (started start s) := by
    -- assuming blocks as scanned is the only change before the first batch
    cases start with
    | localChain => exact idle s _ rfl List.prefix_rfl (.refl s.env) hs
    | fixed height =>
      exact idle (s.withHistory (s.history.assumeScanned height)) _ rfl List.prefix_rfl
        (.refl s.env) (scanned s height hs)
  have moved (s : Session σ) (e : σ) (stop : Bool) (silent : env.Silent s.env e) (hs : P s) :
      P { s with env := e, stop } := idle s _ rfl List.prefix_rfl silent hs
  have batches := keeps_pullLoop moved batch start env.maxRounds true 0
    s.wallet.config.retry.firstDelay (started start s) begun
  rw [exec_pull]
  rcases run : exec (pullLoop S env start target env.maxRounds true 0
    s.wallet.config.retry.firstDelay) (started start s) with ⟨e | ⟨⟩, t⟩
  · rw [run] at batches
    exact batches
  · rw [run] at batches
    exact idle t _ rfl (List.prefix_append _ _) (.refl t.env) batches

/-! ### Refreshes -/

/-- A property of sessions that the single steps of a refresh maintain. -/
structure Maintained (S : Suite) {σ : Type} (env : Environment σ) (served : Transaction → Prop)
    (P : Session σ → Prop) : Prop where
  /-- Events may be told, the environment may go on silently, and what is neither the wallet nor an
  event may change. -/
  idle : ∀ (s t : Session σ), t.wallet = s.wallet → s.events <+: t.events →
    env.Silent s.env t.env → P s → P t
  /-- A transaction is scanned at the end of the chain. -/
  scan : ∀ {tx : Transaction} {s t : Session σ} {r : Except WalletError ScanOutcome}, served tx →
    Ends S env tx (tx.hash S) s.history.height s r t → s.events <+: t.events →
    env.Silent s.env t.env → P s → P t
  /-- Ids are added or replaced. -/
  chain : ∀ {s : Session σ} {ids : List Hash}, s.history.height ≤ ids.length → P s →
    P (s.withHistory { s.history with chain := ids })
  /-- The chain is cut back, which is told. -/
  cut : ∀ {s : Session σ} {n : Nat}, n < s.history.height → P s →
    P ((s.withHistory (s.history.detach n)).told (.reorg n (s.history.height - n)))

namespace Maintained

variable (maintained : Maintained S env served P) (target : Option Hash)

include maintained

/-- What is neither the wallet, an event nor the environment does not matter. -/
theorem noted {s : Session σ} (hs : P s) (t : Session σ) (wallet : t.wallet = s.wallet)
    (events : t.events = s.events) (same : t.env = s.env) : P t :=
  maintained.idle s t wallet (events ▸ List.prefix_rfl) (same ▸ .refl t.env) hs

/-- The transactions of a block are scanned one after the other, all at the end of the chain. -/
theorem scanAll {txs : List (Hash × Transaction)}
    (known : ∀ q ∈ txs, q.1 = q.2.hash S ∧ served q.2) {s : Session σ} (hs : P s) :
    P (exec (scanAll S env s.history.height txs) s).2 := by
  induction txs generalizing s with
  | nil => exact hs
  | cons q rest ih =>
    obtain ⟨txHash, tx⟩ := q
    rw [List.forall_mem_cons] at known
    obtain ⟨⟨genuine, mem⟩, known⟩ := known
    obtain rfl : txHash = tx.hash S := genuine
    obtain ⟨r, t, run, ends⟩ := exec_transaction S env tx (tx.hash S) s.history.height s
    have events := events_transaction S env tx (tx.hash S) s.history.height s
    have silent := silent_transaction S env tx (tx.hash S) s.history.height s
    rw [run] at events silent
    have ht : P t := maintained.scan mem ends events silent hs
    -- a scan does not touch the chain
    obtain ⟨h', wallet, changes⟩ := ends.changes (List.mem_singleton_self _)
    have same : s.history.height = t.history.height := by
      rw [show t.history = h' from congrArg Wallet.history wallet]
      exact congrArg List.length changes.chain_eq.symm
    rw [Sync.scanAll]
    rcases r with e | outcome
    · rw [exec_bind_error _ run]
      exact ht
    · rw [exec_bind_ok _ run, same]
      by_cases received : outcome.received ≠ 0
      · rw [if_pos received, exec_bind_ok _ (exec_modifySummary _ t)]
        -- the summary is no part of the wallet
        have counted (summary : RefreshSummary) : P { t with summary } :=
          maintained.noted ht _ rfl rfl rfl
        exact ih known (counted { t.summary with
          receivedMoney := true
          receivedTxHashes := t.summary.receivedTxHashes ++ [tx.hash S] })
      · rw [if_neg received]
        exact ih known ht

/-- A block that is added at the end of the chain keeps the property. -/
theorem addBlock {b : ParsedBlock}
    (known : ∀ q ∈ allTransactions S b, q.1 = q.2.hash S ∧ served q.2) {s : Session σ}
    (hs : P s) : P (exec (addBlock S env b s.history.height target) s).2 := by
  -- the scan may break off at any transaction, and what it kept until then stays
  have scan : P (scanBlock S env b s.history.height s).2 := by
    unfold scanBlock
    split
    · exact maintained.scanAll known hs
    · exact hs
  rw [exec_addBlock]
  rcases run : scanBlock S env b s.history.height s with ⟨e | ⟨⟩, t⟩
  · rw [run] at scan
    exact scan
  · rw [run] at scan
    have longer : t.history.height ≤ (t.history.chain ++ [b.id]).length := by
      simp [History.height]
    refine maintained.idle _ (appended S b s.history.height target t) ?_ ?_ ?_
      (maintained.chain longer scan)
    · rfl
    · exact List.prefix_append _ _
    · exact .refl t.env

/-- A parsed block keeps the property, wherever it is placed. -/
theorem placeBlock {entry : Daemon.BlockEntry} {b : ParsedBlock}
    (parsed : parseEntry S entry = .ok b) (serves : ∀ q ∈ allTransactions S b, served q.2)
    (height : Nat) (first : Bool) : Keeps P (placeBlock S env b height first target) := by
  have known : ∀ q ∈ allTransactions S b, q.1 = q.2.hash S ∧ served q.2 := fun q mem =>
    ⟨hash_eq_of_parseEntry parsed q.1 q.2 mem, serves q mem⟩
  refine keeps_placeBlock (fun s n _ hs => ?_) (fun s n below hs => maintained.cut below hs)
    (fun s hs => maintained.addBlock target known hs) height first
  have length : s.history.height ≤ (s.history.chain.set n b.id).length := by
    simp [History.height]
  exact maintained.chain length hs

/-- A batch keeps the property. -/
theorem pullBatch (serves : env.Serves S served) (startHeight : Nat) :
    Keeps P (pullBatch S env startHeight target) :=
  keeps_pullBatch (fun s _ silent hs => maintained.idle s _ rfl List.prefix_rfl silent hs)
    (fun _ _ reply answer entry mem b parsed => maintained.placeBlock target parsed
      (serves _ _ reply answer entry mem b parsed)) startHeight

/-- However a refresh ends, it keeps a property that its single steps maintain. -/
theorem pull (serves : env.Serves S served) (start : RefreshStart) :
    Keeps P (pull S env start target) := by
  refine keeps_pull maintained.idle (maintained.pullBatch target serves) ?_ start
  intro s height hs
  have length : s.history.height ≤ (s.history.assumeScanned height).chain.length := by
    simp [History.height, History.assumeScanned]
  exact maintained.chain length hs

end Maintained

/-- A refresh sends nothing, however it ends. -/
theorem silent_pull (S : Suite) (env : Environment σ) (start : RefreshStart) (target : Option Hash)
    (s : Session σ) : env.Silent s.env (exec (pull S env start target) s).2.env := by
  have maintained : Maintained S env (fun _ => True) fun t => env.Silent s.env t.env :=
    { idle := fun _ _ _ _ silent before => before.trans silent
      scan := fun _ _ _ silent before => before.trans silent
      chain := fun _ before => before
      cut := fun _ before => before }
  exact maintained.pull target (serves_anything S env) start s (.refl s.env)

end Sync

end RingWallet
