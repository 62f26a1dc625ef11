import RingWallet.Proofs.Wallet.Moves

/-!
# What a refresh does not look at

Two wallets are twins (`Wallet.Twin`) if they have the same account, configuration, height,
transfers and index. They may differ in the ids of their chains, in the transactions that were sent
and in the payments.

`WalletM.Blind` are the programs that give the same result in sessions that are twins, and leave
sessions that are twins. The scan of a transaction is one of them (`Scan.blind_transaction`). If the
daemon looks at the height of a request alone, and starts there, so is a refresh from the end of the
chain (`Sync.blind_refreshFromLocalChain`): every block goes on top of the chain, and so no id in it
is compared with anything.
-/

set_option autoImplicit false

namespace RingWallet

/-! ### Twin -/

/-- Histories with the same height, transfers and index. -/
structure History.Twin (h h' : History) : Prop where
  height : h'.height = h.height
  transfers : h'.transfers = h.transfers
  keyImages : h'.keyImages = h.keyImages

/-- Wallets of the same account, with the same configuration, whose histories are twins. -/
structure Wallet.Twin (w w' : Wallet) : Prop where
  account : w'.account = w.account
  config : w'.config = w.config
  history : w.history.Twin w'.history

/-- No handler ever asks to stop. -/
def Session.Unstopped {σ : Type} (s : Session σ) : Prop :=
  ∀ e, EventHandler.anyStops s.handlers e = false

/-- Sessions in the same environment whose wallets are twins, and that no handler stops. -/
structure Session.Twin {σ : Type} (s t : Session σ) : Prop where
  env : t.env = s.env
  wallet : s.wallet.Twin t.wallet
  unstopped : s.Unstopped ∧ t.Unstopped
  stop : t.stop = s.stop
  summary : t.summary = s.summary

namespace History.Twin

variable {h h' : History}

/-- Every history is its own twin. -/
protected theorem refl (h : History) : h.Twin h := ⟨rfl, rfl, rfl⟩

/-- Being twins goes both ways. -/
protected theorem symm (twin : h.Twin h') : h'.Twin h :=
  ⟨twin.height.symm, twin.transfers.symm, twin.keyImages.symm⟩

/-- The twin of a twin is a twin. -/
protected theorem trans {h'' : History} (first : h.Twin h') (second : h'.Twin h'') :
    h.Twin h'' :=
  ⟨second.height.trans first.height, second.transfers.trans first.transfers,
    second.keyImages.trans first.keyImages⟩

/-- Twins have recorded the same outputs. -/
theorem isRecorded_eq (twin : h.Twin h') (image : Option KeyImage) (txHash : Hash) (index : Nat) :
    h'.isRecorded image txHash index = h.isRecorded image txHash index := by
  unfold isRecorded
  rw [twin.transfers, twin.keyImages]

/-- An image leads to the same output in both. -/
theorem transferOf?_eq (twin : h.Twin h') (image : KeyImage) :
    h'.transferOf? image = h.transferOf? image := by
  unfold transferOf?
  rw [twin.transfers, twin.keyImages]

/-- Twins stay twins when an output is recorded in both. -/
theorem record (twin : h.Twin h') (t : Transfer) (image : Option KeyImage) :
    (h.record t image).Twin (h'.record t image) := by
  refine ⟨twin.height, ?_, ?_⟩
  · show h'.transfers ++ [t] = h.transfers ++ [t]
    rw [twin.transfers]
  · unfold History.record
    rw [twin.transfers, twin.keyImages]

/-- Twins stay twins when an image is spent in both. -/
theorem spend (twin : h.Twin h') (image : KeyImage) :
    (h.spend image).Twin (h'.spend image) := by
  unfold History.spend
  rw [twin.keyImages]
  cases h.keyImages[image]? with
  | none => exact twin
  | some i => exact ⟨twin.height, congrArg (List.modify · i _) twin.transfers, twin.keyImages⟩

/-- A payment is not among what is compared. -/
theorem addPayment (twin : h.Twin h') (id : Hash) (p : Payment) :
    (h.addPayment id p).Twin (h'.addPayment id p) := by
  have same (h : History) : h.Twin (h.addPayment id p) := by
    unfold History.addPayment
    simp only []
    split
    · exact .refl h
    · exact ⟨rfl, rfl, rfl⟩
  exact ((same h).symm.trans twin).trans (same h')

/-- Chains of the same height grow to chains of the same height. -/
theorem append (twin : h.Twin h') (id : Hash) :
    History.Twin { h with chain := h.chain ++ [id] } { h' with chain := h'.chain ++ [id] } := by
  refine ⟨?_, twin.transfers, twin.keyImages⟩
  show (h'.chain ++ [id]).length = (h.chain ++ [id]).length
  rw [List.length_append, List.length_append]
  exact congrArg (· + 1) twin.height

end History.Twin

/-- Every wallet is its own twin. -/
protected theorem Wallet.Twin.refl (w : Wallet) : w.Twin w := ⟨rfl, rfl, .refl _⟩

/-- Twins stay twins when an event is told to both, because no handler stops them. -/
theorem Session.Twin.told {σ : Type} {s t : Session σ} (twin : s.Twin t) (e : Event) :
    (s.told e).Twin (t.told e) where
  env := twin.env
  wallet := twin.wallet
  unstopped := twin.unstopped
  stop := by
    show (t.stop || EventHandler.anyStops t.handlers e) =
      (s.stop || EventHandler.anyStops s.handlers e)
    rw [twin.stop, twin.unstopped.1 e, twin.unstopped.2 e]
  summary := twin.summary

/-! ### Blind programs -/

namespace WalletM

open Session (Twin)

variable {σ α β : Type}

/-- Two runs have the same result, and end in sessions that are twins. -/
structure Agree (p q : Except WalletError α × Session σ) : Prop where
  result : q.1 = p.1
  session : Twin p.2 q.2

/-- Runs that agree end in one result, with sessions that are twins. -/
theorem Agree.exists_eq {p q : Except WalletError α × Session σ} (agree : Agree p q) :
    ∃ r u v, p = (r, u) ∧ q = (r, v) ∧ Twin u v :=
  ⟨p.1, p.2, q.2, rfl, Prod.ext agree.result rfl, agree.session⟩

/-- Two programs agree if their first steps agree, and what they do after a common result does. -/
theorem Agree.bind {x y : WalletM σ α} {f g : α → WalletM σ β} {s t : Session σ}
    (first : Agree (exec x s) (exec y t))
    (second : ∀ a u v, exec x s = (.ok a, u) → exec y t = (.ok a, v) → Twin u v →
      Agree (exec (f a) u) (exec (g a) v)) :
    Agree (exec (x >>= f) s) (exec (y >>= g) t) := by
  obtain ⟨r, u, v, run, run', after⟩ := first.exists_eq
  rw [exec_bind, exec_bind, run, run']
  cases r with
  | error e => exact ⟨rfl, after⟩
  | ok a => exact second a u v run run' after

/-- Runs from sessions that are twins agree. -/
def Blind (x : WalletM σ α) : Prop :=
  ∀ s t, Twin s t → Agree (exec x s) (exec x t)

/-- Two blind steps in a row are blind. -/
theorem Blind.bind {x : WalletM σ α} {f : α → WalletM σ β} (first : Blind x)
    (second : ∀ a, Blind (f a)) : Blind (x >>= f) :=
  fun s t twin => (first s t twin).bind fun a u v _ _ after => second a u v after

/-- What is done with a wallet depends only on what wallets that are twins share. -/
theorem Blind.wallet_bind {f : Wallet → WalletM σ α} (same : ∀ w w', w.Twin w' → f w' = f w)
    (blind : ∀ w, Blind (f w)) : Blind (WalletM.wallet >>= f) := by
  intro s t twin
  rw [exec_bind_ok f (exec_wallet s), exec_bind_ok f (exec_wallet t), same _ _ twin.wallet]
  exact blind s.wallet s t twin

/-- What is done with a history depends only on what histories that are twins share. -/
theorem Blind.history_bind {f : History → WalletM σ α} (same : ∀ h h', h.Twin h' → f h' = f h)
    (blind : ∀ h, Blind (f h)) : Blind (WalletM.history >>= f) := by
  intro s t twin
  rw [exec_bind_ok f (exec_history s), exec_bind_ok f (exec_history t)]
  rw [show f t.history = f s.history from same _ _ twin.wallet.history]
  exact blind s.history s t twin

/-- A value is blind. -/
theorem blind_pure (a : α) : Blind (pure a : WalletM σ α) := fun _ _ twin => ⟨rfl, twin⟩

/-- An error is blind. -/
theorem blind_throw (e : WalletError) : Blind (throw e : WalletM σ α) := fun _ _ twin =>
  ⟨rfl, twin⟩

/-- A result that is passed on is blind. -/
theorem blind_orFail {ε : Type} (f : ε → WalletError) (r : Except ε α) :
    Blind (orFail f r : WalletM σ α) := by
  intro s t twin
  rw [exec_orFail, exec_orFail]
  exact ⟨rfl, twin⟩

/-- A change of the history is blind if it makes twins of twins. -/
theorem blind_modifyHistory {f : History → History}
    (keeps : ∀ h h', h.Twin h' → (f h).Twin (f h')) : Blind (modifyHistory f : WalletM σ Unit) := by
  intro s t twin
  obtain ⟨account, config, history⟩ := twin.wallet
  exact ⟨rfl, twin.env, ⟨account, config, keeps _ _ history⟩, twin.unstopped, twin.stop,
    twin.summary⟩

/-- A change of the summary is blind. -/
theorem blind_modifySummary (f : RefreshSummary → RefreshSummary) :
    Blind (modifySummary f : WalletM σ Unit) :=
  fun _ _ twin => ⟨rfl, twin.env, twin.wallet, twin.unstopped, twin.stop, congrArg f twin.summary⟩

/-- Telling an event is blind. -/
theorem blind_tell (e : Event) : Blind (tell e : WalletM σ Unit) :=
  fun _ _ twin => ⟨rfl, twin.told e⟩

/-- A step outside is blind, because it sees the environment alone. -/
theorem blind_outside (step : StateM σ α) : Blind (outside step) := by
  intro s t twin
  rw [exec_outside, exec_outside, twin.env]
  exact ⟨rfl, rfl, twin.wallet, twin.unstopped, twin.stop, twin.summary⟩

/-- A question is blind. -/
theorem blind_ask (step : StateM σ (Except LedgerError α)) : Blind (ask step) :=
  (blind_outside step).bind fun _ => blind_orFail _ _

/-- Looking at a status is blind. -/
theorem blind_checkStatus (call : DaemonCall) (status : String) :
    Blind (checkStatus call status : WalletM σ Unit) := by
  intro s t twin
  rw [exec_checkStatus, exec_checkStatus]
  exact ⟨rfl, twin⟩

end WalletM

open WalletM

/-! ### Scans -/

namespace Scan

variable (S : Suite) {σ : Type} (env : Environment σ)

/-- Asking for the indices of the outputs is blind. -/
theorem blind_fetchIndices (tx : Transaction) (txHash : Hash) :
    Blind (fetchIndices env tx txHash) := by
  unfold fetchIndices
  refine (blind_ask _).bind fun reply => (blind_checkStatus _ _).bind fun _ => ?_
  split
  · exact blind_throw _
  · exact blind_pure _

/-- Recording outputs is blind. -/
theorem blind_recordOutputs (tx : Transaction) (txHash : Hash) (height : Nat)
    (derivation : KeyDerivation) (indices : List UInt64) (own : List Nat) (received : UInt64) :
    Blind
      (recordOutputs S tx txHash height derivation indices own received : WalletM σ UInt64) := by
  induction own generalizing received with
  | nil => exact blind_pure _
  | cons index rest ih =>
    unfold recordOutputs
    split
    · refine .wallet_bind (fun w w' twin => ?_) fun w => ?_
      · -- of the wallet only the keys and what is recorded are read
        simp only [twin.account, twin.history.isRecorded_eq]
      · -- nothing depends on whether the wallet knew the image as spent
        refine (blind_orFail _ _).bind fun image => ?_
        split
        · exact ih received
        · refine (blind_modifyHistory fun h h' twin => twin.record _ _).bind fun _ => ?_
          exact (blind_tell _).bind fun _ => ih _
    · exact ih received

/-- Recording spends is blind. -/
theorem blind_recordSpends (txHash : Hash) (height : Nat) (inputs : List TxIn) (spent : UInt64) :
    Blind (recordSpends txHash height inputs spent : WalletM σ UInt64) := by
  induction inputs generalizing spent with
  | nil => exact blind_pure _
  | cons input rest ih =>
    unfold recordSpends
    refine .history_bind (fun h h' twin => ?_) fun h => ?_
    · simp only [twin.transferOf?_eq]
    · split
      · exact ih spent
      · refine (blind_modifyHistory fun h h' twin => twin.spend _).bind fun _ => ?_
        exact (blind_tell _).bind fun _ => ih _

/-- Noting a payment is blind. -/
theorem blind_recordPayment (tx : Transaction) (txHash : Hash) (height : Nat)
    (fields : List ExtraField) (received : UInt64) :
    Blind (recordPayment tx txHash height fields received : WalletM σ Unit) := by
  unfold recordPayment
  split
  · split
    · exact blind_pure _
    · exact blind_modifyHistory fun h h' twin => twin.addPayment _ _
  · exact blind_pure _

/-- Taking in what is owned is blind. -/
theorem blind_takeIn (tx : Transaction) (txHash : Hash) (height : Nat) (d : KeyDerivation)
    (own : List Nat) : Blind (takeIn S env tx txHash height d own) := by
  unfold takeIn
  split
  · exact (blind_fetchIndices env tx txHash).bind fun indices =>
      blind_recordOutputs S tx txHash height d indices own 0
  · exact blind_pure _

/-- The end of a scan is blind. -/
theorem blind_close (tx : Transaction) (txHash : Hash) (height : Nat) (own : List Nat)
    (received : UInt64) : Blind (close tx txHash height own received : WalletM σ ScanOutcome) :=
  (blind_recordSpends txHash height tx.inputs 0).bind fun _ =>
    (blind_recordPayment tx txHash height (Extra.parse tx.extra).1 _).bind fun _ => blind_pure _

/-- The scan of a transaction. -/
theorem blind_transaction (tx : Transaction) (txHash : Hash) (height : Nat) :
    Blind (transaction S env tx txHash height) := by
  rw [transaction_eq]
  refine (blind_modifyHistory fun h h' twin => ?_).bind fun _ => ?_
  · exact ⟨twin.height, twin.transfers, twin.keyImages⟩
  refine .wallet_bind (fun w w' twin => by simp only [twin.account]) fun w => ?_
  dsimp only
  split
  · exact (blind_tell _).bind fun _ => blind_pure _
  · refine (blind_orFail _ _).bind fun own => ?_
    exact (blind_takeIn S env tx txHash height _ own).bind fun received =>
      blind_close tx txHash height own received

end Scan

/-! ### Refreshes -/

/-- A daemon that looks at the height of a request alone, and starts there. -/
structure Environment.AnswersByHeight {σ : Type} (env : Environment σ) : Prop where
  /-- The ids that the wallet knows make no difference. -/
  blockIds_unread : ∀ ids ids' height, env.getBlocks ⟨ids, height⟩ = env.getBlocks ⟨ids', height⟩
  /-- Blocks are sent from the height that was asked for. -/
  startHeight_eq : ∀ request e reply, ((env.getBlocks request).run e).1 = .ok reply →
    reply.status = Daemon.okStatus → reply.startHeight = request.startHeight

namespace Sync

open Session (Twin)

variable (S : Suite) {σ : Type} {env : Environment σ} {s t : Session σ}

variable (env) in
/-- Scanning the transactions of a block is blind. -/
theorem blind_scanAll (height : Nat) (txs : List (Hash × Transaction)) :
    Blind (scanAll S env height txs) := by
  induction txs with
  | nil => exact blind_pure _
  | cons entry rest ih =>
    unfold scanAll
    refine (Scan.blind_transaction S env entry.2 entry.1 height).bind fun outcome => ?_
    split
    · exact (blind_modifySummary _).bind fun _ => ih
    · exact ih

variable (env) in
/-- Whether a block is scanned depends on the account and the configuration alone. -/
theorem agree_scanBlock (b : ParsedBlock) (height : Nat) (twin : Twin s t) :
    Agree (scanBlock S env b height s) (scanBlock S env b height t) := by
  have relevant : isRelevant t.wallet b.block = isRelevant s.wallet b.block := by
    unfold isRelevant
    rw [twin.wallet.account, twin.wallet.config]
  unfold scanBlock
  rw [relevant]
  split
  · exact blind_scanAll S env height _ s t twin
  · exact ⟨rfl, twin⟩

/-- Twins stay twins when a block is appended to both. -/
theorem twin_appended (b : ParsedBlock) (height : Nat) (target : Option Hash)
    (twin : Twin s t) : Twin (appended S b height target s) (appended S b height target t) := by
  obtain ⟨account, config, history⟩ := twin.wallet
  have longer := history.append b.id
  unfold appended
  refine Session.Twin.told ?_ _
  refine ⟨twin.env, ⟨account, config, longer⟩, twin.unstopped, twin.stop, ?_⟩
  show ({ t.summary with targetFound := _, blocksFetched := _ } : RefreshSummary) = _
  rw [twin.summary]

variable (env) in
/-- Adding a block is blind. -/
theorem blind_addBlock (b : ParsedBlock) (height : Nat) (target : Option Hash) :
    Blind (addBlock S env b height target) := by
  intro s t twin
  obtain ⟨r, u, v, scan, scan', after⟩ := (agree_scanBlock S env b height twin).exists_eq
  rw [exec_addBlock, exec_addBlock, scan, scan']
  cases r with
  | error e => exact ⟨rfl, after⟩
  | ok _ => exact ⟨rfl, twin_appended S b height target after⟩

variable (env) in
/-- Blocks that start at the end of the chain are added to it, whatever ids it holds. -/
theorem agree_placeBlocks (target : Option Hash) {height : Nat} (first : Bool)
    (entries : List Daemon.BlockEntry) (twin : Twin s t) (on_top : height = s.history.height) :
    Agree (exec (placeBlocks S env target height first entries) s)
      (exec (placeBlocks S env target height first entries) t) := by
  induction entries generalizing height first s t with
  | nil => exact ⟨rfl, twin⟩
  | cons entry rest ih =>
    rw [placeBlocks]
    refine (blind_orFail _ _ s t twin).bind fun b u v parsed parsed' twin' => ?_
    rw [exec_orFail] at parsed parsed'
    obtain rfl := (Prod.mk.inj parsed).2
    obtain rfl := (Prod.mk.inj parsed').2
    -- the block goes on top of both chains
    subst on_top
    have same : s.history.height = t.history.height := twin.wallet.history.height.symm
    have placed : Agree (exec (placeBlock S env b s.history.height first target) s)
        (exec (placeBlock S env b s.history.height first target) t) := by
      rw [exec_placeBlock_on_top, same, exec_placeBlock_on_top]
      exact ((blind_addBlock S env b _ target).bind fun _ => blind_pure true) s t twin
    refine placed.bind fun added u v run _ after => ?_
    have next := height_of_placeBlock_on_top run
    rw [exec_bind_ok _ (exec_get u), exec_bind_ok _ (exec_get v), after.summary]
    by_cases found : u.summary.targetFound = true
    · simp only [found, if_true]
      exact ⟨rfl, after⟩
    · simp only [found]
      exact (ih false after next.symm).bind fun more u v _ _ last => ⟨rfl, last⟩

/-! #### Batches -/

/-- A batch from the end of the chain. -/
theorem agree_pullBatch (answers : env.AnswersByHeight) (target : Option Hash)
    (twin : Twin s t) :
    Agree (exec (pullBatch S env s.history.height target) s)
      (exec (pullBatch S env s.history.height target) t) := by
  unfold pullBatch
  rw [exec_bind_ok _ (exec_history s), exec_bind_ok _ (exec_history t),
    answers.blockIds_unread (t.history.fingerprint.map Hash.hex)
      (s.history.fingerprint.map Hash.hex)]
  refine (blind_ask _ s t twin).bind fun reply u v asked asked' after => ?_
  refine (blind_checkStatus _ _ u v after).bind fun _ u' v' fine fine' after' => ?_
  obtain ⟨answered, rfl⟩ := exec_ask_eq_ok.mp asked
  obtain ⟨okay, rfl⟩ := exec_checkStatus_eq_ok.mp fine
  exact agree_placeBlocks S env target true reply.blocks after'
    (answers.startHeight_eq _ s.env reply answered okay)

/-! #### Refreshes from the end of the chain -/

variable (env) in
/-- Twins see the same flag when they look at it. -/
theorem twin_polled (twin : Twin s t) : Twin (polled env s) (polled env t) := by
  obtain ⟨same_env, wallet, unstopped, stop, summary⟩ := twin
  unfold polled
  rw [same_env, stop]
  exact ⟨rfl, wallet, unstopped, rfl, summary⟩

/-- The batches of a refresh from the end of the chain agree, since they are asked for by height. -/
theorem agree_pullLoop (answers : env.AnswersByHeight) (target : Option Hash) (rounds : Nat)
    (first : Bool) (tries : Nat) (delay : Delay) (twin : Twin s t) :
    Agree (exec (pullLoop S env .localChain target rounds first tries delay) s)
      (exec (pullLoop S env .localChain target rounds first tries delay) t) := by
  induction rounds generalizing first tries delay s t with
  | zero => exact ⟨rfl, twin⟩
  | succ rounds ih =>
    -- both are asked to stop or none is
    have looked := twin_polled env twin
    rw [exec_pullLoop_succ, exec_pullLoop_succ, looked.stop]
    split
    · exact ⟨rfl, looked⟩
    · obtain ⟨r, u, v, run, run', after⟩ := (agree_pullBatch S answers target looked).exists_eq
      rw [show batchStart .localChain first s = (polled env s).history.height from rfl,
        show batchStart .localChain first t = (polled env s).history.height from
          twin.wallet.history.height, run, run', twin.wallet.config]
      -- a failed batch is tried again by both after the same wait
      cases r with
      | error e =>
        simp only [afterBatch]
        split
        · exact ih first (tries + 1) _ (blind_outside (env.sleep delay.waited) u v after).session
        · exact ⟨rfl, after⟩
      | ok added =>
        simp only [afterBatch]
        rw [after.summary]
        split
        · exact ⟨rfl, after⟩
        · exact ih false tries delay after

/-- A refresh from the end of the chain does not depend on what was told or found before. -/
theorem agree_refreshFromLocalChain (answers : env.AnswersByHeight) (same_env : t.env = s.env)
    (wallet : s.wallet.Twin t.wallet) (unstopped : s.Unstopped ∧ t.Unstopped) :
    Agree (exec (refreshFromLocalChain S env) s) (exec (refreshFromLocalChain S env) t) := by
  have begun : Twin (started .localChain s) (started .localChain t) :=
    ⟨same_env, wallet, unstopped, rfl, rfl⟩
  -- a refresh over the local chain begins where the wallet ends, and twins end at the same height
  obtain ⟨r, u, v, run, run', after⟩ := (agree_pullLoop S answers none env.maxRounds true 0
    s.wallet.config.retry.firstDelay begun).exists_eq
  unfold refreshFromLocalChain
  rw [exec_pull, exec_pull, wallet.config, run, run']
  cases r with
  | error e => exact ⟨rfl, after⟩
  | ok _ =>
    have same : v.wallet.height = u.wallet.height := after.wallet.history.height
    refine ⟨congrArg Except.ok after.summary, ?_⟩
    simp only []
    rw [after.summary, same]
    exact after.told _

/-- The handlers stay the same. -/
theorem unstopped_refreshFromLocalChain (answers : env.AnswersByHeight) (unstopped : s.Unstopped) :
    (exec (refreshFromLocalChain S env) s).2.Unstopped :=
  (agree_refreshFromLocalChain S answers rfl (.refl s.wallet)
    ⟨unstopped, unstopped⟩).session.unstopped.1

end Sync

end RingWallet
