import RingWallet.Proofs.Wallet.Changes

/-!
# The moves of a refresh

What a refresh does to the wallet is a sequence of moves. A completed step (`Sync.Step`) adds a
block, replaces an unknown id, or cuts the chain back. A block can also fail while it is scanned
(`Sync.Failed`), and whatever else happens leaves the wallet as it is.

`Sync.runs_pullBatch` says that the run of a batch is calm, which means that no block fails, or
that it is calm up to a failed block at its end, and then the batch fails as well.
`Sync.path_pull` says that a refresh, which tries failed batches again, is a path of moves, and
`Sync.Smooth.calm` that it is calm if none of its batches fails.
-/

set_option autoImplicit false

namespace RingWallet

namespace Sync

open Relation Scan WalletM

variable (S : Suite) {σ : Type} (env : Environment σ) (target : Option Hash)

/-- A completed step of a refresh. -/
inductive Step (s t : Session σ) : Prop
  /-- A block was scanned and added to the end of the chain. -/
  | added {entry : Daemon.BlockEntry} {b : ParsedBlock} (parsed : parseEntry S entry = .ok b)
    (run : exec (addBlock S env b s.history.height target) s = (.ok (), t))
  /-- An unknown id was replaced. -/
  | adopted {height : Nat} {id : Hash} (unknown : s.history.chain[height]? = some .null)
    (wallet : t.wallet =
      s.wallet.withHistory { s.history with chain := s.history.chain.set height id })
  /-- The chain was cut back to a height below its end. -/
  | detached {height : Nat} (below : height < s.history.height)
    (wallet : t.wallet = s.wallet.withHistory (s.history.detach height))

/-- A block failed while it was scanned to be added to the end of the chain. -/
inductive Failed (b : ParsedBlock) (s t : Session σ) : Prop
  | intro {entry : Daemon.BlockEntry} {e : WalletError} (parsed : parseEntry S entry = .ok b)
    (run : exec (addBlock S env b s.history.height target) s = (.error e, t))

/-- Completed steps, and whatever leaves the wallet as it is. -/
abbrev Calm : Session σ → Session σ → Prop :=
  ReflTransGen fun s t => Step S env target s t ∨ t.wallet = s.wallet

/-- Completed steps, failed blocks, and whatever leaves the wallet as it is. -/
abbrev Path : Session σ → Session σ → Prop :=
  ReflTransGen fun s t => Step S env target s t ∨ (∃ b, Failed S env target b s t) ∨
    t.wallet = s.wallet

/-- A run that is calm, or calm up to a failed block at its end that makes it fail. -/
def Runs {α : Type} (s : Session σ) (p : Except WalletError α × Session σ) : Prop :=
  ∃ u, Calm S env target s u ∧
    (p.2 = u ∨ ∃ b e, p.1 = .error e ∧ Failed S env target b u p.2)

variable {S env target} {α β : Type}

/-- A calm run is a run. -/
theorem Calm.path {s t : Session σ} (calm : Calm S env target s t) : Path S env target s t :=
  calm.lift id fun _ _ move => move.imp id .inr

/-- However a run ends, completed steps and failed blocks lead to its end. -/
theorem Runs.path {s : Session σ} {p : Except WalletError α × Session σ}
    (runs : Runs S env target s p) : Path S env target s p.2 := by
  obtain ⟨u, calm, same | ⟨b, e, -, failed⟩⟩ := runs
  · rw [same]
    exact calm.path
  · exact calm.path.tail (.inr (.inl ⟨b, failed⟩))

/-- A run that succeeds is calm. -/
theorem Runs.calm {s t : Session σ} {a : α} (runs : Runs S env target s (.ok a, t)) :
    Calm S env target s t := by
  obtain ⟨u, calm, same | ⟨b, e, error, -⟩⟩ := runs
  · rw [show t = u from same]
    exact calm
  · cases error

/-- A completed step changes the history alone. -/
theorem Step.withHistory {s t : Session σ} (step : Step S env target s t) :
    ∃ h, t.wallet = s.wallet.withHistory h := by
  cases step with
  | added parsed run =>
    obtain ⟨h, -, wallet⟩ := changes_of_addBlock_ok run
    exact ⟨_, wallet⟩
  | adopted unknown wallet => exact ⟨_, wallet⟩
  | detached below wallet => exact ⟨_, wallet⟩

/-- A calm run changes the history alone. -/
theorem Calm.withHistory {s t : Session σ} (calm : Calm S env target s t) :
    ∃ h, t.wallet = s.wallet.withHistory h := by
  induction calm with
  | refl => exact ⟨s.wallet.history, rfl⟩
  | tail _ move ih =>
    obtain ⟨h, before⟩ := ih
    rcases move with step | same
    · obtain ⟨h', after⟩ := step.withHistory
      exact ⟨h', by rw [after, before, Wallet.withHistory_withHistory]⟩
    · exact ⟨h, same.trans before⟩

/-- A run that leaves the wallet as it is. -/
theorem Runs.idle {s : Session σ} {p : Except WalletError α × Session σ}
    (same : p.2.wallet = s.wallet) : Runs S env target s p :=
  ⟨p.2, .single (.inr same), .inl rfl⟩

/-- A run that is one completed step. -/
theorem Runs.step {s : Session σ} {p : Except WalletError α × Session σ}
    (step : Step S env target s p.2) : Runs S env target s p :=
  ⟨p.2, .single (.inl step), .inl rfl⟩

/-- Two steps in a row: if the first one fails the second one does not happen. -/
theorem Runs.bind {x : WalletM σ α} {f : α → WalletM σ β} {s : Session σ}
    (first : Runs S env target s (exec x s))
    (second : ∀ a t, exec x s = (.ok a, t) → Runs S env target t (exec (f a) t)) :
    Runs S env target s (exec (x >>= f) s) := by
  rcases hx : exec x s with ⟨e | a, t⟩
  · rw [exec_bind_error f hx]
    rw [hx] at first
    obtain ⟨u, calm, same | ⟨b, e', -, failed⟩⟩ := first
    · exact ⟨u, calm, .inl same⟩
    · exact ⟨u, calm, .inr ⟨b, e, rfl, failed⟩⟩
  · rw [exec_bind_ok f hx]
    rw [hx] at first
    obtain ⟨u, calm, last⟩ := second a t hx
    exact ⟨u, first.calm.trans calm, last⟩

variable (S env target)

/-! ### Batches -/

/-- Adding a block to the end of the chain is a completed step or a failed block. -/
theorem runs_addBlock {entry : Daemon.BlockEntry} {b : ParsedBlock}
    (parsed : parseEntry S entry = .ok b) {s : Session σ} {height : Nat}
    (on_top : height = s.history.height) :
    Runs S env target s (exec (addBlock S env b height target) s) := by
  subst on_top
  rcases run : exec (addBlock S env b s.history.height target) s with ⟨e | ⟨⟩, t⟩
  · exact ⟨s, .refl, .inr ⟨b, e, rfl, .intro parsed run⟩⟩
  · exact .step (.added parsed run)

/-- A block at the end of the chain is added. -/
theorem exec_placeBlock_on_top (b : ParsedBlock) (first : Bool) (s : Session σ) :
    exec (placeBlock S env b s.history.height first target) s =
      exec (do addBlock S env b s.history.height target; return true) s := by
  have known : s.history.chain[s.history.height]? = none := List.getElem?_eq_none (Nat.le_refl _)
  unfold placeBlock
  rw [exec_bind_ok _ (exec_history s)]
  simp only [known]
  rw [if_neg (Nat.lt_irrefl _)]

/-- The chain is one longer after that. -/
theorem height_of_placeBlock_on_top {S : Suite} {env : Environment σ} {target : Option Hash}
    {b : ParsedBlock} {first added : Bool} {s t : Session σ}
    (run : exec (placeBlock S env b s.history.height first target) s = (.ok added, t)) :
    t.history.height = s.history.height + 1 := by
  rw [exec_placeBlock_on_top, exec_bind_eq_ok] at run
  obtain ⟨⟨⟩, u, grown, last⟩ := run
  obtain rfl : u = t := (Prod.mk.inj last).2
  exact height_of_addBlock grown

/-- The ways in which a block is placed: nothing happens, because it is known or because the batch
fails, it takes the place of an unknown id, or it is added to the end of the chain, after a later
block of a batch has cut the chain back to its height. -/
theorem exec_placeBlock_cases (b : ParsedBlock) (height : Nat) (first : Bool) (s : Session σ) :
    (∃ r, exec (placeBlock S env b height first target) s = (r, s) ∧
        ∀ added, r = .ok added → added = false ∧ s.history.chain[height]? = some b.id) ∨
      (s.history.chain[height]? = some .null ∧
        exec (placeBlock S env b height first target) s =
          (.ok false, s.withHistory { s.history with chain := s.history.chain.set height b.id })) ∨
      ∃ u : Session σ, height = u.history.height ∧
        (u = s ∨ first = false ∧ height < s.history.height ∧
          u = (s.withHistory (s.history.detach height)).told
            (.reorg height (s.history.height - height))) ∧
        exec (placeBlock S env b height first target) s =
          exec (do addBlock S env b height target; return true) u := by
  rcases known : s.history.chain[height]? with - | id
  · have beyond : s.history.height ≤ height := List.getElem?_eq_none_iff.mp known
    -- right at the end of the chain the block is added, and beyond it the batch fails
    rcases Nat.eq_or_lt_of_le beyond with rfl | gap
    · exact .inr (.inr ⟨s, rfl, .inl rfl, exec_placeBlock_on_top S env target b first s⟩)
    · refine .inl ⟨.error (.consistency (.blockBeyondEnd height s.history.height)), ?_, by simp⟩
      unfold placeBlock
      rw [exec_bind_ok _ (exec_history s)]
      simp only [known]
      rw [if_pos gap]
      rfl
  · have below : height < s.history.height := (List.getElem?_eq_some_iff.mp known).1
    unfold placeBlock
    rw [exec_bind_ok _ (exec_history s)]
    simp only [known]
    -- a block that is known, one whose id was not known, and a split of the chain
    by_cases same : id = b.id
    · rw [if_pos same]
      refine .inl ⟨.ok false, rfl, fun added eq => ⟨(Except.ok.inj eq).symm, congrArg some same⟩⟩
    · rw [if_neg same]
      by_cases unknown : id.isNull = true
      · rw [if_pos unknown]
        have null : id = .null := by simpa [Hash.isNull] using unknown
        exact .inr (.inl ⟨congrArg some null, rfl⟩)
      · rw [if_neg unknown]
        cases first with
        | true =>
          exact .inl ⟨.error (.consistency (.splitAtFirstBlock height)), rfl, by simp⟩
        | false =>
          refine .inr (.inr ⟨_, ?_, .inr ⟨rfl, below, rfl⟩, rfl⟩)
          show height = (s.history.chain.take height).length
          rw [List.length_take]
          unfold History.height at below
          omega

/-- A parsed block is placed calmly, or fails at the end. -/
theorem runs_placeBlock {entry : Daemon.BlockEntry} {b : ParsedBlock}
    (parsed : parseEntry S entry = .ok b) (height : Nat) (first : Bool) (s : Session σ) :
    Runs S env target s (exec (placeBlock S env b height first target) s) := by
  rcases exec_placeBlock_cases S env target b height first s with
    ⟨r, run, -⟩ | ⟨unknown, run⟩ | ⟨u, on_top, origin, run⟩
  · rw [run]
    exact .idle rfl
  · rw [run]
    exact .step (.adopted unknown rfl)
  · have added : Runs S env target u (exec (do addBlock S env b height target; return true) u) :=
      .bind (runs_addBlock S env target parsed on_top) fun _ t _ => .idle rfl
    rw [run]
    rcases origin with rfl | ⟨-, below, rfl⟩
    · exact added
    · -- the cut is a step of its own, which stays when the block fails after it
      obtain ⟨v, calm, last⟩ := added
      exact ⟨v, .head (.inl (.detached below rfl)) calm, last⟩

/-- The blocks of a batch are placed calmly, up to one that may fail. -/
theorem runs_placeBlocks (entries : List Daemon.BlockEntry) (height : Nat) (first : Bool)
    (s : Session σ) :
    Runs S env target s (exec (placeBlocks S env target height first entries) s) := by
  induction entries generalizing height first s with
  | nil => exact .idle rfl
  | cons entry rest ih =>
    -- a block that cannot be decoded fails the batch before it is placed
    rw [placeBlocks]
    refine .bind (.idle (by rw [exec_orFail])) ?_
    intro b t run
    rw [exec_orFail] at run
    obtain ⟨parsed, rfl⟩ : parseEntry S entry = .ok b ∧ s = t := by
      simpa [Except.mapError_eq_ok] using run
    refine .bind (runs_placeBlock S env target parsed height first s) ?_
    intro added t _
    refine .bind (.idle rfl) ?_
    rintro u t ⟨⟩
    by_cases found : t.summary.targetFound = true
    · simp only [found, if_true]
      cases added <;> exact .idle rfl
    · simp only [found]
      cases added <;> exact .bind (ih _ _ t) fun _ _ _ => .idle rfl

/-- The run of a batch is calm up to the block at which it fails. -/
theorem runs_pullBatch (startHeight : Nat) (s : Session σ) :
    Runs S env target s (exec (pullBatch S env startHeight target) s) := by
  unfold pullBatch
  refine .bind (.idle rfl) ?_
  rintro h t ⟨⟩
  refine .bind (.idle (by rw [exec_ask])) ?_
  intro reply t _
  refine .bind (.idle (by rw [exec_checkStatus])) ?_
  intro _ u _
  exact runs_placeBlocks S env target reply.blocks reply.startHeight true u

/-- A batch of one block at the end of the chain adds it, if its scan does not fail. -/
theorem exec_placeBlocks_on_top {entry : Daemon.BlockEntry} {b : ParsedBlock}
    (parsed : parseEntry S entry = .ok b) (first : Bool) (s : Session σ) :
    exec (placeBlocks S env target s.history.height first [entry]) s =
      exec (do addBlock S env b s.history.height target; return 1) s := by
  have decoded : exec (WalletM.orFail .protocol (parseEntry S entry)) s = (.ok b, s) := by
    rw [exec_orFail, parsed]
    rfl
  rw [placeBlocks, exec_bind_ok _ decoded, exec_bind, exec_placeBlock_on_top]
  -- a failure of the block is the failure of the batch, and after it nothing is asked
  rcases run : exec (addBlock S env b s.history.height target) s with ⟨e | ⟨⟩, t⟩
  · rw [exec_bind_error _ run, exec_bind_error _ run]
  · rw [exec_bind_ok _ run, exec_bind_ok _ run]
    show exec (_ >>= _) t = _
    rw [exec_bind_ok _ (exec_get t)]
    -- whether the target was found decides how the loop goes on, but no entry is left
    by_cases found : t.summary.targetFound = true
    · rw [if_pos found]
      rfl
    · rw [if_neg found]
      rfl

/-! ### Refreshes -/

/-- The session after a refresh has looked whether another task asks it to stop. -/
def polled (s : Session σ) : Session σ :=
  { s with
    env := (env.stopAsked.run s.env).2
    stop := (env.stopAsked.run s.env).1 || s.stop }

/-- Reading the stop flag leaves the wallet as it is. -/
@[simp] theorem wallet_polled (s : Session σ) : (polled env s).wallet = s.wallet := rfl

/-- Reading the stop flag leaves the history as it is. -/
@[simp] theorem history_polled (s : Session σ) : (polled env s).history = s.history := rfl

/-- Reading the stop flag tells nothing. -/
@[simp] theorem events_polled (s : Session σ) : (polled env s).events = s.events := rfl

/-- Reading the stop flag is not part of the summary. -/
@[simp] theorem summary_polled (s : Session σ) : (polled env s).summary = s.summary := rfl

/-- Where nobody asks, nothing changes. -/
theorem polled_eq {s : Session σ} (nobody : env.stopAsked.run s.env = (false, s.env)) :
    polled env s = s := by
  unfold polled
  rw [nobody]
  rfl

/-- The height from which the next batch is asked for. -/
def batchStart (start : RefreshStart) (first : Bool) (s : Session σ) : Nat :=
  match start with
  | .fixed height => if first then height else 0
  | .localChain => s.wallet.height

/-- What follows a batch: the refresh is over, or fetches the next batch, or tries again, or fails.
-/
def afterBatch (start : RefreshStart) (rounds : Nat) (first : Bool) (tries : Nat) (delay : Delay)
    (retry : RetryPolicy) :
    Except WalletError Nat × Session σ → Except WalletError Unit × Session σ
  | (.ok added, t) =>
    if added = 0 ∨ t.summary.targetFound then (.ok (), t)
    else exec (pullLoop S env start target rounds false tries delay) t
  | (.error e, t) =>
    if e.isRetryable ∧ tries < retry.maxRetries then
      exec (pullLoop S env start target rounds first (tries + 1) (retry.nextDelay delay))
        { t with env := ((env.sleep delay.waited).run t.env).2 }
    else (.error e, t)

/-- One round of a refresh. -/
theorem exec_pullLoop_succ (start : RefreshStart) (rounds : Nat) (first : Bool) (tries : Nat)
    (delay : Delay) (s : Session σ) :
    exec (pullLoop S env start target (rounds + 1) first tries delay) s =
      if (polled env s).stop then (.ok (), polled env s)
      else afterBatch S env target start rounds first tries delay s.wallet.config.retry
        (exec (pullBatch S env (batchStart start first s) target) (polled env s)) := by
  have asked : exec (stopRequested env) s = (.ok (polled env s).stop, polled env s) := rfl
  have same : s.wallet.config = (polled env s).wallet.config := rfl
  have from_same : batchStart start first s = batchStart start first (polled env s) := rfl
  rw [pullLoop, exec_bind_ok _ asked, same, from_same]
  generalize polled env s = s
  -- the program after the choice of the start height
  have round (startHeight : Nat) (rest : Except WalletError Nat → WalletM σ Unit)
      (after : ∀ r t, exec (rest r) t =
        afterBatch S env target start rounds first tries delay s.wallet.config.retry (r, t)) :
      exec (outcome (pullBatch S env startHeight target) >>= rest) s =
        afterBatch S env target start rounds first tries delay s.wallet.config.retry
          (exec (pullBatch S env startHeight target) s) := by
    rw [exec_bind_ok _ (exec_outcome _ s)]
    exact after _ _
  split
  · rfl
  · rw [exec_bind_ok _ (exec_get s)]
    cases start
    all_goals
      refine round _ _ ?_
      rintro (e | added) t
      · simp only [afterBatch]
        split
        · rw [exec_bind_ok _ (exec_outside _ t)]
        · rfl
      · simp only [afterBatch]
        rw [exec_bind_ok _ (exec_get t)]
        split
        · rfl
        · rfl

/-- However the batches of a refresh end, they are a path of moves. -/
theorem path_pullLoop (start : RefreshStart) (rounds : Nat) (first : Bool) (tries : Nat)
    (delay : Delay) (s : Session σ) :
    Path S env target s (exec (pullLoop S env start target rounds first tries delay) s).2 := by
  induction rounds generalizing first tries delay s with
  | zero => exact .refl
  | succ rounds ih =>
    -- neither the look at the flag nor the wait before the next attempt touches the wallet
    have asked : Path S env target s (polled env s) := .single (.inr (.inr rfl))
    have batch := (runs_pullBatch S env target (batchStart start first s)
      (polled env s)).path
    rw [exec_pullLoop_succ]
    refine .trans asked ?_
    split
    · exact .refl
    · rcases run : exec (pullBatch S env (batchStart start first s) target)
        (polled env s) with ⟨e | added, t⟩
      · rw [run] at batch
        simp only [afterBatch]
        split
        · refine .trans batch (.trans (.single (.inr (.inr ?_))) (ih _ _ _ _))
          rfl
        · exact batch
      · rw [run] at batch
        simp only [afterBatch]
        split
        · exact batch
        · exact .trans batch (ih _ _ _ _)

/-- The session in which the batches of a refresh start. -/
def started (start : RefreshStart) (s : Session σ) : Session σ :=
  { s with
    stop := false
    summary := {}
    wallet := match start with
      | .fixed height => s.wallet.withHistory (s.history.assumeScanned height)
      | .localChain => s.wallet }

/-- The session in which the batches of a refresh end, whether they succeed or fail. -/
def afterBatches (start : RefreshStart) (s : Session σ) : Session σ :=
  (exec (pullLoop S env start target env.maxRounds true 0 s.wallet.config.retry.firstDelay)
    (started start s)).2

/-- A refresh is the run of its batches. -/
theorem exec_pull (start : RefreshStart) (s : Session σ) :
    exec (pull S env start target) s =
      match exec (pullLoop S env start target env.maxRounds true 0 s.wallet.config.retry.firstDelay)
        (started start s) with
      | (.ok (), t) =>
        (.ok t.summary, t.told (.refreshCompleted t.summary.blocksFetched t.wallet.height))
      | (.error e, t) => (.error e, t) := by
  -- both kinds of start run the same loop, so it is opened once for any session
  have run (u : Session σ) : exec (do
      let retry := (← WalletM.wallet).config.retry
      pullLoop S env start target env.maxRounds true 0 retry.firstDelay
      let s ← get
      WalletM.tell (.refreshCompleted s.summary.blocksFetched s.wallet.height)
      return s.summary) u =
      match exec (pullLoop S env start target env.maxRounds true 0 u.wallet.config.retry.firstDelay)
        u with
      | (.ok (), t) =>
        (.ok t.summary, t.told (.refreshCompleted t.summary.blocksFetched t.wallet.height))
      | (.error e, t) => (.error e, t) := by
    rw [exec_bind_ok _ (exec_wallet u), exec_bind]
    rcases exec (pullLoop S env start target env.maxRounds true 0
      u.wallet.config.retry.firstDelay) u with ⟨e | ⟨⟩, t⟩
    · rfl
    · rfl
  unfold pull
  rw [exec_bind_ok _ (exec_modify _ s)]
  cases start with
  | fixed height =>
    rw [exec_bind_ok _ (exec_modifyHistory _ _)]
    exact run _
  | localChain => exact run _

/-- A refresh that succeeds tells so when its batches have ended. -/
theorem eq_told_of_exec_pull {start : RefreshStart} {s t : Session σ} {summary : RefreshSummary}
    (run : exec (pull S env start target) s = (.ok summary, t)) :
    exec (pullLoop S env start target env.maxRounds true 0 s.wallet.config.retry.firstDelay)
        (started start s) = (.ok (), afterBatches S env target start s) ∧
      summary = (afterBatches S env target start s).summary ∧
      t = (afterBatches S env target start s).told (.refreshCompleted
        (afterBatches S env target start s).summary.blocksFetched
        (afterBatches S env target start s).wallet.height) := by
  rw [exec_pull] at run
  unfold afterBatches
  rcases loop : exec (pullLoop S env start target env.maxRounds true 0
    s.wallet.config.retry.firstDelay) (started start s) with ⟨e | ⟨⟩, u⟩
  · rw [loop] at run
    cases run
  · rw [loop] at run
    obtain ⟨same, rfl⟩ := Prod.mk.inj run
    exact ⟨rfl, (Except.ok.inj same).symm, rfl⟩

/-- A refresh that fails does nothing after its batches. -/
theorem eq_afterBatches_of_exec_pull {start : RefreshStart} {s t : Session σ} {e : WalletError}
    (run : exec (pull S env start target) s = (.error e, t)) :
    t = afterBatches S env target start s := by
  rw [exec_pull] at run
  unfold afterBatches
  rcases loop : exec (pullLoop S env start target env.maxRounds true 0
    s.wallet.config.retry.firstDelay) (started start s) with ⟨e' | ⟨⟩, u⟩
  · rw [loop] at run
    exact (Prod.mk.inj run).2.symm
  · rw [loop] at run
    cases run

/-- However a refresh ends, it is a path of moves. -/
theorem path_pull (start : RefreshStart) (s : Session σ) :
    Path S env target (started start s) (exec (pull S env start target) s).2 := by
  have batches := path_pullLoop S env target start env.maxRounds true 0
    s.wallet.config.retry.firstDelay (started start s)
  rw [exec_pull]
  rcases run : exec (pullLoop S env start target env.maxRounds true 0
    s.wallet.config.retry.firstDelay) (started start s) with ⟨e | ⟨⟩, t⟩
  · rw [run] at batches
    exact batches
  · rw [run] at batches
    exact .tail batches (.inr (.inr rfl))

/-! ### Refreshes without a failure -/

/-- Every batch that a refresh fetches succeeds, so that nothing is tried again. -/
def NoBatchFails (start : RefreshStart) : (rounds : Nat) → (first : Bool) → Session σ → Prop
  | 0, _, _ => True
  | rounds + 1, first, s =>
    (polled env s).stop = true ∨
      ∃ added t, exec (pullBatch S env (batchStart start first s) target)
          (polled env s) = (.ok added, t) ∧
        ((added = 0 ∨ t.summary.targetFound) ∨ NoBatchFails start rounds false t)

/-- A refresh that goes through without a failure. -/
structure Smooth (start : RefreshStart) (s t : Session σ) : Prop where
  succeeds : ∃ summary, exec (pull S env start target) s = (.ok summary, t)
  noBatchFails : NoBatchFails S env target start env.maxRounds true (started start s)

/-- A refresh all of whose batches succeed is calm. -/
theorem calm_pullLoop (start : RefreshStart) (rounds : Nat) (first : Bool) (tries : Nat)
    (delay : Delay) (s : Session σ) (smooth : NoBatchFails S env target start rounds first s) :
    Calm S env target s (exec (pullLoop S env start target rounds first tries delay) s).2 := by
  induction rounds generalizing first tries delay s with
  | zero => exact .refl
  | succ rounds ih =>
    -- asking whether to stop is itself a move that changes no wallet
    have asked : Calm S env target s (polled env s) := .single (.inr rfl)
    rw [exec_pullLoop_succ]
    refine .trans asked ?_
    by_cases stop : (polled env s).stop = true
    · rw [if_pos stop]
    · rw [if_neg stop]
      -- no batch fails, so the loop goes on or ends after one that completed
      rcases smooth with stops | ⟨added, t, run, rest⟩
      · exact absurd stops stop
      · have batch := runs_pullBatch S env target (batchStart start first s)
          (polled env s)
        rw [run] at batch ⊢
        simp only [afterBatch]
        by_cases last : added = 0 ∨ t.summary.targetFound
        · rw [if_pos last]
          exact batch.calm
        · rw [if_neg last]
          exact .trans batch.calm (ih false tries delay t (rest.resolve_left last))

/-- A smooth refresh is calm once it has begun. -/
theorem Smooth.calm {S : Suite} {env : Environment σ} {target : Option Hash} {start : RefreshStart}
    {s t : Session σ} (smooth : Smooth S env target start s t) :
    Calm S env target (started start s) t := by
  obtain ⟨⟨summary, run⟩, noBatchFails⟩ := smooth
  have batches := calm_pullLoop S env target start env.maxRounds true 0
    s.wallet.config.retry.firstDelay (started start s) noBatchFails
  rw [exec_pull] at run
  rcases loop : exec (pullLoop S env start target env.maxRounds true 0
    s.wallet.config.retry.firstDelay) (started start s) with ⟨e | ⟨⟩, u⟩
  · -- a refresh that ends in an error is not smooth
    rw [loop] at run
    cases run
  · rw [loop] at run batches
    obtain rfl := (Prod.mk.inj run).2
    exact .tail batches (.inr rfl)

end Sync

end RingWallet
