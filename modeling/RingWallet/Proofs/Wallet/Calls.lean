import RingWallet.Proofs.Support.Script
import RingWallet.Spend.Send
import RingWallet.Wallet.SavedState

/-!
# Sequences of calls

`Call` lists what a caller can ask of a wallet that changes what it has learned: the four kinds of
refresh, cutting back, skipping blocks, and sending. `afterCalls` runs calls one after the other;
one that fails leaves the wallet as it was at the failure, and the next one goes on from there.

`consistent_afterCalls` says that a new wallet has a consistent history after any calls, whatever
the daemon answers.
-/

set_option autoImplicit false

namespace RingWallet

open Relation WalletM

variable (S : Suite) {σ : Type} (env : Environment σ)

/-- A call that changes what a wallet has learned. -/
inductive Call where
  | refresh
  | refreshFrom (height : Nat)
  | refreshFromLocalChain
  | refreshUntil (height : Nat) (txHash : Hash)
  | detach (height : Nat)
  | assumeScanned (height : Nat)
  | send (pending : PendingTransaction)

namespace Call

/-- The program of a call. -/
def run : Call → WalletM σ Unit
  | refresh => discard (Sync.refresh S env)
  | refreshFrom height => discard (Sync.refreshFrom S env height)
  | refreshFromLocalChain => discard (Sync.refreshFromLocalChain S env)
  | refreshUntil height txHash => discard (Sync.refreshUntil S env height txHash)
  | detach height => discard (Sync.detach height)
  | assumeScanned height => modifyHistory fun h => h.assumeScanned height
  | send pending => discard (RingWallet.send env pending)

end Call

/-- The session after some calls, each of which may have failed. -/
def afterCalls (calls : List Call) (s : Session σ) : Session σ :=
  calls.foldl (fun s call => (exec (call.run S env) s).2) s

/-! ### Moves keep histories consistent -/

namespace Sync

variable {S env} {target : Option Hash}

/-- The transactions of a decoded block come with their hashes. -/
theorem hash_eq_of_parseEntry {entry : Daemon.BlockEntry} {b : ParsedBlock}
    (parsed : parseEntry S entry = .ok b) (txHash : Hash) (tx : Transaction)
    (mem : (txHash, tx) ∈ allTransactions S b) : txHash = tx.hash S := by
  obtain ⟨block, -, parsed⟩ := Except.bind_eq_ok.mp parsed
  obtain ⟨txs, found, parsed⟩ := Except.bind_eq_ok.mp parsed
  obtain rfl := Except.ok.inj parsed
  -- the reward is hashed when the block is scanned, the others when they are decoded
  rcases List.mem_cons.mp mem with first | mem
  · obtain ⟨rfl, rfl⟩ := Prod.mk.inj first
    rfl
  · obtain ⟨text, -, eq⟩ := Except.mem_of_mapM_eq_ok found mem
    obtain ⟨tx', -, eq⟩ := Except.bind_eq_ok.mp eq
    obtain ⟨rfl, rfl⟩ := Prod.mk.inj (Except.ok.inj eq)
    rfl

/-- A completed step changes the history alone, and keeps it consistent. -/
theorem Step.consistent (derivable : ∀ key secret, KeyImage.ofKeys S key secret ≠ .ok .null)
    {s t : Session σ} (step : Step S env target s t) (hc : s.history.Consistent S) :
    t.history.Consistent S := by
  cases step with
  -- an added block changes the history by its transactions and then adds its id
  | @added entry b parsed run =>
    obtain ⟨h', changes, wallet⟩ := changes_of_addBlock_ok run
    rw [Session.history, wallet]
    exact (changes.consistent derivable (hash_eq_of_parseEntry parsed) rfl hc).append b.id
  | adopted unknown wallet =>
    rw [Session.history, wallet]
    exact hc.setId _ _
  | detached below wallet =>
    rw [Session.history, wallet]
    exact hc.detach _

/-- A failed block leaves a consistent history behind. -/
theorem Failed.consistent (derivable : ∀ key secret, KeyImage.ofKeys S key secret ≠ .ok .null)
    {b : ParsedBlock} {s t : Session σ} (failed : Failed S env target b s t)
    (hc : s.history.Consistent S) : t.history.Consistent S := by
  obtain ⟨parsed, run⟩ := failed
  obtain ⟨h', changes, wallet⟩ := changes_of_addBlock_error run
  rw [Session.history, wallet]
  exact changes.consistent derivable (hash_eq_of_parseEntry parsed) rfl hc

/-- A run keeps a consistent history consistent, wherever it stops. -/
theorem Path.consistent (derivable : ∀ key secret, KeyImage.ofKeys S key secret ≠ .ok .null)
    {s t : Session σ} (path : Path S env target s t) (hc : s.history.Consistent S) :
    t.history.Consistent S := by
  induction path with
  | refl => exact hc
  | tail _ move ih =>
    rcases move with step | ⟨b, failed⟩ | same
    · exact step.consistent derivable ih
    · exact failed.consistent derivable ih
    · rw [Session.history, same]
      exact ih

/-- However a refresh ends, the history stays consistent. -/
theorem consistent_pull (derivable : ∀ key secret, KeyImage.ofKeys S key secret ≠ .ok .null)
    (start : RefreshStart) {s : Session σ} (hc : s.history.Consistent S) :
    (exec (pull S env start target) s).2.history.Consistent S := by
  refine (path_pull S env target start s).consistent derivable ?_
  cases start with
  | fixed height => exact hc.assumeScanned height
  | localChain => exact hc

/-- However a refresh ends, it changes the history alone. -/
theorem Path.withHistory {s t : Session σ} (path : Path S env target s t) :
    ∃ h, t.wallet = s.wallet.withHistory h := by
  induction path with
  | refl => exact ⟨s.wallet.history, rfl⟩
  | tail _ move ih =>
    obtain ⟨h, before⟩ := ih
    rcases move with step | ⟨b, parsed, run⟩ | same
    · obtain ⟨h', after⟩ := step.withHistory
      exact ⟨h', by rw [after, before, Wallet.withHistory_withHistory]⟩
    · obtain ⟨h', -, after⟩ := changes_of_addBlock_error run
      exact ⟨h', by rw [after, before, Wallet.withHistory_withHistory]⟩
    · exact ⟨h, same.trans before⟩

/-- However a refresh ends, nothing but the history of the wallet has changed. -/
theorem withHistory_pull (start : RefreshStart) (s : Session σ) :
    ∃ h, (exec (pull S env start target) s).2.wallet = s.wallet.withHistory h := by
  obtain ⟨h, wallet⟩ := (path_pull S env target start s).withHistory
  cases start with
  | fixed height => exact ⟨h, wallet⟩
  | localChain => exact ⟨h, wallet⟩

end Sync

/-! ### Calls keep histories consistent -/

variable {S env}

/-- A run whose result is dropped. -/
theorem exec_discard {α : Type} (x : WalletM σ α) (s : Session σ) :
    (exec (discard x) s).2 = (exec x s).2 := by
  show (exec (x >>= fun _ => pure ()) s).2 = _
  rw [exec_bind]
  rcases exec x s with ⟨e | a, t⟩ <;> rfl

/-- Whether an answer says that the daemon took the transaction. -/
def Daemon.takes : Except LedgerError Daemon.SendReply → Bool
  | .ok reply => reply.status = okStatus
  | .error _ => false

/-- Sending fails without a question to the daemon, or the daemon does not take the transaction, or
the selected outputs are unspent and the transaction is noted. -/
theorem exec_send_steps (env : Environment σ) (pending : PendingTransaction) (s : Session σ) :
    (∃ e, exec (send env pending) s = (.error e, s)) ∨
      ∃ answer env', (env.send pending.tx.toBlob).run s.env = (answer, env') ∧
        ((∃ e, Daemon.takes answer = false ∧
            exec (send env pending) s = (.error e, { s with env := env' })) ∨
          Daemon.takes answer = true ∧
            checkSelection s.history.transfers pending.selected = .ok () ∧
            exec (send env pending) s = (.ok pending.hash,
              { s.withHistory (s.history.markSent pending (env.now.run env').1) with
                env := (env.now.run env').2 })) := by
  unfold send
  rw [exec_bind_ok _ (exec_history s), exec_bind, exec_orFail]
  rcases unspent : checkSelection s.history.transfers pending.selected with e | ⟨⟩
  · exact .inl ⟨_, rfl⟩
  · simp only [Except.mapError_ok]
    rw [exec_bind_ok _ (exec_outside _ s), exec_bind, exec_orFail]
    refine .inr ?_
    rcases (env.send pending.tx.toBlob).run s.env with ⟨e | reply, env'⟩
    · exact ⟨_, _, rfl, .inl ⟨_, rfl, rfl⟩⟩
    · refine ⟨_, _, rfl, ?_⟩
      simp only [Except.mapError_ok, Daemon.takes, decide_eq_true_eq, decide_eq_false_iff_not]
      -- nothing is written before the daemon has taken the transaction
      split
      · next busy => exact .inl ⟨_, by simp [busy, Daemon.busyStatus, Daemon.okStatus], rfl⟩
      · split
        · next refused => exact .inl ⟨_, refused, rfl⟩
        · next taken => exact .inr ⟨not_not.mp taken, trivial, rfl⟩

/-- Sending fails and changes the environment alone, or the selected outputs are unspent, the daemon
takes the transaction, and it is noted. -/
theorem exec_send_cases (env : Environment σ) (pending : PendingTransaction) (s : Session σ) :
    (∃ e env', exec (send env pending) s = (.error e, { s with env := env' })) ∨
      ∃ now env', checkSelection s.history.transfers pending.selected = .ok () ∧
        (∃ reply, ((env.send pending.tx.toBlob).run s.env).1 = .ok reply ∧
          reply.status = Daemon.okStatus) ∧
        exec (send env pending) s =
          (.ok pending.hash,
            { s.withHistory (s.history.markSent pending now) with env := env' }) := by
  rcases exec_send_steps env pending s with
    ⟨e, run⟩ | ⟨answer, env', asked, ⟨e, -, run⟩ | ⟨taken, unspent, run⟩⟩
  · exact .inl ⟨e, s.env, run⟩
  · exact .inl ⟨e, env', run⟩
  · rw [asked]
    cases answer with
    | error e => cases taken
    | ok reply => exact .inr ⟨_, _, unspent, ⟨reply, rfl, of_decide_eq_true taken⟩, run⟩

/-- Sending notes the transaction and marks outputs as spent, or leaves the history as it is. -/
theorem exec_send (env : Environment σ) (pending : PendingTransaction) (s : Session σ) :
    (exec (send env pending) s).2.history = s.history ∨
      ∃ now, (exec (send env pending) s).2.history = s.history.markSent pending now := by
  rcases exec_send_cases env pending s with ⟨e, env', run⟩ | ⟨now, env', -, -, run⟩
  · rw [run]
    exact .inl rfl
  · rw [run]
    exact .inr ⟨now, rfl⟩

/-- However a call ends, a property of histories holds after it if the kinds of calls see to it. -/
theorem Call.holds {P : History → Prop} (call : Call) {s : Session σ} (hp : P s.history)
    (pull : ∀ start target, P (exec (Sync.pull S env start target) s).2.history)
    (detach : ∀ n, call = .detach n → P (s.history.detach n))
    (assumeScanned : ∀ n, P (s.history.assumeScanned n))
    (markSent : ∀ pending now, call = .send pending → P (s.history.markSent pending now)) :
    P (exec (call.run S env) s).2.history := by
  cases call with
  -- the four refreshes are one, from different heights
  | refresh | refreshFrom | refreshFromLocalChain | refreshUntil =>
    rw [run, exec_discard]
    exact pull _ _
  | detach n => exact detach n rfl
  | assumeScanned n => exact assumeScanned n
  | send pending =>
    rw [run, exec_discard]
    rcases exec_send env pending s with same | ⟨now, sent⟩
    · rw [same]
      exact hp
    · rw [sent]
      exact markSent pending now rfl

/-- However a call ends, it changes the history alone. -/
theorem Call.withHistory (call : Call) (s : Session σ) :
    ∃ h, (exec (call.run S env) s).2.wallet = s.wallet.withHistory h := by
  cases call with
  | refresh | refreshFrom | refreshFromLocalChain | refreshUntil =>
    rw [run, exec_discard]
    exact Sync.withHistory_pull _ s
  | detach n => exact ⟨_, rfl⟩
  | assumeScanned n => exact ⟨_, rfl⟩
  | send pending =>
    -- a sending changes nothing, or it marks what was spent
    rw [run, exec_discard]
    rcases exec_send_cases env pending s with ⟨e, env', run⟩ | ⟨now, env', -, -, run⟩
    · rw [run]
      exact ⟨s.history, rfl⟩
    · rw [run]
      exact ⟨_, rfl⟩

/-- A property that each of some calls keeps. -/
theorem afterCalls_holds {P : Session σ → Prop} {calls : List Call}
    (each : ∀ call ∈ calls, ∀ s, P s → P (exec (call.run S env) s).2) {s : Session σ} (hp : P s) :
    P (afterCalls S env calls s) := by
  unfold afterCalls
  induction calls generalizing s with
  | nil => exact hp
  | cons call rest ih =>
    rw [List.forall_mem_cons] at each
    exact ih each.2 (each.1 s hp)

/-- Calls change the history alone. -/
theorem withHistory_afterCalls (S : Suite) (env : Environment σ) (calls : List Call)
    (s : Session σ) : ∃ h, (afterCalls S env calls s).wallet = s.wallet.withHistory h := by
  refine afterCalls_holds (P := fun t : Session σ => ∃ h, t.wallet = s.wallet.withHistory h)
    (fun call _ t before => ?_) ⟨s.history, rfl⟩
  obtain ⟨h, before⟩ := before
  obtain ⟨h', after⟩ := call.withHistory t
  exact ⟨h', by rw [after, before, Wallet.withHistory_withHistory]⟩

/-- A call keeps the history consistent, however it ends. -/
theorem Call.consistent (derivable : ∀ key secret, KeyImage.ofKeys S key secret ≠ .ok .null)
    (call : Call) {s : Session σ} (hc : s.history.Consistent S) :
    (exec (call.run S env) s).2.history.Consistent S :=
  call.holds hc (fun start _ => Sync.consistent_pull derivable start hc) (fun n _ => hc.detach n)
    (fun n => hc.assumeScanned n)
    fun pending now _ => hc.sameOutputs (History.sameOutputs_markSent s.history pending now).1

/-- A new wallet knows one block at most, and nothing else. -/
theorem eq_of_create {account : Account} {config : Config} {w : Wallet}
    (created : Wallet.create account config = .ok w) :
    ∃ chain : List Hash, chain.length ≤ 1 ∧
      w = { account, config, history := { chain } } := by
  obtain ⟨genesis, -, created⟩ := Except.bind_eq_ok.mp created
  refine ⟨_, ?_, (Except.ok.inj created).symm⟩
  split
  · exact Nat.zero_le 1
  · exact Nat.le_refl 1

/-- A new wallet has a consistent history. -/
theorem consistent_create {account : Account} {config : Config} {w : Wallet}
    (created : Wallet.create account config = .ok w) : w.history.Consistent S := by
  obtain ⟨chain, -, rfl⟩ := eq_of_create created
  exact History.Consistent.empty.withChain (Nat.zero_le _)

variable (S env)

/-- A new wallet has a consistent history after any calls, whatever the daemon answers. -/
theorem consistent_afterCalls
    (derivable : ∀ key secret, KeyImage.ofKeys S key secret ≠ .ok .null)
    (account : Account) (config : Config) (calls : List Call) (s : Session σ)
    (created : Wallet.create account config = .ok s.wallet) :
    (afterCalls S env calls s).history.Consistent S := by
  -- the first call starts from a new wallet, the others from wherever the last one has ended
  suffices run : ∀ s : Session σ, s.history.Consistent S →
      (afterCalls S env calls s).history.Consistent S from run s (consistent_create created)
  intro s hc
  unfold afterCalls
  induction calls generalizing s with
  | nil => exact hc
  | cons call rest ih => exact ih _ (call.consistent derivable hc)

/-- A wallet that receives a reward, is cut back and refreshes again. -/
theorem consistent_afterCalls_small :
    (∀ key secret, KeyImage.ofKeys .small key secret ≠ .ok .null) ∧
      let s := Script.opened {} ⟨[Script.batch 0 SmallSuite.funding], [Script.indicesOf [0]]⟩
      Wallet.create SmallSuite.account {} = .ok s.wallet ∧
        (afterCalls .small Script.environment [.refresh, .detach 0, .assumeScanned 3,
          .refreshFromLocalChain] s).history.Consistent .small :=
  ⟨Suite.small_ofKeys_ne_null, rfl, consistent_afterCalls .small Script.environment
    Suite.small_ofKeys_ne_null SmallSuite.account {} _ _ rfl⟩

end RingWallet
