import RingWallet.Proofs.Rpc.Identity

/-!
# Refreshes by a service that keeps nothing

A caller asks for refreshes one after the other, each time with the state from the answer before
(`Rpc.refreshes`). Someone else has a wallet of his own, and refreshes it as often from the end of
its chain (`Sync.refreshes`). If both start with the same outputs and the same height, and the
daemon looks at the height of a request alone, then one request is one refresh
(`Rpc.run_call_of_openFrom`): the service opens a twin of the wallet, and twins stay twins.
`stateless_of_afterCalls` says so for any number of requests, after which both have the same.
-/

set_option autoImplicit false

namespace RingWallet

open WalletM

section

variable (S : Suite) {σ : Type} (env : Environment σ)

/-- Refreshes of a wallet from the end of its chain: what each has found, and the wallet after it.
-/
def Sync.refreshes : Nat → WalletM σ (List (RefreshSummary × Wallet))
  | 0 => return []
  | n + 1 => do
    let summary ← refreshFromLocalChain S env
    let w ← WalletM.wallet
    return (summary, w) :: (← refreshes n)

namespace Rpc

/-- The answer to a request for a refresh. -/
def refreshAnswer : RefreshSummary × Wallet → Json := fun (summary, w) =>
  .object (("txs_hashes", .array (summary.receivedTxHashes.map fun h => .string h.hex))
    :: stateFields w)

/-- The state in an answer. -/
def stateOf : Json → List (String × Json)
  | .object entries => entries.filter fun (name, _) =>
    name ∈ ["account_create_time", "local_bc_height", "transfers", "key_images"]
  | _ => []

/-- The answer to a refresh holds the state of the wallet after it. -/
theorem stateOf_refreshAnswer (summary : RefreshSummary) (w : Wallet) :
    stateOf (refreshAnswer (summary, w)) = stateFields w := rfl

/-- Requests for a refresh, with the state from the answer before; the answers to them. -/
def refreshes (config : Config) (credentials : List (String × Json)) :
    Nat → (state : List (String × Json)) → RpcM σ (List Json)
  | 0, _ => return []
  | n + 1, state => do
    let answer ← call S env config "refresh" (.object (credentials ++ state))
    return answer :: (← refreshes config credentials n (stateOf answer))

variable {S env} {config : Config}

/-- A request for a refresh is answered with the refresh of the wallet that is opened for it. -/
theorem run_call_of_openFrom {entries : List (String × Json)} {w : Wallet}
    (opens : openFrom S config entries false = .ok w) (e : σ) :
    (call S env config "refresh" (.object entries)).run.run e =
      match exec (Sync.refreshFromLocalChain S env) (opened config w e) with
      | (.ok summary, t) => (.ok (refreshAnswer (summary, t.wallet)), t.env)
      | (.error fault, t) => (.error (.wallet fault), t.env) := by
  obtain ⟨identity, read, opens⟩ := Except.bind_eq_ok.mp opens
  -- the request opens the wallet and refreshes it
  have called : call S env config "refresh" (.object entries) = (do
      let (summary, w) ← onWallet config w .wallet (Sync.refreshFromLocalChain S env)
      return refreshAnswer (summary, w) : RpcM σ Json) := by
    show (liftM (decodeParams Identity.fields.decoder (.object entries)) >>= fun p =>
      refresh S env config p : RpcM σ Json) = _
    rw [read]
    show (liftM (openWallet S config identity false) >>= fun w => _ : RpcM σ Json) = _
    rw [opens]
    rfl
  rw [called, ExceptT.run_bind_cases, run_onWallet]
  rcases exec (Sync.refreshFromLocalChain S env) (opened config w e) with ⟨fault | summary, t⟩
  · rfl
  · rfl

/-- The state of a wallet does not tell it from its twins. -/
theorem stateFields_of_twin {w w' : Wallet} (twin : w.Twin w') :
    stateFields w' = stateFields w := by
  have height : w'.height = w.height := twin.history.height
  unfold stateFields
  rw [twin.account, height, twin.history.transfers, twin.history.keyImages]

/-- The wallet that is opened for a request may be a twin of one that was kept all along. -/
theorem run_call_of_twin (answers : env.AnswersByHeight) {s : Session σ} (unstopped : s.Unstopped)
    {entries : List (String × Json)} {w : Wallet} (opens : openFrom S config entries false = .ok w)
    (twin : s.wallet.Twin w) :
    (call S env config "refresh" (.object entries)).run.run s.env =
      match exec (Sync.refreshFromLocalChain S env) s with
      | (.ok summary, t) => (.ok (refreshAnswer (summary, t.wallet)), t.env)
      | (.error fault, t) => (.error (.wallet fault), t.env) := by
  -- a wallet that was opened has no handlers
  have listening : (opened config w s.env).Unstopped := fun _ => rfl
  obtain ⟨r, u, v, run, run', after⟩ := (Sync.agree_refreshFromLocalChain S answers
    (show (opened config w s.env).env = s.env from rfl) twin ⟨unstopped, listening⟩).exists_eq
  rw [run_call_of_openFrom opens, run, run']
  cases r with
  | error fault =>
    simp only []
    rw [after.env]
  | ok summary =>
    simp only [refreshAnswer]
    rw [after.env, stateFields_of_twin after.wallet]

/-! ### Many requests -/

variable (S config) in
/-- A state from which the service opens a twin of a wallet. -/
def Holds (credentials state : List (String × Json)) (w : Wallet) : Prop :=
  ∃ w', openFrom S config (credentials ++ state) false = .ok w' ∧ w.Twin w'

/-- One refresh after the other. -/
theorem exec_refreshes_succ (n : Nat) (s : Session σ) :
    exec (Sync.refreshes S env (n + 1)) s =
      match exec (Sync.refreshFromLocalChain S env) s with
      | (.ok summary, t) => exec (do return (summary, t.wallet) :: (← Sync.refreshes S env n)) t
      | (.error e, t) => (.error e, t) := by
  rw [Sync.refreshes, exec_bind]
  rcases exec (Sync.refreshFromLocalChain S env) s with ⟨e | summary, t⟩
  · rfl
  · simp only []
    rw [exec_bind_ok _ (exec_wallet t)]

/-- If every refresh leaves a wallet that is held by its state, the requests are the refreshes. -/
theorem run_refreshes (answers : env.AnswersByHeight) {credentials : List (String × Json)} (n : Nat)
    {s : Session σ} (unstopped : s.Unstopped) {state : List (String × Json)}
    (holds : Holds S config credentials state s.wallet)
    (later : ∀ k found t, k < n → exec (Sync.refreshes S env (k + 1)) s = (.ok found, t) →
      Holds S config credentials (stateFields t.wallet) t.wallet) :
    (refreshes S env config credentials n state).run.run s.env =
      match exec (Sync.refreshes S env n) s with
      | (.ok found, t) => (.ok (found.map refreshAnswer), t.env)
      | (.error fault, t) => (.error (.wallet fault), t.env) := by
  induction n generalizing s state with
  | zero => rfl
  | succ n ih =>
    obtain ⟨w, opens, twin⟩ := holds
    have first := run_call_of_twin answers unstopped opens twin
    rw [refreshes, ExceptT.run_bind_cases, first, exec_refreshes_succ]
    rcases run : exec (Sync.refreshFromLocalChain S env) s with ⟨fault | summary, u⟩
    · rfl
    · -- the request after this one is made to the twin of the refreshed wallet
      have still := Sync.unstopped_refreshFromLocalChain S answers unstopped
      rw [run] at still
      have go_on (k : Nat) (found : List (RefreshSummary × Wallet)) (t : Session σ)
          (more : exec (Sync.refreshes S env k) u = (.ok found, t)) :
          exec (Sync.refreshes S env (k + 1)) s = (.ok ((summary, u.wallet) :: found), t) := by
        rw [exec_refreshes_succ, run]
        exact exec_bind_ok _ more
      have rest := ih still (later 0 _ u n.succ_pos (go_on 0 [] u rfl)) fun k found t below more =>
        later (k + 1) _ t (Nat.succ_lt_succ below) (go_on (k + 1) found t more)
      simp only [stateOf_refreshAnswer]
      rw [ExceptT.run_bind_cases, rest, exec_bind]
      rcases exec (Sync.refreshes S env n) u with ⟨fault | found, t⟩
      · rfl
      · rfl

variable (S env) in
/-- Refreshes are calls. -/
theorem afterCalls_of_refreshes {k : Nat} {found : List (RefreshSummary × Wallet)} {s t : Session σ}
    (run : exec (Sync.refreshes S env k) s = (.ok found, t)) :
    t = afterCalls S env (List.replicate k .refreshFromLocalChain) s := by
  induction k generalizing s found with
  | zero => exact (Prod.mk.inj run).2.symm
  | succ k ih =>
    rw [exec_refreshes_succ] at run
    -- the call throws the summary away, which leaves the session as it is
    have first : (exec (Call.refreshFromLocalChain.run S env) s).2 =
        (exec (Sync.refreshFromLocalChain S env) s).2 := exec_discard _ s
    rw [List.replicate_succ, afterCalls, List.foldl_cons, first]
    rcases refreshed : exec (Sync.refreshFromLocalChain S env) s with ⟨e | summary, u⟩
    · rw [refreshed] at run
      cases run
    · rw [refreshed] at run
      obtain ⟨more, v, rest, last⟩ := exec_bind_eq_ok.mp run
      obtain rfl := (Prod.mk.inj last).2
      exact ih rest

end Rpc

end

open Rpc in
/-- A wallet was new before some calls, none of which cut its chain at the bottom. The keys of its
account belong together, as those of every account that is created or read do, and `address` is read
as its address. The service opens a twin of it from its credentials and its state, with the same
account, outputs, index and height, and so with the same unlocked balance. If the daemon looks at
the height of a request alone, and starts there, any number of requests for a refresh, the first
with a state from which a twin is opened and each other one with the state from the answer before,
are answered with what as many refreshes of the wallet find and with its state after each of them.
-/
theorem stateless_of_afterCalls (S : Suite)
    (derivable : ∀ key secret, KeyImage.ofKeys S key secret ≠ .ok .null) {σ : Type}
    (env : Environment σ) (account : Account) (config : Config) (s : Session σ)
    (created : Wallet.create account config = .ok s.wallet) (verified : account.verify S = true)
    (address : String) (named : Address.decode S address config.addressPrefix = .ok account.address)
    (calls : List Call) (uncut : .detach 0 ∉ calls) :
    let t := afterCalls S env calls s
    let credentials := credentials address account.keys
    (t.history.WordSized → ∀ requireSpendKey, (requireSpendKey && account.isViewOnly) = false →
      ∃ w, openFrom S config (credentials ++ stateFields t.wallet) requireSpendKey = .ok w ∧
        t.wallet.Twin w ∧ ∀ now, w.unlockedBalance now = t.wallet.unlockedBalance now) ∧
    (env.AnswersByHeight → t.Unstopped →
      ∀ n, (∀ k ≤ n, ∀ found u, exec (Sync.refreshes S env k) t = (.ok found, u) →
        u.history.WordSized) →
      ∀ state, Holds S config credentials state t.wallet →
        (refreshes S env config credentials n state).run.run t.env =
          match exec (Sync.refreshes S env n) t with
          | (.ok found, u) => (.ok (found.map refreshAnswer), u.env)
          | (.error fault, u) => (.error (.wallet fault), u.env)) := by
  intro t credentials
  constructor
  · intro words requireSpendKey spender
    obtain ⟨w, opens, twin⟩ :=
      openFrom_of_afterCalls derivable env created verified named uncut spender words
    exact ⟨w, opens, twin, twin.unlockedBalance_eq⟩
  · intro answers unstopped n words state holds
    refine run_refreshes answers n unstopped holds fun k found u below run => ?_
    -- the refreshes are more calls of the same kind
    have reached : u = afterCalls S env
        (calls ++ List.replicate (k + 1) .refreshFromLocalChain) s := by
      rw [afterCalls, List.foldl_append]
      exact afterCalls_of_refreshes S env run
    have sized := words (k + 1) below found u run
    have still_uncut : .detach 0 ∉ calls ++ List.replicate (k + 1) .refreshFromLocalChain := by
      simp [uncut]
    rw [reached] at sized ⊢
    exact openFrom_of_afterCalls derivable env created verified named still_uncut rfl sized

namespace Stateless

open ChainServer Reloaded

/-- A daemon that can be busy sends what was asked for, whatever ids the wallet knows. -/
theorem answersByHeight_flaky (n : ChainServer) (size : Nat) :
    (n.flaky size).AnswersByHeight where
  blockIds_unread _ _ _ := rfl
  startHeight_eq request busy reply answer accepted := by
    obtain rfl := Except.ok.inj answer
    by_cases is_busy : busy.head? = some true
    · rw [if_pos is_busy] at accepted
      exact absurd accepted (by decide)
    · rw [if_neg is_busy]
      rfl

/-- What refreshes find, one after the other. -/
def followed (n : ChainServer) (S : Suite) (size : Nat) : Nat → Session (List Bool) →
    Except WalletError (List (RefreshSummary × Wallet)) × Session (List Bool)
  | 0, s => (.ok [], s)
  | k + 1, s =>
    match n.refreshed S size s with
    | (.ok summary, t) =>
      ((followed n S size k t).1.map ((summary, t.wallet) :: ·), (followed n S size k t).2)
    | (.error e, t) => (.error e, t)

/-- Refreshes in a row with a daemon that is busy at times, by equations. -/
theorem exec_refreshes_flaky {S : Suite} {n : ChainServer} {size : Nat}
    (legible : ∀ b ∈ n.blocks, Script.Legible S b) (k : Nat) (s : Session (List Bool)) :
    exec (Sync.refreshes S (n.flaky size) k) s = followed n S size k s := by
  induction k generalizing s with
  | zero => rfl
  | succ k ih =>
    rw [Rpc.exec_refreshes_succ, exec_refresh_flaky legible, followed]
    rcases n.refreshed S size s with ⟨e | summary, t⟩
    · rfl
    · simp only []
      rw [exec_bind, ih]
      rcases followed n S size k t with ⟨e | found, u⟩
      · rfl
      · rfl

/-- A refresh that fails in the second block. -/
def failing : List Call := [.refreshFromLocalChain]

/-- The wallet after it. -/
def stuck : Session (List Bool) := (small.refreshed .small 1 unread).2

/-- After the calls that fail the wallet is stuck in the second block. -/
theorem afterCalls_failing : afterCalls .small (small.flaky 1) failing unread = stuck := by
  have refreshed : (exec (Call.refreshFromLocalChain.run .small (small.flaky 1)) unread).2 =
      stuck :=
    (exec_discard _ _).trans (congrArg Prod.snd (exec_refresh_flaky legible_small unread))
  unfold afterCalls failing
  rw [List.foldl_cons, List.foldl_nil, refreshed]

/-- The numbers of the wallet stay small enough to be written, whatever it has got. -/
theorem wordSized_followed : ∀ k ≤ 2,
    (followed small .small 1 k stuck).2.history.height < UInt64.size ∧
      (followed small .small 1 k stuck).2.history.transfers.length < UInt64.size := by
  decide +kernel

/-- The next refresh finds a payment in the second block and the last one finds nothing. -/
theorem followed_stuck : (followed small .small 1 2 stuck).1.toOption.map (fun found =>
    found.map fun (summary, w) =>
      (summary.receivedTxHashes.length, w.height, w.history.transfers.length)) =
    some [(1, 2, 3), (0, 2, 3)] := by
  decide +kernel

end Stateless

open ChainServer Reloaded Rpc Stateless in
/-- A wallet is halfway through a block when its caller goes on with requests to the service. -/
theorem stateless_of_afterCalls_stuck :
    (∀ key secret, KeyImage.ofKeys .small key secret ≠ .ok .null) ∧
      Wallet.create SmallSuite.account {} = .ok unread.wallet ∧
      SmallSuite.account.verify .small = true ∧
      Address.decode .small Parts.address ({} : Config).addressPrefix =
        .ok SmallSuite.account.address ∧
      .detach 0 ∉ failing ∧ (small.flaky 1).AnswersByHeight ∧
      let s := afterCalls .small (small.flaky 1) failing unread
      let credentials := credentials Parts.address SmallSuite.account.keys
      s.history.WordSized ∧ s.Unstopped ∧
      (∃ w, openFrom .small {} (credentials ++ stateFields s.wallet) true = .ok w ∧
        w.history.transfers.length = 2) ∧
      ∃ (found : List (RefreshSummary × Wallet)) (e : List Bool),
        (refreshes .small (small.flaky 1) {} credentials 2 (stateFields s.wallet)).run.run s.env =
          (.ok (found.map refreshAnswer), e) ∧
        found.map (fun (summary, w) =>
          (summary.receivedTxHashes.length, w.height, w.history.transfers.length)) =
          [(1, 2, 3), (0, 2, 3)] := by
  have named : Address.decode .small Parts.address ({} : Config).addressPrefix =
      .ok SmallSuite.account.address := Except.toOption_eq_some.mp (by decide +kernel)
  have verified : SmallSuite.account.verify .small = true := by decide +kernel
  have uncut : Call.detach 0 ∉ failing := by
    simp [failing]
  have answers := answersByHeight_flaky small 1
  obtain ⟨opens, requests⟩ := stateless_of_afterCalls .small Suite.small_ofKeys_ne_null
    (small.flaky 1) SmallSuite.account {} unread rfl verified Parts.address named failing uncut
  rw [afterCalls_failing] at opens requests ⊢
  have unstopped : stuck.Unstopped := by
    have before : unread.Unstopped := fun _ => rfl
    have after := Sync.unstopped_refreshFromLocalChain .small answers before
    rwa [exec_refresh_flaky legible_small] at after
  -- in every one of these wallets the numbers fit into words
  have sized (k : Nat) (up_to : k ≤ 2) (found : List (RefreshSummary × Wallet))
      (u : Session (List Bool))
      (run : exec (Sync.refreshes .small (small.flaky 1) k) stuck = (.ok found, u)) :
      u.history.WordSized := by
    obtain ⟨height, transfers⟩ := wordSized_followed k up_to
    rw [exec_refreshes_flaky legible_small] at run
    rw [run] at height transfers
    exact ⟨height, transfers⟩
  have now_sized : stuck.history.WordSized := sized 0 (by decide) [] stuck rfl
  -- the first request is sent what the wallet itself would write
  have holds : Holds .small {} (credentials Parts.address SmallSuite.account.keys)
      (stateFields stuck.wallet) stuck.wallet := by
    obtain ⟨w, opened, twin, -⟩ := opens now_sized false rfl
    exact ⟨w, opened, twin⟩
  refine ⟨Suite.small_ofKeys_ne_null, rfl, verified, named, uncut, answers, now_sized, unstopped,
    ?_, ?_⟩
  · obtain ⟨w, opened, twin, -⟩ := opens now_sized true rfl
    refine ⟨w, opened, ?_⟩
    rw [twin.history.transfers]
    decide +kernel
  · have answered := requests answers unstopped 2 sized (stateFields stuck.wallet) holds
    -- two refreshes from the stuck wallet both succeed
    have counts := followed_stuck
    rw [exec_refreshes_flaky legible_small] at answered
    rcases run : followed small .small 1 2 stuck with ⟨fault | found, u⟩
    · rw [run] at counts
      cases counts
    · rw [run] at answered counts
      exact ⟨found, u.env, answered, Option.some.inj counts⟩

end RingWallet
