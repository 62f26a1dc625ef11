import RingWallet.Proofs.Wallet.Replay

/-!
# What a scan reports

A scan that comes to its end reports what the new own outputs of the transaction are worth
(`History.gain`). This depends on the history, the transaction and the indices that the daemon
answered, like the history after the scan: `Scan.reread_of_transaction` gives both.

A scan that fails in a way that may pass was refused the indices, and has recorded nothing:
`Scan.forget_of_retryable`. The other failures lie in the transaction or in the account, and end a
refresh.
-/

set_option autoImplicit false

namespace RingWallet

namespace History

/-- The amounts of the own outputs that are not recorded yet, on top of `total`. -/
def gain (h : History) : List Receipt → UInt64 → UInt64
  | [], total => total
  | r :: rest, total =>
    (h.receive r).gain rest
      (if h.isRecorded r.image r.transfer.txHash r.transfer.outputIndex then total
        else total.addSat r.transfer.amount)

end History

namespace Scan

open WalletM

variable {S : Suite} {σ : Type} {env : Environment σ}

/-- A key image that cannot be computed is not the daemon's fault. -/
theorem not_retryable_of_keyImageOf {keys : AccountKeys} {d : KeyDerivation} {index : Nat}
    {key : PublicKey} {e : WalletError} (fails : keyImageOf S keys d index key = .error e) :
    e.isRetryable = false := by
  unfold keyImageOf at fails
  -- a view-only account has no image to compute, and everything else fails in the key arithmetic
  rcases spendable : keys.spendSecret with - | spend <;> rw [spendable] at fails
  · cases fails
  simp only [Except.bind_eq_error, Except.mapError_eq_error] at fails
  rcases fails with ⟨c, -, rfl⟩ | ⟨secret, -, ⟨c, -, rfl⟩ | ⟨derived, -, fails⟩⟩
  · rfl
  · rfl
  · split at fails
    · obtain rfl := Except.error.inj fails
      rfl
    · rcases Except.bind_eq_error.mp fails with failed | ⟨image, -, failed⟩
      · obtain ⟨c, -, rfl⟩ := Except.mapError_eq_error.mp failed
        rfl
      · cases failed

section

variable {tx : Transaction} {txHash : Hash} {height : Nat} {d : KeyDerivation}
  {indices : List UInt64} {positions : List Nat} {received : UInt64} {s t : Session σ}

/-- The recording of own outputs returns what the new ones are worth. -/
theorem gain_of_recordOutputs {v : UInt64}
    (run : exec (recordOutputs S tx txHash height d indices positions received) s = (.ok v, t)) :
    v = s.history.gain
      (receipts S s.wallet.account.keys d tx txHash height indices positions) received := by
  induction positions generalizing received s with
  | nil => exact (Except.ok.inj (Prod.mk.inj run).1).symm
  | cons index rest ih =>
    rw [recordOutputs] at run
    rw [receipts, List.filterMap_cons, receipt?]
    rcases hz : (tx.outputs.zip indices)[index]? with - | ⟨out, globalIndex⟩
    · rw [hz] at run
      exact ih run
    · rw [hz] at run
      have here : tx.outputs[index]? = some out := (List.getElem?_zip_eq_some.mp hz).1
      simp only [Option.bind_some]
      rw [exec_bind_ok _ (exec_wallet s), exec_bind_eq_ok] at run
      obtain ⟨image, u, read, run⟩ := run
      obtain ⟨computed, rfl⟩ := exec_orFail_eq_ok.mp read
      rw [computed]
      simp only [Except.toOption, Option.map_some, History.gain]
      -- an output that is known already counts for nothing
      split at run
      · next recorded =>
        rw [History.receive_of_recorded recorded]
        exact (ih run).trans (congrArg _ (if_pos recorded).symm)
      · next new =>
        rw [exec_bind_ok _ (exec_modifyHistory _ s), exec_bind_ok _ (exec_tell _ _)] at run
        have amount : Transfer.amount { blockHeight := height, tx, txHash, outputIndex := index
                                        globalIndex, spent := false
                                        keyImage := image.getD .null } = out.amount := by
          simp [Transfer.amount, Transfer.output?, here]
        rw [History.receive_of_new new, amount]
        exact (ih run).trans (congrArg _ (if_neg new).symm)

/-- The recording of own outputs fails only where a key image cannot be computed. -/
theorem not_retryable_of_recordOutputs {e : WalletError}
    (run : exec (recordOutputs S tx txHash height d indices positions received) s =
      (.error e, t)) : e.isRetryable = false := by
  induction positions generalizing received s with
  | nil => cases run
  | cons index rest ih =>
    rw [recordOutputs] at run
    split at run
    · -- an own output, whose image comes first
      rw [exec_bind_ok _ (exec_wallet s), exec_bind, exec_orFail] at run
      rcases computed : keyImageOf S s.wallet.account.keys d index _ with e' | image
      · rw [computed] at run
        obtain rfl := Except.error.inj (Prod.mk.inj run).1
        exact not_retryable_of_keyImageOf computed
      · -- the image is known already or the output is recorded; neither fails
        rw [computed] at run
        simp only [Except.mapError_ok] at run
        split at run
        · exact ih run
        · rw [exec_bind_ok _ (exec_modifyHistory _ s), exec_bind_ok _ (exec_tell _ _)] at run
          exact ih run
    · exact ih run

end

/-! ### The whole scan -/

/-- What the new own outputs of a transaction are worth, when the daemon answers these indices. -/
def gained (S : Suite) (account : Account) (indices : Hash → List UInt64) (h : History)
    (p : Placed) : UInt64 :=
  match derivation? S account.keys (Extra.parse p.tx.extra).1 with
  | none => 0
  | some d => (h.forget p.txHash).gain
      (brought S account.keys d p.tx p.txHash p.height (indices p.txHash)
        ((ownOutputs S account.address d 0 p.tx.outputs).toOption.getD [])) 0

section

variable {tx : Transaction} {txHash : Hash} {height : Nat} {d : KeyDerivation} {own : List Nat}
  {s t : Session σ}

/-- Own outputs are taken in with the indices that the daemon answers. -/
theorem gain_of_takeIn {v : UInt64}
    (run : exec (takeIn S env tx txHash height d own) s = (.ok v, t)) {indices : List UInt64}
    (answers : ∀ reply, ((env.getIndices txHash).run s.env).1 = .ok reply →
      reply.status = Daemon.okStatus → reply.indices = indices) :
    v = s.history.gain
      (brought S s.wallet.account.keys d tx txHash height indices own) 0 := by
  -- the indices are only asked for when something is worth recording
  unfold takeIn at run
  unfold brought
  split at run
  · next worth =>
    obtain ⟨answered, u, fetched, run⟩ := exec_bind_eq_ok.mp run
    obtain ⟨r, asked, told⟩ := exec_fetchIndices env tx txHash s
    obtain ⟨rfl, rfl⟩ := Prod.mk.inj (asked.symm.trans fetched)
    obtain rfl : answered = indices := answers _ (told answered rfl).2 rfl
    have gained := gain_of_recordOutputs run
    rw [if_pos worth]
    exact gained
  · next worth =>
    rw [if_neg worth]
    exact (Except.ok.inj (Prod.mk.inj run).1).symm

/-- Own outputs that are not taken in for a reason that may pass are not even asked about. -/
theorem wallet_of_takeIn_error {e : WalletError}
    (run : exec (takeIn S env tx txHash height d own) s = (.error e, t))
    (retryable : e.isRetryable = true) : t.wallet = s.wallet := by
  unfold takeIn at run
  split at run
  · obtain ⟨r, asked, -⟩ := exec_fetchIndices env tx txHash s
    rw [exec_bind, asked] at run
    rcases r with e' | answered
    · obtain rfl := (Prod.mk.inj run).2
      rfl
    · rw [not_retryable_of_recordOutputs run] at retryable
      cases retryable
  · cases run

end

variable {p : Placed} {s t : Session σ}

/-- What a scan adds and what it reports is told by the indices that the daemon answers. -/
theorem reread_of_transaction {o : ScanOutcome} {indices : Hash → List UInt64}
    (run : exec (transaction S env p.tx p.txHash p.height) s = (.ok o, t))
    (answers : ∀ reply, ((env.getIndices p.txHash).run s.env).1 = .ok reply →
      reply.status = Daemon.okStatus → reply.indices = indices p.txHash) :
    t.wallet = s.wallet.withHistory (reread S s.wallet.account indices s.history p) ∧
      o.received = gained S s.wallet.account indices s.history p := by
  obtain ⟨r, u, run', ends⟩ := exec_transaction S env p.tx p.txHash p.height s
  rw [run] at run'
  obtain ⟨rfl, rfl⟩ := Prod.mk.inj run'
  cases ends with
  | passed unusable core =>
    unfold reread gained
    rw [unusable]
    -- a transaction without a usable key changes nothing and brings nothing
    refine ⟨Session.wallet_of_core core, ?_⟩
    rw [exec_transaction_of_unusable S env unusable] at run
    obtain rfl := Except.ok.inj (Prod.mk.inj run).1
    rfl
  | @settled _ _ d own answered completed wallet =>
    have told : reread S s.wallet.account indices s.history p =
        settled S s.wallet.account.keys d p.tx p.txHash p.height answered own s.history := by
      unfold reread
      -- the run and the reading differ in where the indices come from
      rw [completed.usable]
      simp only [completed.owned, Except.toOption, Option.getD_some, settled, brought]
      by_cases worth : Worth p.tx own
      · rw [← answers ⟨Daemon.okStatus, answered⟩ (congrArg Prod.fst (completed.asked worth)) rfl]
      · rw [if_neg worth, if_neg worth]
    refine ⟨wallet.trans (congrArg _ told.symm), ?_⟩
    rw [exec_transaction_of_owned S env completed.usable completed.owned] at run
    obtain ⟨received, u, took, run⟩ := exec_bind_eq_ok.mp run
    obtain ⟨o', v, closed, reported, -⟩ := exec_close p.tx p.txHash p.height own received u
    obtain rfl := Except.ok.inj (Prod.mk.inj (closed.symm.trans run)).1
    rw [reported, gain_of_takeIn took answers, gained, completed.usable]
    simp only [completed.owned, Except.toOption, Option.getD_some]
    rfl

/-- A scan that fails for a reason that may pass has only ended the wait for the transaction. -/
theorem forget_of_retryable {e : WalletError}
    (run : exec (transaction S env p.tx p.txHash p.height) s = (.error e, t))
    (retryable : e.isRetryable = true) :
    t.wallet = s.wallet.withHistory (s.history.forget p.txHash) := by
  obtain ⟨r, u, run', ends⟩ := exec_transaction S env p.tx p.txHash p.height s
  rw [run] at run'
  obtain ⟨rfl, rfl⟩ := Prod.mk.inj run'
  cases ends with
  -- it stopped before any output was recorded
  | stopped wallet => exact wallet
  | @broke _ _ d own indices done usable owned part wallet =>
    rw [exec_transaction_of_owned S env usable owned, exec_bind] at run
    -- only the request for indices can be tried again
    rcases took : exec (takeIn S env p.tx p.txHash p.height d own)
        (s.withHistory (s.history.forget p.txHash)) with ⟨e' | received, u⟩
    · rw [took] at run
      obtain ⟨same, rfl⟩ := Prod.mk.inj run
      obtain rfl := Except.error.inj same
      exact wallet_of_takeIn_error took retryable
    · obtain ⟨o, v, closed, -⟩ := exec_close p.tx p.txHash p.height own received u
      rw [took] at run
      cases closed.symm.trans run

end Scan

end RingWallet
