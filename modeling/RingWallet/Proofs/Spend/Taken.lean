import RingWallet.Proofs.Wallet.Calls

/-!
# What the daemon has taken

`Environment.tallied` keeps a tally next to the state of an environment: the transactions that the
daemon took when it was sent them. Nothing else changes it (`Environment.Silent.taken_eq`). A
transaction is sent with success exactly if the daemon takes it (`taken_of_send`); of several ones
it takes those before the first that fails, so all of them if they are sent with success
(`taken_of_sendAll`).
-/

set_option autoImplicit false

namespace RingWallet

open WalletM

namespace Environment

variable {σ τ α : Type}

/-- A step that leaves something else alone. -/
def beside (step : StateM σ α) : StateM (σ × τ) α := fun (e, rest) =>
  let (a, e) := step.run e
  (a, e, rest)

/-- The environment and, next to its state, the transactions that the daemon took, oldest first. -/
def tallied (env : Environment σ) : Environment (σ × List Blob) where
  getBlocks request := beside (env.getBlocks request)
  getIndices txHash := beside (env.getIndices txHash)
  getDecoys request := beside (env.getDecoys request)
  send blob := fun (e, taken) =>
    let (answer, e) := (env.send blob).run e
    (answer, e, if Daemon.takes answer then taken ++ [blob] else taken)
  getHeight := beside env.getHeight
  random := beside env.random
  now := beside env.now
  sleep delay := beside (env.sleep delay)
  stopAsked := beside env.stopAsked
  maxRounds := env.maxRounds

variable {env : Environment σ}

/-- Nothing is taken that was not sent. -/
theorem Silent.taken_eq {s t : σ × List Blob} (silent : env.tallied.Silent s t) : t.2 = s.2 := by
  induction silent with
  | refl => rfl
  | tail _ step ih =>
    rw [← ih]
    cases step <;> rfl

/-- A transaction that is sent is taken or not, as the answer says. -/
theorem taken_of_answer {blob : Blob} {s t : σ × List Blob}
    {answer : Except LedgerError Daemon.SendReply}
    (asked : (env.tallied.send blob).run s = (answer, t)) :
    t.2 = if Daemon.takes answer then s.2 ++ [blob] else s.2 := by
  obtain ⟨rfl, rfl⟩ := Prod.mk.inj asked
  rfl

end Environment

variable {σ : Type} {env : Environment σ}

/-- The daemon has taken a transaction exactly if the wallet says that it was sent. -/
theorem taken_of_send {p : PendingTransaction} {s t : Session (σ × List Blob)}
    {r : Except WalletError Hash} (run : exec (send env.tallied p) s = (r, t)) :
    t.env.2 = if r.isOk then s.env.2 ++ [p.tx.toBlob] else s.env.2 := by
  rcases exec_send_steps env.tallied p s with
    ⟨e, stale⟩ | ⟨answer, env', asked, ⟨e, refused, failed⟩ | ⟨taken, -, sent⟩⟩
  · obtain ⟨rfl, rfl⟩ := Prod.mk.inj (stale.symm.trans run)
    rfl
  · obtain ⟨rfl, rfl⟩ := Prod.mk.inj (failed.symm.trans run)
    have after := Environment.taken_of_answer asked
    rwa [refused] at after
  · obtain ⟨rfl, rfl⟩ := Prod.mk.inj (sent.symm.trans run)
    have after := Environment.taken_of_answer asked
    rwa [taken] at after

/-- Of several transactions the daemon has taken the first ones: all of them, or those before one
that fails. -/
theorem taken_of_sendAll {pending : List PendingTransaction} {s t : Session (σ × List Blob)}
    {r : Except WalletError (List Hash)} (run : exec (sendAll env.tallied pending) s = (r, t)) :
    ∃ k, (if r.isOk then k = pending.length else k < pending.length) ∧
      t.env.2 = s.env.2 ++ (pending.take k).map fun p => p.tx.toBlob := by
  induction pending generalizing s t r with
  | nil =>
    obtain ⟨rfl, rfl⟩ := Prod.mk.inj run
    exact ⟨0, rfl, (List.append_nil _).symm⟩
  | cons p rest ih =>
    rw [sendAll] at run
    -- a failed sending takes nothing, and the others are not tried
    rcases first : exec (send env.tallied p) s with ⟨e | id, u⟩
    · rw [exec_bind_error _ first] at run
      obtain ⟨rfl, rfl⟩ := Prod.mk.inj run
      exact ⟨0, Nat.succ_pos _, (taken_of_send first).trans (List.append_nil _).symm⟩
    · -- the first one is taken before the others are sent
      have one : u.env.2 = s.env.2 ++ [p.tx.toBlob] := taken_of_send first
      rw [exec_bind_ok _ first, exec_bind] at run
      rcases others : exec (sendAll env.tallied rest) u with ⟨e | ids, v⟩
      all_goals
        obtain ⟨k, bound, taken⟩ := ih others
        rw [others] at run
        obtain ⟨rfl, rfl⟩ := Prod.mk.inj run
        refine ⟨k + 1, ?_, by rw [taken, one, List.append_assoc]; rfl⟩
      · exact Nat.succ_lt_succ bound
      · exact congrArg (· + 1) bound

end RingWallet
