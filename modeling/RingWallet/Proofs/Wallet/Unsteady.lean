import RingWallet.Proofs.Support.FlakyServer

/-!
# Refreshes with an unsteady daemon

Two refreshes from the end of the chain start with the same wallet, and their daemons feed the same
blocks, in batches of their own, with failures of their own. If both succeed they leave the same
wallet and the same summary: `Sync.refreshFromLocalChain_unsteady`. A refresh that a listener stops
between two batches succeeds as well, with the blocks that it has by then. It is left out, because
what it has depends on the batches: `Sync.refreshFromLocalChain_stopped`.
-/

set_option autoImplicit false

namespace RingWallet

open Scan WalletM

/-- Two refreshes from the end of the chain that start with the same wallet and are fed the same
blocks leave the same wallet and the same summary if both succeed, whatever the batches are and
whatever fails in between, unless they are stopped before they have all blocks. -/
theorem Sync.refreshFromLocalChain_unsteady (S : Suite) {σ σ' : Type} (env : Environment σ)
    (env' : Environment σ') (indices : Hash → List UInt64) (blocks : List ParsedBlock)
    (s t : Session σ) (s' t' : Session σ') (summary summary' : RefreshSummary)
    (same : s'.wallet = s.wallet) (points : s.history.Points)
    (order : SpendsInOrder S s.wallet.account s.history
      (placed S s.wallet.account s.wallet.config s.history.height blocks))
    (feeds : env.Feeds S s.history.height blocks indices)
    (feeds' : env'.Feeds S s.history.height blocks indices)
    (run : exec (refreshFromLocalChain S env) s = (.ok summary, t))
    (run' : exec (refreshFromLocalChain S env') s' = (.ok summary', t'))
    (whole : t.stop = true → blocks.length ≤ summary.blocksFetched)
    (whole' : t'.stop = true → blocks.length ≤ summary'.blocksFetched) :
    t'.wallet = t.wallet ∧ summary' = summary := by
  have history : s'.history = s.history := congrArg Wallet.history same
  rw [← same, ← history] at order
  rw [← history] at feeds'
  have harvest' := harvest_of_refreshFromLocalChain feeds' (history ▸ points) order run'
  rw [same, history] at order harvest'
  -- each of the two has gathered what the blocks determine
  have harvest := harvest_of_refreshFromLocalChain feeds points order run
  obtain ⟨wallet, gathered⟩ := harvest.resolve_left
    fun ⟨stop, short⟩ => Nat.not_lt.mpr (whole stop) short
  obtain ⟨wallet', gathered'⟩ := harvest'.resolve_left
    fun ⟨stop, short⟩ => Nat.not_lt.mpr (whole' stop) short
  exact ⟨wallet'.trans wallet.symm, gathered'.trans gathered.symm⟩

namespace Unsteady

open ChainServer SmallSuite

/-- A new wallet. The flags tell when the daemon is busy. -/
def unread (busy : List Bool) (handlers : List EventHandler) : Session (List Bool) where
  env := busy
  wallet := ⟨account, {}, {}⟩
  handlers := handlers

/-- A listener that stops the refresh when a block was added. -/
def stopper : EventHandler where
  name := "Stopper"
  handle
    | .newBlock _ _ => { stop := true }
    | _ => {}

/-- The answer of a daemon is missing at first, then in the first block, and then in the middle of
the second one. -/
def failures : List Bool :=
  [true, false, true, false, false, false, false, true]

/-- What a refresh leaves. -/
def after (size : Nat) (s : Session (List Bool)) : Session (List Bool) :=
  (small.refreshed .small size s).2

/-- A refresh that succeeds. -/
theorem exec_refresh (size : Nat) (s : Session (List Bool))
    (succeeds : (small.refreshed .small size s).1.toOption = some (after size s).summary) :
    exec (Sync.refreshFromLocalChain .small (small.flaky size)) s =
      (.ok (after size s).summary, after size s) := by
  rw [exec_refresh_flaky legible_small]
  exact Prod.ext (Except.toOption_eq_some.mp succeeds) rfl

/-- The index of the new wallet is empty. -/
theorem points : (unread [] []).history.Points := by
  intro image i found
  cases Std.ExtTreeMap.getElem?_empty.symm.trans found

/-- No block spends an output before it comes in. -/
theorem order : SpendsInOrder .small account (unread [] []).history
    (Sync.placed .small account {} 0 small.blocks) := by
  unfold SpendsInOrder
  decide +kernel

end Unsteady

open ChainServer Unsteady in
/-- All blocks at once with a daemon that is never busy, and one block at a time with one that is
busy three times. -/
theorem Sync.refreshFromLocalChain_unsteady_failures :
    exec (refreshFromLocalChain .small (small.flaky 2)) (unread [] []) =
        (.ok (after 2 (unread [] [])).summary, after 2 (unread [] [])) ∧
      exec (refreshFromLocalChain .small (small.flaky 1)) (unread failures []) =
        (.ok (after 1 (unread failures [])).summary, after 1 (unread failures [])) ∧
      (after 1 (unread failures [])).env = [] ∧
      (after 1 (unread failures [])).history.transfers.map Transfer.spent =
        [true, false, false] ∧
      (after 1 (unread failures [])).wallet = (after 2 (unread [] [])).wallet ∧
      (after 1 (unread failures [])).summary = (after 2 (unread [] [])).summary := by
  have run := exec_refresh 2 (unread [] []) (by decide +kernel)
  have run' := exec_refresh 1 (unread failures []) (by decide +kernel)
  refine ⟨run, run', by decide +kernel, by decide +kernel, ?_⟩
  exact refreshFromLocalChain_unsteady .small (small.flaky 2) (small.flaky 1) small.indices
    small.blocks (unread [] []) _ (unread failures []) _ _ _ rfl points order
    (feeds_flaky legible_small (by decide) 0) (feeds_flaky legible_small (by decide) 0)
    run run' (by decide +kernel) (by decide +kernel)

open ChainServer Unsteady in
/-- A listener stops two refreshes after a batch. The one that gets all blocks in it has both of
them, and the one that gets them one by one has the first. -/
theorem Sync.refreshFromLocalChain_stopped :
    (small.flaky 2).Feeds .small 0 small.blocks small.indices ∧
      (small.flaky 1).Feeds .small 0 small.blocks small.indices ∧
      (unread [] [stopper]).history.Points ∧
      SpendsInOrder .small SmallSuite.account (unread [] [stopper]).history
        (placed .small SmallSuite.account {} 0 small.blocks) ∧
      exec (refreshFromLocalChain .small (small.flaky 2)) (unread [] [stopper]) =
        (.ok (after 2 (unread [] [stopper])).summary, after 2 (unread [] [stopper])) ∧
      exec (refreshFromLocalChain .small (small.flaky 1)) (unread [] [stopper]) =
        (.ok (after 1 (unread [] [stopper])).summary, after 1 (unread [] [stopper])) ∧
      (after 2 (unread [] [stopper])).summary.blocksFetched = 2 ∧
      (after 1 (unread [] [stopper])).summary.blocksFetched = 1 ∧
      (after 1 (unread [] [stopper])).wallet ≠ (after 2 (unread [] [stopper])).wallet := by
  have heights : (after 1 (unread [] [stopper])).wallet.height ≠
      (after 2 (unread [] [stopper])).wallet.height := by decide +kernel
  refine ⟨feeds_flaky legible_small (by decide) 0,
    feeds_flaky legible_small (by decide) 0, points, order,
    exec_refresh 2 _ (by decide +kernel), exec_refresh 1 _ (by decide +kernel), by decide +kernel,
    by decide +kernel, ?_⟩
  exact fun same => heights (congrArg Wallet.height same)

end RingWallet
