import RingWallet.Spend.Build

/-!
# Sending transactions

A pending transaction is sent if the outputs that it spends are still unspent. Only when the daemon
took it does the wallet note it as unconfirmed and mark its outputs as spent.
-/

set_option autoImplicit false

namespace RingWallet

/-- Refuses outputs that are no longer where they were selected, or that are spent. -/
def checkSelection (transfers : List Transfer) : List Handle → Except StaleSelection Unit
  | [] => .ok ()
  | handle :: rest =>
    match transfers[handle.index]? with
    | none => .error (.notTracked handle.keyImage handle.index)
    | some t =>
      if t.spent then .error (.alreadySpent handle.keyImage)
      else if t.keyImage = handle.keyImage then checkSelection transfers rest
      else .error (.notTracked handle.keyImage handle.index)

namespace History

/-- Notes a transaction that was sent. -/
def markSent (h : History) (p : PendingTransaction) (now : UInt64) : History :=
  p.selected.foldl (fun h handle => h.spendAt handle.index)
    { h with unconfirmed := h.unconfirmed.insert p.hash ⟨p.tx, p.change.amount, now⟩ }

end History

section

variable {σ : Type} (env : Environment σ)

/-- Sends a pending transaction. -/
def send (p : PendingTransaction) : WalletM σ Hash := do
  WalletM.orFail (fun e => .transaction (.stale e))
    (checkSelection (← WalletM.history).transfers p.selected)
  let reply ← WalletM.orFail (fun e => .protocol (.notSent e))
    (← WalletM.outside (env.send p.tx.toBlob))
  if reply.status = Daemon.busyStatus then
    throw (.daemonBusy .send)
  if reply.status ≠ Daemon.okStatus then
    throw (.transaction (.rejected p.hash reply.status))
  let now ← WalletM.outside env.now
  WalletM.modifyHistory fun h => h.markSent p now
  return p.hash

/-- Sends pending transactions in order, up to the first failure. -/
def sendAll : List PendingTransaction → WalletM σ (List Hash)
  | [] => return []
  | p :: rest => do
    let hash ← send env p
    return hash :: (← sendAll rest)

end

end RingWallet
