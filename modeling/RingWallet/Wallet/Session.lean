import RingWallet.Account
import RingWallet.Daemon.Messages
import RingWallet.Wallet.Event
import RingWallet.Wallet.History

/-!
# A wallet at work

A wallet is an account, its configuration and its history. It works in an `Environment`: a daemon,
a clock and a source of random words, each of which is a step of one state machine, so that any
behaviour of theirs is some environment. A `Session` is an open wallet together with the state of
its environment; operations of the wallet are programs in `WalletM`, which read and change the
session. A program that fails leaves the session as it was at the failure.
-/

set_option autoImplicit false

namespace RingWallet

/-- What a wallet needs from outside. -/
structure Environment (σ : Type) where
  getBlocks : Daemon.BlocksRequest → StateM σ (Except LedgerError Daemon.BlocksReply)
  /-- The global indices of the outputs of a transaction. -/
  getIndices : Hash → StateM σ (Except LedgerError Daemon.IndicesReply)
  /-- Outputs to mix with. -/
  getDecoys : Daemon.DecoysRequest → StateM σ (Except LedgerError Daemon.DecoysReply)
  /-- Hands over the encoding of a transaction. -/
  send : Blob → StateM σ (Except LedgerError Daemon.SendReply)
  getHeight : StateM σ (Except LedgerError Daemon.HeightReply)
  random : RandomSource σ
  /-- The current Unix time. -/
  now : StateM σ UInt64
  /-- Waits for some time. -/
  sleep : Delay → StateM σ Unit
  /-- Whether another task has asked the running refresh to stop. -/
  stopAsked : StateM σ Bool := return false
  /-- A refresh gives up after this many rounds, so that it ends with any daemon. No daemon gets it
  there by default. -/
  maxRounds : Nat := UInt64.size

structure Wallet where
  account : Account
  config : Config
  history : History

namespace Wallet

/-- The number of known blocks. -/
def height (w : Wallet) : Nat := w.history.height

end Wallet

/-- What a refresh found. -/
structure RefreshSummary where
  blocksFetched : Nat := 0
  /-- Whether an own output was found. -/
  receivedMoney : Bool := false
  /-- The transactions that brought funds, in order. -/
  receivedTxHashes : List Hash := []
  /-- Whether the transaction to wait for was seen. -/
  targetFound : Bool := false
deriving DecidableEq

/-- An open wallet and the state of its environment. -/
structure Session (σ : Type) where
  env : σ
  wallet : Wallet
  handlers : List EventHandler := []
  /-- What the wallet told so far, oldest first. -/
  events : List Event := []
  /-- Whether the running refresh is to stop, as far as it knows. -/
  stop : Bool := false
  /-- What the current or last refresh found so far. -/
  summary : RefreshSummary := {}

/-- An operation of a wallet. -/
abbrev WalletM (σ : Type) := ExceptT WalletError (StateM (Session σ))

namespace WalletM

variable {σ α : Type}

/-- A step of the environment. -/
def outside (step : StateM σ α) : WalletM σ α := do
  let s ← get
  let (a, env) := step.run s.env
  set { s with env }
  return a

/-- The wallet as it is now. -/
def wallet : WalletM σ Wallet := return (← get).wallet

def history : WalletM σ History := return (← get).wallet.history

def modifyHistory (f : History → History) : WalletM σ Unit :=
  modify fun s => { s with wallet := { s.wallet with history := f s.wallet.history } }

def modifySummary (f : RefreshSummary → RefreshSummary) : WalletM σ Unit :=
  modify fun s => { s with summary := f s.summary }

/-- Tells the handlers of an event. -/
def tell (e : Event) : WalletM σ Unit :=
  modify fun s =>
    { s with
      events := s.events ++ [e]
      stop := s.stop || EventHandler.anyStops s.handlers e }

/-- The outcome of an operation, whichever it is. -/
def outcome (x : WalletM σ α) : WalletM σ (Except WalletError α) :=
  ExceptT.mk (do return .ok (← x.run))

/-- A step that may fail in a way of its own. -/
def orFail {ε : Type} (f : ε → WalletError) : Except ε α → WalletM σ α
  | .ok a => pure a
  | .error e => throw (f e)

/-- Asks the daemon. -/
def ask (step : StateM σ (Except LedgerError α)) : WalletM σ α := do
  orFail .ledger (← outside step)

/-- Refuses an answer whose status is not OK. -/
def checkStatus (call : DaemonCall) (status : String) : WalletM σ Unit :=
  if status = Daemon.busyStatus then throw (.daemonBusy call)
  else if status ≠ Daemon.okStatus then throw (.protocol (.status call status))
  else pure ()

end WalletM

end RingWallet
