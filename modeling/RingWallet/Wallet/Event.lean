import RingWallet.Money
import RingWallet.Wallet.Error

/-!
# Events

While it follows the chain, a wallet tells what happens. Handlers listen in the order in which they
were registered: a handler may log, may ask the running refresh to stop, and may fail, which is
logged and has no further effect.
-/

set_option autoImplicit false

namespace RingWallet

/-- Something that happened while the wallet followed the chain. -/
inductive Event where
  /-- A block was added. -/
  | newBlock (height : Nat) (id : Hash)
  /-- An own output was found. -/
  | moneyReceived (height : Nat) (txHash : Hash) (amount : UInt64)
  /-- An own output was spent. -/
  | moneySpent (height : Nat) (txHash : Hash) (amount : UInt64)
  /-- A transaction without a usable public key was passed over. -/
  | skipTransaction (height : Nat) (txHash : Hash)
  /-- The chain was cut back to `height` blocks. -/
  | reorg (height detached : Nat)
  | refreshCompleted (fetched height : Nat)
deriving DecidableEq

inductive LogLevel where
  | debug
  | info
  | warn
  | error
deriving DecidableEq

def LogLevel.name : LogLevel → String
  | debug => "DEBUG"
  | info => "INFO"
  | warn => "WARN"
  | error => "ERROR"

structure LogEntry where
  level : LogLevel
  text : String
deriving DecidableEq

/-- What a handler does when it is told of an event. -/
structure Reaction where
  log : List LogEntry := []
  /-- Ask the running refresh to stop. -/
  stop : Bool := false
  failure : Option WalletError := none

/-- A listener. -/
structure EventHandler where
  name : String
  handle : Event → Reaction

/-- The log line for an event. -/
def Event.logEntry (decimals : Nat) : Event → LogEntry
  | .newBlock height id => ⟨.debug, s!"New block {id.hex} at height {height}"⟩
  | .moneyReceived height txHash amount =>
    ⟨.info, s!"Received money: {formatMoney amount decimals}, with tx: {txHash.hex} at height " ++
      toString height⟩
  | .moneySpent height txHash amount =>
    ⟨.info, s!"Spent money: {formatMoney amount decimals}, with tx: {txHash.hex} at height " ++
      toString height⟩
  | .skipTransaction height txHash =>
    ⟨.warn, s!"Public key wasn't found in the transaction extra at height {height}. " ++
      s!"Skipping transaction {txHash.hex}"⟩
  | .reorg height detached =>
    ⟨.warn, s!"Blockchain reorganization: detached {detached} blocks from height {height}"⟩
  | .refreshCompleted fetched height =>
    ⟨.info, s!"Refresh done, blocks received: {fetched}, height: {height}"⟩

namespace EventHandler

/-- Writes every event to the log. -/
def logging (decimals : Nat) : EventHandler where
  name := "LoggingEventHandler"
  handle e := { log := [e.logEntry decimals] }

/-- The log of one handler for an event: what it wrote, and its failure. -/
def logOf (h : EventHandler) (e : Event) : List LogEntry :=
  let reaction := h.handle e
  reaction.log ++ match reaction.failure with
    | some failure =>
      [⟨.error, s!"Handler {h.name} failed to process event: {failure.message}"⟩]
    | none => []

/-- The log of all handlers for an event. -/
def logAll (handlers : List EventHandler) (e : Event) : List LogEntry :=
  handlers.flatMap (·.logOf e)

/-- Whether some handler asks to stop. -/
def anyStops (handlers : List EventHandler) (e : Event) : Bool :=
  handlers.any fun h => (h.handle e).stop

end EventHandler

end RingWallet
