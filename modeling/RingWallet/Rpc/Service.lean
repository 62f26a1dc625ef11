import RingWallet.Rpc.Message
import RingWallet.Spend.Send
import RingWallet.Wallet.SavedState
import RingWallet.Wallet.Sync

/-!
# The wallet service

Each request opens a wallet from the keys and the state that it carries, runs a method on it, and
answers with the new state. The service keeps nothing between requests.
-/

set_option autoImplicit false

namespace RingWallet.Rpc

/-- The handling of a request. -/
abbrev RpcM (σ : Type) := ExceptT RpcError (StateM σ)

/-- A part of the state from its hexadecimal form; an empty text stands for an empty part. -/
def decodeState {α : Type} (field : StateField) (c : Codec α) (empty : α) (text : String) :
    Except RpcError α :=
  if text = "" then .ok empty
  else do
    let bytes ← (Hex.decode text).mapError (.stateHex field)
    (c.read bytes).mapError (.stateBlob field)

/-- Opens the wallet of an identity. Blocks below the height that the caller gives count as
scanned. -/
def openWallet (S : Suite) (config : Config) (identity : Identity) (requireSpendKey : Bool) :
    Except RpcError Wallet := do
  let address ← (Address.decode S identity.address config.addressPrefix).mapError
    (.wrongAddress identity.address)
  let viewSecret ← (SecretKey.ofHex identity.viewKey).mapError .viewKey
  let spendSecret ← if identity.spendKey = "" then pure none
    else some <$> (SecretKey.ofHex identity.spendKey).mapError .spendKey
  if requireSpendKey && spendSecret.isNone then
    throw .spendKeyRequired
  let some account := Account.ofKeys? S { address, spendSecret, viewSecret } identity.createTime
    | throw .keysMismatch
  let transfers ← decodeState .transfers SavedState.transfersCodec [] identity.transfers
  let keyImages ← decodeState .keyImages SavedState.keyImagesCodec ∅ identity.keyImages
  let w ← (Wallet.restore S account config
    { address, history := { transfers, keyImages } }).mapError .wallet
  return { w with history := w.history.assumeScanned identity.localHeight }

/-- The state of a wallet, for the caller to keep. -/
def stateFields (w : Wallet) : List (String × Json) :=
  [("account_create_time", .ofWord w.account.createTime), ("local_bc_height", .ofNat w.height),
    ("transfers", .string (Hex.encode (SavedState.transfersCodec.encode w.history.transfers))),
    ("key_images", .string (Hex.encode (SavedState.keyImagesCodec.encode w.history.keyImages)))]

section

variable (S : Suite) {σ α : Type} (env : Environment σ) (config : Config)

/-- Runs an operation on a wallet, and gives its result and the wallet after it. -/
def onWallet (w : Wallet) (failure : WalletError → RpcError) (operation : WalletM σ α) :
    RpcM σ (α × Wallet) := fun state =>
  let session : Session σ :=
    { env := state, wallet := w, handlers := [.logging config.coinDecimals] }
  match operation.run session with
  | (.ok a, session) => (.ok (a, session.wallet), session.env)
  | (.error e, session) => (.error (failure e), session.env)

/-- Opens a wallet and gives back its address and view secret. -/
def setWallet (identity : Identity) : RpcM σ Json := do
  let w ← (openWallet S config identity false : Except _ _)
  let address ← ((w.account.address.encode config.addressPrefix).mapError
    fun e => .wallet (.address e) : Except RpcError String)
  return .object [("address", .string address), ("key", .string w.account.keys.viewSecret.hex)]

/-- The balance of a wallet. -/
def getBalance (identity : Identity) : RpcM σ Json := do
  let w ← (openWallet S config identity false : Except _ _)
  let now ← (env.now : StateM σ UInt64)
  return .object ([("balance", .ofWord w.balance),
    ("unlocked_balance", .ofWord (w.unlockedBalance now))] ++ stateFields w)

/-- Follows the chain, and names the transactions that brought funds. -/
def refresh (identity : Identity) : RpcM σ Json := do
  let w ← (openWallet S config identity false : Except _ _)
  let (summary, w) ← onWallet config w .wallet (Sync.refreshFromLocalChain S env)
  return .object (("txs_hashes", .array (summary.receivedTxHashes.map fun h => .string h.hex))
    :: stateFields w)

/-- The destinations of a transfer. -/
def destinationsOf (payees : List Payee) : Except RpcError (List Destination) :=
  payees.mapM fun p =>
    match Address.decode S p.address config.addressPrefix with
    | .ok address => .ok ⟨p.amount, address⟩
    | .error _ => .error (.wrongDestination p.address)

/-- Follows the chain, builds a transfer and sends it. Unless `split` is set, it has to fit into one
transaction. -/
def sendTransfer (params : TransferParams) (split : Bool) : RpcM σ (List Hash × Wallet) := do
  let w ← (openWallet S config params.identity true : Except _ _)
  let (_, w) ← onWallet config w .transfer (Sync.refreshFromLocalChain S env)
  let destinations ← (destinationsOf S config params.payees : Except _ _)
  let extra ← (if params.paymentId = "" then .ok []
    else (Extra.ofPaymentId params.paymentId).mapError fun _ => .paymentId params.paymentId
    : Except RpcError Blob)
  let (pending, w) ← onWallet config w .transfer
    (buildSplit S env destinations params.mixin params.unlockTime params.fee extra)
  if !split && pending.length ≠ 1 then
    throw .needsSplit
  onWallet config w .transfer (sendAll env pending)

/-- Sends a transfer in one transaction. -/
def transfer (params : TransferParams) : RpcM σ Json := do
  let (hashes, w) ← sendTransfer S env config params false
  let last := (hashes.getLast?.map Hash.hex).getD ""
  return .object (("tx_hash", .string last) :: stateFields w)

/-- Sends a transfer in as many transactions as it needs. -/
def transferSplit (params : TransferParams) : RpcM σ Json := do
  let (hashes, w) ← sendTransfer S env config params true
  return .object (("tx_hash_list", .array (hashes.map fun h => .string h.hex)) :: stateFields w)

/-- Which transfers a type stands for, by whether they are spent. -/
def typeFilter? : String → Option (Bool → Bool)
  | "all" => some fun _ => true
  | "available" => some fun spent => !spent
  | "unavailable" => some fun spent => spent
  | _ => none

/-- The transfers of some kind. -/
def incomingTransfers (params : IncomingParams) : Except RpcError Json := do
  let w ← openWallet S config params.identity false
  let some accepts := typeFilter? params.transferType | throw .transferType
  let found := w.history.transfers.filter fun t => accepts t.spent
  if found.isEmpty then
    throw (.noTransfers params.transferType)
  return .object [("transfers", .array (found.map fun t => .object
    [("amount", .ofWord t.amount), ("spent", .bool t.spent),
      ("global_index", .ofWord t.globalIndex), ("tx_hash", .string t.txHash.hex)]))]

/-- The number of blocks that the daemon has. -/
def chainHeight : RpcM σ Json := do
  match ← (env.getHeight : StateM σ _) with
  | .error e => throw (.daemon e)
  | .ok reply =>
    if reply.status = Daemon.okStatus then return .object [("height", .ofNat reply.height)]
    else if reply.status = Daemon.busyStatus then throw .daemonBusy
    else throw (.daemonStatus reply.status)

/-- The result of a method. -/
def call (method : String) (params : Json) : RpcM σ Json := do
  match method with
  | "set_wallet" =>
    setWallet S config (← (decodeParams Identity.fields.decoder params : Except _ _))
  | "getbalance" =>
    getBalance S env config (← (decodeParams Identity.fields.decoder params : Except _ _))
  | "refresh" => refresh S env config (← (decodeParams Identity.fields.decoder params : Except _ _))
  | "transfer" =>
    transfer S env config (← (decodeParams TransferParams.decoder params : Except _ _))
  | "transfer_split" =>
    transferSplit S env config (← (decodeParams TransferParams.decoder params : Except _ _))
  | "incoming_transfers" =>
    (incomingTransfers S config (← (decodeParams IncomingParams.decoder params : Except _ _))
      : Except _ _)
  | "bc_height" => chainHeight env
  | _ => throw (.methodNotFound method)

/-- The answer to a request; there is none if the program ends at it. -/
def handle (request : Json) : StateM σ (Option Json) := do
  match Request.fields.decoder request with
  | .error e => return some (answer .null (.error (.invalidRequest e)))
  | .ok r => return answer? r.id (← (call S env config r.method r.params).run)

/-- The answer to the text of a request. -/
def handleText (text : String) : StateM σ (Option Json) :=
  match Json.ofText? text with
  | some request => handle S env config request
  | none => return some (answer .null (.error .unreadable))

end

end RingWallet.Rpc
