import RingWallet.Json.Decoder
import RingWallet.Wallet.Error

/-!
# Messages of the wallet service

A request names a method and carries its parameters; the answer repeats the request's id and holds
a result or an error. Requests of a wallet carry an `Identity`: the keys and the serialized state of
the wallet, which the caller keeps, so that the service itself keeps nothing.
-/

set_option autoImplicit false

namespace RingWallet.Rpc

open Json Fields

/-! ## Errors -/

/-- A serialized part of the state. -/
inductive StateField where
  | transfers
  | keyImages
deriving DecidableEq

def StateField.name : StateField → String
  | transfers => "transfers"
  | keyImages => "key_images"

/-- Why the service answers with an error. -/
inductive RpcError where
  /-- The request is no JSON. -/
  | unreadable
  | invalidRequest (cause : JsonError)
  | methodNotFound (method : String)
  | invalidParams (cause : JsonError)
  | viewKey (cause : CryptoError)
  | spendKey (cause : CryptoError)
  | spendKeyRequired
  | stateHex (field : StateField) (cause : HexError)
  | stateBlob (field : StateField) (cause : BlobError)
  | wrongAddress (text : String) (cause : AddressError)
  | wrongDestination (text : String)
  /-- The secrets do not belong to the address. -/
  | keysMismatch
  /-- A wallet cannot be opened, or cannot follow the chain. -/
  | wallet (cause : WalletError)
  /-- A transfer fails. -/
  | transfer (cause : WalletError)
  | paymentId (text : String)
  /-- A transfer needs more than one transaction. -/
  | needsSplit
  | transferType
  | noTransfers (transferType : String)
  | daemon (cause : LedgerError)
  | daemonBusy
  | daemonStatus (status : String)
deriving DecidableEq

namespace RpcError

/-- The code of an error of a wallet, unless it has none of its own. -/
def walletCode (otherwise : Int) : WalletError → Int
  | .daemonBusy _ => -3
  | .address _ => -2
  | .transaction (.wrongPaymentId _) => -5
  | _ => otherwise

def code : RpcError → Int
  | unreadable => -32700
  | invalidRequest _ => -32600
  | methodNotFound _ => -32601
  | invalidParams _ | viewKey _ | spendKey _ | spendKeyRequired | stateHex _ _ | stateBlob _ _ =>
    -32602
  | wrongAddress _ _ | wrongDestination _ => -2
  | wallet cause => walletCode (-1) cause
  | transfer cause => walletCode (-4) cause
  | paymentId _ => -5
  | needsSplit => -4
  | transferType => -6
  | keysMismatch | noTransfers _ | daemon _ | daemonStatus _ => -1
  | daemonBusy => -3

/-- Whether the program has ended, so that there is no answer. -/
def isFatal : RpcError → Bool
  | wallet .overflow | transfer .overflow => true
  | _ => false

/-- The wording of the error. -/
def message : RpcError → String
  | unreadable => JsonError.malformed.message
  | invalidRequest cause => cause.message
  | methodNotFound method => s!"Method not found: {method}"
  | invalidParams cause => cause.message
  | viewKey cause => s!"view_key: {cause.message}"
  | spendKey cause => s!"spend_key: {cause.message}"
  | spendKeyRequired => "spend_key is required"
  | stateHex field cause => s!"{field.name}: {cause.message}"
  | stateBlob field cause => s!"{field.name}: {cause.message}"
  | wrongAddress text cause => s!"WALLET_RPC_ERROR_CODE_WRONG_ADDRESS: {text} ({cause.message})"
  | wrongDestination text => s!"WALLET_RPC_ERROR_CODE_WRONG_ADDRESS: {text}"
  | keysMismatch => "keys do not match the address"
  | wallet cause => cause.message
  | transfer cause => cause.message
  | paymentId text => (TransactionError.wrongPaymentId text).message
  | needsSplit => "Transaction would be too large.  try /transfer_split."
  | transferType => "Transfer type must be one of: all, available, or unavailable"
  | noTransfers type => s!"No {type} transfers found"
  | daemon cause => cause.message
  | daemonBusy => "daemon is busy"
  | daemonStatus status => s!"getheight returned status {status}"

def toJson (e : RpcError) : Json :=
  .object [("code", .ofInt e.code), ("message", .string e.message)]

end RpcError

/-! ## Requests -/

/-- What the service is asked to do. -/
structure Request where
  /-- Repeated in the answer. -/
  id : Json
  method : String
  params : Json

namespace Request

def fields : Fields Request :=
  (fun _ id method params => ⟨id, method, params⟩)
    <$> withDefault "jsonrpc" (Decoder.option Decoder.string) none
    <*> withDefault "id" Decoder.any .null <*> required "method" Decoder.string
    <*> withDefault "params" Decoder.any .null

end Request

/-- The answer to a request. -/
def answer (id : Json) (result : Except RpcError Json) : Json :=
  .object [("jsonrpc", .string "2.0"), ("id", id), match result with
    | .ok value => ("result", value)
    | .error e => ("error", e.toJson)]

/-- What follows the end of a method: the answer, or nothing if the program has ended. -/
def answer? (id : Json) : Except RpcError Json → Option Json
  | .ok value => some (answer id (.ok value))
  | .error e => if e.isFatal then none else some (answer id (.error e))

/-! ## Parameters -/

/-- The keys and the state of a wallet, as the caller keeps them. -/
structure Identity where
  address : String
  /-- The view secret. -/
  viewKey : String
  /-- The spend secret; empty for calls that do not sign. -/
  spendKey : String := ""
  createTime : UInt64 := 0
  /-- The number of blocks that were scanned. -/
  localHeight : Nat := 0
  /-- The serialized transfers. -/
  transfers : String := ""
  /-- The serialized key images. -/
  keyImages : String := ""
deriving DecidableEq

namespace Identity

def fields : Fields Identity :=
  mk <$> required "address" Decoder.string <*> required "view_key" Decoder.string
    <*> withDefault "spend_key" Decoder.string ""
    <*> withDefault "account_create_time" Decoder.word 0
    <*> withDefault "local_bc_height" Decoder.nat 0 <*> withDefault "transfers" Decoder.string ""
    <*> withDefault "key_images" Decoder.string ""

end Identity

/-- An amount and the text of the address that it goes to. -/
structure Payee where
  amount : UInt64
  address : String
deriving DecidableEq

namespace Payee

def fields : Fields Payee :=
  mk <$> required "amount" Decoder.word <*> required "address" Decoder.string

end Payee

/-- Asks for a transfer. -/
structure TransferParams where
  payees : List Payee
  fee : UInt64
  mixin : UInt64
  unlockTime : UInt64
  /-- Empty for none. -/
  paymentId : String
  identity : Identity

namespace TransferParams

def decoder : Decoder TransferParams :=
  decoderWith (mk <$> required "destinations" (Decoder.list Payee.fields.decoder)
    <*> withDefault "fee" Decoder.word 0 <*> withDefault "mixin" Decoder.word 0
    <*> withDefault "unlock_time" Decoder.word 0 <*> withDefault "payment_id" Decoder.string "")
    Identity.fields

end TransferParams

/-- Asks for the transfers of some kind. -/
structure IncomingParams where
  transferType : String
  identity : Identity

namespace IncomingParams

def decoder : Decoder IncomingParams :=
  decoderWith (mk <$> required "transfer_type" Decoder.string) Identity.fields

end IncomingParams

/-- Decodes parameters; missing ones stand for an empty object. -/
def decodeParams {α : Type} (d : Decoder α) (params : Json) : Except RpcError α :=
  let params := match params with
    | .null => .object []
    | other => other
  (d params).mapError .invalidParams

end RingWallet.Rpc
