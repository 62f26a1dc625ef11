import RingWallet.Json.Decoder
import RingWallet.Keys
import RingWallet.Retry

/-!
# Configuration

The constants of the network and the limits that a wallet observes. A configuration is read from
JSON text, in which every field may be missing, and then checked: `Config.validate` says what is
wrong with it.
-/

set_option autoImplicit false

namespace RingWallet

/-- The constants of the network and the limits that a wallet observes. -/
structure Config where
  /-- The base URL of the daemon. -/
  daemonAddress : String := "http://localhost:11181"
  /-- How long to wait for one answer of the daemon, in milliseconds. -/
  rpcTimeoutMs : UInt64 := 200000
  retry : RetryPolicy := {}
  /-- The prefix of addresses. -/
  addressPrefix : String := "aeon"
  /-- The hexadecimal id of the first block. If it is empty, the wallet learns it from the first
  batch. -/
  genesisBlockId : String := ""
  /-- Unlock times below this are heights, others are Unix times. -/
  maxBlockNumber : UInt64 := 500000000
  /-- How far an unlock height may lie ahead. -/
  lockedDeltaBlocks : UInt64 := 1
  /-- How far an unlock time may lie ahead, in seconds. -/
  lockedDeltaSeconds : UInt64 := 240
  /-- The confirmations that an output needs to be spent. -/
  spendableAge : UInt64 := 10
  /-- A transaction has to stay below this many bytes. -/
  transactionSizeLimit : Nat := 19400
  /-- Outputs of at most this amount are dust. -/
  dustThreshold : UInt64 := 1000000
  /-- The smallest fee. Zero allows any. -/
  minFee : UInt64 := 0
  /-- The most transactions that a transfer is split into. -/
  maxSplitAttempts : Nat := 30
  /-- Blocks older than the account by more than this many seconds are not scanned. -/
  timestampTolerance : UInt64 := 86400
  /-- The decimal places of the coin, for display. -/
  coinDecimals : Nat := 12
deriving DecidableEq

/-- Why there is no usable configuration. -/
inductive ConfigError where
  /-- The file that was named does not exist. -/
  | missingFile
  | malformed (cause : JsonError)
  | noSplitAttempts
  | emptyAddressPrefix
  | invalidGenesisId (cause : CryptoError)
deriving DecidableEq

/-- The wording of the error. -/
def ConfigError.message : ConfigError → String
  | .missingFile => "Failed to read config file: No such file or directory (os error 2)"
  | .malformed cause => s!"Failed to parse config file: {cause.message}"
  | .noSplitAttempts => "Invalid config value: max_split_attempts must be positive"
  | .emptyAddressPrefix => "Invalid config value: address_prefix must not be empty"
  | .invalidGenesisId cause => s!"Invalid config value: genesis_block_id: {cause.message}"

namespace RetryPolicy

open Json Fields

/-- The JSON fields of a retry policy. -/
def fields : Fields RetryPolicy :=
  let base : RetryPolicy := {}
  RetryPolicy.mk <$> withDefault "max_retries" (Decoder.natBelow UInt32.size) base.maxRetries
    <*> withDefault "initial_interval_ms" Decoder.word base.initialMs
    <*> withDefault "max_interval_ms" Decoder.word base.maxMs

def toJson (p : RetryPolicy) : Json :=
  .object [("max_retries", .ofNat p.maxRetries), ("initial_interval_ms", .ofWord p.initialMs),
    ("max_interval_ms", .ofWord p.maxMs)]

end RetryPolicy

namespace Config

open Json Fields

/-- The JSON fields of a configuration. Missing ones are taken from `base`. -/
def fields (base : Config) : Fields Config :=
  Config.mk <$> withDefault "daemon_address" Decoder.string base.daemonAddress
    <*> withDefault "rpc_timeout_ms" Decoder.word base.rpcTimeoutMs
    <*> withDefault "retry" RetryPolicy.fields.decoder base.retry
    <*> withDefault "address_prefix" Decoder.string base.addressPrefix
    <*> withDefault "genesis_block_id" Decoder.string base.genesisBlockId
    <*> withDefault "max_block_number" Decoder.word base.maxBlockNumber
    <*> withDefault "locked_tx_allowed_delta_blocks" Decoder.word base.lockedDeltaBlocks
    <*> withDefault "locked_tx_allowed_delta_seconds" Decoder.word base.lockedDeltaSeconds
    <*> withDefault "spendable_age" Decoder.word base.spendableAge
    <*> withDefault "upper_transaction_size_limit" Decoder.nat base.transactionSizeLimit
    <*> withDefault "dust_threshold" Decoder.word base.dustThreshold
    <*> withDefault "min_fee" Decoder.word base.minFee
    <*> withDefault "max_split_attempts" Decoder.nat base.maxSplitAttempts
    <*> withDefault "block_timestamp_tolerance" Decoder.word base.timestampTolerance
    <*> withDefault "coin_decimals" (Decoder.natBelow UInt32.size) base.coinDecimals

def toJson (c : Config) : Json :=
  .object [
    ("daemon_address", .string c.daemonAddress),
    ("rpc_timeout_ms", .ofWord c.rpcTimeoutMs),
    ("retry", c.retry.toJson),
    ("address_prefix", .string c.addressPrefix),
    ("genesis_block_id", .string c.genesisBlockId),
    ("max_block_number", .ofWord c.maxBlockNumber),
    ("locked_tx_allowed_delta_blocks", .ofWord c.lockedDeltaBlocks),
    ("locked_tx_allowed_delta_seconds", .ofWord c.lockedDeltaSeconds),
    ("spendable_age", .ofWord c.spendableAge),
    ("upper_transaction_size_limit", .ofNat c.transactionSizeLimit),
    ("dust_threshold", .ofWord c.dustThreshold),
    ("min_fee", .ofWord c.minFee),
    ("max_split_attempts", .ofNat c.maxSplitAttempts),
    ("block_timestamp_tolerance", .ofWord c.timestampTolerance),
    ("coin_decimals", .ofNat c.coinDecimals)]

/-- The id of the first block, and the null hash if none is configured. -/
def genesisId (c : Config) : Except ConfigError Hash :=
  if c.genesisBlockId = "" then .ok .null
  else (Hash.ofHex c.genesisBlockId).mapError .invalidGenesisId

/-- Refuses a configuration that no wallet can run with. -/
def validate (c : Config) : Except ConfigError Unit := do
  if c.maxSplitAttempts = 0 then
    throw .noSplitAttempts
  if c.addressPrefix = "" then
    throw .emptyAddressPrefix
  let _ ← c.genesisId

/-- The configuration that a text holds. -/
def ofText (text : String) : Except ConfigError Config := do
  let c ← (decodeText (fields {}).decoder text).mapError .malformed
  c.validate
  return c

/-- The configuration with another daemon, if one is named. -/
def withDaemon (c : Config) (address : Option String) : Config :=
  match address with
  | some address => if address = "" then c else { c with daemonAddress := address }
  | none => c

/-- The configuration to run with: from the file that is named, if one is (`some none` is a file
that does not exist), with another daemon if one is named. -/
def load (file : Option (Option String)) (daemonAddress : Option String) :
    Except ConfigError Config := do
  let c ← match file with
    | none => pure {}
    | some none => throw .missingFile
    | some (some text) => ofText text
  return c.withDaemon daemonAddress

end Config

end RingWallet
