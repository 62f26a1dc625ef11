import RingWallet.Address
import RingWallet.Config

/-!
# What can go wrong in a wallet

Each error is a cause with its data; `message` gives its wording. `WalletError.isRetryable` tells
the failures of the daemon, which may pass, from those that will not.
-/

set_option autoImplicit false

namespace RingWallet

/-- A question to the daemon. -/
inductive DaemonCall where
  | blocks
  | outputIndices
  | decoys
  | send
  | height
deriving DecidableEq

/-- The name of a call in error texts. -/
def DaemonCall.name : DaemonCall → String
  | .blocks => "getblocks"
  | .outputIndices => "get_o_indexes"
  | .decoys => "getrandom_outs"
  | .send => "sendrawtransaction"
  | .height => "getheight"

/-- Why the daemon gave no answer. -/
inductive LedgerError where
  | transport (text : String)
deriving DecidableEq

/-- The wording of the error. -/
def LedgerError.message : LedgerError → String
  | .transport text => s!"Transport error: {text}"

/-- A blob of the ledger. -/
inductive BlobKind where
  | transaction
  | block
deriving DecidableEq

def BlobKind.name : BlobKind → String
  | .transaction => "transaction"
  | .block => "block"

/-- What is wrong with an answer of the daemon. -/
inductive ProtocolError where
  | status (call : DaemonCall) (found : String)
  /-- There is not one index for each output. -/
  | indexCount (outputs indices : Nat)
  /-- There is not one list of decoys for each amount. -/
  | amountCount (found expected : Nat)
  | decoyKey (key : String) (cause : CryptoError)
  | undecodableHex (kind : BlobKind) (cause : HexError)
  | undecodableBlob (kind : BlobKind) (cause : BlobError)
  /-- A transaction could not be handed over. -/
  | notSent (cause : LedgerError)
deriving DecidableEq

/-- The wording of the error. -/
def ProtocolError.message : ProtocolError → String
  | .status call found => s!"{call.name} returned status {found}"
  | .indexCount outputs indices =>
    s!"transactions outputs size={outputs} not match with get_o_indexes response size={indices}"
  | .amountCount found expected =>
    s!"getrandom_outs returned wrong amounts count = {found}, expected {expected}"
  | .decoyKey key cause => s!"invalid decoy key {key}: {cause.message}"
  | .undecodableHex kind cause => s!"Failed to decode {kind.name} hex: {cause.message}"
  | .undecodableBlob kind cause => s!"Failed to deserialize {kind.name}: {cause.message}"
  | .notSent cause => s!"sendrawtransaction failed: {cause.message}"

/-- What does not fit together inside the wallet, or between the wallet and the chain. -/
inductive ConsistencyError where
  | blockBeyondEnd (height localHeight : Nat)
  | splitAtFirstBlock (height : Nat)
  | outputKeyMismatch (derived found : PublicKey)
  | storedHashMismatch (stored computed : Hash)
  | danglingKeyImage (image : KeyImage)
  | missingOutput (index : Nat)
  | invalidDust (dust threshold : UInt64)
deriving DecidableEq

/-- The wording of the error. -/
def ConsistencyError.message : ConsistencyError → String
  | .blockBeyondEnd height localHeight =>
    s!"daemon returned block {height} while the local chain ends at {localHeight}"
  | .splitAtFirstBlock height => s!"chain split at the first block of the batch, height {height}"
  | .outputKeyMismatch derived found =>
    s!"derived output key {derived.hex} does not match {found.hex}"
  | .storedHashMismatch stored computed =>
    s!"stored transaction {stored.hex} hashes to {computed.hex}"
  | .danglingKeyImage image => s!"key image {image.hex} does not point at its transfer"
  | .missingOutput index => s!"transfer {index} has no output"
  | .invalidDust dust threshold =>
    s!"invalid dust value: dust = {dust}, dust_threshold = {threshold}"

/-- Why no transaction can be made of the given parts. -/
inductive ConstructionError where
  | noSources
  | signerOutsideRing (index size : Nat)
  | outputKeyMismatch (derived found : PublicKey)
  | outputsExceedInputs (outputs inputs : UInt64)
  | missingTxKey (hash : Hash)
  | noSplitAttempts
deriving DecidableEq

/-- The wording of the error. -/
def ConstructionError.message : ConstructionError → String
  | .noSources => "no sources"
  | .signerOutsideRing index size => s!"real output {index} outside ring of {size}"
  | .outputKeyMismatch derived found =>
    s!"derived key {derived.hex} does not match real output key {found.hex}"
  | .outputsExceedInputs outputs inputs => s!"outputs {outputs} exceed inputs {inputs}"
  | .missingTxKey hash => s!"transaction {hash.hex} has no public key"
  | .noSplitAttempts => "no split attempts configured"

/-- Why a selected output cannot be spent any more. -/
inductive StaleSelection where
  | alreadySpent (image : KeyImage)
  | notTracked (image : KeyImage) (index : Nat)
deriving DecidableEq

/-- The wording of the error. -/
def StaleSelection.message : StaleSelection → String
  | .alreadySpent image => s!"output {image.hex} is already spent"
  | .notTracked image index => s!"output {image.hex} is no longer tracked at index {index}"

/-- Pairs in parentheses between brackets. -/
def listOfPairs (pairs : List (UInt64 × Nat)) : String :=
  "[" ++ String.intercalate ", " (pairs.map fun (a, n) => s!"({a}, {n})") ++ "]"

/-- Why a transaction cannot be built or sent. -/
inductive TransactionError where
  | zeroDestination
  | amountOverflow
  | feeTooLow (fee minFee : UInt64)
  | notEnoughMoney (found needed fee : UInt64)
  /-- The amounts with too few decoys, and how many there are. -/
  | notEnoughDecoys (scanty : List (UInt64 × Nat)) (mixin : UInt64)
  | tooBig (size limit : Nat)
  | notConstructed (cause : ConstructionError)
  | unexpectedInput
  | wrongPaymentId (text : String)
  | stale (cause : StaleSelection)
  | rejected (hash : Hash) (status : String)
  | viewOnly
  | crypto (cause : CryptoError)
  | nonceTooLong (length : Nat)
deriving DecidableEq

/-- The wording of the error. -/
def TransactionError.message : TransactionError → String
  | .zeroDestination => "Zero destination"
  | .amountOverflow => "Transaction amount overflow"
  | .feeTooLow fee minFee => s!"Fee {fee} is below the minimum fee {minFee}"
  | .notEnoughMoney found needed fee =>
    s!"Not enough money: found {found}, needed {needed} plus fee {fee}"
  | .notEnoughDecoys scanty mixin =>
    s!"Not enough outputs to mix with {mixin} decoys: {listOfPairs scanty}"
  | .tooBig size limit => s!"Transaction too big: {size} bytes, limit {limit}"
  | .notConstructed cause => s!"Transaction not constructed: {cause.message}"
  | .unexpectedInput => "Unexpected transaction input type"
  | .wrongPaymentId text =>
    s!"Wrong payment id: payment id has invalid format: \"{text}\", expected 64-character string"
  | .stale cause => s!"Selected output is no longer spendable: {cause.message}"
  | .rejected hash status => s!"Transaction {hash.hex} rejected by daemon with status {status}"
  | .viewOnly => "View-only wallet cannot sign transactions"
  | .crypto cause => s!"Crypto error: {cause.message}"
  | .nonceTooLong length => s!"Extra error: Extra nonce too long: {length} bytes"

/-- Why a file cannot be read or written. -/
inductive FileError where
  | notFound
  | notDirectory
  | isDirectory
  | nameTooLong
  /-- A path that holds a null character. -/
  | nullInName
deriving DecidableEq

/-- The wording of the error. -/
def FileError.message : FileError → String
  | .notFound => "No such file or directory (os error 2)"
  | .notDirectory => "Not a directory (os error 20)"
  | .isDirectory => "Is a directory (os error 21)"
  | .nameTooLong => "File name too long (os error 36)"
  | .nullInName => "file name contained an unexpected NUL byte"

/-- What went wrong with the stored form of a wallet. -/
inductive StorageError where
  | config (cause : ConfigError)
  | unsupportedVersion (version : Nat)
  | writeKeys (path : String) (cause : FileError)
  | writeAddress (path : String) (cause : FileError)
  | writeMetadata (cause : FileError)
  | writeState (cause : FileError)
  | readKeys (path : String) (cause : FileError)
  | readState (cause : FileError)
  /-- What an event handler gives as its reason. -/
  | listener (reason : String)
deriving DecidableEq

/-- The wording of the error. -/
def StorageError.message : StorageError → String
  | .config cause => cause.message
  | .unsupportedVersion version => s!"unsupported wallet file version {version}"
  | .writeKeys path cause => s!"Failed to write keys file {quotedText path}: {cause.message}"
  | .writeAddress path cause => s!"Failed to write address file {quotedText path}: {cause.message}"
  | .writeMetadata cause => s!"Failed to write wallet state metadata: {cause.message}"
  | .writeState cause => s!"Failed to write wallet state file: {cause.message}"
  | .readKeys path cause => s!"Failed to read keys file {quotedText path}: {cause.message}"
  | .readState cause => s!"Failed to read wallet state file: {cause.message}"
  | .listener reason => reason

/-- Why an operation of a wallet fails. -/
inductive WalletError where
  | ledger (cause : LedgerError)
  | daemonBusy (call : DaemonCall)
  | protocol (cause : ProtocolError)
  | consistency (cause : ConsistencyError)
  | transaction (cause : TransactionError)
  | invalidPassword
  /-- The stored state belongs to another account. -/
  | otherAccount
  /-- There is a wallet where a new one was to be made. -/
  | walletExists
  | noKeysFile
  | blob (cause : BlobError)
  | crypto (cause : CryptoError)
  | address (cause : AddressError)
  | storage (cause : StorageError)
  /-- A refresh gave up after too many rounds (`Environment.maxRounds`). -/
  | unfinished
  /-- A sum is none of the words. The program ends there, so that nobody gets this as an answer. -/
  | overflow
deriving DecidableEq

namespace WalletError

/-- The wording of the error. -/
def message : WalletError → String
  | ledger cause => s!"Ledger error: {cause.message}"
  | daemonBusy call => s!"Daemon is busy: {call.name}"
  | protocol cause => s!"Protocol error: {cause.message}"
  | consistency cause => s!"Internal consistency error: {cause.message}"
  | transaction cause => s!"Transaction error: {cause.message}"
  | invalidPassword => "Invalid password"
  | otherAccount =>
    "Wallet files do not correspond: stored address does not match the account"
  | walletExists => "File already exists: a wallet already exists at this path"
  | noKeysFile => "File not found: keys file"
  | blob cause => s!"Serialization error: {cause.message}"
  | crypto cause => s!"Crypto error: {cause.message}"
  | address cause => s!"Address error: {cause.message}"
  | storage cause => s!"Storage error: {cause.message}"
  | unfinished => "Refresh did not finish"
  | overflow => "attempt to add with overflow"

/-- Whether the daemon is to blame, so that another attempt may succeed. -/
def isRetryable : WalletError → Bool
  | ledger _ | daemonBusy _ | protocol _ => true
  | _ => false

/-- Whether the daemon said that it is busy. -/
def isBusy : WalletError → Bool
  | daemonBusy _ => true
  | _ => false

/-- Whether a transaction came out too big. -/
def isTooBig : WalletError → Bool
  | transaction (.tooBig _ _) => true
  | _ => false

end WalletError

end RingWallet
