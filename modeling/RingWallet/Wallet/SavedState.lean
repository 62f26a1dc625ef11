import RingWallet.Wallet.Session

/-!
# The stored form of a wallet

The history of a wallet and the address it belongs to are stored as one file, which starts with its
version. Version 5 holds the chain, the transfers, the address and the key images, version 6 adds
the transactions that were sent, and version 7 the payments; older versions hold nothing that can be
used. `SavedState.decode` reads every version up to `currentVersion`. The entries of a map may stand
in any order; `SavedState.sortEntries` puts them in the order in which `SavedState.encode` writes
them.

`Wallet.create` starts a wallet with an empty history and `Wallet.restore` one with a stored one,
which has to fit the account and to be consistent in itself.
-/

set_option autoImplicit false

namespace RingWallet

/-- The part of a wallet that is stored. -/
structure SavedState where
  address : Address := default
  history : History := {}

namespace SavedState

/-- The version that is written. -/
def currentVersion : Nat := 7

/-- The first version that holds a history. -/
def historyVersion : Nat := 5

/-- The first version that holds the transactions that were sent. -/
def unconfirmedVersion : Nat := 6

/-- The first version that holds the payments. -/
def paymentsVersion : Nat := 7

def chainCodec : Codec (List Hash) := Codec.list Codec.hash

def transfersCodec : Codec (List Transfer) := Codec.list Transfer.codec

def keyImagesCodec : Codec (Std.ExtTreeMap KeyImage Nat) :=
  Codec.map Codec.keyImage Codec.position

def unconfirmedCodec : Codec (Std.ExtTreeMap Hash Unconfirmed) :=
  Codec.map Codec.hash Unconfirmed.codec

def paymentsCodec : Codec (Std.ExtTreeMap Hash (List Payment)) :=
  Codec.map Codec.hash (Codec.list Payment.codec)

def versionCodec : Codec Nat := Codec.number 4

/-- The sections that exist in a version. -/
def encodeVersion (version : Nat) (s : SavedState) : Blob :=
  versionCodec.encode version ++
    if version < historyVersion then []
    else
      chainCodec.encode s.history.chain ++ transfersCodec.encode s.history.transfers
        ++ Address.codec.encode s.address ++ keyImagesCodec.encode s.history.keyImages
        ++ (if version < unconfirmedVersion then []
            else unconfirmedCodec.encode s.history.unconfirmed)
        ++ (if version < paymentsVersion then [] else paymentsCodec.encode s.history.payments)

/-- The bytes of the file. -/
def encode (s : SavedState) : Blob := s.encodeVersion currentVersion

/-- Reads a section if it exists. -/
def sectionIf {α : Type} (present : Bool) (absent : α) (c : Codec α) (bytes : Blob) :
    Except BlobError (α × Blob) :=
  if present then c.decode bytes else .ok (absent, bytes)

/-- The sections that exist in a version; the others are empty. -/
def decodeSections (version : Nat) (bytes : Blob) : Except BlobError SavedState := do
  if version < historyVersion then
    return {}
  let (chain, bytes) ← chainCodec.decode bytes
  let (transfers, bytes) ← transfersCodec.decode bytes
  let (address, bytes) ← Address.codec.decode bytes
  let (keyImages, bytes) ← keyImagesCodec.decode bytes
  let (unconfirmed, bytes) ← sectionIf (unconfirmedVersion ≤ version) ∅ unconfirmedCodec bytes
  let (payments, _) ← sectionIf (paymentsVersion ≤ version) ∅ paymentsCodec bytes
  return { address, history := { chain, transfers, keyImages, unconfirmed, payments } }

/-- The error of a file for an error of a section. -/
def fileError : BlobError → WalletError
  | .endOfData => .blob .endOfStream
  | e => .blob e

/-- The version of a file and the state it holds. -/
def decode (bytes : Blob) : Except WalletError (Nat × SavedState) := do
  let (version, bytes) ← (versionCodec.decode bytes).mapError fileError
  if currentVersion < version then
    throw (.storage (.unsupportedVersion version))
  let s ← (decodeSections version bytes).mapError fileError
  return (version, s)

/-- The sections of a file of the version that is written. The maps are lists of their entries, so
that nothing of the file is lost. -/
def entriesCodec : Codec (List Hash × List Transfer × Address × List (KeyImage × Nat) ×
    List (Hash × Unconfirmed) × List (Hash × List Payment)) :=
  .pair chainCodec <| .pair transfersCodec <| .pair Address.codec <|
    .pair (.entries .keyImage .position) <| .pair (.entries .hash Unconfirmed.codec) <|
      .entries .hash (.list Payment.codec)

/-- A file with the entries of its maps in ascending order of their keys. A file of an older version
and one that cannot be read stay as they are, and so does what follows the sections. -/
def sortEntries (bytes : Blob) : Blob :=
  match (Codec.pair versionCodec entriesCodec).decode bytes with
  | .ok ((version, sections), rest) =>
    if version = currentVersion then
      versionCodec.encode version ++ entriesCodec.encode sections ++ rest
    else bytes
  | .error _ => bytes

end SavedState

namespace Wallet

/-- A wallet with an empty history. Its chain starts at the configured first block, if there is
one. -/
def create (account : Account) (config : Config) : Except WalletError Wallet := do
  let genesis ← config.genesisId.mapError fun e => .storage (.config e)
  return { account, config, history := { chain := if genesis.isNull then [] else [genesis] } }

/-- Refuses transfers whose transaction does not have the stored id. -/
def checkHashes (S : Suite) : List Transfer → Except WalletError Unit
  | [] => .ok ()
  | t :: rest =>
    if t.tx.hash S = t.txHash then checkHashes S rest
    else .error (.consistency (.storedHashMismatch t.txHash (t.tx.hash S)))

/-- Refuses key images that do not point at the transfer that has them. -/
def checkKeyImages (transfers : List Transfer) : List (KeyImage × Nat) → Except WalletError Unit
  | [] => .ok ()
  | (image, index) :: rest =>
    if (transfers[index]?.map Transfer.keyImage) = some image then checkKeyImages transfers rest
    else .error (.consistency (.danglingKeyImage image))

/-- A wallet with a stored history. An empty chain is replaced by that of a new wallet. -/
def restore (S : Suite) (account : Account) (config : Config) (s : SavedState) :
    Except WalletError Wallet := do
  if s.address ≠ account.address then
    throw .otherAccount
  checkHashes S s.history.transfers
  checkKeyImages s.history.transfers s.history.keyImages.toList
  let w ← create account config
  let chain := if s.history.chain.isEmpty then w.history.chain else s.history.chain
  return { w with history := { s.history with chain } }

/-- The part of a wallet that is stored. -/
def snapshot (w : Wallet) : SavedState := ⟨w.account.address, w.history⟩

end Wallet

end RingWallet
