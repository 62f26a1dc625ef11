import RingWallet.Storage.Directory
import RingWallet.Storage.KeysFile
import RingWallet.Storage.Timestamp
import RingWallet.Wallet.SavedState

/-!
# The files of a wallet

A wallet lies in files next to each other: the keys file, the text of its address, the stored state,
and a note of how far the state reaches. The note comes before the state, and a missing or broken
one counts as zero. A wallet is never made where there is one already.
-/

set_option autoImplicit false

namespace RingWallet

/-- The files, and what else the operations on them need from outside. -/
structure Disk (σ : Type) where
  env : σ
  files : Directory

/-- An operation on the files. -/
abbrev StorageM (σ : Type) := ExceptT WalletError (StateM (Disk σ))

/-- A stored state as it was found. -/
structure StoredState where
  version : Nat
  state : SavedState
  /-- The height that the note gives. -/
  height : Nat

namespace WalletFiles

variable {σ α : Type}

def keysPath (path : String) : String := path ++ ".keys"

def addressPath (path : String) : String := path ++ ".address.txt"

def notePath (path : String) : String := path ++ ".meta.json"

/-- A step of the environment. -/
def outside (step : StateM σ α) : StorageM σ α := do
  let disk ← get
  let (a, env) := step.run disk.env
  set { disk with env }
  return a

def fileExists (path : String) : StorageM σ Bool := return (← get).files.exists? path

/-- Writes a file. -/
def writeFile (path : String) (contents : Blob) (failure : FileError → StorageError) :
    StorageM σ Unit := do
  let disk ← get
  match disk.files.write path contents with
  | .ok files => set { disk with files }
  | .error e => throw (.storage (failure e))

/-- Reads a file. -/
def readFile (path : String) (failure : FileError → StorageError) : StorageM σ Blob := do
  match (← get).files.read path with
  | .ok contents => return contents
  | .error e => throw (.storage (failure e))

/-! ## Keys -/

/-- Writes the keys file and the text of the address. -/
def saveKeys (path : String) (keys : KeysFile) (address : String) : StorageM σ Unit := do
  writeFile (keysPath path) (KeysFile.codec.encode keys) (.writeKeys (keysPath path))
  writeFile (addressPath path) address.toUTF8.toList (.writeAddress (addressPath path))

/-- The keys file, if there is one. -/
def loadKeysFile (path : String) : StorageM σ (Option KeysFile) := do
  if ← fileExists (keysPath path) then
    let contents ← readFile (keysPath path) (.readKeys (keysPath path))
    match KeysFile.codec.read contents with
    | .ok keys => return some keys
    | .error e => throw (.blob e)
  else return none

/-! ## State -/

/-- The note of how far a state reaches. -/
def note (height : Nat) (now : UInt64) : Json :=
  .object [("sync_height", .ofNat height), ("timestamp", .string (Timestamp.text now.toNat))]

/-- The height in a note. -/
def noteHeight? (contents : Blob) : Option Nat := do
  let text ← String.fromUTF8? ⟨contents.toArray⟩
  match Json.ofText? text with
  | some (.object entries) => (Json.Decoder.nat (← entries.lookup "sync_height")).toOption
  | _ => none

/-- Writes the note, then the state. -/
def saveState (env : Environment σ) (path : String) (state : SavedState) (height : Nat) :
    StorageM σ Unit := do
  let now ← outside env.now
  writeFile (notePath path) (note height now).pretty.toUTF8.toList .writeMetadata
  writeFile path state.encode .writeState

/-- The stored state, if there is one. -/
def loadState (path : String) : StorageM σ (Option StoredState) := do
  if ← fileExists path then
    let height := ((← get).files.read (notePath path)).toOption.bind noteHeight?
    let contents ← readFile path .readState
    match SavedState.decode contents with
    | .ok (version, state) => return some { version, state, height := height.getD 0 }
    | .error e => throw e
  else return none

/-! ## Wallets -/

section

variable (S : Suite) (env : Environment σ)

/-- Makes a wallet for an account. -/
def create (path addressPrefix : String) (account : Account) (password : String) :
    StorageM σ Unit := do
  if (← fileExists (keysPath path)) || (← fileExists path) then
    throw .walletExists
  match account.address.encode addressPrefix with
  | .error e => throw (.address e)
  | .ok address =>
    let keys ← outside (KeysFile.lock env.random account password)
    saveKeys path keys address
    saveState env path { address := account.address } 0

/-- Makes a wallet for a fresh account. -/
def generate (path addressPrefix password : String) : StorageM σ Account := do
  let now ← outside env.now
  let account ← outside (Account.generate S env.random now)
  create env path addressPrefix account password
  return account

/-- The account in the keys file. -/
def loadKeys (path password : String) : StorageM σ Account := do
  match ← loadKeysFile path with
  | none => throw .noKeysFile
  | some keys =>
    match keys.unlock S password with
    | .ok account => return account
    | .error e => throw e

/-- Stores the state of a wallet. -/
def store (path : String) (w : Wallet) : StorageM σ Unit :=
  saveState env path w.snapshot w.height

/-- Opens a wallet. Without a stored state, or with one of a version that holds none, it starts with
an empty history. -/
def load (path password : String) (config : Config) : StorageM σ Wallet := do
  let account ← loadKeys S path password
  let opened ← match ← loadState path with
    | none => pure (Wallet.create account config)
    | some stored =>
      let state := if stored.version < SavedState.historyVersion then
          { address := account.address } else stored.state
      pure (Wallet.restore S account config state)
  match opened with
  | .ok w => return w
  | .error e => throw e

end

end WalletFiles

end RingWallet
