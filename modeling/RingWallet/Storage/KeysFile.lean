import RingWallet.Account
import RingWallet.Cipher.Sealed
import RingWallet.Hash.Argon2id
import RingWallet.Random
import RingWallet.Wallet.Error

/-!
# The keys file

An account, sealed under a key that is derived from a password. The salt of the derivation and the
nonce of the seal are drawn anew for every file and stored with it.
-/

set_option autoImplicit false

namespace RingWallet

/-- A sealed account. -/
structure KeysFile where
  salt : Bytes 16
  nonce : Bytes 24
  sealedAccount : Blob
deriving DecidableEq

namespace KeysFile

def codec : Codec KeysFile :=
  ((Codec.bytes 16).pair ((Codec.bytes 24).pair (Codec.list Codec.byte))).via
    (fun f => (f.salt, f.nonce, f.sealedAccount))
    fun (salt, nonce, sealedAccount) => ⟨salt, nonce, sealedAccount⟩

/-- The key that a password and a salt stand for. -/
def keyOf (password : String) (salt : Bytes 16) : Bytes32 :=
  Argon2id.hash password.toUTF8.toList salt.toList

/-- The sealed form of an account for a given salt and nonce. -/
def lockWith (account : Account) (password : String) (salt : Bytes 16) (nonce : Bytes 24) :
    KeysFile :=
  ⟨salt, nonce, Sealed.lock (keyOf password salt) nonce (Account.codec.encode account)⟩

/-- Seals an account with a fresh salt and nonce. -/
def lock {σ : Type} (next : RandomSource σ) (account : Account) (password : String) :
    StateM σ KeysFile := do
  let salt ← next.bytes 16
  let nonce ← next.bytes 24
  return lockWith account password (.ofNat (ofLittleEndian salt)) (.ofNat (ofLittleEndian nonce))

/-- The account in a keys file, if the password is right and the keys in it belong together. -/
def unlock (S : Suite) (f : KeysFile) (password : String) : Except WalletError Account := do
  let some bytes := Sealed.unlock? (keyOf password f.salt) f.nonce f.sealedAccount
    | throw .invalidPassword
  let account ← (Account.codec.read bytes).mapError .blob
  if account.verify S then return account else throw .invalidPassword

end KeysFile

end RingWallet
