import RingWallet.Address

/-!
# Accounts

The keys of a wallet. The view secret recognises incoming outputs; the spend secret is needed to
see which of them are spent and to spend them. An account without it is view-only.
-/

set_option autoImplicit false

namespace RingWallet

/-- An address and the secrets behind it. -/
structure AccountKeys where
  address : Address
  /-- Missing in a view-only account. -/
  spendSecret : Option SecretKey
  viewSecret : SecretKey
deriving DecidableEq

/-- The keys of a wallet and the Unix time from which on its blocks are of interest. -/
structure Account where
  keys : AccountKeys
  createTime : UInt64
deriving DecidableEq

/-- Whether a secret key belongs to a public key. -/
def SecretKey.matches (S : Suite) (secret : SecretKey) (key : PublicKey) : Bool :=
  match secret.publicKey S with
  | .ok found => found = key
  | .error _ => false

namespace Account

def address (a : Account) : Address := a.keys.address

def isViewOnly (a : Account) : Bool := a.keys.spendSecret.isNone

/-- The account without its spend secret. -/
def toViewOnly (a : Account) : Account := { a with keys := { a.keys with spendSecret := none } }

/-- Whether every secret that is present belongs to its public key. -/
def verify (S : Suite) (a : Account) : Bool :=
  a.keys.viewSecret.matches S a.address.viewKey
    && a.keys.spendSecret.all (·.matches S a.address.spendKey)

/-- An account of keys that belong together. -/
def ofKeys? (S : Suite) (keys : AccountKeys) (createTime : UInt64) : Option Account :=
  let account : Account := ⟨keys, createTime⟩
  if account.verify S then some account else none

/-- A fresh account. The view secret is the hash of the spend secret, so that the latter alone
restores both. -/
def generate (S : Suite) {σ : Type} (next : RandomSource σ) (now : UInt64) : StateM σ Account := do
  let (spendKey, spendSecret) ← SecretKey.generate S next
  let view := S.hashToScalar spendSecret.bytes.toList
  return {
    keys := {
      address := ⟨spendKey, .ofPoint S (S.mulBase view)⟩
      spendSecret := some spendSecret
      viewSecret := .ofScalar view }
    createTime := now }

def codec : Codec Account :=
  (Address.codec.pair ((Codec.option Codec.secretKey).pair (Codec.secretKey.pair Codec.word))).via
    (fun a => (a.address, a.keys.spendSecret, a.keys.viewSecret, a.createTime))
    fun (address, spendSecret, viewSecret, createTime) =>
      ⟨⟨address, spendSecret, viewSecret⟩, createTime⟩

end Account

end RingWallet
