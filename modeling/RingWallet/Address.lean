import RingWallet.Bech32
import RingWallet.Codec

/-!
# Addresses

An address is a pair of public keys. Its text is the checksummed form of their 64 bytes, under a
prefix that names the network.
-/

set_option autoImplicit false

namespace RingWallet

/-- Where money is paid to. -/
structure Address where
  /-- Owns the outputs. -/
  spendKey : PublicKey
  /-- Recognises them. -/
  viewKey : PublicKey
deriving DecidableEq, Inhabited

/-- Why a text is no address, or why an address has no text. -/
inductive AddressError where
  | decoding (cause : Bech32.DecodeError)
  | encoding (cause : Bech32.PrefixError)
  | otherPrefix (expected found : String)
  | payloadLength (found : Nat)
  | invalidKey
deriving DecidableEq

/-- The wording of the error. -/
def AddressError.message : AddressError → String
  | .decoding cause => s!"bech32 decoding failed: {cause.message}"
  | .encoding cause => s!"bech32 encoding failed: {cause.message}"
  | .otherPrefix expected found => s!"prefix '{found}' != '{expected}'"
  | .payloadLength found => s!"address payload must be 64 bytes, got {found}"
  | .invalidKey => "address contains an invalid public key"

namespace Address

/-- The 64 bytes of an address, the spend key first. -/
def payload (a : Address) : Blob := a.spendKey.bytes.toList ++ a.viewKey.bytes.toList

def codec : Codec Address :=
  (Codec.publicKey.pair Codec.publicKey).via (fun a => (a.spendKey, a.viewKey))
    fun (spendKey, viewKey) => ⟨spendKey, viewKey⟩

/-- The address with the given 64 bytes. -/
def ofPayload? (bytes : Blob) : Option Address := do
  let spend ← Bytes.ofBlob? (bytes.take 32)
  let view ← Bytes.ofBlob? (bytes.drop 32)
  return ⟨⟨spend⟩, ⟨view⟩⟩

/-- The text of an address under a prefix. -/
def encode (a : Address) (human : String) : Except AddressError String :=
  (Bech32.encode human a.payload).mapError .encoding

/-- The address that a text stands for: the prefix has to be the expected one, and both keys have
to be points. -/
def decode (S : Suite) (text expected : String) : Except AddressError Address := do
  let (found, bytes) ← (Bech32.decode text).mapError .decoding
  if found ≠ expected then
    throw (.otherPrefix expected found)
  let some address := ofPayload? bytes | throw (.payloadLength bytes.length)
  if address.spendKey.isValid S && address.viewKey.isValid S then return address
  else throw .invalidKey

/-- One line that names both keys. -/
def description (a : Address) : String :=
  s!"AccountAddress \x7b spend: \"{a.spendKey.hex}\", view: \"{a.viewKey.hex}\" \x7d"

end Address

end RingWallet
