import RingWallet.Keys

/-!
# The extra field of a transaction

A transaction carries a tagged byte string: the transaction's public key, and nonces, one of which
may hold a payment id. Parsing reads as many fields as it can and says whether it reached the end;
a malformed tail does not undo the fields before it.
-/

set_option autoImplicit false

namespace RingWallet

/-- One field of the extra bytes. -/
inductive ExtraField where
  /-- Zero bytes up to the end. -/
  | padding (count : Nat)
  | publicKey (key : PublicKey)
  | nonce (bytes : Blob)
deriving DecidableEq

namespace Extra

/-- The most bytes that padding or a nonce may have. -/
def maxLength : Nat := 255

/-- The first field, and the bytes after it. -/
def field? : Blob → Option (ExtraField × Blob)
  | [] => none
  | tag :: rest =>
    if tag = 0 then
      if rest.length + 1 ≤ maxLength ∧ rest.all fun b => b = 0 then
        some (.padding (rest.length + 1), [])
      else none
    else if tag = 1 then
      (Bytes.ofBlob? (rest.take 32)).map fun key => (.publicKey ⟨key⟩, rest.drop 32)
    else if tag = 2 then
      match rest with
      | [] => none
      | length :: body =>
        if length.toNat ≤ body.length then
          some (.nonce (body.take length.toNat), body.drop length.toNat)
        else none
    else none

/-- A field takes at least one byte, so that the reader gets to the end. -/
theorem length_lt_of_field? {bytes rest : Blob} {f : ExtraField}
    (h : field? bytes = some (f, rest)) : rest.length < bytes.length := by
  unfold field? at h
  split at h
  · cases h
  · split at h
    · -- padding takes the rest, a key takes its bytes, and a nonce those that its length says
      split at h <;> simp_all
    · split at h
      · simp only [Option.map_eq_some_iff, Prod.mk.injEq] at h
        obtain ⟨_, _, _, rfl⟩ := h
        simp only [List.length_drop, List.length_cons]
        omega
      · split at h
        · split at h
          · cases h
          · split at h <;> simp_all
            rw [← h.2]
            simp only [List.length_drop]
            omega
        · cases h

/-- The fields that can be read, and whether they reach to the end. -/
def parse (bytes : Blob) : List ExtraField × Bool :=
  match h : field? bytes with
  | none => ([], bytes.isEmpty)
  | some (f, rest) =>
    have := length_lt_of_field? h
    let (fields, complete) := parse rest
    (f :: fields, complete)
termination_by bytes.length

/-- The bytes of a transaction key field. -/
def encodeKey (key : PublicKey) : Blob := 1 :: key.bytes.toList

/-- The bytes of a nonce field, for a nonce that is not too long. -/
def encodeNonce? (nonce : Blob) : Option Blob :=
  if nonce.length ≤ maxLength then some (2 :: UInt8.ofNat nonce.length :: nonce) else none

/-- The nonce that holds a payment id. -/
def paymentNonce (id : Hash) : Blob := 0 :: id.bytes.toList

/-- The payment id in a nonce. -/
def paymentIdOfNonce? : Blob → Option Hash
  | 0 :: id => (Bytes.ofBlob? id).map Hash.mk
  | _ => none

/-- The first transaction key among the fields. -/
def publicKeyOf? (fields : List ExtraField) : Option PublicKey :=
  fields.findSome? fun
    | .publicKey key => some key
    | _ => none

/-- The first payment id among the fields. -/
def paymentIdOf? (fields : List ExtraField) : Option Hash :=
  fields.findSome? fun
    | .nonce bytes => paymentIdOfNonce? bytes
    | _ => none

/-- The transaction key in the extra bytes. -/
def publicKey? (bytes : Blob) : Option PublicKey := publicKeyOf? (parse bytes).1

/-- The payment id in the extra bytes. -/
def paymentId? (bytes : Blob) : Option Hash := paymentIdOf? (parse bytes).1

end Extra

/-- The payment id that a text of 64 hexadecimal digits spells. -/
def parsePaymentId? (text : String) : Option Hash :=
  if text.utf8ByteSize = 64 then (Hash.ofHex text).toOption else none

end RingWallet
