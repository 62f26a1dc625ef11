import RingWallet.Keys

/-!
# Fixed-width binary encodings

Numbers are little-endian words of a fixed width, a list is its length as a 64-bit word followed by
its items, an optional value is a tag byte followed by the value if there is one, and a string of
fixed length is written as it is. A `Codec` writes values of one type and reads them back; reading
leaves whatever follows the value. Codecs of larger values are put together from those of their
parts, so a value is written field by field, in the order in which it is put together.
-/

set_option autoImplicit false

namespace RingWallet

/-- Why bytes are no encoding. -/
inductive BlobError where
  /-- The bytes end before the value does. -/
  | endOfData
  /-- The same, found while reading a file section by section. -/
  | endOfStream
  | invalidBool (found : UInt8)
  | invalidOption (found : UInt8)
  | invalidVariant (found variants : Nat)
deriving DecidableEq

/-- The wording of the error. -/
def BlobError.message : BlobError → String
  | .endOfData => "io error: unexpected end of file"
  | .endOfStream => "io error: failed to fill whole buffer"
  | .invalidBool found => s!"invalid u8 while decoding bool, expected 0 or 1, found {found}"
  | .invalidOption found => s!"tag for enum is not valid, found {found}"
  | .invalidVariant found variants =>
    s!"invalid value: integer `{found}`, expected variant index 0 <= i < {variants}"

/-- A way to write values of a type as bytes and to read them back. -/
structure Codec (α : Type) where
  encode : α → Blob
  decode : Blob → Except BlobError (α × Blob)

namespace Codec

variable {α β : Type}

/-- Reads a value and drops what follows it. -/
def read (c : Codec α) (bytes : Blob) : Except BlobError α := (c.decode bytes).map Prod.fst

/-- A string of fixed length, written as it is. -/
def bytes (size : Nat) : Codec (Bytes size) where
  encode b := b.toList
  decode input :=
    match Bytes.ofBlob? (input.take size) with
    | some b => .ok (b, input.drop size)
    | none => .error .endOfData

/-- The numbers that fit into `width` bytes. -/
def number (width : Nat) : Codec Nat where
  encode n := littleEndian width n
  decode input :=
    if (input.take width).length = width then
      .ok (ofLittleEndian (input.take width), input.drop width)
    else .error .endOfData

/-- A value written through another one. -/
def via (c : Codec α) (into : β → α) (back : α → β) : Codec β where
  encode b := c.encode (into b)
  decode input := (c.decode input).map fun (a, rest) => (back a, rest)

/-- Two values, one after the other. -/
def pair (c : Codec α) (d : Codec β) : Codec (α × β) where
  encode p := c.encode p.1 ++ d.encode p.2
  decode input := do
    let (a, rest) ← c.decode input
    let (b, rest) ← d.decode rest
    return ((a, b), rest)

/-- A single byte. -/
def byte : Codec UInt8 := (number 1).via UInt8.toNat UInt8.ofNat

/-- A 32-bit word. -/
def word32 : Codec UInt32 := (number 4).via UInt32.toNat UInt32.ofNat

/-- A 64-bit word. -/
def word : Codec UInt64 := (number 8).via UInt64.toNat UInt64.ofNat

/-- A position, height or count. -/
def position : Codec Nat := number 8

/-- A truth value, as a byte that is 0 or 1. -/
def bool : Codec Bool where
  encode b := [if b then 1 else 0]
  decode input := do
    let (tag, rest) ← byte.decode input
    if tag = 0 then return (false, rest)
    else if tag = 1 then return (true, rest)
    else throw (.invalidBool tag)

/-- A value that may be missing. -/
def option (c : Codec α) : Codec (Option α) where
  encode
    | none => [0]
    | some a => 1 :: c.encode a
  decode input := do
    let (tag, rest) ← byte.decode input
    if tag = 0 then return (none, rest)
    else if tag = 1 then
      let (a, rest) ← c.decode rest
      return (some a, rest)
    else throw (.invalidOption tag)

/-- Reads `count` values. -/
def decodeMany (c : Codec α) : (count : Nat) → Blob → Except BlobError (List α × Blob)
  | 0, input => .ok ([], input)
  | count + 1, input => do
    let (a, rest) ← c.decode input
    let (as, rest) ← decodeMany c count rest
    return (a :: as, rest)

/-- A list: its length, then its items. -/
def list (c : Codec α) : Codec (List α) where
  encode as := position.encode as.length ++ as.flatMap c.encode
  decode input := do
    let (count, rest) ← position.decode input
    decodeMany c count rest

/-- A map, as the list of its entries. It is written in ascending order of the keys and read in any
order; of two entries with the same key the later one counts. -/
def map [Ord α] [Std.TransOrd α] (c : Codec α) (d : Codec β) : Codec (Std.ExtTreeMap α β) :=
  (list (pair c d)).via Std.ExtTreeMap.toList fun entries =>
    entries.foldl (fun m (k, v) => m.insert k v) ∅

/-- The entries of a map as they stand, those with the same key included. They are written in
ascending order of the keys, and those with the same key in the order in which they stand. -/
def entries [Ord α] (c : Codec α) (d : Codec β) : Codec (List (α × β)) :=
  (list (pair c d)).via (List.mergeSort · fun a b => (compare a.1 b.1).isLE) id

/-- A digest. -/
def hash : Codec Hash := (bytes 32).via Hash.bytes Hash.mk

/-- A public key. -/
def publicKey : Codec PublicKey := (bytes 32).via PublicKey.bytes PublicKey.mk

/-- A secret key. -/
def secretKey : Codec SecretKey := (bytes 32).via SecretKey.bytes SecretKey.mk

/-- A key image. -/
def keyImage : Codec KeyImage := (bytes 32).via KeyImage.bytes KeyImage.mk

end Codec

end RingWallet
