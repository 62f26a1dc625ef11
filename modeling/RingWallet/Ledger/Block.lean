import RingWallet.Ledger.Transaction

/-!
# Blocks

A block holds its reward transaction and the ids of the other transactions. Its id is the hash of
its binary encoding.
-/

set_option autoImplicit false

namespace RingWallet

structure BlockHeader where
  majorVersion : UInt8
  minorVersion : UInt8
  /-- Unix time. -/
  timestamp : UInt64
  previous : Hash
  nonce : UInt32
deriving DecidableEq

namespace BlockHeader

def codec : Codec BlockHeader :=
  (Codec.byte.pair (Codec.byte.pair (Codec.word.pair (Codec.hash.pair Codec.word32)))).via
    (fun h => (h.majorVersion, h.minorVersion, h.timestamp, h.previous, h.nonce))
    fun (majorVersion, minorVersion, timestamp, previous, nonce) =>
      ⟨majorVersion, minorVersion, timestamp, previous, nonce⟩

end BlockHeader

structure Block where
  header : BlockHeader
  minerTx : Transaction
  txHashes : List Hash
deriving DecidableEq

namespace Block

def codec : Codec Block :=
  (BlockHeader.codec.pair (Transaction.codec.pair (Codec.list Codec.hash))).via
    (fun b => (b.header, b.minerTx, b.txHashes)) fun (header, minerTx, txHashes) =>
      ⟨header, minerTx, txHashes⟩

/-- The binary encoding of a block. -/
def toBlob (b : Block) : Blob := codec.encode b

/-- The block that a blob starts with. -/
def ofBlob (bytes : Blob) : Except BlobError Block := codec.read bytes

/-- The id of a block. -/
def hash (S : Suite) (b : Block) : Hash := .ofMessage S b.toBlob

def timestamp (b : Block) : UInt64 := b.header.timestamp

end Block

end RingWallet
