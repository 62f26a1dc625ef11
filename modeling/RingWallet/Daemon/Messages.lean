import RingWallet.Json.Decoder

/-!
# Messages of the daemon

Requests to the daemon and its answers, with their JSON forms. Blocks, transactions and keys travel
as hexadecimal text, which the wallet decodes. Every answer carries a status.
-/

set_option autoImplicit false

namespace RingWallet.Daemon

open Json Fields

/-- The status of an answer that can be used. -/
def okStatus : String := "OK"

/-- The status of a daemon that is still catching up. -/
def busyStatus : String := "BUSY"

/-- Asks for the blocks after the last one that both sides know. -/
structure BlocksRequest where
  /-- The ids that the wallet knows, newest first. -/
  blockIds : List String
  /-- Where to start. Zero leaves it to the daemon to find the place from the ids. -/
  startHeight : Nat
deriving DecidableEq

namespace BlocksRequest

def fields : Fields BlocksRequest :=
  mk <$> required "block_ids" (Decoder.list Decoder.string) <*> required "start_height" Decoder.nat

def toJson (m : BlocksRequest) : Json :=
  .object [("block_ids", .array (m.blockIds.map .string)), ("start_height", .ofNat m.startHeight)]

end BlocksRequest

/-- A block and its transactions. -/
structure BlockEntry where
  block : String
  txs : List String := []
deriving DecidableEq

namespace BlockEntry

def fields : Fields BlockEntry :=
  mk <$> required "block" Decoder.string <*> withDefault "txs" (Decoder.list Decoder.string) []

def toJson (m : BlockEntry) : Json :=
  .object [("block", .string m.block), ("txs", .array (m.txs.map .string))]

end BlockEntry

/-- Consecutive blocks. -/
structure BlocksReply where
  status : String
  /-- The height of the first block. -/
  startHeight : Nat := 0
  /-- The number of blocks that the daemon has. -/
  currentHeight : Nat := 0
  blocks : List BlockEntry := []
deriving DecidableEq

namespace BlocksReply

def fields : Fields BlocksReply :=
  mk <$> required "status" Decoder.string <*> withDefault "start_height" Decoder.nat 0
    <*> withDefault "current_height" Decoder.nat 0
    <*> withDefault "blocks" (Decoder.list BlockEntry.fields.decoder) []

def toJson (m : BlocksReply) : Json :=
  .object [("status", .string m.status), ("start_height", .ofNat m.startHeight),
    ("current_height", .ofNat m.currentHeight), ("blocks", .array (m.blocks.map (·.toJson)))]

end BlocksReply

/-- Asks for the global indices of the outputs of a transaction. -/
structure IndicesRequest where
  txid : String
deriving DecidableEq

namespace IndicesRequest

def fields : Fields IndicesRequest := mk <$> required "txid" Decoder.string

def toJson (m : IndicesRequest) : Json := .object [("txid", .string m.txid)]

end IndicesRequest

/-- The global indices of the outputs of a transaction, in the order of the outputs. -/
structure IndicesReply where
  status : String
  indices : List UInt64 := []
deriving DecidableEq

namespace IndicesReply

def fields : Fields IndicesReply :=
  mk <$> required "status" Decoder.string <*> withDefault "o_indexes" (Decoder.list Decoder.word) []

def toJson (m : IndicesReply) : Json :=
  .object [("status", .string m.status), ("o_indexes", .array (m.indices.map .ofWord))]

end IndicesReply

/-- Asks for outputs to mix with, a number of them for each amount. -/
structure DecoysRequest where
  amounts : List UInt64
  count : UInt64
deriving DecidableEq

namespace DecoysRequest

def fields : Fields DecoysRequest :=
  mk <$> required "amounts" (Decoder.list Decoder.word) <*> required "outs_count" Decoder.word

def toJson (m : DecoysRequest) : Json :=
  .object [("amounts", .array (m.amounts.map .ofWord)), ("outs_count", .ofWord m.count)]

end DecoysRequest

/-- An output to mix with. -/
structure Decoy where
  globalIndex : UInt64
  key : String
deriving DecidableEq

namespace Decoy

def fields : Fields Decoy :=
  mk <$> required "global_amount_index" Decoder.word <*> required "out_key" Decoder.string

def toJson (m : Decoy) : Json :=
  .object [("global_amount_index", .ofWord m.globalIndex), ("out_key", .string m.key)]

end Decoy

/-- Outputs of one amount to mix with. -/
structure DecoysOfAmount where
  amount : UInt64
  decoys : List Decoy := []
deriving DecidableEq

namespace DecoysOfAmount

def fields : Fields DecoysOfAmount :=
  mk <$> required "amount" Decoder.word
    <*> withDefault "outs" (Decoder.list Decoy.fields.decoder) []

def toJson (m : DecoysOfAmount) : Json :=
  .object [("amount", .ofWord m.amount), ("outs", .array (m.decoys.map (·.toJson)))]

end DecoysOfAmount

/-- Outputs to mix with, for each amount that was asked for. -/
structure DecoysReply where
  status : String
  amounts : List DecoysOfAmount := []
deriving DecidableEq

namespace DecoysReply

def fields : Fields DecoysReply :=
  mk <$> required "status" Decoder.string
    <*> withDefault "outs" (Decoder.list DecoysOfAmount.fields.decoder) []

def toJson (m : DecoysReply) : Json :=
  .object [("status", .string m.status), ("outs", .array (m.amounts.map (·.toJson)))]

end DecoysReply

/-- Sends a transaction to the network. -/
structure SendRequest where
  tx : String
deriving DecidableEq

namespace SendRequest

def fields : Fields SendRequest := mk <$> required "tx_as_hex" Decoder.string

def toJson (m : SendRequest) : Json := .object [("tx_as_hex", .string m.tx)]

end SendRequest

/-- Says whether the daemon took a transaction. -/
structure SendReply where
  status : String
deriving DecidableEq

namespace SendReply

def fields : Fields SendReply := mk <$> required "status" Decoder.string

def toJson (m : SendReply) : Json := .object [("status", .string m.status)]

end SendReply

/-- The number of blocks that the daemon has. -/
structure HeightReply where
  status : String
  height : Nat := 0
deriving DecidableEq

namespace HeightReply

def fields : Fields HeightReply :=
  mk <$> required "status" Decoder.string <*> withDefault "height" Decoder.nat 0

def toJson (m : HeightReply) : Json :=
  .object [("status", .string m.status), ("height", .ofNat m.height)]

end HeightReply

end RingWallet.Daemon
