import RingWallet.Proofs.Codec
import RingWallet.Proofs.Wallet.Calls

/-!
# The forms of transactions and blocks

Transactions and blocks have one form each, and the ids rest on that. `Transaction.Fits` and
`Block.Fits` are the values that can be written at all: the length of each of their lists fits into
a word. `canonical_ofBlob` says that the readers of both accept exactly the forms of these values,
whatever follows them, that no form starts another one, and that a form that is cut short is
refused. So the id of a block that the daemon sent, and those of its transactions, are the digests
of the forms of what was read, and blocks with the same id are the same block unless two runs of
bytes share a digest.
-/

set_option autoImplicit false

namespace RingWallet

open Codec (Listed)

/-! ### Exact codecs -/

namespace TxIn

/-- An input whose offsets can be counted. -/
def Fits : TxIn → Prop
  | generated _ => True
  | toKey _ offsets _ => offsets.length < UInt64.size

/-- What is read after a tag. -/
def tagged (p : UInt32 × Blob) : Except BlobError (TxIn × Blob) :=
  if p.1 = 0 then
    Codec.word.decode p.2 >>= fun height => .ok (generated height.1, height.2)
  else if p.1 = 1 then
    Codec.word.decode p.2 >>= fun amount =>
      (Codec.list Codec.word).decode amount.2 >>= fun offsets =>
        Codec.keyImage.decode offsets.2 >>= fun image =>
          .ok (toKey amount.1 offsets.1 image.1, image.2)
  else .error (.invalidVariant p.1.toNat 2)

/-- An input whose offsets can be counted is read back, and what is read is such an input. -/
theorem exact_codec : codec.Exact Fits where
  takes input fits := by
    cases input with
    | generated height =>
      -- a height is all that follows the tag 0
      have body : Takes .endOfData (fun rest => tagged (0, rest)) (Codec.word.encode height)
          fun rest => (generated height, rest) :=
        (Codec.exact_word.takes height trivial).last fun p => (generated p.1, p.2)
      show Takes .endOfData (fun input => Codec.word32.decode input >>= tagged)
        (Codec.word32.encode 0 ++ Codec.word.encode height) _
      exact (Codec.exact_word32.takes 0 trivial).bind body
    | toKey amount offsets image =>
      -- behind the tag 1 stand three fields, which are put together from the last one
      have listed : Listed (fun _ => True) offsets := ⟨fits, fun _ _ => trivial⟩
      have last : Takes .endOfData (fun rest => Codec.keyImage.decode rest >>= fun image =>
          .ok (toKey amount offsets image.1, image.2)) (Codec.keyImage.encode image)
          fun rest => (toKey amount offsets image, rest) :=
        (Codec.exact_keyImage.takes image trivial).last fun p => (toKey amount offsets p.1, p.2)
      have later : Takes .endOfData (fun rest =>
          (Codec.list Codec.word).decode rest >>= fun offsets =>
            Codec.keyImage.decode offsets.2 >>= fun image =>
              .ok (toKey amount offsets.1 image.1, image.2))
          ((Codec.list Codec.word).encode offsets ++ Codec.keyImage.encode image)
          fun rest => (toKey amount offsets image, rest) :=
        (Codec.exact_word.list.takes offsets listed).bind last
      have body : Takes .endOfData (fun rest => tagged (1, rest))
          (Codec.word.encode amount ++ ((Codec.list Codec.word).encode offsets ++
            Codec.keyImage.encode image))
          fun rest => (toKey amount offsets image, rest) :=
        (Codec.exact_word.takes amount trivial).bind later
      -- the tag itself comes first
      have whole : Takes .endOfData (fun input => Codec.word32.decode input >>= tagged) _
          fun rest => (toKey amount offsets image, rest) :=
        (Codec.exact_word32.takes 1 trivial).bind body
      simp only [← List.append_assoc] at whole
      exact whole
  written bytes input rest read := by
    obtain ⟨⟨tag, more⟩, first, tagged⟩ := Except.bind_eq_ok.mp read
    obtain ⟨-, rfl⟩ := Codec.exact_word32.written bytes tag more first
    -- the tag says which fields were read behind it, each from what the one before it left
    simp only [] at tagged
    split at tagged
    · next zero =>
      subst zero
      obtain ⟨⟨height, last⟩, second, tagged⟩ := Except.bind_eq_ok.mp tagged
      obtain ⟨rfl, rfl⟩ := Prod.mk.inj (Except.ok.inj tagged)
      obtain ⟨-, rfl⟩ := Codec.exact_word.written more height last second
      exact ⟨trivial, (List.append_assoc _ _ _).symm⟩
    · split at tagged
      · next one =>
        subst one
        obtain ⟨⟨amount, more₁⟩, second, tagged⟩ := Except.bind_eq_ok.mp tagged
        obtain ⟨⟨offsets, more₂⟩, third, tagged⟩ := Except.bind_eq_ok.mp tagged
        obtain ⟨⟨image, last⟩, fourth, tagged⟩ := Except.bind_eq_ok.mp tagged
        obtain ⟨rfl, rfl⟩ := Prod.mk.inj (Except.ok.inj tagged)
        obtain ⟨-, rfl⟩ := Codec.exact_word.written more amount more₁ second
        obtain ⟨listed, rfl⟩ := Codec.exact_word.list.written more₁ offsets more₂ third
        obtain ⟨-, rfl⟩ := Codec.exact_keyImage.written more₂ image last fourth
        refine ⟨listed.1, ?_⟩
        show _ = Codec.word32.encode 1 ++ Codec.word.encode amount
          ++ (Codec.list Codec.word).encode offsets ++ Codec.keyImage.encode image ++ last
        simp only [List.append_assoc]
      · cases tagged

end TxIn

/-- Every output is read back. -/
theorem TxOut.exact_codec : codec.Exact fun _ => True :=
  ((Codec.exact_word.pair Codec.exact_publicKey).via (fun _ => rfl) fun _ _ => rfl).congr fun _ =>
    iff_true_intro ⟨trivial, trivial⟩

/-- Every signature is read back. -/
theorem Signature.exact_codec : codec.Exact fun _ => True :=
  (((Codec.exact_bytes 32).pair (Codec.exact_bytes 32)).via (fun _ => rfl) fun _ _ => rfl).congr
    fun _ => iff_true_intro ⟨trivial, trivial⟩

/-- The signed part of a transaction whose lists can be counted. -/
structure TxPrefix.Fits (p : TxPrefix) : Prop where
  inputs : Listed TxIn.Fits p.inputs
  outputs : p.outputs.length < UInt64.size
  extra : p.extra.length < UInt64.size

/-- The signed part of a transaction is read back if its lists can be counted. -/
theorem TxPrefix.exact_codec : codec.Exact Fits := by
  refine ((Codec.exact_byte.pair (Codec.exact_word.pair (TxIn.exact_codec.list.pair
    (TxOut.exact_codec.list.pair Codec.exact_byte.list)))).via (fun _ => rfl) fun _ _ => rfl).congr
      fun p => ?_
  constructor
  · rintro ⟨-, -, inputs, outputs, extra⟩
    exact ⟨inputs, outputs.1, extra.1⟩
  · rintro ⟨inputs, outputs, extra⟩
    exact ⟨trivial, trivial, inputs, ⟨outputs, fun _ _ => trivial⟩, extra, fun _ _ => trivial⟩

/-- A transaction whose lists can be counted. -/
structure Transaction.Fits (t : Transaction) : Prop where
  signedPart : t.signedPart.Fits
  signatures : Listed (fun ring => ring.length < UInt64.size) t.signatures

/-- A transaction is read back if its lists can be counted. -/
theorem Transaction.exact_codec : codec.Exact Fits := by
  refine ((TxPrefix.exact_codec.pair Signature.exact_codec.list.list).via (fun _ => rfl)
    fun _ _ => rfl).congr fun t => ?_
  constructor
  · rintro ⟨signedPart, count, rings⟩
    exact ⟨signedPart, count, fun ring mem => (rings ring mem).1⟩
  · rintro ⟨signedPart, count, rings⟩
    exact ⟨signedPart, count, fun ring mem => ⟨rings ring mem, fun _ _ => trivial⟩⟩

/-- Every block header is read back. -/
theorem BlockHeader.exact_codec : codec.Exact fun _ => True :=
  ((Codec.exact_byte.pair (Codec.exact_byte.pair (Codec.exact_word.pair
    (Codec.exact_hash.pair Codec.exact_word32)))).via (fun _ => rfl) fun _ _ => rfl).congr fun _ =>
      iff_true_intro ⟨trivial, trivial, trivial, trivial, trivial⟩

/-- A block whose lists can be counted. -/
structure Block.Fits (b : Block) : Prop where
  minerTx : b.minerTx.Fits
  txHashes : b.txHashes.length < UInt64.size

/-- A block is read back if its lists can be counted, those of its reward included. -/
theorem Block.exact_codec : codec.Exact Fits := by
  refine ((BlockHeader.exact_codec.pair (Transaction.exact_codec.pair Codec.exact_hash.list)).via
    (fun _ => rfl) fun _ _ => rfl).congr fun b => ?_
  constructor
  · rintro ⟨-, minerTx, txHashes⟩
    exact ⟨minerTx, txHashes.1⟩
  · rintro ⟨minerTx, txHashes⟩
    exact ⟨trivial, minerTx, txHashes, fun _ _ => trivial⟩

/-! ### Ids -/

/-- Two runs of bytes that share a digest. -/
def Hash.Collision (S : Suite) (m m' : Blob) : Prop :=
  m ≠ m' ∧ Hash.ofMessage S m = Hash.ofMessage S m'

/-- What was read was read from the bytes that its text spells. -/
theorem Sync.exists_of_decodeBlob {α : Type} {kind : BlobKind} {ofBlob : Blob → Except BlobError α}
    {text : String} {a : α} (read : decodeBlob kind ofBlob text = .ok a) :
    ∃ bytes, Hex.decode text = .ok bytes ∧ ofBlob bytes = .ok a := by
  obtain ⟨bytes, spelled, read⟩ := Except.bind_eq_ok.mp read
  exact ⟨bytes, Except.mapError_eq_ok.mp spelled, Except.mapError_eq_ok.mp read⟩

/-- A block that was read was read from the bytes that its text spells, and its id is the digest of
its form. -/
theorem Sync.read_of_parseEntry {S : Suite} {entry : Daemon.BlockEntry} {b : ParsedBlock}
    (parsed : parseEntry S entry = .ok b) :
    (∃ bytes, Hex.decode entry.block = .ok bytes ∧ Block.ofBlob bytes = .ok b.block) ∧
      b.id = .ofMessage S b.block.toBlob := by
  obtain ⟨block, read, parsed⟩ := Except.bind_eq_ok.mp parsed
  obtain ⟨txs, -, parsed⟩ := Except.bind_eq_ok.mp parsed
  obtain rfl := Except.ok.inj parsed
  exact ⟨exists_of_decodeBlob read, rfl⟩

/-- The transactions of a block that was read can be written. -/
theorem Sync.fits_of_parseEntry {S : Suite} {entry : Daemon.BlockEntry} {b : ParsedBlock}
    (parsed : parseEntry S entry = .ok b) : ∀ q ∈ allTransactions S b, q.2.Fits := by
  obtain ⟨block, read, parsed⟩ := Except.bind_eq_ok.mp parsed
  obtain ⟨txs, found, parsed⟩ := Except.bind_eq_ok.mp parsed
  obtain rfl := Except.ok.inj parsed
  intro q mem
  rcases List.mem_cons.mp mem with rfl | mem
  · -- the reward is read with the block, the others are read on their own
    obtain ⟨bytes, -, read⟩ := exists_of_decodeBlob read
    exact (Block.exact_codec.canonical.write_read bytes block read).1.minerTx
  · obtain ⟨text, -, eq⟩ := Except.mem_of_mapM_eq_ok found mem
    obtain ⟨tx, read, eq⟩ := Except.bind_eq_ok.mp eq
    obtain rfl := Except.ok.inj eq
    obtain ⟨bytes, -, read⟩ := exists_of_decodeBlob read
    exact (Transaction.exact_codec.canonical.write_read bytes tx read).1

/-- Blocks with the same id are the same block, unless their forms collide. -/
theorem Block.eq_or_collision (S : Suite) {b b' : Block} (fits : b.Fits) (fits' : b'.Fits)
    (same : Hash.ofMessage S b.toBlob = Hash.ofMessage S b'.toBlob) :
    b = b' ∨ Hash.Collision S b.toBlob b'.toBlob := by
  by_cases forms : b.toBlob = b'.toBlob
  · have front : b.toBlob <+: b'.toBlob := forms ▸ List.prefix_rfl
    exact .inl (Block.exact_codec.canonical.prefix_free b b' fits fits' front)
  · exact .inr ⟨forms, same⟩

/-- Transactions and blocks have one form each, and the ids of a block that was read and of its
transactions are the digests of the forms. -/
theorem canonical_ofBlob (S : Suite) :
    Codec.Canonical Transaction.Fits Transaction.toBlob Transaction.ofBlob ∧
      Codec.Canonical Block.Fits Block.toBlob Block.ofBlob ∧
      ∀ entry b, Sync.parseEntry S entry = .ok b →
        (∃ bytes, Hex.decode entry.block = .ok bytes ∧ b.block.toBlob <+: bytes) ∧
        b.id = .ofMessage S b.block.toBlob ∧
        (∀ q ∈ Sync.allTransactions S b, q.1 = .ofMessage S q.2.toBlob) ∧
        ∀ entry' b', Sync.parseEntry S entry' = .ok b' →
          (b.block = b'.block → b.id = b'.id) ∧
          (b.id = b'.id → b.block = b'.block ∨
            Hash.Collision S b.block.toBlob b'.block.toBlob) := by
  have blocks := Block.exact_codec.canonical
  refine ⟨Transaction.exact_codec.canonical, blocks, ?_⟩
  intro entry b parsed
  obtain ⟨⟨bytes, text, read⟩, id⟩ := Sync.read_of_parseEntry parsed
  obtain ⟨fits, front⟩ := blocks.write_read bytes b.block read
  refine ⟨⟨bytes, text, front⟩, id, ?_, ?_⟩
  · exact fun q mem => Sync.hash_eq_of_parseEntry parsed q.1 q.2 mem
  · intro entry' b' parsed'
    -- equal ids are equal digests of the two forms
    obtain ⟨⟨bytes', -, read'⟩, id'⟩ := Sync.read_of_parseEntry parsed'
    rw [id, id']
    constructor
    · exact fun same => by rw [same]
    · exact Block.eq_or_collision S fits (blocks.write_read bytes' b'.block read').1

/-- A block that came with a byte too many. -/
def SmallSuite.padded : Daemon.BlockEntry where
  block := Hex.encode (funding.block.toBlob ++ [7])
  txs := []

open SmallSuite in
/-- The block is read all the same, its id is the digest of its own bytes, and it is refused if its
last byte is missing. -/
theorem canonical_ofBlob_padded :
    funding.block.Fits ∧ Sync.parseEntry .small padded = .ok funding ∧
      funding.id = .ofMessage .small funding.block.toBlob ∧
      Block.ofBlob (funding.block.toBlob ++ [7]) = .ok funding.block ∧
      Block.ofBlob funding.block.toBlob.dropLast = .error .endOfData := by
  obtain ⟨-, blocks, ids⟩ := canonical_ofBlob .small
  have fits : funding.block.Fits := by
    refine ⟨⟨⟨⟨by decide, ?_⟩, by decide, by decide⟩, by decide, ?_⟩, by decide⟩
    · intro input mem
      obtain rfl := List.mem_singleton.mp mem
      exact trivial
    · exact fun ring mem => nomatch mem
  have read := blocks.read_write funding.block fits [7]
  have parsed : Sync.parseEntry .small padded = .ok funding :=
    Except.bind_eq_ok.mpr ⟨funding.block, Script.decodeBlob_encode read, rfl⟩
  have whole : funding.block.toBlob.length ≠ 0 := by decide +kernel
  refine ⟨fits, parsed, (ids padded funding parsed).2.1, read, ?_⟩
  -- what is left out is missing, since a block takes at least one byte
  refine blocks.short funding.block fits _ (List.dropLast_prefix _) fun same => whole ?_
  have length := congrArg List.length same
  rw [List.length_dropLast] at length
  omega

end RingWallet
