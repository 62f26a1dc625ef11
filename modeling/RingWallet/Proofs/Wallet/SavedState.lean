import RingWallet.Proofs.Ledger.Blob
import RingWallet.Wallet.SavedState

/-!
# Stored wallets read back

The file of a wallet holds its maps as lists of their entries, in whatever order they come
(`SavedState.Entries`). `SavedState.decode_of_written` says that a file of every version that holds
a history is read back, whatever its order and whatever follows it, with the sections that the
version lacks left empty (`SavedState.upTo`), and that a file that is cut short is refused wherever
it is cut.

Each section is read by itself, so that this comes down to the codecs of the sections
(`SavedState.takes_sections`). `SavedState.Fits` are the states that can be written: heights,
indices and the lengths of lists fit into a word.
-/

set_option autoImplicit false

namespace RingWallet

open Codec (Listed)

/-! ### Records -/

/-- An output whose numbers fit into words. -/
structure Transfer.Fits (t : Transfer) : Prop where
  blockHeight : t.blockHeight < UInt64.size
  tx : t.tx.Fits
  outputIndex : t.outputIndex < UInt64.size

/-- An output is read back exactly as it was written if its numbers fit into words. -/
theorem Transfer.exact_codec : codec.Exact Fits := by
  refine ((Codec.exact_position.pair (Transaction.exact_codec.pair (Codec.exact_hash.pair
    (Codec.exact_position.pair (Codec.exact_word.pair (Codec.exact_bool.pair
      Codec.exact_keyImage)))))).via (fun _ => rfl) fun _ _ => rfl).congr fun t => ?_
  constructor
  · rintro ⟨blockHeight, tx, -, outputIndex, -⟩
    exact ⟨blockHeight, tx, outputIndex⟩
  · rintro ⟨blockHeight, tx, outputIndex⟩
    exact ⟨blockHeight, tx, trivial, outputIndex, trivial, trivial, trivial⟩

/-- A transaction that waits is read back exactly as it was written if its parts fit. -/
theorem Unconfirmed.exact_codec : codec.Exact fun u => u.tx.Fits := by
  refine ((Transaction.exact_codec.pair (Codec.exact_word.pair Codec.exact_word)).via (fun _ => rfl)
    fun _ _ => rfl).congr fun u => ?_
  exact and_iff_left ⟨trivial, trivial⟩

/-- A payment is read back exactly as it was written if its height fits into a word. -/
theorem Payment.exact_codec : codec.Exact fun p => p.blockHeight < UInt64.size := by
  refine ((Codec.exact_hash.pair (Codec.exact_word.pair (Codec.exact_position.pair
    Codec.exact_word))).via (fun _ => rfl) fun _ _ => rfl).congr fun p => ?_
  constructor
  · rintro ⟨-, -, blockHeight, -⟩
    exact blockHeight
  · exact fun blockHeight => ⟨trivial, trivial, blockHeight, trivial⟩

/-- An address is read back exactly as it was written. -/
theorem Address.exact_codec : codec.Exact fun _ => True :=
  ((Codec.exact_publicKey.pair Codec.exact_publicKey).via (fun _ => rfl) fun _ _ => rfl).congr
    fun _ => iff_true_intro ⟨trivial, trivial⟩

namespace SavedState

/-! ### Files -/

/-- A state whose numbers fit into words. -/
structure Fits (s : SavedState) : Prop where
  chain : s.history.chain.length < UInt64.size
  transfers : Listed Transfer.Fits s.history.transfers
  keyImages : Listed (fun e => e.2 < UInt64.size) s.history.keyImages.toList
  unconfirmed : Listed (fun e => e.2.tx.Fits) s.history.unconfirmed.toList
  payments : Listed (fun e => Listed (fun p => p.blockHeight < UInt64.size) e.2)
    s.history.payments.toList

/-- The entries of the maps of a history, in some order. -/
structure Entries (h : History) where
  keyImages : List (KeyImage × Nat)
  unconfirmed : List (Hash × Unconfirmed)
  payments : List (Hash × List Payment)
  keyImages_perm : keyImages.Perm h.keyImages.toList
  unconfirmed_perm : unconfirmed.Perm h.unconfirmed.toList
  payments_perm : payments.Perm h.payments.toList

/-- The entries in ascending order of their keys. -/
def Entries.ascending (h : History) : Entries h :=
  ⟨h.keyImages.toList, h.unconfirmed.toList, h.payments.toList, .refl _, .refl _, .refl _⟩

/-- The sections of a version, with the entries of the maps in some order. -/
def sections (version : Nat) (s : SavedState) (entries : Entries s.history) : Blob :=
  chainCodec.encode s.history.chain ++ (transfersCodec.encode s.history.transfers ++
    (Address.codec.encode s.address ++
      ((Codec.list (Codec.keyImage.pair Codec.position)).encode entries.keyImages ++
        ((if unconfirmedVersion ≤ version then
            (Codec.list (Codec.hash.pair Unconfirmed.codec)).encode entries.unconfirmed
          else []) ++
          if paymentsVersion ≤ version then
            (Codec.list (Codec.hash.pair (Codec.list Payment.codec))).encode entries.payments
          else []))))

/-- A file of a version that holds a state. -/
def Written (version : Nat) (s : SavedState) (file : Blob) : Prop :=
  ∃ entries : Entries s.history, file = versionCodec.encode version ++ s.sections version entries

/-- What a version keeps of a state. -/
def upTo (version : Nat) (s : SavedState) : SavedState :=
  { s with
    history := { s.history with
      unconfirmed := if unconfirmedVersion ≤ version then s.history.unconfirmed else ∅
      payments := if paymentsVersion ≤ version then s.history.payments else ∅ } }

/-- The file that is written is one of them. -/
theorem written_encodeVersion {version : Nat} (held : historyVersion ≤ version) (s : SavedState) :
    s.Written version (s.encodeVersion version) := by
  refine ⟨.ascending s.history, ?_⟩
  -- the writer asks which sections are too new for the version, not which ones it has
  unfold encodeVersion sections
  rw [if_neg (Nat.not_lt.mpr held)]
  simp only [List.append_assoc, ← Nat.not_le, ite_not]
  rfl

/-! ### Reading -/

/-- A section that is absent takes no bytes and is read as its default. -/
theorem takes_sectionIf {α : Type} {c : Codec α} {bytes : Blob} {a : α} (absent : α)
    (taken : Takes .endOfData c.decode bytes fun rest => (a, rest)) (present : Prop)
    [Decidable present] :
    Takes .endOfData (sectionIf present absent c) (if present then bytes else [])
      fun rest => (if present then a else absent, rest) := by
  by_cases here : present
  · simp only [here, decide_true, if_true]
    exact taken
  · simp only [here, decide_false, if_false]
    exact .done _

/-- The outputs of a state are read from what is written of them. -/
theorem takes_transfers {transfers : List Transfer} (fits : Listed Transfer.Fits transfers) :
    Takes .endOfData transfersCodec.decode (transfersCodec.encode transfers)
      fun rest => (transfers, rest) :=
  Transfer.exact_codec.list.takes transfers fits

/-- The entries of an index may stand in any order. -/
theorem takes_keyImages {keyImages : Std.ExtTreeMap KeyImage Nat} {entries : List (KeyImage × Nat)}
    (order : entries.Perm keyImages.toList)
    (fits : Listed (fun e => e.2 < UInt64.size) keyImages.toList) :
    Takes .endOfData keyImagesCodec.decode
      ((Codec.list (Codec.keyImage.pair Codec.position)).encode entries)
      fun rest => (keyImages, rest) :=
  Codec.takes_map Codec.exact_keyImage Codec.exact_position order
    ⟨fits.1, fun e mem => ⟨trivial, fits.2 e mem⟩⟩

/-- The sections of a version are read back. -/
theorem takes_sections {version : Nat} (held : historyVersion ≤ version) {s : SavedState}
    (fits : s.Fits) (entries : Entries s.history) :
    Takes .endOfData (decodeSections version) (s.sections version entries)
      fun _ => s.upTo version := by
  have chain : Takes .endOfData chainCodec.decode (chainCodec.encode s.history.chain)
      fun rest => (s.history.chain, rest) :=
    Codec.exact_hash.list.takes s.history.chain ⟨fits.chain, fun _ _ => trivial⟩
  have transfers := takes_transfers fits.transfers
  have address := Address.exact_codec.takes s.address trivial
  have keyImages := takes_keyImages entries.keyImages_perm fits.keyImages
  have unconfirmed : Takes .endOfData unconfirmedCodec.decode _ fun rest =>
      (s.history.unconfirmed, rest) :=
    Codec.takes_map Codec.exact_hash Unconfirmed.exact_codec entries.unconfirmed_perm
      ⟨fits.unconfirmed.1, fun e mem => ⟨trivial, fits.unconfirmed.2 e mem⟩⟩
  have payments : Takes .endOfData paymentsCodec.decode _ fun rest =>
      (s.history.payments, rest) :=
    Codec.takes_map Codec.exact_hash Payment.exact_codec.list entries.payments_perm
      ⟨fits.payments.1, fun e mem => ⟨trivial, fits.payments.2 e mem⟩⟩
  -- one section after the other, in the order in which they are written
  unfold decodeSections
  simp only [Nat.not_lt.mpr held, if_false]
  refine chain.bind ?_
  dsimp only
  refine transfers.bind ?_
  dsimp only
  refine address.bind ?_
  dsimp only
  refine keyImages.bind ?_
  dsimp only
  refine (takes_sectionIf ∅ unconfirmed (unconfirmedVersion ≤ version)).bind ?_
  exact (takes_sectionIf ∅ payments (paymentsVersion ≤ version)).last fun p =>
    { s with
      history := { s.history with
        unconfirmed := if unconfirmedVersion ≤ version then s.history.unconfirmed else ∅
        payments := p.1 } }

/-- A file of a version that holds a history is read back, whatever follows it, and is refused
wherever it is cut. -/
theorem decode_of_written {version : Nat} (held : historyVersion ≤ version)
    (known : version ≤ currentVersion) {s : SavedState} (fits : s.Fits) :
    s.Written version (s.encodeVersion version) ∧
      ∀ file, s.Written version file →
        (∀ rest, decode (file ++ rest) = .ok (version, s.upTo version)) ∧
        ∀ cut, cut <+: file → cut ≠ file → decode cut = .error (.blob .endOfStream) := by
  refine ⟨written_encodeVersion held s, ?_⟩
  rintro file ⟨entries, rfl⟩
  have word : version < Nat.pow 256 4 := Nat.lt_of_le_of_lt known (by decide)
  have number := ((Codec.exact_number 4).takes version word).mapError fileError
  have state := ((takes_sections held fits entries).mapError fileError).last fun s => (version, s)
  have taken : Takes (.blob .endOfStream) decode
      (versionCodec.encode version ++ s.sections version entries)
      fun _ => (version, s.upTo version) := by
    unfold decode
    refine number.bind ?_
    simp only [Nat.not_lt.mpr known, if_false]
    exact state
  exact ⟨taken.whole, taken.short⟩

end SavedState

namespace SmallSuite

/-- An output of the account that is its first one of a transaction. -/
def received (sender : Nat) : Transfer where
  blockHeight := 0
  tx := payment sender 10 []
  txHash := (payment sender 10 []).hash .small
  outputIndex := 0
  globalIndex := 0
  spent := false
  keyImage := image sender

/-- A stored wallet with two outputs, a transaction that it sent, and a payment. -/
def stored : SavedState where
  address := account.address
  history :=
    { chain := [funding.id, spending.id]
      transfers := [received 3, received 4]
      keyImages := (∅ : Std.ExtTreeMap KeyImage Nat).insert (image 3) 0 |>.insert (image 4) 1
      unconfirmed := (∅ : Std.ExtTreeMap Hash Unconfirmed).insert .null ⟨payment 5 6 [], 6, 0⟩
      payments := (∅ : Std.ExtTreeMap Hash (List Payment)).insert .null [⟨.null, 10, 0, 0⟩] }

/-- The index lists its entries in the order of the images. -/
theorem entries_stored : stored.history.keyImages.toList = [(image 4, 1), (image 3, 0)] := by
  decide +kernel

/-- A payment of the small suite can be written if its extra field is not too long. -/
theorem fits_payment {sender : Nat} {amount : UInt64}
    (extra : (payment sender amount []).extra.length < UInt64.size) :
    (payment sender amount []).Fits := by
  refine ⟨⟨⟨?_, ?_⟩, ?_, extra⟩, ?_, ?_⟩
  · exact Nat.zero_lt_succ _
  · exact fun input mem => nomatch mem
  · exact Nat.succ_lt_succ (Nat.zero_lt_succ _)
  · exact Nat.zero_lt_succ _
  · exact fun ring mem => nomatch mem

/-- The stored wallet can be written. -/
theorem fits_stored : stored.Fits := by
  have wait : (payment 5 6 []).Fits := fits_payment (by decide +kernel)
  refine ⟨by decide, ⟨by decide, ?_⟩, ?_, ⟨by decide, ?_⟩, ⟨by decide, ?_⟩⟩
  · show ∀ t ∈ [received 3, received 4], t.Fits
    simp only [List.forall_mem_cons]
    refine ⟨⟨by decide, fits_payment (by decide +kernel), by decide⟩,
      ⟨by decide, fits_payment (by decide +kernel), by decide⟩, ?_⟩
    exact fun t mem => nomatch mem
  · rw [entries_stored]
    refine ⟨by decide, ?_⟩
    simp only [List.forall_mem_cons]
    exact ⟨by decide, by decide, fun e mem => nomatch mem⟩
  · intro e mem
    obtain rfl := List.mem_singleton.mp mem
    exact wait
  · intro e mem
    obtain rfl := List.mem_singleton.mp mem
    refine ⟨by decide, fun p mem => ?_⟩
    obtain rfl := List.mem_singleton.mp mem
    decide

end SmallSuite

namespace SavedState

open SmallSuite in
/-- The entries of the stored wallet, with the key images in the order in which they came. -/
def Entries.received : Entries stored.history where
  keyImages := [(image 3, 0), (image 4, 1)]
  unconfirmed := stored.history.unconfirmed.toList
  payments := stored.history.payments.toList
  keyImages_perm := entries_stored ▸ .swap (image 4, 1) (image 3, 0) []
  unconfirmed_perm := .refl _
  payments_perm := .refl _

open SmallSuite in
/-- A file of version 6 has no payments, the order of its key images does not matter, and it is
refused without its last byte. -/
theorem decode_of_written_small :
    historyVersion ≤ 6 ∧ 6 ≤ currentVersion ∧ stored.Fits ∧
      let file := versionCodec.encode 6 ++ stored.sections 6 .received
      file ≠ stored.encodeVersion 6 ∧
        decode (file ++ [7]) =
          .ok (6, { stored with history := { stored.history with payments := ∅ } }) ∧
        decode file.dropLast = .error (.blob .endOfStream) := by
  have held : historyVersion ≤ 6 := by decide
  have known : 6 ≤ currentVersion := by decide
  refine ⟨held, known, fits_stored, ?_, ?_, ?_⟩
  · decide +kernel
  · exact ((decode_of_written held known fits_stored).2 _ ⟨.received, rfl⟩).1 [7]
  · refine ((decode_of_written held known fits_stored).2 _ ⟨.received, rfl⟩).2 _
      (List.dropLast_prefix _) ?_
    decide +kernel

end SavedState

end RingWallet
