import RingWallet.Proofs.Rpc.Errors
import RingWallet.Proofs.Storage.Reload
import RingWallet.Proofs.Wallet.Twins

/-!
# Wallets that the caller keeps

A caller names an account by the text of its address and its secrets (`Rpc.credentials`), and hands
over the state that the service has answered with (`Rpc.stateFields`). Both are read back: numbers
from their digits, secrets, outputs and index from their hexadecimal forms. So the service has the
identity of the wallet again (`Rpc.decodeParams_identityOf`), and opens a wallet that is the same
but for the ids of its chain, what was sent and the payments (`Rpc.openWallet_identityOf`).

A wallet that a caller has learned something with, in whatever way, is opened as a twin of it
(`Rpc.openFrom_of_afterCalls`).
-/

set_option autoImplicit false

namespace RingWallet

/-! ### Values -/

namespace Json

namespace Decoder

/-- A text is read as it is written. -/
@[simp] theorem string_string (text : String) : string (.string text) = .ok text := rfl

/-- A number is read back from its digits. -/
theorem nat_ofNat {n : Nat} (word : n < UInt64.size) : nat (.ofNat n) = .ok n := by
  have spelled : (toString n).toList = Nat.toDigits 10 n := by
    rw [Nat.toString_eq_repr, Nat.toList_repr]
  have digits : (Nat.toDigits 10 n).all Char.isDigit = true := by
    rw [List.all_eq_true]
    exact fun c mem => Nat.isDigit_of_mem_toDigits (by decide) (by decide) mem
  have value : ofDigits (Nat.toDigits 10 n) = n := Nat.ofDigitChars_ten_toDigits
  show natBelow UInt64.size (.number (toString n)) = _
  unfold natBelow
  simp only [spelled, value]
  rw [if_pos ⟨digits, word⟩]

/-- A word is read back from its digits. -/
theorem word_ofWord (n : UInt64) : word (.ofWord n) = .ok n := by
  have number : nat (.ofWord n) = .ok n.toNat := nat_ofNat n.toNat_lt_size
  unfold word
  rw [number]
  exact congrArg Except.ok UInt64.ofNat_toNat

end Decoder

namespace Fields

variable {α β : Type}

/-- A function of what is read. -/
@[simp] theorem build_map (g : α → β) (x : Fields α) (values : String → Option Json) :
    (g <$> x).build values = g <$> x.build values := rfl

/-- Fields are read one after the other. -/
@[simp] theorem build_seq (f : Fields (α → β)) (x : Fields α) (values : String → Option Json) :
    (f <*> x).build values = f.build values <*> x.build values := by
  show (f.build values >>= fun g => x.build values >>= fun a => .ok (g a)) = _
  rcases f.build values with e | g
  · rfl
  · rcases x.build values with e | a
    · rfl
    · rfl

/-- A field that has to be there. -/
@[simp] theorem build_required (name : String) (d : Decoder α) (values : String → Option Json) :
    (required name d).build values =
      ((values name).map d).getD (.error (.missingField name)) := rfl

/-- A field that is given a value if it is not there. -/
@[simp] theorem build_withDefault (name : String) (d : Decoder α) (value : α)
    (values : String → Option Json) :
    (withDefault name d value).build values = ((values name).map d).getD (.ok value) := rfl

end Fields

end Json

/-- Bytes are read back from their hexadecimal form. -/
theorem Bytes.ofHex_hex (bytes : Bytes32) : Bytes.ofHex bytes.hex = .ok bytes := by
  have read : Hex.decode bytes.hex = .ok bytes.toList := Hex.decode_encode _
  unfold Bytes.ofHex
  rw [read]
  show (Bytes.ofBlob? bytes.toList).elim _ Except.ok = _
  rw [Bytes.ofBlob?_toList]
  rfl

namespace SecretKey

variable {S : Suite} {k : SecretKey}

/-- A secret is read back if it belongs to some public key, since then it is a scalar. -/
theorem ofHex_of_matches {key : PublicKey} (own : k.matches S key = true) :
    ofHex k.hex = .ok k := by
  -- a key that matches a public key has a scalar, which is what the reader asks for
  rcases derived : k.publicKey S with e | found
  · unfold «matches» at own
    rw [derived] at own
    cases own
  · obtain ⟨x, scalar, -⟩ := Except.bind_eq_ok.mp derived
    have read : Bytes.ofHex k.hex = .ok k.bytes := Bytes.ofHex_hex _
    unfold ofHex
    rw [read]
    show (k.scalar >>= fun _ => .ok k) = _
    rw [scalar]
    rfl

/-- A secret is never written as nothing. -/
theorem hex_ne_empty (k : SecretKey) : k.hex ≠ "" := by
  intro none
  have empty : k.bytes.toList = [] := Hex.eq_of_encode_eq none
  have size := k.bytes.length_eq
  rw [empty] at size
  cases size

end SecretKey

/-- A list starts with its length, even if it is empty. -/
theorem Codec.list_encode_ne_nil {α : Type} (c : Codec α) (items : List α) :
    (list c).encode items ≠ [] := by
  intro nil
  have size := congrArg List.length (List.append_eq_nil_iff.mp nil).1
  rw [show (position.encode items.length).length = 8 from length_littleEndian _ _] at size
  cases size

/-! ### Identities -/

namespace Rpc

/-- The entries by which a caller names an account: the text of its address and its secrets. That of
a missing spend secret is empty. -/
def credentials (address : String) (keys : AccountKeys) : List (String × Json) :=
  [("address", .string address), ("view_key", .string keys.viewSecret.hex),
    ("spend_key", .string (keys.spendSecret.elim "" SecretKey.hex))]

/-- A wallet as its caller keeps it. -/
def identityOf (address : String) (w : Wallet) : Identity where
  address := address
  viewKey := w.account.keys.viewSecret.hex
  spendKey := w.account.keys.spendSecret.elim "" SecretKey.hex
  createTime := w.account.createTime
  localHeight := w.height
  transfers := Hex.encode (SavedState.transfersCodec.encode w.history.transfers)
  keyImages := Hex.encode (SavedState.keyImagesCodec.encode w.history.keyImages)

/-- An identity is put together from the entries of all its fields. -/
theorem Identity.build_fields {values : String → Option Json} {i : Identity}
    (address : values "address" = some (.string i.address))
    (viewKey : values "view_key" = some (.string i.viewKey))
    (spendKey : values "spend_key" = some (.string i.spendKey))
    (createTime : values "account_create_time" = some (.ofWord i.createTime))
    (localHeight : values "local_bc_height" = some (.ofNat i.localHeight))
    (transfers : values "transfers" = some (.string i.transfers))
    (keyImages : values "key_images" = some (.string i.keyImages))
    (word : i.localHeight < UInt64.size) : fields.build values = .ok i := by
  have height := Json.Decoder.nat_ofNat word
  have time := Json.Decoder.word_ofWord i.createTime
  simp [fields, address, viewKey, spendKey, createTime, localHeight, transfers, keyImages, height,
    time]
  rfl

/-- The credentials and the state of a wallet are read as its identity. -/
theorem decodeParams_identityOf (address : String) {w : Wallet} (word : w.height < UInt64.size) :
    decodeParams Identity.fields.decoder
      (.object (credentials address w.account.keys ++ stateFields w)) =
      .ok (identityOf address w) := by
  have checked : Identity.fields.checkEntries []
      (credentials address w.account.keys ++ stateFields w) = .ok () := by
    -- of the entries that are known, only those of numbers can be wrong
    show (do
      let _ ← (Json.Decoder.word (.ofWord w.account.createTime)).map fun _ => ()
      let _ ← (Json.Decoder.nat (.ofNat w.height)).map fun _ => ()
      return () : Except JsonError Unit) = .ok ()
    rw [Json.Decoder.nat_ofNat word, Json.Decoder.word_ofWord]
    rfl
  have built : Identity.fields.build (fun name =>
      (credentials address w.account.keys ++ stateFields w).lookup name) =
      .ok (identityOf address w) :=
    Identity.build_fields rfl rfl rfl rfl rfl rfl rfl word
  have read : Identity.fields.decoder
      (.object (credentials address w.account.keys ++ stateFields w)) =
      .ok (identityOf address w) := by
    unfold Json.Fields.decoder Json.Fields.ofEntries
    simp only []
    rw [checked, Except.ok_bind]
    exact built
  unfold decodeParams
  simp only [read]
  rfl

variable {S : Suite} {config : Config}

/-- The identity of a wallet is opened as a wallet with its outputs, its index and its height, if
that is not less than the height of a new wallet. -/
theorem openWallet_identityOf {address : String} {w fresh : Wallet} {requireSpendKey : Bool}
    (named : Address.decode S address config.addressPrefix = .ok w.account.address)
    (verified : w.account.verify S = true)
    (spender : (requireSpendKey && w.account.isViewOnly) = false)
    (created : Wallet.create w.account config = .ok fresh)
    (transfers : Codec.Listed Transfer.Fits w.history.transfers)
    (keyImages : Codec.Listed (fun e => e.2 < UInt64.size) w.history.keyImages.toList)
    (hashes : ∀ t ∈ w.history.transfers, t.tx.hash S = t.txHash) (points : w.history.Points) :
    openWallet S config (identityOf address w) requireSpendKey =
      .ok { fresh with history :=
        ({ w.history with chain := fresh.history.chain, unconfirmed := ∅, payments := ∅ }
          : History).assumeScanned w.height } := by
  obtain ⟨viewed, spends⟩ := Bool.and_eq_true_iff.mp verified
  have view := SecretKey.ofHex_of_matches viewed
  have keys : Account.ofKeys? S
      ⟨w.account.address, w.account.keys.spendSecret, w.account.keys.viewSecret⟩
      w.account.createTime = some w.account := if_pos verified
  -- what is written of the outputs and of the index is read back
  have outputs : decodeState .transfers SavedState.transfersCodec []
      (Hex.encode (SavedState.transfersCodec.encode w.history.transfers)) =
      .ok w.history.transfers :=
    decodeState_encode [] (Codec.list_encode_ne_nil _ _)
      (Codec.read_of_takes (SavedState.takes_transfers transfers))
  have index : decodeState .keyImages SavedState.keyImagesCodec ∅
      (Hex.encode (SavedState.keyImagesCodec.encode w.history.keyImages)) =
      .ok w.history.keyImages :=
    decodeState_encode ∅ (Codec.list_encode_ne_nil _ _)
      (Codec.read_of_takes (SavedState.takes_keyImages (.refl _) keyImages))
  have restored : Wallet.restore S w.account config
      ⟨w.account.address,
        { transfers := w.history.transfers, keyImages := w.history.keyImages }⟩ =
      .ok { fresh with history :=
        { w.history with chain := fresh.history.chain, unconfirmed := ∅, payments := ∅ } } :=
    Wallet.restore_eq_ok.mpr ⟨rfl, hashes, points, fresh, created, rfl⟩
  have kind : w.account.isViewOnly = w.account.keys.spendSecret.isNone := rfl
  unfold openWallet identityOf
  rcases secret : w.account.keys.spendSecret with - | k
  all_goals rw [secret] at keys kind spends
  · -- a view-only account, whose spend secret is not asked for
    obtain rfl : requireSpendKey = false := by simpa [kind] using spender
    simp [named, view, keys, outputs, index, restored, Except.mapError_ok]
  · have spend := SecretKey.ofHex_of_matches (S := S) (k := k) spends
    simp [named, view, spend, k.hex_ne_empty, keys, outputs, index, restored, Except.mapError_ok]

end Rpc

/-! ### Wallets that are opened again -/

/-- The heights and positions in a history are words. -/
structure History.WordSized (h : History) : Prop where
  height : h.height < UInt64.size
  transfers : h.transfers.length < UInt64.size

/-- What can be spent depends on the outputs, the height and the configuration. -/
theorem Wallet.Twin.unlockedBalance_eq {w w' : Wallet} (twin : w.Twin w') (now : UInt64) :
    w'.unlockedBalance now = w.unlockedBalance now := by
  have height : w'.height = w.height := twin.history.height
  unfold Wallet.unlockedBalance Wallet.isUnlocked Wallet.isUnlockedTime
  rw [twin.history.transfers, twin.config, height]

namespace Rpc

variable (S : Suite) (config : Config)

/-- The wallet that the service opens for a request with some entries. -/
def openFrom (entries : List (String × Json)) (requireSpendKey : Bool) :
    Except RpcError Wallet := do
  openWallet S config (← decodeParams Identity.fields.decoder (.object entries)) requireSpendKey

variable {S config}

/-- A wallet that was new before some calls, none of which cut its chain at the bottom, is opened
from its state as a twin of it. -/
theorem openFrom_of_afterCalls (derivable : ∀ key secret, KeyImage.ofKeys S key secret ≠ .ok .null)
    {σ : Type} (env : Environment σ) {account : Account} {s : Session σ}
    (created : Wallet.create account config = .ok s.wallet) (verified : account.verify S = true)
    {address : String} (named : Address.decode S address config.addressPrefix = .ok account.address)
    {calls : List Call} (uncut : .detach 0 ∉ calls) {requireSpendKey : Bool}
    (spender : (requireSpendKey && account.isViewOnly) = false)
    (words : (afterCalls S env calls s).history.WordSized) :
    let w := (afterCalls S env calls s).wallet
    ∃ w', openFrom S config (credentials address account.keys ++ stateFields w) requireSpendKey =
      .ok w' ∧ w.Twin w' := by
  intro w
  obtain ⟨chain, short, new⟩ := eq_of_create created
  obtain ⟨h, wallet⟩ := withHistory_afterCalls S env calls s
  have own : w.account = account := by
    rw [show w = _ from wallet, new]
    rfl
  have configured : w.config = s.wallet.config := by
    rw [show w = _ from wallet]
    rfl
  have consistent : w.history.Consistent S :=
    consistent_afterCalls S env derivable account config calls s created
  have fit : w.history.TransfersFit := by
    refine afterCalls_holds (P := fun s : Session σ => s.history.TransfersFit)
      (fun call _ s hw => hw.call call) ?_
    rw [Session.history, new]
    simp [History.TransfersFit]
  -- the chain has the first block of a new wallet, if there is one
  have rooted : s.wallet.history.height ≤ w.height := by
    have at_most : s.wallet.history.chain.length ≤ 1 := by
      rw [new]
      exact short
    rcases Nat.eq_zero_or_pos s.wallet.history.chain.length with none | some
    · exact none.trans_le (Nat.zero_le _)
    · exact Nat.le_trans at_most ((Sync.rooted_length S).afterCalls env uncut some)
  obtain rfl := own
  have reopened := openWallet_identityOf named verified spender created
    (History.fits_transfers consistent fit words.height words.transfers)
    (History.fits_keyImages consistent words.transfers)
    (fun t mem => (consistent.txHash_eq t mem).symm)
    (fun image i found => ((consistent.indexed image i).mp found).2)
  have opened : openFrom S config (credentials address w.account.keys ++ stateFields w)
      requireSpendKey = openWallet S config (identityOf address w) requireSpendKey := by
    unfold openFrom
    rw [decodeParams_identityOf address words.height]
    rfl
  refine ⟨_, opened.trans reopened, ?_, configured.symm, ?_, rfl, rfl⟩
  · show s.wallet.account = w.account
    rw [new]
  · rw [History.height_assumeScanned]
    exact Nat.max_eq_right rooted

end Rpc

end RingWallet
