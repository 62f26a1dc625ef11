import RingWallet.Proofs.HexDigits
import RingWallet.Proofs.Ledger.Extra
import RingWallet.Proofs.Spend.Build

/-!
# Payment ids on their way

A payment id is given as text, and travels in a nonce of the extra bytes. The text has 64
hexadecimal digits of either case (`parsePaymentId?_eq_some`); for every such text
`Extra.ofPaymentId` gives the field with the nonce, and for every other text it refuses. A
transaction that is constructed with this field in its extra bytes has the transaction key in front
of it, and a reader of the extra bytes finds both (`Extra.paymentId?_idField`).
-/

set_option autoImplicit false

namespace RingWallet

/-! ### Texts -/

/-- Whether a text has the form of a payment id: 64 hexadecimal digits, of either case. -/
def SpellsId (text : String) : Prop := text.length = 64 ∧ ∀ c ∈ text.toList, c ∈ Hex.digits

instance (text : String) : Decidable (SpellsId text) :=
  -- the characters of the text are tried, and not all that there are
  have : Decidable (∀ c ∈ text.toList, c ∈ Hex.digits) := List.decidableBAll _ _
  inferInstanceAs (Decidable (_ ∧ _))

/-- An id is read from a text of its 32 bytes. -/
theorem Hash.ofHex_eq_ok {text : String} {id : Hash} :
    Hash.ofHex text = .ok id ↔ Hex.decode text = .ok id.bytes.toList := by
  unfold Hash.ofHex Bytes.ofHex
  rcases Hex.decode text with e | bytes
  · exact ⟨nofun, nofun⟩
  · simp only [Except.ok.injEq]
    constructor
    · intro read
      obtain ⟨b, found, same⟩ := Except.bind_eq_ok.mp read
      obtain rfl := Except.ok.inj same
      -- a text of another length spells no id
      rcases sized : (Bytes.ofBlob? bytes : Option Bytes32) with - | b'
      · rw [sized] at found
        cases found
      · rw [sized] at found
        obtain rfl := Except.ok.inj found
        exact (Extra.toList_of_ofBlob?_eq_some sized).symm
    · rintro rfl
      rw [Bytes.ofBlob?_toList]
      rfl

/-- The payment id that a text spells has the text, in lower case, as its hexadecimal form. -/
theorem parsePaymentId?_eq_some {text : String} {id : Hash} :
    parsePaymentId? text = some id ↔
      SpellsId text ∧ id.hex = String.ofList (text.toList.map Char.toLower) := by
  -- 64 digits make 32 bytes
  have width : id.bytes.toList.length = 32 := id.bytes.length_eq
  have read_iff : (Hash.ofHex text).toOption = some id ↔
      text.length = 64 ∧ (∀ c ∈ text.toList, c ∈ Hex.digits) ∧
        id.hex = String.ofList (text.toList.map Char.toLower) := by
    rw [Except.toOption_eq_some, Hash.ofHex_eq_ok]
    constructor
    · intro read
      have length := Hex.length_of_decode read
      obtain ⟨-, all, written⟩ := Hex.decode_eq_ok_iff.mp read
      exact ⟨by omega, all, written⟩
    · rintro ⟨length, all, written⟩
      exact Hex.decode_eq_ok_iff.mpr ⟨by omega, all, written⟩
  unfold parsePaymentId? SpellsId
  constructor
  · intro read
    split at read
    · obtain ⟨length, all, written⟩ := read_iff.mp read
      exact ⟨⟨length, all⟩, written⟩
    · cases read
  · rintro ⟨⟨length, all⟩, written⟩
    rw [if_pos ((Hex.utf8ByteSize_of_digits all).trans length)]
    exact read_iff.mpr ⟨length, all, written⟩

/-- Every text of this form spells a payment id. -/
theorem exists_parsePaymentId? {text : String} (spells : SpellsId text) :
    ∃ id, parsePaymentId? text = some id := by
  obtain ⟨bytes, read⟩ := Hex.exists_decode (by have := spells.1; omega) spells.2
  have size : bytes.length = 32 := by
    have := Hex.length_of_decode read
    have := spells.1
    omega
  obtain ⟨-, -, written⟩ := Hex.decode_eq_ok_iff.mp read
  exact ⟨⟨⟨bytes, size⟩⟩, parsePaymentId?_eq_some.mpr ⟨spells, written⟩⟩

/-- The null id is spelled by zeros. -/
theorem isNull_of_parsePaymentId? {text : String} {id : Hash}
    (spelled : parsePaymentId? text = some id) :
    id.isNull = true ↔ ∀ c ∈ text.toList, c = '0' := by
  obtain ⟨⟨length, all⟩, written⟩ := parsePaymentId?_eq_some.mp spelled
  have zeros : Hash.null.hex = String.ofList (List.replicate 64 '0') := by decide +kernel
  have lower : (Hex.digits.all fun c => c.toLower = '0' ↔ c = '0') = true := by decide +kernel
  -- the digit zero has no other case
  have lower_iff : (∀ c ∈ text.toList.map Char.toLower, c = '0') ↔ ∀ c ∈ text.toList, c = '0' := by
    rw [List.forall_mem_map]
    exact forall₂_congr fun c mem =>
      of_decide_eq_true (List.all_eq_true.mp lower c (all c mem))
  have size : (text.toList.map Char.toLower).length = 64 :=
    (List.length_map _).trans (String.length_toList.trans length)
  unfold Hash.isNull
  rw [decide_eq_true_iff, ← Hash.hex_inj, written, zeros, String.ofList_inj,
    List.eq_replicate_iff, lower_iff]
  exact and_iff_right size

namespace Extra

/-- The field of a payment id. -/
def idField (id : Hash) : Blob := 2 :: 33 :: paymentNonce id

/-- The nonce of a payment id is short enough to be written. -/
theorem encodeNonce?_paymentNonce (id : Hash) :
    encodeNonce? (paymentNonce id) = some (idField id) := by
  have length : (paymentNonce id).length = 33 := congrArg (· + 1) id.bytes.length_eq
  rw [encodeNonce?_eq_some, length]
  exact ⟨by decide, rfl⟩

/-- A text that spells a payment id gives the field that holds it. -/
theorem ofPaymentId_of_some {text : String} {id : Hash} (spelled : parsePaymentId? text = some id) :
    ofPaymentId text = .ok (idField id) := by
  unfold ofPaymentId addNonce
  rw [spelled]
  simp only [encodeNonce?_paymentNonce, List.nil_append]

/-- The texts from which there are extra bytes. -/
theorem ofPaymentId_eq_ok {text : String} {extra : Blob} :
    ofPaymentId text = .ok extra ↔ ∃ id, parsePaymentId? text = some id ∧ extra = idField id := by
  constructor
  · intro made
    rcases spelled : parsePaymentId? text with - | id
    · unfold ofPaymentId at made
      rw [spelled] at made
      cases made
    · rw [ofPaymentId_of_some spelled] at made
      exact ⟨id, rfl, (Except.ok.inj made).symm⟩
  · rintro ⟨id, spelled, rfl⟩
    exact ofPaymentId_of_some spelled

/-- The texts that are refused. -/
theorem ofPaymentId_eq_error {text : String} {e : TransactionError} :
    ofPaymentId text = .error e ↔ ¬ SpellsId text ∧ e = .wrongPaymentId text := by
  rcases spelled : parsePaymentId? text with - | id
  · have other : ¬ SpellsId text := by
      intro spells
      obtain ⟨id, found⟩ := exists_parsePaymentId? spells
      cases spelled.symm.trans found
    unfold ofPaymentId
    simp [spelled, other, eq_comm]
  · have spells := (parsePaymentId?_eq_some.mp spelled).1
    rw [ofPaymentId_of_some spelled]
    simp [spells]

/-! ### Fields -/

/-- The fields of a transaction key and of a payment id are read one after the other. -/
theorem parse_encodeKey_idField (key : PublicKey) (id : Hash) (more : Blob) :
    parse (encodeKey key ++ (idField id ++ more)) =
      (.publicKey key :: .nonce (paymentNonce id) :: (parse more).1, (parse more).2) := by
  rw [parse_of_field?_eq_some (field?_encodeKey key _),
    parse_of_field?_eq_some (field?_encodeNonce? (encodeNonce?_paymentNonce id) more)]

/-- The payment id is read back from its nonce. -/
theorem paymentIdOfNonce?_paymentNonce (id : Hash) :
    paymentIdOfNonce? (paymentNonce id) = some id := by
  show (Bytes.ofBlob? id.bytes.toList).map Hash.mk = some id
  rw [Bytes.ofBlob?_toList, Option.map_some]

/-- The payment id behind the transaction key is found, whatever bytes follow it. -/
theorem paymentId?_idField (key : PublicKey) (id : Hash) (more : Blob) :
    paymentId? (encodeKey key ++ (idField id ++ more)) = some id := by
  unfold paymentId? paymentIdOf?
  rw [parse_encodeKey_idField, List.findSome?_cons, List.findSome?_cons]
  simp only [paymentIdOfNonce?_paymentNonce]

end Extra

end RingWallet
