import RingWallet.Keys

/-!
# Hexadecimal text reads back

`Hex.decode_encode` says that the hexadecimal form of a blob decodes to it. The decoder works on the
UTF-8 bytes of a text, and every digit is one such byte (`Hex.bytes_encode`), so that it is left to
show that the two digits of a byte give that byte (`Hex.decodePairs_pairs`). So an id can be told
from its hexadecimal form (`Hash.hex_inj`).
-/

set_option autoImplicit false

namespace RingWallet

namespace Hex

/-! ### The bytes of a text -/

/-- The loop that lists an array of bytes, with what it has listed before. -/
theorem toList_loop (bytes : ByteArray) (i : Nat) (before : Blob) :
    ByteArray.toList.loop bytes i before = before.reverse ++ bytes.data.toList.drop i := by
  fun_induction ByteArray.toList.loop bytes i before with
  | case1 i before inside ih =>
    have at_i : i < bytes.data.toList.length := by simpa using inside
    rw [ih, List.drop_eq_getElem_cons at_i]
    simp [ByteArray.get!, inside]
  | case2 i before outside =>
    have beyond : bytes.data.toList.length ≤ i := by simpa using Nat.le_of_not_lt outside
    rw [List.drop_eq_nil_of_le beyond, List.append_nil]

/-- The bytes of a text are those of its characters. -/
theorem toList_toUTF8_ofList (chars : List Char) :
    (String.ofList chars).toUTF8.toList = chars.flatMap String.utf8EncodeChar := by
  rw [String.toUTF8_eq_toByteArray, String.toByteArray_ofList, ByteArray.toList, toList_loop]
  exact List.toList_data_toByteArray

/-- The byte of a digit. -/
def digitByte (n : Nat) : UInt8 := (digit n).val.toUInt8

/-- A digit is one byte, which has the value of the digit. -/
theorem digit_spec {n : Nat} (small : n < 16) :
    String.utf8EncodeChar (digit n) = [digitByte n] ∧ digitValue? (digitByte n) = some n := by
  have all : ∀ n : Fin 16, String.utf8EncodeChar (digit n) = [digitByte n] ∧
      digitValue? (digitByte n) = some n.val := by decide
  exact all ⟨n, small⟩

/-! ### Pairs of digits -/

/-- The bytes of the two digits of a byte. -/
def pair (b : UInt8) : Blob := [digitByte (b.toNat / 16), digitByte (b.toNat % 16)]

/-- The hexadecimal form of a blob has two bytes for each byte of the blob. -/
theorem bytes_encode (bytes : Blob) : (encode bytes).toUTF8.toList = bytes.flatMap pair := by
  rw [encode, toList_toUTF8_ofList, List.flatMap_assoc]
  refine congrArg (List.flatMap · bytes) (funext fun b => ?_)
  have high : b.toNat / 16 < 16 := by
    have := b.toNat_lt
    omega
  have low : b.toNat % 16 < 16 := Nat.mod_lt _ (by decide)
  simp [pair, (digit_spec high).1, (digit_spec low).1]

/-- Each byte has two digits. -/
theorem length_pairs (bytes : Blob) : (bytes.flatMap pair).length = 2 * bytes.length := by
  induction bytes with
  | nil => rfl
  | cons b rest ih =>
    rw [List.flatMap_cons, List.length_append, ih]
    simp [pair]
    omega

/-- The two digits of each byte give that byte. -/
theorem decodePairs_pairs (bytes : Blob) (position : Nat) :
    decodePairs position (bytes.flatMap pair) = .ok bytes := by
  induction bytes generalizing position with
  | nil => rfl
  | cons b rest ih =>
    -- a byte is put together again from its halves
    have high : b.toNat / 16 < 16 := by
      have := b.toNat_lt
      omega
    have low : b.toNat % 16 < 16 := Nat.mod_lt _ (by decide)
    have halves : UInt8.ofNat (16 * (b.toNat / 16) + b.toNat % 16) = b := by
      rw [Nat.div_add_mod, UInt8.ofNat_toNat]
    show decodePairs position (digitByte (b.toNat / 16) :: digitByte (b.toNat % 16) ::
      rest.flatMap pair) = _
    rw [decodePairs, (digit_spec high).2, (digit_spec low).2, ih]
    exact congrArg (fun c => Except.ok (c :: rest)) halves

/-- The hexadecimal form of a blob decodes to it. -/
theorem decode_encode (bytes : Blob) : decode (encode bytes) = .ok bytes := by
  have even : (bytes.flatMap pair).length % 2 ≠ 1 := by
    rw [length_pairs]
    omega
  unfold decode
  rw [bytes_encode]
  exact (if_neg even).trans (decodePairs_pairs bytes 0)

/-- Different blobs have different hexadecimal forms. -/
theorem eq_of_encode_eq {a b : Blob} (same : encode a = encode b) : a = b := by
  have decoded := congrArg decode same
  rw [decode_encode, decode_encode] at decoded
  exact Except.ok.inj decoded

end Hex

/-- An id can be told from its hexadecimal form. -/
theorem Hash.hex_inj {a b : Hash} : a.hex = b.hex ↔ a = b := by
  constructor
  · intro same
    obtain ⟨a⟩ := a
    obtain ⟨b⟩ := b
    exact congrArg Hash.mk (Bytes.ext (Hex.eq_of_encode_eq same))
  · exact congrArg Hash.hex

end RingWallet
