import Mathlib.Data.List.Induction
import RingWallet.Proofs.Hex
import RingWallet.Proofs.Support.Except

/-!
# Which texts are hexadecimal

A text is decoded exactly if it has an even number of characters and each of them is a digit of
either case (`Hex.decode_eq_ok_iff`). Digits are ASCII characters, so that the decoder, which counts
bytes, counts characters; a longer character has a byte that is no digit (`Hex.mem_digits`). What
was decoded has the text, in lower case, as its hexadecimal form.
-/

set_option autoImplicit false

namespace RingWallet

namespace Hex

/-! ### Which texts decode -/

/-- The digits that are read, of either case. -/
def digits : List Char := "0123456789abcdefABCDEF".toList

/-- The byte of an ASCII character. -/
def byteOf (c : Char) : UInt8 := c.val.toUInt8

/-- A digit is one byte, and has the value of the digit that is written for it. -/
theorem of_mem_digits {c : Char} (mem : c ∈ digits) :
    String.utf8EncodeChar c = [byteOf c] ∧
      ∃ n < 16, digitValue? (byteOf c) = some n ∧ digit n = c.toLower := by
  have all : (digits.all fun c => decide (String.utf8EncodeChar c = [byteOf c] ∧
      ∃ n : Nat, n < 16 ∧ digitValue? (byteOf c) = some n ∧ digit n = c.toLower)) = true := by
    decide +kernel
  exact of_decide_eq_true (List.all_eq_true.mp all c mem)

/-- A character all of whose bytes are read as digits is a digit. -/
theorem mem_digits {c : Char}
    (read : ∀ b ∈ String.utf8EncodeChar c, (digitValue? b).isSome = true) : c ∈ digits := by
  -- the last byte of a longer character is no digit
  have last : ∀ n : Fin 64, (digitValue? (UInt8.ofNat (n.val + 128))).isSome = false := by decide
  have long (before : Blob) (read : ∀ b ∈ before ++ [UInt8.ofNat (c.val.toNat % 64 + 128)],
      (digitValue? b).isSome = true) : c ∈ digits := by
    have digit := read _ (List.mem_append_right _ (List.mem_singleton_self _))
    have none := last ⟨c.val.toNat % 64, Nat.mod_lt _ (by decide)⟩
    cases none.symm.trans digit
  unfold String.utf8EncodeChar at read
  simp only [] at read
  split at read
  · next ascii =>
    have short : ∀ n : Fin 128, (digitValue? (UInt8.ofNat n.val)).isSome = true →
        Char.ofNat n.val ∈ digits := by decide
    have found := short ⟨c.val.toNat, Nat.lt_succ_of_le ascii⟩ (read _ (List.mem_singleton_self _))
    rw [← Char.ofNat_toNat c]
    exact found
  split at read
  · exact long [_] read
  split at read
  · exact long [_, _] read
  · exact long [_, _, _] read

/-- The bytes of a text. -/
theorem toList_toUTF8 (text : String) :
    text.toUTF8.toList = text.toList.flatMap String.utf8EncodeChar := by
  rw [← toList_toUTF8_ofList, String.ofList_toList]

/-- The bytes of a text are counted as such. -/
theorem length_toList_toUTF8 (text : String) : text.toUTF8.toList.length = text.utf8ByteSize := by
  rw [ByteArray.toList, toList_loop]
  simp

/-- A text of digits has one byte for each. -/
theorem flatMap_utf8EncodeChar {chars : List Char} (all : ∀ c ∈ chars, c ∈ digits) :
    chars.flatMap String.utf8EncodeChar = chars.map byteOf := by
  induction chars with
  | nil => rfl
  | cons c rest ih =>
    rw [List.forall_mem_cons] at all
    rw [List.flatMap_cons, (of_mem_digits all.1).1, ih all.2]
    rfl

/-- In a text of digits each character is one byte. -/
theorem utf8ByteSize_of_digits {text : String} (all : ∀ c ∈ text.toList, c ∈ digits) :
    text.utf8ByteSize = text.length := by
  rw [← length_toList_toUTF8, toList_toUTF8, flatMap_utf8EncodeChar all, List.length_map,
    String.length_toList]

/-- An even number of digits is read, and written again in lower case. -/
theorem exists_decodePairs {chars : List Char} (all : ∀ c ∈ chars, c ∈ digits)
    (even : chars.length % 2 = 0) (position : Nat) :
    ∃ bytes, decodePairs position (chars.map byteOf) = .ok bytes ∧
      bytes.flatMap (fun b => [digit (b.toNat / 16), digit (b.toNat % 16)]) =
        chars.map Char.toLower := by
  induction chars using List.twoStepInduction generalizing position with
  | nil => exact ⟨[], rfl, rfl⟩
  | singleton c => cases even
  | cons_cons high low rest ih _ =>
    rw [List.forall_mem_cons, List.forall_mem_cons] at all
    -- two digits make one byte, whose halves are their values
    obtain ⟨-, h, h_small, h_value, h_digit⟩ := of_mem_digits all.1
    obtain ⟨-, l, l_small, l_value, l_digit⟩ := of_mem_digits all.2.1
    have fewer : rest.length % 2 = 0 := by
      rw [List.length_cons, List.length_cons] at even
      omega
    obtain ⟨bytes, read, written⟩ := ih all.2.2 fewer (position + 2)
    have value : (UInt8.ofNat (16 * h + l)).toNat = 16 * h + l :=
      UInt8.toNat_ofNat_of_lt' (by omega : 16 * h + l < 256)
    refine ⟨UInt8.ofNat (16 * h + l) :: bytes, ?_, ?_⟩
    · rw [List.map_cons, List.map_cons, decodePairs, h_value, l_value, read]
      rfl
    · have quotient : (16 * h + l) / 16 = h := by omega
      have remainder : (16 * h + l) % 16 = l := by omega
      rw [List.flatMap_cons, value, quotient, remainder, h_digit, l_digit, written]
      rfl

/-- Only digits are read. -/
theorem isSome_of_decodePairs {bytes out : Blob} (even : bytes.length % 2 = 0) {position : Nat}
    (read : decodePairs position bytes = .ok out) :
    ∀ b ∈ bytes, (digitValue? b).isSome = true := by
  induction bytes using List.twoStepInduction generalizing position out with
  | nil => simp
  | singleton b => cases even
  | cons_cons high low rest ih _ =>
    rw [decodePairs] at read
    obtain ⟨h, first, read⟩ := Except.bind_eq_ok.mp read
    obtain ⟨l, second, read⟩ := Except.bind_eq_ok.mp read
    obtain ⟨others, later, -⟩ := Except.bind_eq_ok.mp read
    have fewer : rest.length % 2 = 0 := by
      rw [List.length_cons, List.length_cons] at even
      omega
    rw [List.forall_mem_cons, List.forall_mem_cons]
    -- both digits of the pair were read, and so were the others
    refine ⟨?_, ?_, ih fewer later⟩
    · rcases value : digitValue? high with - | n
      · rw [value] at first
        cases first
      · rfl
    · rcases value : digitValue? low with - | n
      · rw [value] at second
        cases second
      · rfl

/-- The texts that are decoded, and to what: the bytes that have the text, in lower case, as their
hexadecimal form. -/
theorem decode_eq_ok_iff {text : String} {bytes : Blob} :
    decode text = .ok bytes ↔
      text.length % 2 = 0 ∧ (∀ c ∈ text.toList, c ∈ digits) ∧
        encode bytes = String.ofList (text.toList.map Char.toLower) := by
  have count : text.toList.length = text.length := String.length_toList
  constructor
  · intro read
    unfold decode at read
    simp only [] at read
    split at read
    · cases read
    next even =>
    -- a text with other letters than digits is refused, whatever its bytes are
    have all : ∀ c ∈ text.toList, c ∈ digits := by
      intro c mem
      refine mem_digits fun b here => isSome_of_decodePairs (by omega) read b ?_
      rw [toList_toUTF8]
      exact List.mem_flatMap.mpr ⟨c, mem, here⟩
    rw [toList_toUTF8, flatMap_utf8EncodeChar all] at read even
    rw [List.length_map, count] at even
    have half : text.length % 2 = 0 := by omega
    obtain ⟨bytes', read', written⟩ := exists_decodePairs all (by omega) 0
    obtain rfl := Except.ok.inj (read.symm.trans read')
    exact ⟨half, all, by rw [encode, written]⟩
  · rintro ⟨even, all, written⟩
    obtain ⟨bytes', read, written'⟩ := exists_decodePairs all (by omega) 0
    -- the text of the bytes determines them
    have same : bytes = bytes' := eq_of_encode_eq (by rw [written, encode, written'])
    unfold decode
    simp only []
    rw [toList_toUTF8, flatMap_utf8EncodeChar all, if_neg (by rw [List.length_map]; omega), read,
      same]

/-- Every such text is decoded. -/
theorem exists_decode {text : String} (even : text.length % 2 = 0)
    (all : ∀ c ∈ text.toList, c ∈ digits) : ∃ bytes, decode text = .ok bytes := by
  have count : text.toList.length = text.length := String.length_toList
  obtain ⟨bytes, -, written⟩ := exists_decodePairs all (by omega) 0
  exact ⟨bytes, decode_eq_ok_iff.mpr ⟨even, all, by rw [encode, written]⟩⟩

/-- There are two digits for each byte. -/
theorem length_of_decode {text : String} {bytes : Blob} (read : decode text = .ok bytes) :
    2 * bytes.length = text.length := by
  obtain ⟨-, -, written⟩ := decode_eq_ok_iff.mp read
  have pairs := congrArg String.length written
  rw [encode, String.length_ofList, String.length_ofList, List.length_map,
    String.length_toList] at pairs
  rw [← pairs, List.length_flatMap]
  simp [Nat.mul_comm]

end Hex

end RingWallet
