import Mathlib.Algebra.Group.Nat.Defs
import RingWallet.Keys

/-!
# Numbers of variable length are told apart

`Varint.push` is the writer as a loop on 64-bit words: each round cuts the word down to a byte, puts
the byte behind what is there and moves the word down by seven bits. It puts the bytes of
`Varint.encode` behind what is there (`push_eq`), at most ten of them (`length_encode_le`). A number
is read back whatever follows its bytes (`decode_encodeNat`), so the bytes of one number never start
those of another one (`encodeNat_isPrefix_iff`), and what is hashed for an output names the shared
secret and the position of the output (`message_inj`).
-/

set_option autoImplicit false

namespace RingWallet

namespace Varint

/-! ### Words -/

/-- A shift by seven bits divides by 128. -/
theorem toNat_shiftRight_seven (value : UInt64) : (value >>> 7).toNat = value.toNat / 0x80 := by
  rw [UInt64.toNat_shiftRight, Nat.shiftRight_eq_div_pow]
  rfl

/-- The writer as a loop: a word that does not fit into seven bits gives a byte with its low seven
bits and the top bit set. -/
def push (out : Blob) (value : UInt64) : Blob :=
  if 0x80 ≤ value then push (out ++ [value.toUInt8 &&& 0x7f ||| 0x80]) (value >>> 7)
  else out ++ [value.toUInt8]
termination_by value.toNat
decreasing_by
  have large : 0x80 ≤ value.toNat := UInt64.le_iff_toNat_le.mp ‹0x80 ≤ value›
  rw [toNat_shiftRight_seven]
  omega

/-- A byte with its mark is the seven bits it carries and 128. -/
theorem toNat_markedByte (value : Nat) :
    (UInt8.ofNat (value % 0x80 + 0x80)).toNat = value % 0x80 + 0x80 :=
  UInt8.toNat_ofNat_of_lt (Nat.add_lt_add_right (Nat.mod_lt value (by decide)) 0x80)

/-- The byte of a round is the remainder with the top bit set. -/
theorem markedByte_eq (value : UInt64) :
    value.toUInt8 &&& 0x7f ||| 0x80 = UInt8.ofNat (value.toNat % 0x80 + 0x80) := by
  have low : (value.toUInt8 &&& 0x7f).toNat = value.toNat % 0x80 := by
    have mask : (0x7f : UInt8).toNat = 2 ^ 7 - 1 := rfl
    rw [UInt8.toNat_and, UInt64.toNat_toUInt8, mask, Nat.and_two_pow_sub_one_eq_mod]
    omega
  have bound : value.toNat % 0x80 < 2 ^ 7 := Nat.mod_lt _ (by decide)
  apply UInt8.toNat_inj.mp
  rw [UInt8.toNat_or, low, toNat_markedByte, Nat.or_comm, Nat.add_comm]
  exact (Nat.two_pow_add_eq_or_of_lt bound 1).symm

/-- The loop leaves what is there, and puts the bytes of the number behind it. -/
theorem push_eq (out : Blob) (value : UInt64) : push out value = out ++ encode value := by
  fun_induction push out value with
  | case1 out value large ih =>
    have large : 0x80 ≤ value.toNat := UInt64.le_iff_toNat_le.mp large
    rw [ih, encode, encode, encodeNat.eq_def value.toNat, if_pos large, toNat_shiftRight_seven,
      markedByte_eq, List.append_assoc, List.singleton_append]
  | case2 out value small =>
    have small : ¬ 0x80 ≤ value.toNat := fun large => small (UInt64.le_iff_toNat_le.mpr large)
    rw [encode, encodeNat, if_neg small]
    rfl

/-! ### Lengths -/

/-- Every byte takes seven bits. -/
theorem length_encodeNat_le (bytes value : Nat) (bound : value < 0x80 ^ (bytes + 1)) :
    (encodeNat value).length ≤ bytes + 1 := by
  -- on the number of bytes that may follow the first
  induction bytes generalizing value with
  | zero =>
    rw [encodeNat, if_neg (by omega)]
    exact Nat.le_refl 1
  | succ bytes ih =>
    rw [encodeNat]
    split
    · rw [List.length_cons]
      refine Nat.succ_le_succ (ih (value / 0x80) (Nat.div_lt_of_lt_mul ?_))
      rwa [← Nat.pow_succ']
    · exact Nat.le_add_left 1 _

/-- No word takes more than ten bytes. -/
theorem length_encode_le (value : UInt64) : (encode value).length ≤ 10 :=
  length_encodeNat_le 9 value.toNat (Nat.lt_of_lt_of_le value.toNat_lt (by decide))

/-! ### Reading back -/

/-- A number is read back, whatever follows its bytes. -/
theorem decode_encodeNat (value : Nat) (rest : Blob) :
    decode (encodeNat value ++ rest) = some (value, rest) := by
  fun_induction encodeNat value with
  | case1 value large ih =>
    -- a byte with its mark goes on
    have goes_on : ¬ UInt8.ofNat (value % 0x80 + 0x80) < 0x80 := by
      rw [UInt8.lt_iff_toNat_lt, toNat_markedByte]
      exact Nat.not_lt.mpr (Nat.le_add_left _ _)
    have joined : (value % 0x80 + 0x80) % 0x80 + 0x80 * (value / 0x80) = value := by omega
    rw [List.cons_append, decode, if_neg goes_on, ih, toNat_markedByte]
    exact congrArg (fun n => some (n, rest)) joined
  | case2 value small =>
    have byte : (UInt8.ofNat value).toNat = value :=
      UInt8.toNat_ofNat_of_lt (Nat.lt_trans (Nat.not_le.mp small) (by decide))
    -- a byte below 128 ends the number
    have ends : UInt8.ofNat value < 0x80 := by
      rw [UInt8.lt_iff_toNat_lt, byte]
      exact Nat.not_le.mp small
    rw [List.singleton_append, decode, if_pos ends, byte]

/-- Bytes that start alike stand for the same number, and so do what follows them. -/
theorem encodeNat_append_inj {m n : Nat} {rest rest' : Blob} :
    encodeNat m ++ rest = encodeNat n ++ rest' ↔ m = n ∧ rest = rest' := by
  constructor
  · intro same
    have read := decode_encodeNat m rest
    rw [same, decode_encodeNat n rest'] at read
    obtain ⟨rfl, rfl⟩ := Prod.mk.inj (Option.some.inj read)
    exact ⟨rfl, rfl⟩
  · rintro ⟨rfl, rfl⟩
    rfl

/-- The bytes of a number start the bytes of no other one. -/
theorem encodeNat_isPrefix_iff {m n : Nat} : encodeNat m <+: encodeNat n ↔ m = n := by
  constructor
  · rintro ⟨rest, same⟩
    exact (encodeNat_append_inj.mp (same.trans (List.append_nil _).symm)).1
  · rintro rfl
    exact List.prefix_rfl

end Varint

/-- What is hashed for an output names the shared secret and the position. -/
theorem KeyDerivation.message_inj {D E : KeyDerivation} {i j : Nat} :
    D.message i = E.message j ↔ D = E ∧ i = j := by
  constructor
  · intro same
    have width : D.bytes.toList.length = E.bytes.toList.length :=
      D.bytes.length_eq.trans E.bytes.length_eq.symm
    obtain ⟨secret, position⟩ := List.append_inj same width
    refine ⟨congrArg KeyDerivation.mk (Bytes.ext secret), ?_⟩
    exact Varint.encodeNat_isPrefix_iff.mp (position ▸ List.prefix_rfl)
  · rintro ⟨rfl, rfl⟩
    rfl

/-- The writer puts at most ten bytes behind what is there. They are read back whatever follows
them, none start the bytes of another number, and the bytes that are hashed for an output, which end
in them, are those of no other secret and no other position. -/
theorem uniquely_written_positions (S : Suite) :
    (∀ (out : Blob) (value : UInt64), Varint.push out value = out ++ Varint.encode value ∧
      (Varint.encode value).length ≤ 10 ∧
      ∀ rest, Varint.decode (Varint.encode value ++ rest) = some (value.toNat, rest)) ∧
    (∀ v w : UInt64, Varint.encode v <+: Varint.encode w ↔ v = w) ∧
    (∀ (D : KeyDerivation) (i : UInt64),
      D.scalar S i.toNat = S.hashToScalar (Varint.push D.bytes.toList i)) ∧
    ∀ (D E : KeyDerivation) (i j : UInt64),
      Varint.push D.bytes.toList i = Varint.push E.bytes.toList j ↔ D = E ∧ i = j := by
  refine ⟨fun out value => ?_, fun v w => ?_, fun D i => ?_, fun D E i j => ?_⟩
  · exact ⟨Varint.push_eq out value, Varint.length_encode_le value,
      Varint.decode_encodeNat value.toNat⟩
  · exact Varint.encodeNat_isPrefix_iff.trans UInt64.toNat_inj
  · rw [Varint.push_eq]
    rfl
  · rw [Varint.push_eq, Varint.push_eq]
    exact KeyDerivation.message_inj.trans (and_congr_right fun _ => UInt64.toNat_inj)

end RingWallet
