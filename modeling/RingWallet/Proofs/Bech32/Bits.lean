import Mathlib.Algebra.Group.Nat.Defs
import Mathlib.Data.List.Induction
import RingWallet.Bech32

/-!
# Bytes and symbols as runs of bits

Bytes are runs of eight bits and symbols are runs of five, the most significant bit first
(`bitsOfBytes`, `bitsOfSymbols`). Both regroupings are inverse to these runs as far as they can be:
whole bytes come back whatever few bits follow them (`bytesOfBits_bitsOfBytes`), whole symbols come
back (`symbolsOfBits_bitsOfSymbols`), and zeros fill the last symbol up (`symbolsOfBits_filled`).

Symbols seldom hold a whole number of bytes. `bytesOfSymbols_eq_iff` says which symbols stand for
given bytes: those of the bits of the bytes with fewer than eight other bits behind them, as many as
fill the last symbol, whatever these bits are.
-/

set_option autoImplicit false

namespace RingWallet.Bech32

/-! ### Binary digits -/

/-- A number has as many digits as it is given. -/
@[simp] theorem length_binaryDigits (width n : Nat) : (binaryDigits width n).length = width := by
  simp [binaryDigits]

/-- The last digit is the parity, and the digits before it are those of the half. -/
theorem binaryDigits_succ (width n : Nat) :
    binaryDigits (width + 1) n = binaryDigits width (n / 2) ++ [n.testBit 0] := by
  have half (i : Nat) : n.testBit (i + 1) = (n / 2).testBit i := Nat.testBit_succ n i
  unfold binaryDigits
  rw [List.range_succ_eq_map, List.reverse_cons, List.map_append, ← List.map_reverse, List.map_map]
  exact congrArg (· ++ [n.testBit 0]) (List.map_congr_left fun i _ => half i)

/-- The last digit counts once, and those in front of it twice. -/
theorem ofBinaryDigits_concat (bits : List Bool) (b : Bool) :
    ofBinaryDigits (bits ++ [b]) = 2 * ofBinaryDigits bits + b.toNat := by
  unfold ofBinaryDigits
  rw [List.foldl_append]
  rfl

/-- Digits stand for the number, up to what they have no room for. -/
theorem ofBinaryDigits_binaryDigits (width n : Nat) :
    ofBinaryDigits (binaryDigits width n) = n % 2 ^ width := by
  induction width generalizing n with
  | zero => exact (Nat.mod_one n).symm
  | succ width ih =>
    rw [binaryDigits_succ, ofBinaryDigits_concat, ih, Nat.toNat_testBit, Nat.pow_succ', Nat.mod_mul]
    omega

/-- Digits come back from the number that they stand for. -/
theorem binaryDigits_ofBinaryDigits (bits : List Bool) :
    binaryDigits bits.length (ofBinaryDigits bits) = bits := by
  induction bits using List.reverseRecOn with
  | nil => rfl
  | append_singleton bits b ih =>
    -- the last digit is the parity, and the others are the half
    have half : (2 * ofBinaryDigits bits + b.toNat) / 2 = ofBinaryDigits bits := by
      have := b.toNat_le
      omega
    have parity : (2 * ofBinaryDigits bits + b.toNat).testBit 0 = b := by
      cases b with
      | false => simp
      | true => simp
    rw [List.length_append, List.length_singleton, binaryDigits_succ, ofBinaryDigits_concat, half,
      ih, parity]

/-- What some digits stand for is bounded by their number. -/
theorem ofBinaryDigits_lt (bits : List Bool) : ofBinaryDigits bits < 2 ^ bits.length := by
  rw [← binaryDigits_ofBinaryDigits bits, ofBinaryDigits_binaryDigits, length_binaryDigits]
  exact Nat.mod_lt _ (Nat.two_pow_pos _)

/-! ### Bytes -/

/-- The bits of some bytes. -/
def bitsOfBytes (bytes : Blob) : List Bool := bytes.flatMap fun b => binaryDigits 8 b.toNat

/-- The bits of the first byte come first. -/
theorem bitsOfBytes_cons (b : UInt8) (bytes : Blob) :
    bitsOfBytes (b :: bytes) = binaryDigits 8 b.toNat ++ bitsOfBytes bytes :=
  List.flatMap_cons

/-- Each byte has eight bits. -/
@[simp] theorem length_bitsOfBytes (bytes : Blob) :
    (bitsOfBytes bytes).length = 8 * bytes.length := by
  induction bytes with
  | nil => rfl
  | cons b bytes ih =>
    rw [bitsOfBytes_cons, List.length_append, length_binaryDigits, ih, List.length_cons]
    omega

/-- The digits of the byte that is made from eight bits. -/
theorem binaryDigits_ofNat {byte : List Bool} (whole : byte.length = 8) :
    binaryDigits 8 (UInt8.ofNat (ofBinaryDigits byte)).toNat = byte := by
  have bound := ofBinaryDigits_lt byte
  have digits := binaryDigits_ofBinaryDigits byte
  rw [whole] at bound digits
  rw [UInt8.toNat_ofNat', Nat.mod_eq_of_lt bound, digits]

/-- The first eight bits are the first byte. -/
theorem bytesOfBits_append {byte : List Bool} (whole : byte.length = 8) (rest : List Bool) :
    bytesOfBits (byte ++ rest) = UInt8.ofNat (ofBinaryDigits byte) :: bytesOfBits rest := by
  match byte, whole with
  | [_, _, _, _, _, _, _, _], _ => rfl

/-- Fewer than eight bits give no byte. -/
theorem bytesOfBits_of_short {bits : List Bool} (short : bits.length < 8) :
    bytesOfBits bits = [] := by
  unfold bytesOfBits
  split
  · simp only [List.length_cons] at short
    omega
  · rfl

/-- Bytes come back from their bits, whatever few bits follow them. -/
theorem bytesOfBits_bitsOfBytes (bytes : Blob) {leftover : List Bool}
    (short : leftover.length < 8) :
    bytesOfBits (bitsOfBytes bytes ++ leftover) = bytes := by
  induction bytes with
  | nil => exact bytesOfBits_of_short short
  | cons b bytes ih =>
    have value : UInt8.ofNat (ofBinaryDigits (binaryDigits 8 b.toNat)) = b := by
      rw [ofBinaryDigits_binaryDigits, Nat.mod_eq_of_lt b.toNat_lt, UInt8.ofNat_toNat]
    rw [bitsOfBytes_cons, List.append_assoc, bytesOfBits_append (length_binaryDigits 8 _), ih,
      value]

/-- A run of bits is that of its whole bytes, with a few bits behind it. -/
theorem exists_leftover (bits : List Bool) :
    ∃ leftover, leftover.length < 8 ∧ bits = bitsOfBytes (bytesOfBits bits) ++ leftover := by
  fun_induction bytesOfBits bits with
  | case1 a b c d e f g h rest ih =>
    obtain ⟨leftover, short, ih⟩ := ih
    refine ⟨leftover, short, ?_⟩
    rw [bitsOfBytes_cons, List.append_assoc, ← ih, binaryDigits_ofNat]
    · rfl
    · rfl
  | case2 bits short =>
    refine ⟨bits, ?_, rfl⟩
    match bits, short with
    | [], _ | [_], _ | [_, _], _ | [_, _, _], _ | [_, _, _, _], _ | [_, _, _, _, _], _
    | [_, _, _, _, _, _], _ | [_, _, _, _, _, _, _], _ => simp
    -- eight bits or more would have been taken by the first case
    | a :: b :: c :: d :: e :: f :: g :: h :: rest, short =>
      exact (short a b c d e f g h rest rfl).elim

/-! ### Symbols -/

/-- The bits of some symbols. -/
def bitsOfSymbols (symbols : List Symbol) : List Bool :=
  symbols.flatMap fun s => binaryDigits 5 s.toNat

/-- The bits of the first symbol come first. -/
theorem bitsOfSymbols_cons (s : Symbol) (symbols : List Symbol) :
    bitsOfSymbols (s :: symbols) = binaryDigits 5 s.toNat ++ bitsOfSymbols symbols :=
  List.flatMap_cons

/-- Each symbol has five bits. -/
@[simp] theorem length_bitsOfSymbols (symbols : List Symbol) :
    (bitsOfSymbols symbols).length = 5 * symbols.length := by
  induction symbols with
  | nil => rfl
  | cons s symbols ih =>
    rw [bitsOfSymbols_cons, List.length_append, length_binaryDigits, ih, List.length_cons]
    omega

/-- The first five bits are the first symbol. -/
theorem symbolsOfBits_append {symbol : List Bool} (whole : symbol.length = 5) (rest : List Bool) :
    symbolsOfBits (symbol ++ rest) =
      BitVec.ofNat 5 (ofBinaryDigits symbol) :: symbolsOfBits rest := by
  match symbol, whole with
  | [_, _, _, _, _], _ => rfl

/-- Symbols come back from their bits. -/
theorem symbolsOfBits_bitsOfSymbols (symbols : List Symbol) :
    symbolsOfBits (bitsOfSymbols symbols) = symbols := by
  induction symbols with
  | nil => rfl
  | cons s symbols ih =>
    have value : BitVec.ofNat 5 (ofBinaryDigits (binaryDigits 5 s.toNat)) = s := by
      rw [ofBinaryDigits_binaryDigits, Nat.mod_eq_of_lt s.isLt, BitVec.ofNat_toNat,
        BitVec.setWidth_eq]
    rw [bitsOfSymbols_cons, symbolsOfBits_append (length_binaryDigits 5 _), ih, value]

/-- Bits that fill whole symbols come back from these. -/
theorem bitsOfSymbols_symbolsOfBits {bits : List Bool} (whole : 5 ∣ bits.length) :
    bitsOfSymbols (symbolsOfBits bits) = bits := by
  obtain ⟨count, length⟩ := whole
  induction count generalizing bits with
  | zero =>
    obtain rfl := List.length_eq_zero_iff.mp length
    rfl
  | succ count ih =>
    -- five digits are cut off at a time, and the rest is still a multiple of five
    have five : (bits.take 5).length = 5 := by
      rw [List.length_take]
      omega
    have rest : (bits.drop 5).length = 5 * count := by
      rw [List.length_drop]
      omega
    have value : (BitVec.ofNat 5 (ofBinaryDigits (bits.take 5))).toNat =
        ofBinaryDigits (bits.take 5) := by
      have bound := ofBinaryDigits_lt (bits.take 5)
      rw [five] at bound
      exact Nat.mod_eq_of_lt bound
    have digits := binaryDigits_ofBinaryDigits (bits.take 5)
    rw [five] at digits
    conv_lhs => rw [← List.take_append_drop 5 bits]
    rw [symbolsOfBits_append five, bitsOfSymbols_cons, value, digits, ih rest,
      List.take_append_drop]

/-- The last symbol is filled up with zeros. -/
theorem symbolsOfBits_filled (bits : List Bool) {missing : Nat} (few : missing < 5)
    (whole : 5 ∣ bits.length + missing) :
    symbolsOfBits (bits ++ List.replicate missing false) = symbolsOfBits bits := by
  fun_induction symbolsOfBits bits with
  | case1 a b c d e rest ih =>
    have shorter : 5 ∣ rest.length + missing := by
      simp only [List.length_cons] at whole
      omega
    exact congrArg (BitVec.ofNat 5 (ofBinaryDigits [a, b, c, d, e]) :: ·) (ih shorter)
  | case2 =>
    obtain rfl : missing = 0 := by
      rw [List.length_nil] at whole
      omega
    rfl
  | case3 short other nonempty =>
    have length : short.length < 5 := by
      match short, other with
      | [], _ | [_], _ | [_, _], _ | [_, _, _], _ | [_, _, _, _], _ => simp
      | a :: b :: c :: d :: e :: rest, other => exact (other a b c d e rest rfl).elim
    -- the zeros are those with which the symbol is filled up anyway
    have positive : 0 < short.length := List.length_pos_iff.mpr nonempty
    obtain rfl : missing = 5 - short.length := by omega
    have five : (short ++ List.replicate (5 - short.length) false).length = 5 := by
      rw [List.length_append, List.length_replicate]
      omega
    have filled := symbolsOfBits_append five []
    rwa [List.append_nil] at filled

/-! ### Bytes in symbols -/

/-- The symbols that stand for given bytes: what is left over of the last symbol may be anything. -/
theorem bytesOfSymbols_eq_iff {symbols : List Symbol} {bytes : Blob} :
    bytesOfSymbols symbols = bytes ↔ ∃ leftover : List Bool, leftover.length < 8 ∧
      5 ∣ 8 * bytes.length + leftover.length ∧
      symbols = symbolsOfBits (bitsOfBytes bytes ++ leftover) := by
  constructor
  · rintro rfl
    -- whole symbols are the whole bytes and what is left over, so this fills the last symbol
    obtain ⟨leftover, short, split⟩ := exists_leftover (bitsOfSymbols symbols)
    have length := congrArg List.length split
    rw [List.length_append, length_bitsOfSymbols, length_bitsOfBytes] at length
    refine ⟨leftover, short, ⟨symbols.length, length.symm⟩, ?_⟩
    have back := symbolsOfBits_bitsOfSymbols symbols
    rw [split] at back
    exact back.symm
  · rintro ⟨leftover, short, whole, rfl⟩
    have bits : 5 ∣ (bitsOfBytes bytes ++ leftover).length := by
      rwa [List.length_append, length_bitsOfBytes]
    show bytesOfBits (bitsOfSymbols (symbolsOfBits (bitsOfBytes bytes ++ leftover))) = bytes
    rw [bitsOfSymbols_symbolsOfBits bits, bytesOfBits_bitsOfBytes bytes short]

end RingWallet.Bech32
