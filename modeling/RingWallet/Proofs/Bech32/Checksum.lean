import Mathlib.Algebra.Group.Nat.Defs
import Mathlib.Data.List.Induction
import RingWallet.Bech32

/-!
# The checksum

What the last symbols of a run add to its residue is seen as it is: no bit of them has reached the
top yet, so they are the digits of a number that is added bit by bit to the residue of the same run
with zeros in their place (`foldl_feed_eq`). Six symbols fill the residue. For every run and every
mark there is therefore exactly one checksum with which the residue of the run is the mark
(`residue_append_eq_iff`).
-/

set_option autoImplicit false

namespace RingWallet.Bech32

/-! ### Six symbols as one residue -/

/-- The residue whose digits are the symbols. -/
def pack (symbols : List Symbol) : Residue :=
  symbols.foldl (fun r s => r <<< 5 ^^^ s.setWidth 30) 0

/-- The six digits of a residue. -/
def unpack (r : Residue) : List Symbol := (List.range 6).map fun i => r.extractLsb' (5 * (5 - i)) 5

/-- The last symbol of a residue stands in its lowest five bits. -/
theorem pack_concat (symbols : List Symbol) (s : Symbol) :
    pack (symbols ++ [s]) = pack symbols <<< 5 ^^^ s.setWidth 30 := by
  unfold pack
  rw [List.foldl_append]
  rfl

/-- A digit behind a residue that leaves room for it. -/
theorem toNat_shiftLeft_xor {r : Residue} (room : r.toNat < 2 ^ 25) (s : Symbol) :
    (r <<< 5 ^^^ s.setWidth 30).toNat = 2 ^ 5 * r.toNat + s.toNat := by
  have digit : s.toNat < 2 ^ 5 := s.isLt
  have moved : r.toNat <<< 5 < 2 ^ 30 := by
    rw [Nat.shiftLeft_eq]
    omega
  have small : s.toNat < 2 ^ 30 := Nat.lt_trans digit (by decide)
  rw [BitVec.toNat_xor, BitVec.toNat_shiftLeft, BitVec.toNat_setWidth, Nat.mod_eq_of_lt moved,
    Nat.mod_eq_of_lt small]
  -- the digit fills the five bits that the shift leaves empty, so that no bit meets another one
  refine Nat.eq_of_testBit_eq fun i => ?_
  rw [Nat.testBit_two_pow_mul_add r.toNat digit, Nat.testBit_xor, Nat.testBit_shiftLeft]
  by_cases low : i < 5
  · simp [low, Nat.not_le.mpr low]
  · have power : 2 ^ 5 ≤ 2 ^ i := Nat.pow_le_pow_right (by decide) (by omega)
    have above : s.toNat.testBit i = false :=
      Nat.testBit_lt_two_pow (Nat.lt_of_lt_of_le digit power)
    simp [low, above, Nat.not_lt.mp low]

/-- Up to five symbols leave room for another one. -/
theorem toNat_pack_lt {symbols : List Symbol} (few : symbols.length ≤ 6) :
    (pack symbols).toNat < 2 ^ (5 * symbols.length) := by
  induction symbols using List.reverseRecOn with
  | nil => exact Nat.one_pos
  | append_singleton symbols s ih =>
    rw [List.length_append, List.length_singleton] at few ⊢
    have bound := ih (by omega)
    have room : (pack symbols).toNat < 2 ^ 25 :=
      Nat.lt_of_lt_of_le bound (Nat.pow_le_pow_right (by decide) (by omega))
    have digit := s.isLt
    rw [pack_concat, toNat_shiftLeft_xor room, Nat.mul_add, Nat.pow_add]
    omega

/-- A further symbol is packed like a digit to the base 32, as long as there is room for it. -/
theorem toNat_pack_concat {symbols : List Symbol} (few : symbols.length ≤ 5) (s : Symbol) :
    (pack (symbols ++ [s])).toNat = 2 ^ 5 * (pack symbols).toNat + s.toNat := by
  have bound := toNat_pack_lt (Nat.le_succ_of_le few)
  have room : (pack symbols).toNat < 2 ^ 25 :=
    Nat.lt_of_lt_of_le bound (Nat.pow_le_pow_right (by decide) (by omega))
  rw [pack_concat, toNat_shiftLeft_xor room]

/-- The number that six symbols spell. -/
theorem toNat_pack_six (a b c d e f : Symbol) : (pack [a, b, c, d, e, f]).toNat =
    2 ^ 25 * a.toNat + 2 ^ 20 * b.toNat + 2 ^ 15 * c.toNat + 2 ^ 10 * d.toNat + 2 ^ 5 * e.toNat
      + f.toNat := by
  have none : (pack []).toNat = 0 := rfl
  rw [show [a, b, c, d, e, f] = [] ++ [a] ++ [b] ++ [c] ++ [d] ++ [e] ++ [f] from rfl]
  repeat rw [toNat_pack_concat (by simp)]
  rw [none]
  omega

/-- Five bits of a residue as a number. -/
theorem toNat_extractLsb' (r : Residue) (start : Nat) :
    (r.extractLsb' start 5).toNat = r.toNat / 2 ^ start % 2 ^ 5 := by
  rw [BitVec.extractLsb'_toNat, Nat.shiftRight_eq_div_pow]

/-- The six symbols of a residue are its groups of five bits, the highest first. -/
theorem unpack_eq (r : Residue) : unpack r =
    [r.extractLsb' 25 5, r.extractLsb' 20 5, r.extractLsb' 15 5, r.extractLsb' 10 5,
      r.extractLsb' 5 5, r.extractLsb' 0 5] := rfl

/-- A residue is packed from its symbols again. -/
theorem pack_unpack (r : Residue) : pack (unpack r) = r := by
  have bound := r.isLt
  apply BitVec.eq_of_toNat_eq
  rw [unpack_eq, toNat_pack_six]
  simp only [toNat_extractLsb']
  omega

/-- Six symbols come back from the residue that they are packed into. -/
theorem unpack_pack {symbols : List Symbol} (six : symbols.length = 6) :
    unpack (pack symbols) = symbols := by
  match symbols, six with
  | [a, b, c, d, e, f], _ =>
    -- each digit of the packed number stands where it is read
    have value := toNat_pack_six a b c d e f
    have digit (start : Nat) (s : Symbol)
        (same : (pack [a, b, c, d, e, f]).toNat / 2 ^ start % 2 ^ 5 = s.toNat) :
        (pack [a, b, c, d, e, f]).extractLsb' start 5 = s :=
      BitVec.eq_of_toNat_eq ((toNat_extractLsb' _ start).trans same)
    have := a.isLt
    have := b.isLt
    have := c.isLt
    have := d.isLt
    have := e.isLt
    have := f.isLt
    rw [unpack_eq, digit 25 a (by omega), digit 20 b (by omega), digit 15 c (by omega),
      digit 10 d (by omega), digit 5 e (by omega), digit 0 f (by omega)]

/-! ### What the last symbols add -/

/-- What is folded into a residue adds up with what it is changed by. -/
theorem foldl_xor (items : List (Residue × Nat)) (r d : Residue) :
    items.foldl (fun acc p => acc ^^^ p.1) (r ^^^ d) =
      items.foldl (fun acc p => acc ^^^ p.1) r ^^^ d := by
  induction items generalizing r with
  | nil => rfl
  | cons p items ih =>
    rw [List.foldl_cons, List.foldl_cons, ← ih, BitVec.xor_assoc, BitVec.xor_assoc,
      BitVec.xor_comm d]

/-- What has not reached the top moves up by one symbol, and nothing of it comes back. -/
theorem feed_xor (r : Residue) {d : Residue} (room : d.toNat < 2 ^ 25) (s : Symbol) :
    (r ^^^ d).feed s = r.feed 0 ^^^ (d <<< 5 ^^^ s.setWidth 30) := by
  -- the difference does not reach the bits that choose the generators
  have top (i : Nat) : (r ^^^ d).getLsbD (25 + i) = r.getLsbD (25 + i) := by
    have clear : d.getLsbD (25 + i) = false :=
      Nat.testBit_lt_two_pow (Nat.lt_of_lt_of_le room (Nat.pow_le_pow_right (by decide) (by omega)))
    rw [BitVec.getLsbD_xor, clear, Bool.xor_false]
  have moved : (r ^^^ d) <<< 5 ^^^ s.setWidth 30 =
      r <<< 5 ^^^ BitVec.setWidth 30 (0 : Symbol) ^^^ (d <<< 5 ^^^ s.setWidth 30) := by
    have zero : BitVec.setWidth 30 (0 : Symbol) = 0#30 := rfl
    rw [BitVec.shiftLeft_xor_distrib, zero, BitVec.xor_zero, BitVec.xor_assoc]
  unfold Residue.feed
  simp only [top]
  rw [moved]
  exact foldl_xor _ _ _

/-- The last symbols, up to six, are added to what zeros in their place would leave. -/
theorem foldl_feed_eq (r : Residue) {check : List Symbol} (few : check.length ≤ 6) :
    check.foldl Residue.feed r =
      (List.replicate check.length 0).foldl Residue.feed r ^^^ pack check := by
  induction check using List.reverseRecOn with
  | nil => exact (BitVec.xor_zero).symm
  | append_singleton check s ih =>
    rw [List.length_append, List.length_singleton] at few
    -- what up to five symbols have added is still below the five bits that are folded back
    have bound : (pack check).toNat < 2 ^ (5 * check.length) := toNat_pack_lt (by omega)
    have room : (pack check).toNat < 2 ^ 25 :=
      Nat.lt_of_lt_of_le bound (Nat.pow_le_pow_right (by decide) (by omega))
    rw [List.length_append, List.length_singleton, List.replicate_succ', List.foldl_append,
      List.foldl_append, ih (by omega), List.foldl_cons, List.foldl_nil, List.foldl_cons,
      List.foldl_nil, feed_xor _ room, pack_concat]

/-! ### Checksums -/

/-- The six symbols that bring the residue of a prefix and some data to a mark. -/
def checksumTo (mark : Residue) (human : List Char) (data : List Symbol) : List Symbol :=
  unpack (residue (expand human ++ data ++ List.replicate 6 0) ^^^ mark)

/-- A checksum has six symbols. -/
@[simp] theorem length_checksumTo (mark : Residue) (human : List Char) (data : List Symbol) :
    (checksumTo mark human data).length = 6 := rfl

/-- The checksum that is written is the one of the newer kind. -/
theorem checksum_eq (human : List Char) (data : List Symbol) :
    checksum human data = checksumTo target human data := rfl

/-- There is one checksum for each mark. -/
theorem residue_append_eq_iff {mark : Residue} {human : List Char} {data check : List Symbol}
    (six : check.length = 6) : residue (expand human ++ (data ++ check)) = mark ↔
      check = checksumTo mark human data := by
  have added : residue (expand human ++ (data ++ check)) =
      residue (expand human ++ data ++ List.replicate 6 0) ^^^ pack check := by
    rw [← List.append_assoc]
    unfold residue
    rw [List.foldl_append, foldl_feed_eq _ (Nat.le_of_eq six), six, ← List.foldl_append]
  unfold checksumTo
  rw [added]
  -- six symbols are all thirty bits, so they can turn any residue into any other
  generalize residue (expand human ++ data ++ List.replicate 6 0) = before
  constructor
  · rintro rfl
    rw [← BitVec.xor_assoc, BitVec.xor_self, BitVec.zero_xor, unpack_pack six]
  · rintro rfl
    rw [pack_unpack, ← BitVec.xor_assoc, BitVec.xor_self, BitVec.zero_xor]

/-- The checksum leads to its mark. -/
theorem residue_checksumTo (mark : Residue) (human : List Char) (data : List Symbol) :
    residue (expand human ++ (data ++ checksumTo mark human data)) = mark :=
  (residue_append_eq_iff (length_checksumTo mark human data)).mpr rfl

end RingWallet.Bech32
