import Std.Data.ExtTreeMap

/-!
# Bytes, little-endian numbers and strings of fixed length

A `Blob` is a list of bytes. `littleEndian` writes a number into a fixed number of bytes, least
significant first, and `ofLittleEndian` reads one back; each undoes the other on its range
(`ofLittleEndian_littleEndian`, `littleEndian_ofLittleEndian`). `Bytes n` is a blob of exactly `n`
bytes: keys, hashes and scalars are stored in 32 of them. Its order is the lexicographic order of
the bytes, which makes it a key of ordered maps.
-/

set_option autoImplicit false

namespace RingWallet

/-- A run of bytes. -/
abbrev Blob := List UInt8

/-- The low `width` bytes of a number, least significant byte first. -/
def littleEndian : (width value : Nat) → Blob
  | 0, _ => []
  | width + 1, value => UInt8.ofNat value :: littleEndian width (value / 256)

/-- The number that a run of bytes spells, least significant byte first. -/
def ofLittleEndian : Blob → Nat
  | [] => 0
  | b :: rest => b.toNat + 256 * ofLittleEndian rest

/-- A number takes as many bytes as it is given. -/
@[simp] theorem length_littleEndian (width value : Nat) :
    (littleEndian width value).length = width := by
  induction width generalizing value with
  | zero => rfl
  | succ width ih => simp [littleEndian, ih]

/-- What some bytes stand for is less than the power of 256 that belongs to their number. -/
theorem ofLittleEndian_lt (bytes : Blob) : ofLittleEndian bytes < Nat.pow 256 bytes.length := by
  induction bytes with
  | nil => exact Nat.zero_lt_one
  | cons b rest ih =>
    have hb := b.toNat_lt
    have hp : Nat.pow 256 (b :: rest).length = Nat.pow 256 rest.length * 256 := rfl
    rw [ofLittleEndian, hp]
    omega

/-- A number is read back from its bytes, up to what does not fit into them. -/
theorem ofLittleEndian_littleEndian (width value : Nat) :
    ofLittleEndian (littleEndian width value) = value % Nat.pow 256 width := by
  induction width generalizing value with
  | zero => exact (Nat.mod_one value).symm
  | succ width ih =>
    have hp : Nat.pow 256 (width + 1) = 256 * Nat.pow 256 width := Nat.mul_comm _ _
    rw [littleEndian, ofLittleEndian, ih, hp, Nat.mod_mul, UInt8.toNat_ofNat']

/-- Bytes come back from the number that they stand for. -/
theorem littleEndian_ofLittleEndian (bytes : Blob) :
    littleEndian bytes.length (ofLittleEndian bytes) = bytes := by
  induction bytes with
  | nil => rfl
  | cons b rest ih =>
    have hb := b.toNat_lt
    have hdiv : (b.toNat + 256 * ofLittleEndian rest) / 256 = ofLittleEndian rest := by omega
    have hlow : UInt8.ofNat (b.toNat + 256 * ofLittleEndian rest) = b := by
      apply UInt8.toNat_inj.1
      rw [UInt8.toNat_ofNat']
      omega
    simp only [List.length_cons, ofLittleEndian, littleEndian, hdiv, hlow, ih]

/-- A string of exactly `size` bytes. -/
structure Bytes (size : Nat) where
  toList : Blob
  length_eq : toList.length = size
deriving DecidableEq

/-- A string of exactly 32 bytes. -/
abbrev Bytes32 := Bytes 32

namespace Bytes

variable {size : Nat}

/-- Byte strings of the same size are the same if their bytes are. -/
theorem ext {a b : Bytes size} (h : a.toList = b.toList) : a = b := by
  cases a
  cases b
  simpa using h

instance : Ord (Bytes size) := ⟨compareOn toList⟩

instance : Std.TransOrd (Bytes size) := inferInstanceAs (Std.TransCmp (compareOn toList))

instance : Std.LawfulEqOrd (Bytes size) where
  eq_of_compare h := ext (Std.LawfulEqOrd.eq_of_compare (α := List UInt8) h)

/-- The low bytes of a number, least significant byte first. -/
def ofNat (value : Nat) : Bytes size := ⟨littleEndian size value, length_littleEndian size value⟩

/-- The number that the bytes spell, least significant byte first. -/
def toNat (b : Bytes size) : Nat := ofLittleEndian b.toList

/-- Zero bytes only. -/
def zero : Bytes size := ⟨List.replicate size 0, by simp⟩

instance : Inhabited (Bytes size) := ⟨zero⟩

/-- A blob as a string of bytes, if it has the right length. -/
def ofBlob? (bytes : Blob) : Option (Bytes size) :=
  if h : bytes.length = size then some ⟨bytes, h⟩ else none

/-- The number of a byte string is bounded by its size. -/
theorem toNat_lt (b : Bytes size) : b.toNat < Nat.pow 256 size := by
  have := ofLittleEndian_lt b.toList
  rwa [b.length_eq] at this

/-- A byte string is determined by its number. -/
theorem ofNat_toNat (b : Bytes size) : ofNat b.toNat = b :=
  ext (by
    have := littleEndian_ofLittleEndian b.toList
    rwa [b.length_eq] at this)

/-- A number that fits is the number of its byte string. -/
theorem toNat_ofNat {value : Nat} (h : value < Nat.pow 256 size) :
    (ofNat value : Bytes size).toNat = value := by
  rw [toNat, ofNat, ofLittleEndian_littleEndian]
  exact Nat.mod_eq_of_lt h

/-- The bytes of a byte string have the size that is asked for. -/
@[simp] theorem ofBlob?_toList (b : Bytes size) : ofBlob? b.toList = some b := by
  simp [ofBlob?, b.length_eq]

end Bytes

end RingWallet
