import RingWallet.Bytes

/-!
# Keccak-256

The sponge over the 1600-bit permutation with a rate of 136 bytes and the padding `1 0* 1` (first
padding byte `0x01`). The state is five planes of five lanes: column parities and the nonlinear
step act on whole planes, and only the rotations look at single lanes.
-/

set_option autoImplicit false

namespace RingWallet.Keccak

/-- Rotates a word to the left by a number of bits below 64. -/
@[inline] def rotateLeft (x n : UInt64) : UInt64 := (x <<< n) ||| (x >>> ((64 - n) % 64))

/-- Five lanes with the same `y` coordinate; the field names give `x`. -/
structure Plane where
  x0 : UInt64
  x1 : UInt64
  x2 : UInt64
  x3 : UInt64
  x4 : UInt64
deriving DecidableEq, Inhabited

namespace Plane

def zero : Plane := ⟨0, 0, 0, 0, 0⟩

/-- Lane-wise exclusive or. -/
def add (a b : Plane) : Plane :=
  ⟨a.x0 ^^^ b.x0, a.x1 ^^^ b.x1, a.x2 ^^^ b.x2, a.x3 ^^^ b.x3, a.x4 ^^^ b.x4⟩

/-- What the column parities `c` add to every plane: the parity of the column to the left, and
that of the column to the right rotated by one. -/
def spread (c : Plane) : Plane :=
  ⟨c.x4 ^^^ rotateLeft c.x1 1, c.x0 ^^^ rotateLeft c.x2 1, c.x1 ^^^ rotateLeft c.x3 1,
   c.x2 ^^^ rotateLeft c.x4 1, c.x3 ^^^ rotateLeft c.x0 1⟩

/-- The nonlinear step: each lane is flipped where its right neighbour is clear and the next one
is set. -/
def chi (a : Plane) : Plane :=
  ⟨a.x0 ^^^ (~~~a.x1 &&& a.x2), a.x1 ^^^ (~~~a.x2 &&& a.x3), a.x2 ^^^ (~~~a.x3 &&& a.x4),
   a.x3 ^^^ (~~~a.x4 &&& a.x0), a.x4 ^^^ (~~~a.x0 &&& a.x1)⟩

def toList (a : Plane) : List UInt64 := [a.x0, a.x1, a.x2, a.x3, a.x4]

end Plane

/-- The permutation's state; the field names give `y`. -/
structure State where
  y0 : Plane
  y1 : Plane
  y2 : Plane
  y3 : Plane
  y4 : Plane
deriving DecidableEq, Inhabited

namespace State

def zero : State := ⟨.zero, .zero, .zero, .zero, .zero⟩

def add (a b : State) : State :=
  ⟨a.y0.add b.y0, a.y1.add b.y1, a.y2.add b.y2, a.y3.add b.y3, a.y4.add b.y4⟩

/-- Mixes the parity of neighbouring columns into every lane. -/
def theta (a : State) : State :=
  let d := ((((a.y0.add a.y1).add a.y2).add a.y3).add a.y4).spread
  ⟨a.y0.add d, a.y1.add d, a.y2.add d, a.y3.add d, a.y4.add d⟩

/-- Rotates every lane by its own distance and moves lane `(x, y)` to `(y, 2x + 3y)`. -/
def rhoPi (a : State) : State :=
  ⟨⟨a.y0.x0, rotateLeft a.y1.x1 44, rotateLeft a.y2.x2 43, rotateLeft a.y3.x3 21,
      rotateLeft a.y4.x4 14⟩,
   ⟨rotateLeft a.y0.x3 28, rotateLeft a.y1.x4 20, rotateLeft a.y2.x0 3, rotateLeft a.y3.x1 45,
      rotateLeft a.y4.x2 61⟩,
   ⟨rotateLeft a.y0.x1 1, rotateLeft a.y1.x2 6, rotateLeft a.y2.x3 25, rotateLeft a.y3.x4 8,
      rotateLeft a.y4.x0 18⟩,
   ⟨rotateLeft a.y0.x4 27, rotateLeft a.y1.x0 36, rotateLeft a.y2.x1 10, rotateLeft a.y3.x2 15,
      rotateLeft a.y4.x3 56⟩,
   ⟨rotateLeft a.y0.x2 62, rotateLeft a.y1.x3 55, rotateLeft a.y2.x4 39, rotateLeft a.y3.x0 41,
      rotateLeft a.y4.x1 2⟩⟩

/-- One round with its round constant. -/
def round (a : State) (constant : UInt64) : State :=
  let b := a.theta.rhoPi
  let y0 := b.y0.chi
  ⟨{ y0 with x0 := y0.x0 ^^^ constant }, b.y1.chi, b.y2.chi, b.y3.chi, b.y4.chi⟩

/-- The 24 round constants. -/
def roundConstants : List UInt64 :=
  [0x0000000000000001, 0x0000000000008082, 0x800000000000808a, 0x8000000080008000,
   0x000000000000808b, 0x0000000080000001, 0x8000000080008081, 0x8000000000008009,
   0x000000000000008a, 0x0000000000000088, 0x0000000080008009, 0x000000008000000a,
   0x000000008000808b, 0x800000000000008b, 0x8000000000008089, 0x8000000000008003,
   0x8000000000008002, 0x8000000000000080, 0x000000000000800a, 0x800000008000000a,
   0x8000000080008081, 0x8000000000008080, 0x0000000080000001, 0x8000000080008008]

/-- The permutation: 24 rounds. -/
def permute (a : State) : State := roundConstants.foldl round a

/-- Words in lane order, missing ones taken as zero. -/
def ofWords (words : List UInt64) : State :=
  let at' (i : Nat) : UInt64 := words.getD i 0
  let plane (y : Nat) : Plane :=
    ⟨at' (5 * y), at' (5 * y + 1), at' (5 * y + 2), at' (5 * y + 3), at' (5 * y + 4)⟩
  ⟨plane 0, plane 1, plane 2, plane 3, plane 4⟩

def toWords (a : State) : List UInt64 :=
  a.y0.toList ++ a.y1.toList ++ a.y2.toList ++ a.y3.toList ++ a.y4.toList

end State

/-- The bytes taken in before each permutation. -/
def rate : Nat := 136

/-- The little-endian words of a run of bytes; the last one is filled up with zeros. -/
def words : Nat → Blob → List UInt64
  | 0, _ => []
  | count + 1, bytes => (ofLittleEndian (bytes.take 8)).toUInt64 :: words count (bytes.drop 8)

/-- The last block: what is left of the message, then `0x01`, zeros and a final `0x80`; both marks
fall into one byte when a single byte is free. -/
def padded (tail : Blob) : Blob :=
  if tail.length + 1 = rate then tail ++ [0x81]
  else tail ++ [0x01] ++ List.replicate (rate - 2 - tail.length) 0 ++ [0x80]

/-- Takes in a message block by block. -/
def absorb (state : State) (message : Blob) : State :=
  if rate ≤ message.length then
    absorb (state.add (.ofWords (words 17 (message.take rate)))).permute (message.drop rate)
  else (state.add (.ofWords (words 17 (padded message)))).permute
termination_by message.length
decreasing_by simp [rate] at *; omega

end Keccak

/-- The Keccak-256 digest of a message: the first four lanes of the final state. -/
def keccak256 (message : Blob) : Bytes32 :=
  let first := (Keccak.absorb .zero message).y0
  Bytes.ofNat (first.x0.toNat + UInt64.size * (first.x1.toNat
    + UInt64.size * (first.x2.toNat + UInt64.size * first.x3.toNat)))

end RingWallet
