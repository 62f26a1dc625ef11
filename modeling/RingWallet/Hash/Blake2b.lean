import RingWallet.Bytes

/-!
# BLAKE2b

The keyless hash with an output of up to 64 bytes. The message is cut into blocks of 128 bytes, the
last of which is filled up with zeros; each block is mixed into eight words of state in twelve
rounds, and the last one is marked as such.
-/

set_option autoImplicit false

namespace RingWallet.Blake2b

/-- Rotates a word to the right by a number of bits between 1 and 63. -/
@[inline] def rotateRight (x n : UInt64) : UInt64 := (x >>> n) ||| (x <<< (64 - n))

/-- The fractional parts of the square roots of the first eight primes. -/
def initial : List UInt64 :=
  [0x6a09e667f3bcc908, 0xbb67ae8584caa73b, 0x3c6ef372fe94f82b, 0xa54ff53a5f1d36f1,
   0x510e527fade682d1, 0x9b05688c2b3e6c1f, 0x1f83d9abfb41bd6b, 0x5be0cd19137e2179]

/-- The order in which each of ten rounds takes the message words. -/
def schedule : List (List Nat) :=
  [[0, 1, 2, 3, 4, 5, 6, 7, 8, 9, 10, 11, 12, 13, 14, 15],
   [14, 10, 4, 8, 9, 15, 13, 6, 1, 12, 0, 2, 11, 7, 5, 3],
   [11, 8, 12, 0, 5, 2, 15, 13, 10, 14, 3, 6, 7, 1, 9, 4],
   [7, 9, 3, 1, 13, 12, 11, 14, 2, 6, 5, 10, 4, 0, 15, 8],
   [9, 0, 5, 7, 2, 4, 10, 15, 14, 1, 11, 12, 6, 8, 3, 13],
   [2, 12, 6, 10, 0, 11, 8, 3, 4, 13, 7, 5, 15, 14, 1, 9],
   [12, 5, 1, 15, 14, 13, 4, 10, 0, 7, 6, 3, 9, 2, 8, 11],
   [13, 11, 7, 14, 12, 1, 3, 9, 5, 0, 15, 4, 8, 6, 2, 10],
   [6, 15, 14, 9, 11, 3, 0, 8, 12, 2, 13, 7, 1, 4, 10, 5],
   [10, 2, 8, 4, 7, 6, 1, 5, 15, 11, 9, 14, 3, 12, 13, 0]]

/-- Four words of the working state. -/
structure Row where
  a : UInt64
  b : UInt64
  c : UInt64
  d : UInt64
deriving Inhabited

/-- The working state: four rows of four words. -/
structure Grid where
  r0 : Row
  r1 : Row
  r2 : Row
  r3 : Row
deriving Inhabited

/-- Four words that are mixed together. -/
structure Column where
  p : UInt64
  q : UInt64
  r : UInt64
  s : UInt64

namespace Column

/-- Mixes two message words into a column. -/
def mix (v : Column) (x y : UInt64) : Column :=
  let p := v.p + v.q + x
  let s := rotateRight (v.s ^^^ p) 32
  let r := v.r + s
  let q := rotateRight (v.q ^^^ r) 24
  let p := p + q + y
  let s := rotateRight (s ^^^ p) 16
  let r := r + s
  let q := rotateRight (q ^^^ r) 63
  ⟨p, q, r, s⟩

end Column

namespace Row

/-- The row with its words moved to the left, around the end. -/
def shift1 (v : Row) : Row := ⟨v.b, v.c, v.d, v.a⟩

def shift2 (v : Row) : Row := ⟨v.c, v.d, v.a, v.b⟩

def shift3 (v : Row) : Row := ⟨v.d, v.a, v.b, v.c⟩

end Row

namespace Grid

/-- Mixes eight message words into the four columns. -/
def mixColumns (g : Grid) (m : Nat → UInt64) : Grid :=
  let c0 := (Column.mk g.r0.a g.r1.a g.r2.a g.r3.a).mix (m 0) (m 1)
  let c1 := (Column.mk g.r0.b g.r1.b g.r2.b g.r3.b).mix (m 2) (m 3)
  let c2 := (Column.mk g.r0.c g.r1.c g.r2.c g.r3.c).mix (m 4) (m 5)
  let c3 := (Column.mk g.r0.d g.r1.d g.r2.d g.r3.d).mix (m 6) (m 7)
  ⟨⟨c0.p, c1.p, c2.p, c3.p⟩, ⟨c0.q, c1.q, c2.q, c3.q⟩,
   ⟨c0.r, c1.r, c2.r, c3.r⟩, ⟨c0.s, c1.s, c2.s, c3.s⟩⟩

/-- Mixes eight message words into the four diagonals. -/
def mixDiagonals (g : Grid) (m : Nat → UInt64) : Grid :=
  let turned : Grid := ⟨g.r0, g.r1.shift1, g.r2.shift2, g.r3.shift3⟩
  let mixed := turned.mixColumns m
  ⟨mixed.r0, mixed.r1.shift3, mixed.r2.shift2, mixed.r3.shift1⟩

/-- A round takes all sixteen message words. -/
def round (m : Array UInt64) (g : Grid) (order : List Nat) : Grid :=
  let word (i : Nat) : UInt64 := m.getD (order.getD i 0) 0
  (g.mixColumns word).mixDiagonals fun i => word (8 + i)

end Grid

/-- Eight words, as two rows. -/
structure State where
  low : Row
  high : Row

/-- The words of a list as two rows. -/
def State.ofList (words : List UInt64) : State :=
  let word (i : Nat) : UInt64 := words.getD i 0
  ⟨⟨word 0, word 1, word 2, word 3⟩, ⟨word 4, word 5, word 6, word 7⟩⟩

def Row.add (v w : Row) : Row := ⟨v.a ^^^ w.a, v.b ^^^ w.b, v.c ^^^ w.c, v.d ^^^ w.d⟩

/-- Mixes a block into the state. `count` bytes were taken so far, this block included. -/
def compress (h : State) (block : Blob) (count : Nat) (last : Bool) : State :=
  let m := (List.range 16).map fun i => UInt64.ofNat (ofLittleEndian ((block.drop (8 * i)).take 8))
  let iv := State.ofList initial
  let marks : Row := ⟨UInt64.ofNat count, 0, if last then 0xffffffffffffffff else 0, 0⟩
  let g : Grid := ⟨h.low, h.high, iv.low, iv.high.add marks⟩
  let g := (schedule ++ schedule.take 2).foldl (Grid.round m.toArray) g
  ⟨(h.low.add g.r0).add g.r2, (h.high.add g.r1).add g.r3⟩

/-- The number of bytes in a block. -/
def blockSize : Nat := 128

/-- Mixes the rest of a message into the state, `count` bytes of which were taken before. -/
def absorb (h : State) (count : Nat) (message : Blob) : State :=
  if blockSize < message.length then
    absorb (compress h (message.take blockSize) (count + blockSize) false) (count + blockSize)
      (message.drop blockSize)
  else compress h message (count + message.length) true
termination_by message.length
decreasing_by
  rw [List.length_drop, blockSize]
  rw [blockSize] at *
  omega

/-- The first `size` bytes of the digest of a message, for a size of at most 64. The size is part of
what is hashed. -/
def hash (size : Nat) (message : Blob) : Blob :=
  let h := State.ofList initial
  let parameters := UInt64.ofNat (0x01010000 + size)
  let h := absorb { h with low := { h.low with a := h.low.a ^^^ parameters } } 0 message
  let words := [h.low.a, h.low.b, h.low.c, h.low.d, h.high.a, h.high.b, h.high.c, h.high.d]
  (words.flatMap fun w => littleEndian 8 w.toNat).take size

end RingWallet.Blake2b
