import RingWallet.Bytes

/-!
# The ChaCha20 stream

A stream of key-dependent bytes, in blocks of 64, for a key of 32 bytes and a nonce. `stream` is the
plain one with a nonce of 12 bytes, and `subkey` turns a key and 16 bytes of a longer nonce into a
new key.
-/

set_option autoImplicit false

namespace RingWallet.ChaCha20

/-- Rotates a word to the left by a number of bits between 1 and 31. -/
def rotateLeft (x n : UInt32) : UInt32 := (x <<< n) ||| (x >>> (32 - n))

/-- Four words. -/
structure Row where
  a : UInt32
  b : UInt32
  c : UInt32
  d : UInt32
deriving DecidableEq

namespace Row

def add (v w : Row) : Row := ⟨v.a + w.a, v.b + w.b, v.c + w.c, v.d + w.d⟩

/-- The exclusive or of two rows, rotated to the left word by word. -/
def turn (v w : Row) (n : UInt32) : Row :=
  ⟨rotateLeft (v.a ^^^ w.a) n, rotateLeft (v.b ^^^ w.b) n, rotateLeft (v.c ^^^ w.c) n,
   rotateLeft (v.d ^^^ w.d) n⟩

/-- The row with its words moved to the left, around the end. -/
def shift1 (v : Row) : Row := ⟨v.b, v.c, v.d, v.a⟩

def shift2 (v : Row) : Row := ⟨v.c, v.d, v.a, v.b⟩

def shift3 (v : Row) : Row := ⟨v.d, v.a, v.b, v.c⟩

def toList (v : Row) : List UInt32 := [v.a, v.b, v.c, v.d]

/-- The row that sixteen bytes spell. -/
def ofBlob (bytes : Blob) : Row :=
  let word (i : Nat) : UInt32 := UInt32.ofNat (ofLittleEndian ((bytes.drop (4 * i)).take 4))
  ⟨word 0, word 1, word 2, word 3⟩

end Row

/-- The state: four rows of four words. -/
structure Grid where
  r0 : Row
  r1 : Row
  r2 : Row
  r3 : Row
deriving DecidableEq

namespace Grid

/-- Mixes each column. -/
def mixColumns (g : Grid) : Grid :=
  let r0 := g.r0.add g.r1
  let r3 := g.r3.turn r0 16
  let r2 := g.r2.add r3
  let r1 := g.r1.turn r2 12
  let r0 := r0.add r1
  let r3 := r3.turn r0 8
  let r2 := r2.add r3
  let r1 := r1.turn r2 7
  ⟨r0, r1, r2, r3⟩

/-- Mixes the columns, then the diagonals. -/
def doubleRound (g : Grid) : Grid :=
  let g := g.mixColumns
  let g := (Grid.mk g.r0 g.r1.shift1 g.r2.shift2 g.r3.shift3).mixColumns
  ⟨g.r0, g.r1.shift3, g.r2.shift2, g.r3.shift1⟩

/-- Ten double rounds. -/
def rounds (g : Grid) : Grid := Nat.repeat doubleRound 10 g

end Grid

/-- The four words that every state starts with. -/
def constant : Row := ⟨0x61707865, 0x3320646e, 0x79622d32, 0x6b206574⟩

/-- The state for a key and sixteen bytes of counter and nonce. -/
def start (key : Bytes32) (input : Blob) : Grid :=
  ⟨constant, .ofBlob key.toList, .ofBlob (key.toList.drop 16), .ofBlob input⟩

/-- The bytes of some words. -/
def bytesOf (words : List UInt32) : Blob := words.flatMap fun w => littleEndian 4 w.toNat

/-- A block of the stream. -/
def block (key : Bytes32) (nonce : Blob) (counter : Nat) : Blob :=
  let g := start key (littleEndian 4 counter ++ nonce)
  let m := g.rounds
  bytesOf ((g.r0.add m.r0).toList ++ (g.r1.add m.r1).toList ++ (g.r2.add m.r2).toList
    ++ (g.r3.add m.r3).toList)

/-- The stream from a block on, `blocks` blocks long. -/
def stream (key : Bytes32) (nonce : Blob) (counter blocks : Nat) : Blob :=
  (List.range blocks).flatMap fun i => block key nonce (counter + i)

/-- A key for a key and sixteen bytes of a nonce. -/
def subkey (key : Bytes32) (nonce : Blob) : Bytes32 :=
  let m := (start key nonce).rounds
  .ofNat (ofLittleEndian (bytesOf (m.r0.toList ++ m.r3.toList)))

/-- Each word of the state gives four bytes of the stream. -/
theorem length_bytesOf (words : List UInt32) : (bytesOf words).length = 4 * words.length := by
  induction words with
  | nil => rfl
  | cons w rest ih =>
    simp only [bytesOf, List.flatMap_cons, List.length_append, length_littleEndian,
      List.length_cons] at ih ⊢
    omega

/-- A block of the stream has 64 bytes. -/
@[simp] theorem length_block (key : Bytes32) (nonce : Blob) (counter : Nat) :
    (block key nonce counter).length = 64 := by
  simp [block, length_bytesOf, Row.toList]

/-- The stream is as long as its blocks together. -/
theorem length_stream (key : Bytes32) (nonce : Blob) (counter blocks : Nat) :
    (stream key nonce counter blocks).length = 64 * blocks := by
  induction blocks with
  | zero => rfl
  | succ blocks ih =>
    rw [stream] at ih ⊢
    simp only [List.range_succ, List.flatMap_append, List.length_append, ih, List.flatMap_cons,
      List.flatMap_nil, List.append_nil, length_block]
    omega

end RingWallet.ChaCha20
