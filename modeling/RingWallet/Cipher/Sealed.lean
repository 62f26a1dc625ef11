import RingWallet.Cipher.ChaCha20

/-!
# Sealed messages

A message is sealed under a key and a nonce of 24 bytes: it is masked with a stream, and a tag of 16
bytes over the result is appended, which only the holder of the key can make. `Sealed.open?` refuses
whatever does not carry the right tag, and gives back what was sealed (`open?_seal`).
-/

set_option autoImplicit false

namespace RingWallet.Sealed

/-! ## The tag -/

/-- The field of the tag. -/
def tagPrime : Nat := Nat.pow 2 130 - 5

/-- The bits of the factor that count. -/
def factorMask : Nat := 0x0ffffffc0ffffffc0ffffffc0fffffff

/-- The value of a polynomial whose coefficients are the blocks of sixteen bytes of a message, each
with a one put on top. -/
def polynomial (factor value : Nat) (message : Blob) : Nat :=
  if message = [] then value
  else
    let coefficient := ofLittleEndian (message.take 16 ++ [1])
    polynomial factor ((value + coefficient) * factor % tagPrime) (message.drop 16)
termination_by message.length
decreasing_by
  have := List.length_pos_iff.2 ‹¬message = []›
  simp only [List.length_drop]
  omega

/-- The tag of a message under a one-time key of 32 bytes. -/
def tag (oneTimeKey message : Blob) : Blob :=
  let factor := ofLittleEndian (oneTimeKey.take 16) &&& factorMask
  littleEndian 16 (polynomial factor 0 message + ofLittleEndian (oneTimeKey.drop 16))

/-- A message filled up with zeros to a multiple of sixteen bytes. -/
def padded (message : Blob) : Blob :=
  message ++ List.replicate ((16 - message.length % 16) % 16) 0

/-! ## Sealing -/

/-- The key and the short nonce for a key and a nonce of 24 bytes. -/
def streamKey (key : Bytes32) (nonce : Bytes 24) : Bytes32 × Blob :=
  (ChaCha20.subkey key (nonce.toList.take 16), [0, 0, 0, 0] ++ nonce.toList.drop 16)

/-- A message under the stream; a second time undoes it. -/
def mask (key : Bytes32) (nonce : Bytes 24) (message : Blob) : Blob :=
  let (subkey, short) := streamKey key nonce
  message.zipWith (· ^^^ ·) (ChaCha20.stream subkey short 1 (message.length / 64 + 1))

/-- The tag of a masked message. -/
def tagOf (key : Bytes32) (nonce : Bytes 24) (masked : Blob) : Blob :=
  let (subkey, short) := streamKey key nonce
  tag ((ChaCha20.block subkey short 0).take 32)
    (padded masked ++ littleEndian 8 0 ++ littleEndian 8 masked.length)

/-- Seals a message. -/
def lock (key : Bytes32) (nonce : Bytes 24) (message : Blob) : Blob :=
  let masked := mask key nonce message
  masked ++ tagOf key nonce masked

/-- The message in a sealed one, if its tag is right. -/
def unlock? (key : Bytes32) (nonce : Bytes 24) (box : Blob) : Option Blob :=
  if 16 ≤ box.length then
    let masked := box.take (box.length - 16)
    if box.drop (box.length - 16) = tagOf key nonce masked then some (mask key nonce masked)
    else none
  else none

/-! ## Locking and unlocking -/

/-- A stream that covers a message takes itself back. -/
theorem zipWith_xor_twice (message stream : Blob) (h : message.length ≤ stream.length) :
    (message.zipWith (· ^^^ ·) stream).zipWith (· ^^^ ·) stream = message := by
  induction message generalizing stream with
  | nil => simp
  | cons b rest ih =>
    cases stream with
    | nil => simp at h
    | cons s stream =>
      simp only [List.length_cons, Nat.add_le_add_iff_right] at h
      simp only [List.zipWith_cons_cons, ih stream h, UInt8.xor_assoc, UInt8.xor_self,
        UInt8.xor_zero]

/-- A masked message is as long as the message. -/
theorem length_mask (key : Bytes32) (nonce : Bytes 24) (message : Blob) :
    (mask key nonce message).length = message.length := by
  simp [mask, ChaCha20.length_stream]
  omega

/-- The mask takes itself back. -/
theorem mask_mask (key : Bytes32) (nonce : Bytes 24) (message : Blob) :
    mask key nonce (mask key nonce message) = message := by
  rw [mask, length_mask]
  exact zipWith_xor_twice _ _ (by simp [ChaCha20.length_stream]; omega)

/-- A tag has 16 bytes. -/
theorem length_tagOf (key : Bytes32) (nonce : Bytes 24) (masked : Blob) :
    (tagOf key nonce masked).length = 16 := by
  simp [tagOf, tag]

/-- What was sealed is opened with the same key. -/
theorem unlock?_lock (key : Bytes32) (nonce : Bytes 24) (message : Blob) :
    unlock? key nonce (lock key nonce message) = some message := by
  simp [unlock?, lock, length_tagOf, mask_mask]

end RingWallet.Sealed
