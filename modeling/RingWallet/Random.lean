import RingWallet.Scalar

/-!
# Randomness

A source of random words is any state machine that yields one 64-bit word after the other. What is
drawn from it is read off the words in order, so equal sources give equal keys and signatures.
-/

set_option autoImplicit false

namespace RingWallet

/-- One step of a source of random words. -/
abbrev RandomSource (σ : Type) := σ → UInt64 × σ

namespace RandomSource

/-- The words of SplitMix64: the state grows by a constant, and a word is the state with its bits
mixed. A seed fixes them all, so they are for runs that are to be repeated, and no secret is safe
with them. -/
def splitMix : RandomSource UInt64 := fun state =>
  let state := state + 0x9E3779B97F4A7C15
  let z := (state ^^^ (state >>> 30)) * 0xBF58476D1CE4E5B9
  let z := (z ^^^ (z >>> 27)) * 0x94D049BB133111EB
  (z ^^^ (z >>> 31), state)

variable {σ : Type} (next : RandomSource σ)

/-- The next `count` words. -/
def words : Nat → StateM σ (List UInt64)
  | 0 => pure []
  | count + 1 => do
    let word ← (next : StateM σ UInt64)
    let rest ← words count
    return word :: rest

/-- The next `count` bytes: each word gives eight, least significant first, and a last piece
shorter than eight takes the low bytes of one more word. -/
def bytes (count : Nat) : StateM σ Blob := do
  let drawn ← words next ((count + 7) / 8)
  return (drawn.flatMap fun w => littleEndian 8 w.toNat).take count

/-- A position in a list: the next word modulo the length. -/
def position {α : Type} (items : List α) (h : items ≠ []) : StateM σ (Fin items.length) := do
  let word ← (next : StateM σ UInt64)
  return ⟨word.toNat % items.length, Nat.mod_lt _ (List.length_pos_iff.2 h)⟩

/-- A random scalar: 64 bytes, read as a little-endian number and reduced. -/
def scalar : StateM σ Scalar := do
  return .ofBlob (← bytes next 64)

end RandomSource

end RingWallet
