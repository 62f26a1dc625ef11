import RingWallet.Bytes
import RingWallet.Quoted

/-!
# Hexadecimal text

`Hex.encode` writes each byte as two lower-case digits. `Hex.decode` accepts both cases and says
why it refuses a text: an odd number of bytes comes first, then the first byte that is no digit.
-/

set_option autoImplicit false

namespace RingWallet

/-- Why a text is no hexadecimal form. Positions count UTF-8 bytes. -/
inductive HexError where
  | oddLength
  | invalidCharacter (byte : UInt8) (position : Nat)
deriving DecidableEq, Repr

namespace Hex

/-- The digit for a number below 16. -/
def digit (n : Nat) : Char := "0123456789abcdef".toList.getD n '0'

/-- Two lower-case digits for each byte. -/
def encode (bytes : Blob) : String :=
  String.ofList (bytes.flatMap fun b => [digit (b.toNat / 16), digit (b.toNat % 16)])

/-- The value of a digit of either case, given as its ASCII byte. -/
def digitValue? (c : UInt8) : Option Nat :=
  if 48 ≤ c ∧ c ≤ 57 then some (c.toNat - 48)
  else if 97 ≤ c ∧ c ≤ 102 then some (c.toNat - 87)
  else if 65 ≤ c ∧ c ≤ 70 then some (c.toNat - 55)
  else none

/-- Reads the digits pair by pair; the position is that of the first of them. -/
def decodePairs (position : Nat) : List UInt8 → Except HexError Blob
  | high :: low :: rest => do
    let h ← (digitValue? high).elim (.error (.invalidCharacter high position)) .ok
    let l ← (digitValue? low).elim (.error (.invalidCharacter low (position + 1))) .ok
    let bytes ← decodePairs (position + 2) rest
    return UInt8.ofNat (16 * h + l) :: bytes
  | _ => .ok []

/-- The bytes that a text spells. -/
def decode (text : String) : Except HexError Blob :=
  let bytes := text.toUTF8.toList
  if bytes.length % 2 = 1 then .error .oddLength else decodePairs 0 bytes

end Hex

/-- The character with the code of a byte. -/
def charOfByte (byte : UInt8) : Char := Char.ofNat byte.toNat

/-- The wording of the error. -/
def HexError.message : HexError → String
  | .oddLength => "Odd number of digits"
  | .invalidCharacter byte position =>
    s!"Invalid character {quotedChar (charOfByte byte)} at position {position}"

/-- Lower-case hexadecimal form. -/
def Bytes.hex {size : Nat} (b : Bytes size) : String := Hex.encode b.toList

end RingWallet
