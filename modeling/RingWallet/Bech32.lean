import RingWallet.Bytes

/-!
# Checksummed text for byte strings

A text has a readable prefix, the separator `1`, and data characters of five bits each, the last
six of which are a checksum over everything before them. There are two checksums, which differ in
one constant: `encode` writes the newer one, in lower case, and `decode` accepts both, in either
case as long as the text does not mix them. `decode` keeps the prefix as it is written, and drops
the bits left over after the last whole byte.
-/

set_option autoImplicit false

namespace RingWallet.Bech32

/-- Five bits: the value of one data character. -/
abbrev Symbol := BitVec 5

/-- The data characters, in the order of their values. -/
def alphabet : List Char := "qpzry9x8gf2tvdw0s3jn54khce6mua7l".toList

def Symbol.toChar (s : Symbol) : Char := alphabet.getD s.toNat 'q'

/-- The value of a data character of either case. -/
def Symbol.ofChar? (c : Char) : Option Symbol :=
  (alphabet.idxOf? c.toLower).map (BitVec.ofNat 5)

/-! ## Regrouping of bits -/

/-- The low `width` binary digits of a number, most significant first. -/
def binaryDigits (width n : Nat) : List Bool := (List.range width).reverse.map n.testBit

/-- The number with the given binary digits, most significant first. -/
def ofBinaryDigits (bits : List Bool) : Nat := bits.foldl (fun n b => 2 * n + b.toNat) 0

/-- Whole bytes from bits; fewer than eight bits at the end are dropped. -/
def bytesOfBits : List Bool → Blob
  | a :: b :: c :: d :: e :: f :: g :: h :: rest =>
    UInt8.ofNat (ofBinaryDigits [a, b, c, d, e, f, g, h]) :: bytesOfBits rest
  | _ => []

/-- Symbols from bits; the last one is filled up with zeros. -/
def symbolsOfBits : List Bool → List Symbol
  | a :: b :: c :: d :: e :: rest =>
    BitVec.ofNat 5 (ofBinaryDigits [a, b, c, d, e]) :: symbolsOfBits rest
  | [] => []
  | short => [BitVec.ofNat 5 (ofBinaryDigits (short ++ List.replicate (5 - short.length) false))]

/-- The bits of bytes, five to the symbol. -/
def symbolsOfBytes (bytes : Blob) : List Symbol :=
  symbolsOfBits (bytes.flatMap fun b => binaryDigits 8 b.toNat)

/-- The bits of symbols, eight to the byte. -/
def bytesOfSymbols (symbols : List Symbol) : Blob :=
  bytesOfBits (symbols.flatMap fun s => binaryDigits 5 s.toNat)

/-! ## Checksums -/

/-- The remainder of a run of symbols: six symbols of five bits each. -/
abbrev Residue := BitVec 30

/-- What the five bits that leave the residue at the top add to it, lowest bit first. -/
def generators : List Residue := [0x3b6a57b2, 0x26508e6d, 0x1ea119fa, 0x3d4233dd, 0x2a1462b3]

/-- Feeds one symbol: the residue moves up by one symbol, and the symbol that leaves it at the top
comes back through the generators. -/
def Residue.feed (r : Residue) (s : Symbol) : Residue :=
  (generators.zipIdx.filter fun (_, i) => r.getLsbD (25 + i)).foldl
    (fun acc (g, _) => acc ^^^ g) (r <<< 5 ^^^ s.setWidth 30)

/-- The residue of a run of symbols. -/
def residue (symbols : List Symbol) : Residue := symbols.foldl Residue.feed 1

/-- The residue of a text with the newer checksum. -/
def target : Residue := 0x2bc830a3

/-- The residue of a text with the older checksum. -/
def olderTarget : Residue := 1

/-- What a prefix, in lower case, contributes to the checksum: the high bits of its characters, a
zero and the low bits. -/
def expand (human : List Char) : List Symbol :=
  let codes := human.map fun c => c.toLower.toNat
  codes.map (fun n => BitVec.ofNat 5 (n / 32)) ++ 0 :: codes.map (BitVec.ofNat 5)

/-- The six symbols that bring the residue to `target`. -/
def checksum (human : List Char) (data : List Symbol) : List Symbol :=
  let r := residue (expand human ++ data ++ List.replicate 6 0) ^^^ target
  (List.range 6).map fun i => r.extractLsb' (5 * (5 - i)) 5

/-! ## Prefixes -/

/-- Why a text cannot be a prefix. -/
inductive PrefixError where
  | empty
  | tooLong (bytes : Nat)
  | nonAscii (character : Char)
  | notPrintable (code : Nat)
  | mixedCase
deriving DecidableEq

/-- The wording of the error. The bound it names is the one of the format family; the bound that is
checked is `maxPrefixLength`. -/
def PrefixError.message : PrefixError → String
  | .empty => "hrp is empty, must have at least 1 character"
  | .tooLong bytes => s!"hrp is too long, found {bytes} characters, must be <= 126"
  | .nonAscii character => s!"found non-ASCII character: {character}"
  | .notPrintable code =>
    s!"byte value is not valid US-ASCII: '" ++ String.ofList (Nat.toDigits 16 code) ++ "'"
  | .mixedCase => "hrp cannot mix upper and lower case"

/-- The most bytes that a prefix may have. -/
def maxPrefixLength : Nat := 83

/-- Looks at the characters one by one; the flags say which cases came before. -/
def checkCharacters : (upper lower : Bool) → List Char → Except PrefixError Unit
  | _, _, [] => .ok ()
  | upper, lower, c :: rest =>
    if 127 < c.toNat then .error (.nonAscii c)
    else if c.toNat < 33 ∨ 126 < c.toNat then .error (.notPrintable c.toNat)
    else if (upper ∧ c.isLower) ∨ (lower ∧ c.isUpper) then .error .mixedCase
    else checkCharacters (upper || c.isUpper) (lower || c.isLower) rest

/-- Whether a text can be a prefix. -/
def checkPrefix (human : List Char) : Except PrefixError Unit :=
  let size := (String.ofList human).utf8ByteSize
  if size = 0 then .error .empty
  else if maxPrefixLength < size then .error (.tooLong size)
  else checkCharacters false false human

/-! ## Texts -/

/-- Why a text stands for no bytes. -/
inductive DecodeError where
  /-- There is no separator, a data character outside the alphabet, mixed case, or a bad prefix. -/
  | malformed
  /-- The data do not end in a checksum, or the text is too long for one. -/
  | checksum
deriving DecidableEq

/-- The wording of the error. -/
def DecodeError.message : DecodeError → String
  | .malformed => "parsing failed"
  | .checksum => "no valid bech32 or bech32m checksum"

/-- The most characters that a text may have. -/
def maxLength : Nat := 1023

/-- The text of some bytes under a prefix. -/
def encode (human : String) (bytes : Blob) : Except PrefixError String := do
  checkPrefix human.toList
  let data := symbolsOfBytes bytes
  let symbols := data ++ checksum human.toList data
  return String.ofList (human.toList.map Char.toLower ++ '1' :: symbols.map Symbol.toChar)

/-- The characters before and after the last separator. -/
def splitAtSeparator? (characters : List Char) : Option (List Char × List Char) :=
  match characters.reverse.span (· ≠ '1') with
  | (_, []) => none
  | (data, _ :: human) => some (human.reverse, data.reverse)

/-- The prefix and the symbols of a text, before the checksum is looked at. -/
def parse? (characters : List Char) : Option (List Char × List Symbol) := do
  guard ¬(characters.any Char.isUpper ∧ characters.any Char.isLower)
  let (human, data) ← splitAtSeparator? characters
  (checkPrefix human).toOption
  return (human, ← data.mapM Symbol.ofChar?)

/-- The prefix and the bytes of a text. -/
def decode (text : String) : Except DecodeError (String × Blob) :=
  match parse? text.toList with
  | none => .error .malformed
  | some (human, symbols) =>
    let r := residue (expand human ++ symbols)
    if text.length ≤ maxLength ∧ 6 ≤ symbols.length ∧ (r = target ∨ r = olderTarget) then
      .ok (String.ofList human, bytesOfSymbols (symbols.take (symbols.length - 6)))
    else .error .checksum

end RingWallet.Bech32
