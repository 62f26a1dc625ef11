import RingWallet.Numeral

/-!
# Shortest decimals of doubles

`Decimal.shortest` is the decimal with the fewest digits that reads back as a given double; of two
such decimals it is the nearer one, and of two that are equally near the one that ends in an even
digit. `Decimal.text` writes it with a point, or with an exponent where there would be many zeros.

A positive double is taken apart into `mantissa · 2 ^ exponent` (`Binary.ofFloat`), and all
comparisons are between natural numbers: `Binary.covers` scales both sides until no fraction is
left.
-/

set_option autoImplicit false

namespace RingWallet

/-- The number `mantissa · 2 ^ exponent`, as a double stores it. -/
structure Binary where
  mantissa : Nat
  exponent : Int
deriving DecidableEq

/-- The number `coefficient · 10 ^ exponent`. -/
structure Decimal where
  coefficient : Nat
  exponent : Int
deriving DecidableEq

namespace Binary

/-- The mantissas from here on are those of normal doubles. -/
def leastNormal : Nat := 0x10000000000000

/-- The exponent of the smallest doubles. -/
def leastExponent : Int := -1074

/-- The size of a finite double. -/
def ofFloat (x : Float) : Binary :=
  let bits := x.toBits.toNat % 0x8000000000000000
  let stored := bits % leastNormal
  match bits / leastNormal with
  | 0 => ⟨stored, leastExponent⟩
  | field + 1 => ⟨leastNormal + stored, leastExponent + field⟩

/-- A number of quarters of the last place of `b`, and a number of units `10 ^ scale`, that stand to
each other as the two places do. -/
def ratio (b : Binary) (scale : Int) : Nat × Nat :=
  let e := b.exponent - 2
  (Nat.pow 2 e.toNat * Nat.pow 10 (-scale).toNat, Nat.pow 2 (-e).toNat * Nat.pow 10 scale.toNat)

/-- How far the numbers that round to `b` reach below it, in quarters of its last place: the
doubles below a power of two lie closer together. -/
def quartersBelow (b : Binary) : Nat :=
  if b.mantissa = leastNormal ∧ leastExponent < b.exponent then 1 else 2

/-- Whether `n · 10 ^ scale` rounds to `b`. A number in the middle between two doubles rounds to the
one with the even mantissa. -/
def covers (b : Binary) (scale : Int) (n : Nat) : Bool :=
  let (quarter, unit) := b.ratio scale
  let low := (4 * b.mantissa - b.quartersBelow) * quarter
  let high := (4 * b.mantissa + 2) * quarter
  if b.mantissa % 2 = 0 then low ≤ n * unit && n * unit ≤ high
  else low < n * unit && n * unit < high

/-- The multiple of `10 ^ scale` that is nearest to `b`, if there is one that rounds to `b`. -/
def nearest? (b : Binary) (scale : Int) : Option Nat :=
  let (quarter, unit) := b.ratio scale
  let value := 4 * b.mantissa * quarter
  let below := value / unit
  let above := below + 1
  match b.covers scale below, b.covers scale above with
  | false, false => none
  | true, false => some below
  | false, true => some above
  | true, true =>
    match compare (2 * value) ((below + above) * unit) with
    | .lt => some below
    | .gt => some above
    | .eq => some (if below % 2 = 0 then below else above)

/-- A power of ten above `b`, at most two places above its first digit. -/
def scaleAbove (b : Binary) : Int :=
  let (quarter, unit) := b.ratio 0
  (Nat.toDigits 10 (4 * b.mantissa * quarter)).length - (Nat.toDigits 10 unit).length + 1

end Binary

namespace Decimal

/-- The number of scales that are tried: every double has a decimal of 17 digits. -/
def places : Nat := 20

/-- The shortest decimal for the size of a finite double. -/
def shortest (x : Float) : Decimal :=
  let b := Binary.ofFloat x
  if b.mantissa = 0 then ⟨0, 0⟩
  else
    let found := (List.range places).findSome? fun (i : Nat) =>
      let scale := b.scaleAbove - (i : Int)
      (b.nearest? scale).map (⟨·, scale⟩)
    found.getD ⟨0, 0⟩

/-- Numbers with more digits than this before the point are written with an exponent. -/
def maxWholeDigits : Int := 16

/-- Numbers with at least this many zeros after the point are written with an exponent. -/
def maxLeadingZeros : Int := 5

/-- The text of a decimal; there is always a point or an exponent. -/
def text (d : Decimal) : String :=
  let digits := Nat.toDigits 10 d.coefficient
  let whole := digits.length + d.exponent
  let zeros (count : Int) := List.replicate count.toNat '0'
  String.ofList <|
    if whole ≤ maxWholeDigits ∧ 0 ≤ d.exponent then digits ++ zeros d.exponent ++ ['.', '0']
    else if whole ≤ maxWholeDigits ∧ 0 < whole then
      digits.take whole.toNat ++ '.' :: digits.drop whole.toNat
    else if whole ≤ 0 ∧ -maxLeadingZeros < whole then '0' :: '.' :: zeros (-whole) ++ digits
    else
      let point := if digits.length = 1 then [] else ['.']
      let sign := if 0 < whole then '+' else '-'
      digits.take 1 ++ point ++ digits.drop 1 ++ 'e' :: sign :: Nat.toDigits 10 (whole - 1).natAbs

end Decimal

end RingWallet
