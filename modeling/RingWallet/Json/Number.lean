import RingWallet.Decimal

/-!
# Numbers in JSON text

A number keeps its spelling until it is decoded. As a value of its own it is an integer if it is
spelled as one and fits a 64-bit word, signed or not, and a double otherwise; `numberText?` is the
spelling of that value, and none for a number that is too large.

A double is read in two steps, each of which rounds: the first digits, as many as fit a 64-bit word,
and then the power of ten (`magnitude?`).
-/

set_option autoImplicit false

namespace RingWallet.Json

/-! ## Integers -/

/-- The number that decimal digits spell. -/
def ofDigits (digits : List Char) : Nat :=
  digits.foldl (fun n c => 10 * n + (c.toNat - 48)) 0

/-- The integer that an optional sign and decimal digits spell. -/
def ofSignedDigits : List Char → Int
  | '-' :: digits => -(ofDigits digits : Int)
  | '+' :: digits => ofDigits digits
  | digits => ofDigits digits

/-- Whether a number is an integer of 64 bits, signed or not. Minus zero is none. -/
def isWord (literal : String) : Bool :=
  let n := ofSignedDigits literal.toList
  (literal.toList.all fun c => c.isDigit || c = '-') && literal ≠ "-0"
    && Int64.minValue.toInt ≤ n && n < UInt64.size

/-! ## Doubles -/

/-- Appends digits to a number as long as it fits a 64-bit word, and returns those left over. -/
def fillWord (n : Nat) : List Char → Nat × List Char
  | [] => (n, [])
  | c :: rest =>
    let more := 10 * n + (c.toNat - 48)
    if more < UInt64.size then fillWord more rest else (n, c :: rest)

/-- What a word has taken in of some digits fits into a word. -/
theorem fillWord_fst_lt {n : Nat} (digits : List Char) (h : n < UInt64.size) :
    (fillWord n digits).1 < UInt64.size := by
  fun_induction fillWord n digits with
  | case1 => exact h
  | case2 n c rest more hmore ih => exact ih hmore
  | case3 => exact h

/-- The largest power of ten that is a finite double. -/
def maxScale : Nat := 308

/-- A power of ten, rounded to a double. -/
def tenTo (scale : Nat) : Float := .ofScientific 1 false scale

/-- A number divided by a power of ten, in several steps if the power is none of a double. -/
def scaledDown (x : Float) (scale : Nat) : Float :=
  if scale ≤ maxScale then x / tenTo scale
  else if x == 0 then x
  else scaledDown (x / tenTo maxScale) (scale - maxScale)
termination_by scale
decreasing_by simp only [maxScale] at *; omega

/-- A number times a power of ten, if it is not too large. -/
def scaled? (x : Float) (scale : Int) : Option Float :=
  if scale < 0 then some (scaledDown x (-scale).toNat)
  else if x == 0 then some x
  else if scale ≤ maxScale ∧ (x * tenTo scale.toNat).isFinite then some (x * tenTo scale.toNat)
  else none

/-- The double that a number without its sign stands for, if it is not too large. Digits beyond
those that fit a word count as zeros. -/
def magnitude? (literal : String) : Option Float :=
  let (mantissa, exponent) := (literal.toList.dropWhile (· = '-')).span fun c =>
    c ≠ 'e' && c ≠ 'E'
  let (whole, fraction) := mantissa.span (· ≠ '.')
  let (n, skipped) := fillWord 0 whole
  let fraction := fraction.drop 1
  let (n, ignored) := fillWord n fraction
  scaled? (UInt64.ofNat n).toFloat
    (ofSignedDigits (exponent.drop 1) + skipped.length + ignored.length - fraction.length)

/-- The spelling of a number as a value of its own, if it is not too large. -/
def numberText? (literal : String) : Option String :=
  if isWord literal then some literal
  else (magnitude? literal).map fun x =>
    (if literal.startsWith "-" then "-" else "") ++ (Decimal.shortest x).text

end RingWallet.Json
