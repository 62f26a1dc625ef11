import RingWallet.Suite
import RingWallet.Hash.Keccak

/-!
# The Ed25519 suite

The twisted Edwards curve `-x² + y² = 1 + d x² y²` over the field of `2^255 - 19` elements, with
points kept in affine form. Sums are computed in extended coordinates, which need no division, and
brought back to affine form at the end. A point is stored as its `y` coordinate with the parity of
`x` in the top bit.
-/

set_option autoImplicit false

namespace RingWallet.Ed25519

/-- The size of the field. -/
def prime : Nat := Nat.pow 2 255 - 19

/-- The curve constant `-121665 / 121666`. -/
def d : Nat := 37095705934669439343138083508754565189542113879843219016388785533085940283555

/-- A square root of `-1`. -/
def sqrtMinusOne : Nat :=
  19681161376707505956807079304988542015446066515923890162744021073123829784752

/-- The product of two field elements. -/
@[inline] def mul (a b : Nat) : Nat := a * b % prime

/-- The sum of two field elements. -/
@[inline] def add (a b : Nat) : Nat := (a + b) % prime

/-- The difference of two field elements below `prime`. -/
@[inline] def sub (a b : Nat) : Nat := (a + (prime - b)) % prime

/-- A power of a field element, by repeated squaring. -/
def pow (a e : Nat) : Nat :=
  if e = 0 then 1
  else
    let half := pow a (e / 2)
    let square := mul half half
    if e % 2 = 1 then mul square a else square
termination_by e

/-- The inverse of a field element, and zero for zero. -/
def inv (a : Nat) : Nat := pow a (prime - 2)

/-- Whether a pair of numbers is a point of the curve, in reduced form. -/
def OnCurve (x y : Nat) : Prop :=
  x < prime ∧ y < prime ∧
    add (mul x x) (add 1 (mul d (mul (mul x x) (mul y y)))) = mul y y

instance (x y : Nat) : Decidable (OnCurve x y) := inferInstanceAs (Decidable (_ ∧ _ ∧ _))

/-- A point of the curve. -/
structure Point where
  x : Nat
  y : Nat
  onCurve : OnCurve x y
deriving DecidableEq

namespace Point

/-- The neutral element. -/
def zero : Point := ⟨0, 1, by decide⟩

/-- The point with the given coordinates, and the neutral element if they are no point. -/
def ofCoordinates (x y : Nat) : Point := if h : OnCurve x y then ⟨x, y, h⟩ else zero

end Point

/-- A point as `(X / Z, Y / Z)` with `X Y = Z T`. -/
structure Extended where
  X : Nat
  Y : Nat
  Z : Nat
  T : Nat

namespace Extended

def zero : Extended := ⟨0, 1, 1, 0⟩

def ofPoint (P : Point) : Extended := ⟨P.x, P.y, 1, mul P.x P.y⟩

def toPoint (P : Extended) : Point :=
  let z := inv P.Z
  .ofCoordinates (mul P.X z) (mul P.Y z)

/-- The complete addition law. -/
def add (P Q : Extended) : Extended :=
  let a := mul (sub P.Y P.X) (sub Q.Y Q.X)
  let b := mul (Ed25519.add P.Y P.X) (Ed25519.add Q.Y Q.X)
  let c := mul (mul (2 * d % prime) P.T) Q.T
  let zz := mul P.Z Q.Z
  let dd := Ed25519.add zz zz
  let e := sub b a
  let f := sub dd c
  let g := Ed25519.add dd c
  let h := Ed25519.add b a
  ⟨mul e f, mul g h, mul f g, mul e h⟩

/-- The sum of a point with itself. -/
def double (P : Extended) : Extended :=
  let a := mul P.X P.X
  let b := mul P.Y P.Y
  let zz := mul P.Z P.Z
  let c := Ed25519.add zz zz
  let h := Ed25519.add a b
  let s := Ed25519.add P.X P.Y
  let e := sub h (mul s s)
  let g := sub a b
  let f := Ed25519.add c g
  ⟨mul e f, mul g h, mul f g, mul e h⟩

/-- A multiple of a point, by doubling and adding. -/
def smul (n : Nat) (P : Extended) : Extended :=
  if n = 0 then zero
  else
    let even := (smul (n / 2) P).double
    if n % 2 = 1 then even.add P else even
termination_by n

end Extended

namespace Point

def add (P Q : Point) : Point := ((Extended.ofPoint P).add (Extended.ofPoint Q)).toPoint

def smul (n : Nat) (P : Point) : Point := (Extended.smul n (.ofPoint P)).toPoint

/-- The base point: `y = 4/5` and `x` even. -/
def base : Point :=
  .ofCoordinates
    15112221349535400772501151409588531511454012693041857206046113283949847762202
    46316835694926478169428394003475163141307993866256225615783033603165251855960

/-- The `y` coordinate, with the parity of `x` in the top bit. -/
def encode (P : Point) : Bytes32 := .ofNat (P.y + Nat.pow 2 255 * (P.x % 2))

end Point

/-- The even square root of `u / v`, if there is one. The quotient by zero is zero for `u = 0`
and has no root otherwise. -/
def sqrtRatio? (u v : Nat) : Option Nat :=
  let v3 := mul (mul v v) v
  let v7 := mul (mul v3 v3) v
  let r := mul (mul u v3) (pow (mul u v7) ((prime - 5) / 8))
  let check := mul v (mul r r)
  let even (r : Nat) : Nat := if r % 2 = 1 then prime - r else r
  if check = u then some (even r)
  else if check = sub 0 u then some (even (mul r sqrtMinusOne))
  else none

/-- The point with the given encoding. The low 255 bits may spell any number: it is reduced to a
field element. The top bit selects the odd `x`, and is ignored when `x` is zero. -/
def decode? (bytes : Bytes32) : Option Point :=
  let n := bytes.toNat
  let y := n % Nat.pow 2 255 % prime
  let yy := mul y y
  (sqrtRatio? (sub yy 1) (add (mul d yy) 1)).map fun x =>
    .ofCoordinates (if n / Nat.pow 2 255 = 1 then sub 0 x else x) y

end Ed25519

/-- Keccak-256 and the Ed25519 group. -/
def Suite.standard : Suite where
  digest := keccak256
  Point := Ed25519.Point
  zero := .zero
  add := .add
  smul := .smul
  base := .base
  decode? := Ed25519.decode?
  encode := Ed25519.Point.encode

end RingWallet
