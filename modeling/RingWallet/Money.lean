import RingWallet.Numeral
import RingWallet.Saturating

/-!
# Amounts as decimal text

An amount counts the smallest units of the coin. Its text moves the decimal point to the left.
-/

set_option autoImplicit false

namespace RingWallet

/-- The number of smallest units in one coin. A word cannot hold more than `maxWord` of them, so
that the power of ten stops there. -/
def coinUnit (decimals : Nat) : Nat :=
  if 20 ≤ decimals then maxWord else Nat.pow 10 decimals

/-- An amount with `decimals` digits after the point, and without a point if there are none. -/
def formatMoney (amount : UInt64) (decimals : Nat) : String :=
  if decimals = 0 then toString amount.toNat
  else
    String.ofList (Nat.toDigits 10 (amount.toNat / coinUnit decimals) ++ '.'
      :: paddedDigits 10 decimals (amount.toNat % coinUnit decimals))

end RingWallet
