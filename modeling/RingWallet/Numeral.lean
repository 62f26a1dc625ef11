/-!
# Numerals

The digits of a number, written with at least some number of places.
-/

set_option autoImplicit false

namespace RingWallet

/-- The digits of a number, with zeros on the left if there are fewer than `width`. -/
def paddedDigits (base width n : Nat) : List Char :=
  let digits := Nat.toDigits base n
  List.replicate (width - digits.length) '0' ++ digits

/-- Digits are padded up to the width at least. -/
theorem width_le_length_paddedDigits (base width n : Nat) :
    width ≤ (paddedDigits base width n).length := by
  simp only [paddedDigits, List.length_append, List.length_replicate]
  omega

end RingWallet
