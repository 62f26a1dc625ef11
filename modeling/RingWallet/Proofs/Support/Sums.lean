import Mathlib.Algebra.GroupWithZero.Nat
import RingWallet.Saturating

/-!
# Totals of words

A total of 64-bit words that is added up with `UInt64.addSat` is the sum of the numbers behind the
words, cut off at the largest word (`UInt64.toNat_foldl_addSat`). `exactSum` is that sum without the
cut, a number that no word has to hold.
-/

set_option autoImplicit false

namespace UInt64

open RingWallet (maxWord)

/-- A word is at most the largest one. -/
theorem toNat_le_maxWord (a : UInt64) : a.toNat ≤ maxWord := by
  have := a.toNat_lt
  unfold maxWord
  omega

/-- A number up to the largest word is the number of a word. -/
theorem toNat_ofNat_of_le_maxWord {n : Nat} (fits : n ≤ maxWord) : (UInt64.ofNat n).toNat = n := by
  unfold maxWord at fits
  exact toNat_ofNat_of_lt' (Nat.lt_succ_of_le fits)

/-- Adding words up one after the other. -/
theorem toNat_foldl_addSat {α : Type} (f : α → UInt64) (items : List α) (start : UInt64) :
    (items.foldl (fun total a => total.addSat (f a)) start).toNat =
      min (start.toNat + (items.map fun a => (f a).toNat).sum) maxWord := by
  induction items generalizing start with
  | nil =>
    have := start.toNat_le_maxWord
    simp
    omega
  | cons a rest ih =>
    rw [List.foldl_cons, ih, toNat_addSat, List.map_cons, List.sum_cons]
    omega

end UInt64

namespace RingWallet

/-- The sum of some words, as a number. -/
def exactSum (words : List UInt64) : Nat := (words.map UInt64.toNat).sum

/-- Nothing sums to zero. -/
@[simp] theorem exactSum_nil : exactSum [] = 0 := rfl

/-- The first amount is added to the sum of the others. -/
@[simp] theorem exactSum_cons (a : UInt64) (rest : List UInt64) :
    exactSum (a :: rest) = a.toNat + exactSum rest := rfl

/-- The sum of two lists is the sum of their sums. -/
@[simp] theorem exactSum_append (as bs : List UInt64) :
    exactSum (as ++ bs) = exactSum as + exactSum bs := by
  simp [exactSum]

/-- Equal amounts sum to their multiple. -/
@[simp] theorem exactSum_replicate (count : Nat) (a : UInt64) :
    exactSum (List.replicate count a) = count * a.toNat := by
  simp [exactSum]

/-- The order of the amounts does not change their sum. -/
theorem exactSum_perm {as bs : List UInt64} (perm : as.Perm bs) : exactSum as = exactSum bs :=
  (perm.map UInt64.toNat).sum_nat

end RingWallet
