/-!
# Bounded sums of 64-bit words

Amounts are 64-bit words. Totals that are only shown or compared stop at the largest word
(`UInt64.addSat`, `UInt64.subSat`); totals that money depends on are refused when they do not fit
(`UInt64.addChecked`). `toNat_addSat`, `toNat_subSat` and `addChecked_eq_some` say what each of
them does to the numbers behind the words.
-/

set_option autoImplicit false

namespace RingWallet

/-- The largest 64-bit word, as a number. -/
def maxWord : Nat := 0xffffffffffffffff

end RingWallet

namespace UInt64

open RingWallet (maxWord)

/-- The sum, or the largest word if the sum does not fit. -/
def addSat (a b : UInt64) : UInt64 := .ofNat (min (a.toNat + b.toNat) maxWord)

/-- The difference, or zero if the subtrahend is larger. -/
def subSat (a b : UInt64) : UInt64 := .ofNat (a.toNat - b.toNat)

/-- The product, or the largest word if the product does not fit. -/
def mulSat (a b : UInt64) : UInt64 := .ofNat (min (a.toNat * b.toNat) maxWord)

/-- The sum, if it fits. -/
def addChecked (a b : UInt64) : Option UInt64 :=
  if a.toNat + b.toNat ≤ maxWord then some (a + b) else none

/-- A sum stops at the largest word. -/
theorem toNat_addSat (a b : UInt64) : (a.addSat b).toNat = min (a.toNat + b.toNat) maxWord := by
  rw [addSat, toNat_ofNat', maxWord]
  omega

/-- A difference stops at zero. -/
theorem toNat_subSat (a b : UInt64) : (a.subSat b).toNat = a.toNat - b.toNat := by
  have := a.toNat_lt
  rw [subSat, toNat_ofNat']
  omega

/-- A product stops at the largest word. -/
theorem toNat_mulSat (a b : UInt64) : (a.mulSat b).toNat = min (a.toNat * b.toNat) maxWord := by
  rw [mulSat, toNat_ofNat', maxWord]
  omega

/-- A checked sum is the sum, if there is one. -/
theorem addChecked_eq_some {a b c : UInt64} :
    a.addChecked b = some c ↔ c.toNat = a.toNat + b.toNat := by
  have hc := c.toNat_lt
  unfold addChecked maxWord
  split
  · rw [Option.some.injEq, ← UInt64.toNat_inj, UInt64.toNat_add]
    omega
  · simp
    omega

end UInt64
