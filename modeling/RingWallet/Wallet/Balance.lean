import RingWallet.Wallet.Session

/-!
# Balances and the choice of outputs

An output can be spent when its transaction is unlocked, by height or by time, and the output is
old enough. `Balance.select` picks such outputs at random until they cover an amount.
-/

set_option autoImplicit false

namespace RingWallet

/-- A reference to a selected output; it is checked again before the output is spent. -/
structure Handle where
  index : Nat
  keyImage : KeyImage
deriving DecidableEq

namespace Wallet

/-- Unspent funds, and the change of transactions that no block holds yet. -/
def balance (w : Wallet) : UInt64 :=
  w.history.unconfirmed.toList.foldl (fun total (_, u) => total.addSat u.change)
    (totalAmount (w.history.transfers.filter fun t => !t.spent))

/-- Whether an unlock time, which is a height or a Unix time, has come. -/
def isUnlockedTime (w : Wallet) (now unlockTime : UInt64) : Bool :=
  if unlockTime < w.config.maxBlockNumber then
    unlockTime.toNat ≤ w.height - 1 + w.config.lockedDeltaBlocks.toNat
  else unlockTime.toNat ≤ now.toNat + w.config.lockedDeltaSeconds.toNat

/-- Whether the output can be spent, as far as its age is concerned. -/
def isUnlocked (w : Wallet) (now : UInt64) (t : Transfer) : Bool :=
  w.isUnlockedTime now t.tx.unlockTime
    && t.blockHeight + w.config.spendableAge.toNat ≤ w.height

/-- Unspent funds that can be spent now. -/
def unlockedBalance (w : Wallet) (now : UInt64) : UInt64 :=
  totalAmount (w.history.transfers.filter fun t => !t.spent && w.isUnlocked now t)

end Wallet

/-! ## Selection -/

/-- The list without the item at a position; the last item takes its place. -/
def swapRemove {α : Type} (items : List α) (i : Fin items.length) : List α :=
  (items.set i (items.getLast (List.ne_nil_of_length_pos (Nat.zero_lt_of_lt i.isLt)))).dropLast

/-- One item is taken out. -/
theorem length_swapRemove {α : Type} (items : List α) (i : Fin items.length) :
    (swapRemove items i).length + 1 = items.length := by
  have := i.isLt
  simp [swapRemove]
  omega

/-- An output that may be selected. -/
structure Candidate where
  index : Nat
  transfer : Transfer

namespace Candidate

def handle (c : Candidate) : Handle := ⟨c.index, c.transfer.keyImage⟩

end Candidate

namespace Balance

variable {σ : Type} (next : RandomSource σ)

/-- Picks candidates at random until `found` covers `needed` or none are left: a dust candidate
first if `dustFirst` is set and there is one, then regular ones, then dust. -/
def pick (needed found : UInt64) (dustFirst : Bool) (regular dust : List Candidate) :
    StateM σ (UInt64 × List Handle) := do
  if needed ≤ found then
    return (found, [])
  else if h : dust ≠ [] ∧ (dustFirst ∨ regular = []) then
    let i ← next.position dust h.1
    have := length_swapRemove dust i
    let (total, others) ← pick needed (found.addSat dust[i].transfer.amount) false regular
      (swapRemove dust i)
    return (total, dust[i].handle :: others)
  else if h : regular ≠ [] then
    let i ← next.position regular h
    have := length_swapRemove regular i
    let (total, others) ← pick needed (found.addSat regular[i].transfer.amount) false
      (swapRemove regular i) dust
    return (total, regular[i].handle :: others)
  else
    return (found, [])
termination_by regular.length + dust.length

/-- The outputs that may be selected. -/
def candidates (w : Wallet) (now : UInt64) (excluded : List Nat) : List Candidate :=
  (w.history.transfers.zipIdx.map fun (transfer, index) => ⟨index, transfer⟩).filter fun c =>
    !c.transfer.spent && !excluded.contains c.index && w.isUnlocked now c.transfer

/-- Outputs that cover an amount, if there are enough, and the sum of their amounts. With `addDust`
one dust output comes first. -/
def select (w : Wallet) (now needed : UInt64) (addDust : Bool) (threshold : UInt64)
    (excluded : List Nat) : StateM σ (UInt64 × List Handle) :=
  let (regular, dust) := (candidates w now excluded).partition fun c =>
    threshold < c.transfer.amount
  pick next needed 0 addDust regular dust

end Balance

end RingWallet
