import RingWallet.Proofs.Spend.Dust

/-!
# Amounts in words

The ways to divide a payment are defined on numbers, since these have no bound. Here are the same
computations in 64-bit words, where a sum, difference or product that does not fit ends everything:
`Words.spreadOver` for the parts of a payment, and `Words.split` for the outputs of a transaction.
Their loops are those of the numbers. A digit is multiplied by its order, which stops at the largest
word; a change is rounded to one power of ten after the other, until the next one does not fit.

None of them ends early. `Words.spreadOver_eq` and `Words.split_eq` say that they give what the
computations with numbers give, for every amount, threshold and number of parts.
-/

set_option autoImplicit false

namespace UInt64

open RingWallet (maxWord)

variable {a b c : UInt64}

/-- The difference, if it is not negative. -/
def subChecked (a b : UInt64) : Option UInt64 := if b ≤ a then some (a - b) else none

/-- The product, if it fits. -/
def mulChecked (a b : UInt64) : Option UInt64 :=
  if a.toNat * b.toNat ≤ maxWord then some (a * b) else none

/-- A checked difference is the difference, if there is one. -/
theorem subChecked_eq_some : a.subChecked b = some c ↔ c.toNat + b.toNat = a.toNat := by
  have := c.toNat_lt
  unfold subChecked
  split
  · next le =>
    -- a subtraction that does not go below zero does not wrap
    have le' : b.toNat ≤ a.toNat := UInt64.le_iff_toNat_le.mp le
    rw [Option.some.injEq, ← UInt64.toNat_inj, UInt64.toNat_sub_of_le _ _ le]
    omega
  · next above =>
    have above' : ¬ b.toNat ≤ a.toNat := fun le => above (UInt64.le_iff_toNat_le.mpr le)
    simp
    omega

/-- A checked product is the product, if there is one. -/
theorem mulChecked_eq_some : a.mulChecked b = some c ↔ c.toNat = a.toNat * b.toNat := by
  have fits := c.toNat_le_maxWord
  unfold mulChecked
  split
  · next le =>
    -- a product within the largest word does not wrap
    have small : a.toNat * b.toNat < 2 ^ 64 := by
      unfold maxWord at le
      omega
    rw [Option.some.injEq, ← UInt64.toNat_inj, UInt64.toNat_mul, Nat.mod_eq_of_lt small, eq_comm]
  · next above =>
    simp
    omega

end UInt64

namespace RingWallet

namespace Words

/-- A computation that gives a value for each item gives all of them. -/
private theorem mapM_eq_map {α β : Type} {f : α → Option β} {g : α → β} {items : List α}
    (each : ∀ a ∈ items, f a = some (g a)) : items.mapM f = some (items.map g) := by
  induction items with
  | nil => rfl
  | cons a rest ih =>
    rw [List.forall_mem_cons] at each
    rw [List.mapM_cons, each.1, ih each.2]
    rfl

/-! ### Parts of a payment -/

/-- The amount that one of several parts carries. -/
def partAmount (amount parts part : UInt64) : Option UInt64 := do
  let piece := amount / parts
  if (← part.addChecked 1) = parts then
    amount.subChecked (← piece.mulChecked (← parts.subChecked 1))
  else
    return piece

/-- The share of a part never leaves the words. -/
theorem partAmount_eq (amount : UInt64) {parts part : UInt64} (below : part.toNat < parts.toNat) :
    partAmount amount parts part = some (RingWallet.partAmount amount parts.toNat part.toNat) := by
  have fits := amount.toNat_le_maxWord
  have most := parts.toNat_le_maxWord
  have piece_eq : (amount / parts).toNat = amount.toNat / parts.toNat := UInt64.toNat_div _ _
  have small : amount.toNat / parts.toNat ≤ amount.toNat := Nat.div_le_self _ _
  -- all parts but the last carry no more than the amount
  have before : amount.toNat / parts.toNat * (parts.toNat - 1) ≤ amount.toNat :=
    Nat.le_trans (Nat.mul_le_mul_left _ (Nat.sub_le _ _)) (Nat.div_mul_le_self _ _)
  have next : part.addChecked 1 = some (.ofNat (part.toNat + 1)) :=
    UInt64.addChecked_eq_some.mpr (UInt64.toNat_ofNat_of_le_maxWord (by omega))
  have others : parts.subChecked 1 = some (.ofNat (parts.toNat - 1)) := by
    rw [UInt64.subChecked_eq_some, UInt64.toNat_ofNat_of_le_maxWord (by omega)]
    exact Nat.sub_add_cancel (by omega)
  have product : (amount / parts).mulChecked (.ofNat (parts.toNat - 1)) =
      some (.ofNat (amount.toNat / parts.toNat * (parts.toNat - 1))) := by
    rw [UInt64.mulChecked_eq_some, UInt64.toNat_ofNat_of_le_maxWord (by omega),
      UInt64.toNat_ofNat_of_le_maxWord (by omega), piece_eq]
  have rest : amount.subChecked (.ofNat (amount.toNat / parts.toNat * (parts.toNat - 1))) =
      some (.ofNat (amount.toNat - amount.toNat / parts.toNat * (parts.toNat - 1))) := by
    rw [UInt64.subChecked_eq_some, UInt64.toNat_ofNat_of_le_maxWord (by omega),
      UInt64.toNat_ofNat_of_le_maxWord (by omega)]
    omega
  have last_iff : UInt64.ofNat (part.toNat + 1) = parts ↔ part.toNat + 1 = parts.toNat := by
    rw [← UInt64.toNat_inj, UInt64.toNat_ofNat_of_le_maxWord (by omega)]
  unfold partAmount RingWallet.partAmount
  simp only [next, others, product, rest, last_iff, Option.bind_eq_bind, Option.bind_some]
  split
  · rfl
  · rw [← piece_eq, UInt64.ofNat_toNat]
    rfl

/-- One list of destinations for each part. -/
def spreadOver (destinations : List Destination) (parts : UInt64) :
    Option (List (List Destination)) :=
  let parts := if parts = 0 then 1 else parts
  (List.range parts.toNat).mapM fun part => destinations.mapM fun d => do
    return { d with amount := ← partAmount d.amount parts (.ofNat part) }

/-- Every payment can be spread over any number of parts. -/
theorem spreadOver_eq (destinations : List Destination) (parts : UInt64) :
    spreadOver destinations parts = some (RingWallet.spreadOver destinations parts.toNat) := by
  -- no parts count as one
  have most : (if parts = 0 then 1 else parts).toNat = max parts.toNat 1 := by
    split
    · next none => rw [none]; rfl
    · next some =>
      have : parts.toNat ≠ 0 := fun zero => some (UInt64.toNat_inj.mp zero)
      omega
  unfold spreadOver RingWallet.spreadOver
  generalize (if parts = 0 then 1 else parts) = count at most
  simp only []
  rw [← most]
  -- the part numbers are below the count, which is a word
  refine mapM_eq_map fun part mem => mapM_eq_map fun d _ => ?_
  have below := List.mem_range.mp mem
  have word := count.toNat_le_maxWord
  have part_eq : (UInt64.ofNat part).toNat = part :=
    UInt64.toNat_ofNat_of_le_maxWord (by omega)
  rw [partAmount_eq d.amount (by rw [part_eq]; exact below), part_eq]
  rfl

/-! ### Digits -/

/-- The pieces of what is left of an amount, in units of an order. -/
def piecesFrom (threshold amount order dust : UInt64) (handed : Bool) : Option (List Piece) :=
  if amount = 0 then some (dustPiece handed dust.toNat)
  else do
    let chunk ← (amount % 10).mulChecked order
    if dust.addSat chunk ≤ threshold then
      piecesFrom threshold (amount / 10) (order.mulSat 10) (← dust.addChecked chunk) handed
    else
      let rest ← piecesFrom threshold (amount / 10) (order.mulSat 10) dust (handed || dust ≠ 0)
      return dustPiece handed dust.toNat ++ (if chunk = 0 then [] else [.chunk chunk]) ++ rest
termination_by amount.toNat
decreasing_by
  all_goals
    have : amount.toNat ≠ 0 := fun zero => ‹¬ amount = 0› (UInt64.toNat_inj.mp zero)
    rw [UInt64.toNat_div]
    exact Nat.div_lt_self (by omega) (by decide)

/-- The loop over the digits does what it does in words. -/
theorem piecesFrom_of_decomposes {threshold amount order dust : UInt64} {handed : Bool}
    {ps : List Piece} (run : Decomposes threshold amount order dust handed ps) :
    piecesFrom threshold amount order dust handed = some ps := by
  induction run with
  | stop =>
    rw [piecesFrom]
    rfl
  -- the order and the amounts that are gathered stay words, as the relation says
  | gather more digit_eq within sum_eq later ih =>
    rw [piecesFrom, if_neg more, UInt64.mulChecked_eq_some.mpr digit_eq]
    simp only [Option.bind_eq_bind, Option.bind_some, if_pos within,
      UInt64.addChecked_eq_some.mpr sum_eq]
    exact ih
  | part more digit_eq beyond later ih =>
    rw [piecesFrom, if_neg more, UInt64.mulChecked_eq_some.mpr digit_eq]
    simp only [Option.bind_eq_bind, Option.bind_some, if_neg (UInt64.not_le.mpr beyond), ih]
    rfl

/-- The decimal pieces of an amount. -/
def pieces (amount threshold : UInt64) : Option (List Piece) :=
  piecesFrom threshold amount 1 0 false

/-- The pieces never leave the words. -/
theorem pieces_eq (amount threshold : UInt64) :
    pieces amount threshold = some (RingWallet.pieces amount threshold) :=
  piecesFrom_of_decomposes (decomposes_pieces amount threshold)

/-! ### Rounding -/

/-- Rounds an amount to one power of ten after the other, from `order` on, as long as the power is
up to ten times the threshold and the remainder within the threshold. The result is the last
remainder, and what it leaves of the amount. -/
def roundFrom (threshold amount order : UInt64) (positive : 0 < order.toNat)
    (dust kept : UInt64) : Option (UInt64 × UInt64) :=
  if threshold.mulSat 10 < order ∨ threshold < amount % order then some (dust, kept)
  else do
    let dust := amount % order
    let kept ← (amount / order).mulChecked order
    match next : order.mulChecked 10 with
    | none => return (dust, kept)
    | some order' =>
      have product : order'.toNat = order.toNat * 10 := UInt64.mulChecked_eq_some.mp next
      roundFrom threshold amount order' (by omega) dust kept
termination_by maxWord - order.toNat
decreasing_by
  have fits := order'.toNat_le_maxWord
  omega

/-- The dust of an amount that is rounded, and the rest. -/
def round (threshold amount : UInt64) : Option (UInt64 × UInt64) :=
  roundFrom threshold amount 10 (by decide) 0 amount

/-- Whether an order is one to round to. -/
def Passes (threshold amount order : Nat) : Prop :=
  amount % order ≤ threshold ∧ order ≤ min (threshold * 10) maxWord

/-- The loop in words stops where the order is none to round to. -/
theorem stops_iff {threshold amount order : UInt64} :
    (threshold.mulSat 10 < order ∨ threshold < amount % order) ↔
      ¬ Passes threshold.toNat amount.toNat order.toNat := by
  have ten : (10 : UInt64).toNat = 10 := rfl
  rw [UInt64.lt_iff_toNat_lt, UInt64.lt_iff_toNat_lt, UInt64.toNat_mulSat, UInt64.toNat_mod, ten,
    Passes]
  omega

/-- The loop goes up to the first power of ten that is none to round to, or does not fit a word. -/
theorem roundFrom_eq {threshold amount : UInt64} {count : Nat} (bound : count ≤ 19)
    (passes : ∀ k < count, Passes threshold.toNat amount.toNat (10 ^ (k + 1)))
    (ends : count < 19 → ¬ Passes threshold.toNat amount.toNat (10 ^ (count + 1))) (left : Nat) :
    ∀ k, left = count - k → k ≤ count → k < 19 → ∀ (order dust kept : UInt64)
      (positive : 0 < order.toNat), order.toNat = 10 ^ (k + 1) →
      dust.toNat = amount.toNat % 10 ^ k → kept.toNat = amount.toNat - amount.toNat % 10 ^ k →
      ∃ dust' kept', roundFrom threshold amount order positive dust kept = some (dust', kept') ∧
        dust'.toNat = amount.toNat % 10 ^ count ∧
        kept'.toNat = amount.toNat - amount.toNat % 10 ^ count := by
  induction left with
  | zero =>
    intro k eq le below order dust kept positive order_eq dust_eq kept_eq
    obtain rfl : k = count := by omega
    have stop := ends below
    rw [← order_eq, ← stops_iff] at stop
    rw [roundFrom, if_pos stop]
    exact ⟨dust, kept, rfl, dust_eq, kept_eq⟩
  | succ left ih =>
    intro k eq le below order dust kept positive order_eq dust_eq kept_eq
    have more : ¬ (threshold.mulSat 10 < order ∨ threshold < amount % order) := by
      rw [stops_iff, not_not, order_eq]
      exact passes k (by omega)
    have fits := amount.toNat_le_maxWord
    have remainder : (amount % order).toNat = amount.toNat % 10 ^ (k + 1) := by
      rw [UInt64.toNat_mod, order_eq]
    -- the quotient times the order is what the remainder leaves
    have whole := Nat.div_add_mod' amount.toNat (10 ^ (k + 1))
    have product : (amount / order).mulChecked order =
        some (.ofNat (amount.toNat / 10 ^ (k + 1) * 10 ^ (k + 1))) := by
      rw [UInt64.mulChecked_eq_some, UInt64.toNat_ofNat_of_le_maxWord (by omega),
        UInt64.toNat_div, order_eq]
    have rest : (UInt64.ofNat (amount.toNat / 10 ^ (k + 1) * 10 ^ (k + 1))).toNat =
        amount.toNat - amount.toNat % 10 ^ (k + 1) := by
      rw [UInt64.toNat_ofNat_of_le_maxWord (by omega)]
      omega
    rw [roundFrom, if_neg more, product]
    simp only [Option.bind_eq_bind, Option.bind_some]
    split
    · next full =>
      -- only the largest power of ten that fits a word has no next one
      have last : k + 1 = count := by
        refine Decidable.byContradiction fun early => ?_
        have short : 10 ^ (k + 2) ≤ 10 ^ 19 := Nat.pow_le_pow_right (by decide) (by omega)
        have word : 10 ^ 19 ≤ maxWord := by decide
        have ten : (10 : UInt64).toNat = 10 := rfl
        have next : order.mulChecked 10 = some (.ofNat (10 ^ (k + 2))) := by
          rw [UInt64.mulChecked_eq_some, UInt64.toNat_ofNat_of_le_maxWord (by omega), order_eq, ten,
            ← Nat.pow_succ]
        cases full.symm.trans next
      exact ⟨_, _, rfl, last ▸ remainder, last ▸ rest⟩
    · next order' next =>
      have product := UInt64.mulChecked_eq_some.mp next
      have order_eq' : order'.toNat = 10 ^ (k + 2) := by
        rw [product, order_eq, Nat.pow_succ 10 (k + 1)]
        rfl
      have word : k + 1 < 19 := by
        have most := order'.toNat_le_maxWord
        refine Nat.lt_of_not_le fun large => ?_
        have long : 10 ^ 20 ≤ 10 ^ (k + 2) := Nat.pow_le_pow_right (by decide) (by omega)
        unfold maxWord at most
        omega
      exact ih (k + 1) (by omega) (by omega) word order' _ _ _ order_eq' remainder rest

/-- What an amount is rounded to, and its dust, are found in words. -/
theorem round_eq (threshold amount : UInt64) :
    ∃ dust kept, round threshold amount = some (dust, kept) ∧
      dust.toNat = amount.toNat % roundingOrder amount.toNat threshold.toNat ∧
      kept.toNat =
        amount.toNat - amount.toNat % roundingOrder amount.toNat threshold.toNat := by
  obtain ⟨count, eq, all, ends⟩ := exists_takeWhile_range (fun k => Nat.pow 10 (k + 1))
    (fun order => decide (decide (amount.toNat % order ≤ threshold.toNat) = true ∧
      decide (order ≤ min (threshold.toNat * 10) maxWord) = true)) 19
  have order : roundingOrder amount.toNat threshold.toNat = 10 ^ count := by
    unfold roundingOrder roundingOrders
    rw [List.takeWhile_takeWhile, eq, getLastD_powers]
  rw [order]
  -- the loop goes up from the order 1, and stops where the list of powers is cut
  refine roundFrom_eq (by omega) ?_ ?_ count 0 rfl (by omega) (by decide) 10 0 amount (by decide)
    rfl (Nat.mod_one _).symm (by rw [Nat.pow_zero, Nat.mod_one, Nat.sub_zero])
  · intro k below
    have passed := all k below
    simp only [decide_eq_true_eq] at passed
    exact passed
  · intro below
    rcases ends with rfl | ⟨-, fails⟩
    · omega
    · have fails : ¬ (amount.toNat % 10 ^ (count + 1) ≤ threshold.toNat ∧
          10 ^ (count + 1) ≤ min (threshold.toNat * 10) maxWord) := by
        simpa using fails
      exact fails

/-! ### Outputs of one transaction -/

/-- The outputs for some destinations and the change, and the dust of the change. -/
def split (strategy : SplitStrategy) (destinations : List Destination) (change : Destination)
    (threshold : UInt64) : Option (List Destination × UInt64) :=
  match strategy with
  | .digits => do
    let paid ← destinations.mapM fun d => do
      return (← pieces d.amount threshold).map fun p => { d with amount := p.amount }
    let changePieces ← pieces change.amount threshold
    return (paid.flatten ++ (chunks changePieces).map fun amount => { change with amount },
      dustOf changePieces)
  | .whole => do
    let (dust, rounded) ← round threshold change.amount
    let kept := if rounded = 0 then [] else [{ change with amount := rounded }]
    return (destinations ++ kept, dust)

/-- Every request can be split, and any change. -/
theorem split_eq (strategy : SplitStrategy) (destinations : List Destination)
    (change : Destination) (threshold : UInt64) :
    split strategy destinations change threshold =
      some (strategy.split destinations change threshold) := by
  cases strategy with
  -- neither strategy leaves the words
  | digits =>
    unfold split
    simp only [pieces_eq, Option.bind_eq_bind, Option.bind_some, List.mapM_pure]
    rw [SplitStrategy.split, List.flatMap_def]
    rfl
  | whole =>
    obtain ⟨dust, kept, rounded, dust_eq, kept_eq⟩ := round_eq threshold change.amount
    unfold split
    simp only [rounded, Option.bind_eq_bind, Option.bind_some, SplitStrategy.split]
    rw [← kept_eq, ← dust_eq, UInt64.ofNat_toNat, UInt64.ofNat_toNat]
    simp only [← UInt64.toNat_inj]
    rfl

end Words

end RingWallet
