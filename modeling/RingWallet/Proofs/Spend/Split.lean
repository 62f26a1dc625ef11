import Mathlib.Data.List.Forall2
import RingWallet.Proofs.Spend.Digits

/-!
# What a split keeps

Splitting neither loses nor makes money. Both ways to split give each destination a share of the
outputs, which goes to its address and adds up to its amount; the rest of the outputs goes back and
is, with the dust, the change (`SplitStrategy.exists_shares`). So the outputs and the dust add up to
the destinations and the change (`SplitStrategy.exactSum_split`). None of the outputs is empty
(`SplitStrategy.amount_ne_zero_of_mem_split`).

`exists_amounts_of_spreadOver` says the same of a payment that is spread over several transactions:
what each of them pays to the destination at one position adds up to the amount of that destination.
-/

set_option autoImplicit false

namespace RingWallet

/-! ### What each destination gets -/

/-- Outputs that pay a destination. -/
structure Destination.PaidBy (d : Destination) (outputs : List Destination) : Prop where
  address : ∀ o ∈ outputs, o.address = d.address
  sum : exactSum (outputs.map Destination.amount) = d.amount.toNat

/-- A destination is paid by the pieces of its amount. -/
theorem Destination.paidBy_pieces (d : Destination) (threshold : UInt64) :
    d.PaidBy ((pieces d.amount threshold).map fun p => { d with amount := p.amount }) where
  address := by
    intro o mem
    obtain ⟨p, -, rfl⟩ := List.mem_map.mp mem
    rfl
  sum := by
    rw [List.map_map]
    exact exactSum_pieces d.amount threshold

/-- A destination is paid by itself. -/
theorem Destination.paidBy_self (d : Destination) : d.PaidBy [d] where
  address := by
    intro o mem
    rw [List.mem_singleton.mp mem]
  sum := Nat.add_zero _

section

variable {destinations : List Destination} {shares : List (List Destination)}

/-- The outputs that pay some destinations add up to them. -/
theorem exactSum_flatten_of_paidBy (paid : List.Forall₂ Destination.PaidBy destinations shares) :
    exactSum (shares.flatten.map Destination.amount) =
      exactSum (destinations.map Destination.amount) := by
  induction paid with
  | nil => rfl
  | cons first _ ih =>
    rw [List.flatten_cons, List.map_append, exactSum_append, List.map_cons, exactSum_cons,
      first.sum, ih]

/-- They go to the addresses of these destinations. -/
theorem exists_destination_of_paidBy (paid : List.Forall₂ Destination.PaidBy destinations shares)
    {o : Destination} (mem : o ∈ shares.flatten) : ∃ d ∈ destinations, d.address = o.address := by
  induction paid with
  | nil => cases mem
  | cons first _ ih =>
    rcases List.mem_append.mp mem with own | later
    · exact ⟨_, List.mem_cons_self, (first.address o own).symm⟩
    · obtain ⟨d, here, same⟩ := ih later
      exact ⟨d, List.mem_cons_of_mem _ here, same⟩

end

/-! ### The outputs of one transaction -/

namespace SplitStrategy

/-- The dust of a change that is rounded. -/
theorem toNat_dust_whole (destinations : List Destination) (change : Destination)
    (threshold : UInt64) :
    (whole.split destinations change threshold).2.toNat =
      change.amount.toNat % roundingOrder change.amount.toNat threshold.toNat := by
  have fits := change.amount.toNat_le_maxWord
  have le := Nat.mod_le change.amount.toNat
    (roundingOrder change.amount.toNat threshold.toNat)
  exact UInt64.toNat_ofNat_of_le_maxWord (by omega)

/-- The outputs of a split are shares of the destinations, and what goes back. -/
theorem exists_shares (strategy : SplitStrategy) (destinations : List Destination)
    (change : Destination) (threshold : UInt64) :
    ∃ shares back, (strategy.split destinations change threshold).1 = shares.flatten ++ back ∧
      List.Forall₂ Destination.PaidBy destinations shares ∧
      (∀ o ∈ back, o.address = change.address) ∧
      exactSum (back.map Destination.amount) +
        (strategy.split destinations change threshold).2.toNat = change.amount.toNat := by
  cases strategy with
  | digits =>
    -- each destination gets its pieces, and the chunks of the change go back
    refine ⟨destinations.map fun d => (pieces d.amount threshold).map fun p =>
        { d with amount := p.amount },
      (chunks (pieces change.amount threshold)).map fun amount => { change with amount },
      ?_, ?_, ?_, ?_⟩
    · rw [← List.flatMap_def]
      rfl
    · rw [List.forall₂_map_right_iff, List.forall₂_same]
      exact fun d _ => d.paidBy_pieces threshold
    · intro o mem
      obtain ⟨amount, -, rfl⟩ := List.mem_map.mp mem
      rfl
    · have same (amounts : List UInt64) : (amounts.map fun amount =>
          ({ change with amount } : Destination)).map Destination.amount = amounts := by
        rw [List.map_map]
        exact List.map_id amounts
      rw [same]
      exact exactSum_chunks_add_dustOf change.amount threshold
  | whole =>
    -- what is rounded away from the change does not go back
    have fits := change.amount.toNat_le_maxWord
    have le : change.amount.toNat % roundingOrder change.amount.toNat threshold.toNat ≤
        change.amount.toNat := Nat.mod_le _ _
    generalize rounded : change.amount.toNat -
      change.amount.toNat % roundingOrder change.amount.toNat threshold.toNat = kept
    refine ⟨destinations.map fun d => [d],
      if kept = 0 then [] else [{ change with amount := .ofNat kept }], ?_, ?_, ?_, ?_⟩
    · rw [← List.flatMap_def, List.flatMap_singleton', ← rounded]
      rfl
    · rw [List.forall₂_map_right_iff, List.forall₂_same]
      exact fun d _ => d.paidBy_self
    · intro o mem
      split at mem
      · cases mem
      · rw [List.mem_singleton.mp mem]
    · rw [toNat_dust_whole]
      split
      · rw [List.map_nil, exactSum_nil]
        omega
      · rw [List.map_singleton, exactSum_cons, exactSum_nil,
          UInt64.toNat_ofNat_of_le_maxWord (by omega)]
        omega

/-- The outputs of a split and the dust add up to the destinations and the change. -/
theorem exactSum_split (strategy : SplitStrategy) (destinations : List Destination)
    (change : Destination) (threshold : UInt64) :
    exactSum ((strategy.split destinations change threshold).1.map Destination.amount) +
        (strategy.split destinations change threshold).2.toNat =
      exactSum (destinations.map Destination.amount) + change.amount.toNat := by
  obtain ⟨shares, back, outputs, paid, -, rest⟩ :=
    strategy.exists_shares destinations change threshold
  rw [outputs, List.map_append, exactSum_append, exactSum_flatten_of_paidBy paid]
  omega

/-- No output of a split is empty, if no destination is. -/
theorem amount_ne_zero_of_mem_split {strategy : SplitStrategy} {destinations : List Destination}
    {change : Destination} {threshold : UInt64} (present : ∀ d ∈ destinations, d.amount ≠ 0) :
    ∀ d ∈ (strategy.split destinations change threshold).1, d.amount ≠ 0 := by
  intro d mem
  cases strategy with
  -- every piece of an amount is nonzero
  | digits =>
    rcases List.mem_append.mp mem with paid | back
    · obtain ⟨d', -, piece⟩ := List.mem_flatMap.mp paid
      obtain ⟨p, here, rfl⟩ := List.mem_map.mp piece
      exact amount_ne_zero_of_mem_pieces here
    · obtain ⟨amount, here, rfl⟩ := List.mem_map.mp back
      exact amount_ne_zero_of_mem_pieces (mem_chunks.mp here)
  | whole =>
    -- the change is kept in one piece, unless nothing is left of it
    rcases List.mem_append.mp mem with paid | back
    · exact present d paid
    · split at back
      · cases back
      · next kept =>
        obtain rfl := List.mem_singleton.mp back
        have fits := change.amount.toNat_le_maxWord
        exact ofNat_ne_zero (by omega) kept

end SplitStrategy

/-! ### Several transactions -/

/-- The parts of an amount add up to it. -/
theorem exactSum_partAmount (amount : UInt64) {parts : Nat} (positive : 0 < parts) :
    exactSum ((List.range parts).map (partAmount amount parts)) = amount.toNat := by
  obtain ⟨others, rfl⟩ := Nat.exists_eq_add_one_of_ne_zero (Nat.ne_of_gt positive)
  have fits := amount.toNat_le_maxWord
  have small : amount.toNat / (others + 1) ≤ amount.toNat := Nat.div_le_self _ _
  have whole : others * (amount.toNat / (others + 1)) ≤ amount.toNat :=
    Nat.le_trans (Nat.mul_le_mul_right _ (Nat.le_succ others)) (Nat.mul_div_le _ _)
  -- all parts but the last are equal pieces
  have equal : (List.range others).map (partAmount amount (others + 1)) =
      List.replicate others (.ofNat (amount.toNat / (others + 1))) := by
    rw [List.eq_replicate_iff]
    refine ⟨by simp, ?_⟩
    intro piece mem
    obtain ⟨part, below, rfl⟩ := List.mem_map.mp mem
    have early : part + 1 ≠ others + 1 := by
      have := List.mem_range.mp below
      omega
    simp only [partAmount, if_neg early]
  have last : (partAmount amount (others + 1) others).toNat =
      amount.toNat - others * (amount.toNat / (others + 1)) := by
    simp only [partAmount, if_true, Nat.add_sub_cancel, Nat.mul_comm _ others]
    exact UInt64.toNat_ofNat_of_le_maxWord (by omega)
  rw [List.range_succ, List.map_append, exactSum_append, equal, exactSum_replicate,
    UInt64.toNat_ofNat_of_le_maxWord (by omega), List.map_singleton, exactSum_cons, last]
  simp
  omega

/-- There are as many parts as are asked for, and one at least. -/
@[simp] theorem length_spreadOver (destinations : List Destination) (parts : Nat) :
    (spreadOver destinations parts).length = max parts 1 := by
  simp [spreadOver]

/-- Each list of a spread has a part of the destination at a position, for the same address, and
these parts add up to it. -/
theorem exists_amounts_of_spreadOver {destinations : List Destination} {i : Nat} {d : Destination}
    (here : destinations[i]? = some d) (parts : Nat) :
    ∃ amounts, (spreadOver destinations parts).map (fun ds => ds[i]?) =
        amounts.map (fun amount => some ⟨amount, d.address⟩) ∧
      exactSum amounts = d.amount.toNat := by
  refine ⟨(List.range (max parts 1)).map (partAmount d.amount (max parts 1)), ?_,
    exactSum_partAmount d.amount (by omega)⟩
  simp [spreadOver, here]

end RingWallet
