import Mathlib.Data.List.TakeWhile
import Mathlib.Order.Bounds.Basic
import RingWallet.Proofs.Spend.Split

/-!
# The dust of the change

The two ways to make outputs find the dust of the change in different ways. `digits` gathers digits
until one is too many; `whole` tries the powers of ten up to ten times the threshold, as far as they
fit a word (`exists_roundingOrder_eq`). Neither leaves more dust than the threshold
(`SplitStrategy.dust_le`). Below the largest power of ten that fits a word, both leave the same
dust: the largest remainder of the change by a power of ten that stays within the threshold
(`SplitStrategy.isGreatest_dust`).
-/

set_option autoImplicit false

namespace RingWallet

/-! ### The order to which a change is rounded -/

/-- The items of a mapped range up to the first one that fails a condition. -/
theorem exists_takeWhile_range {α : Type} (f : Nat → α) (p : α → Bool) (n : Nat) :
    ∃ m, ((List.range n).map f).takeWhile p = (List.range m).map f ∧
      (∀ k < m, p (f k) = true) ∧ (m = n ∨ m < n ∧ p (f m) = false) := by
  have bound : ((List.range n).map f).findIdx (fun a => !p a) ≤ ((List.range n).map f).length :=
    List.findIdx_le_length
  rw [List.length_map, List.length_range] at bound
  -- the list is cut at the first item that fails
  refine ⟨((List.range n).map f).findIdx fun a => !p a, ?_, ?_, ?_⟩
  · rw [List.takeWhile_eq_take_findIdx_not, ← List.map_take, List.take_range,
      Nat.min_eq_left bound]
  · intro k lt
    simpa using List.not_of_lt_findIdx lt
  · rcases Nat.eq_or_lt_of_le bound with all | lt
    · exact .inl all
    · have here : ((List.range n).map f).findIdx (fun a => !p a) <
          ((List.range n).map f).length := by
        rw [List.length_map, List.length_range]
        exact lt
      have fails := @List.findIdx_getElem _ _ _ here
      exact .inr ⟨lt, by simpa using fails⟩

/-- The last of the first powers of ten. -/
theorem getLastD_powers (count : Nat) :
    ((List.range count).map fun k => Nat.pow 10 (k + 1)).getLastD 1 = 10 ^ count := by
  cases count with
  | zero => rfl
  | succ count =>
    rw [List.range_succ, List.map_append, List.map_singleton, List.getLastD_concat]
    rfl

/-- A change is rounded to a power of ten whose remainder stays within the threshold. The powers end
there because they leave the words, because they are beyond the threshold, or because the next
remainder is. -/
theorem exists_roundingOrder_eq (amount threshold : Nat) :
    ∃ count, roundingOrder amount threshold = 10 ^ count ∧ amount % 10 ^ count ≤ threshold ∧
      (count = 19 ∨ threshold < 10 ^ count ∨ threshold < amount % 10 ^ (count + 1)) := by
  unfold roundingOrder roundingOrders
  -- the two cuts of the list of powers are one cut
  rw [List.takeWhile_takeWhile]
  obtain ⟨count, eq, all, ends⟩ := exists_takeWhile_range (fun k => Nat.pow 10 (k + 1))
    (fun order => decide (decide (amount % order ≤ threshold) = true ∧
      decide (order ≤ min (threshold * 10) maxWord) = true)) 19
  refine ⟨count, ?_, ?_, ?_⟩
  · rw [eq, getLastD_powers]
  · cases count with
    | zero =>
      rw [Nat.pow_zero, Nat.mod_one]
      exact Nat.zero_le _
    | succ count =>
      have last := all count (Nat.lt_succ_self count)
      simp only [decide_eq_true_eq] at last
      exact last.1
  · rcases ends with all | ⟨below, fails⟩
    · exact .inl all
    · -- a power of ten below the largest one fits a word
      have word : 10 ^ (count + 1) ≤ 10 ^ 19 := Nat.pow_le_pow_right (by decide) (by omega)
      have ten : 10 ^ (count + 1) = 10 ^ count * 10 := Nat.pow_succ _ _
      have largest : 10 ^ 19 ≤ maxWord := by decide
      have fails : ¬ (amount % 10 ^ (count + 1) ≤ threshold ∧
          10 ^ (count + 1) ≤ min (threshold * 10) maxWord) := by
        simpa using fails
      omega

namespace SplitStrategy

variable (strategy : SplitStrategy) (destinations : List Destination) (change : Destination)
  (threshold : UInt64)

/-- No way to make outputs leaves more dust than the threshold. -/
theorem dust_le : (strategy.split destinations change threshold).2 ≤ threshold := by
  rw [UInt64.le_iff_toNat_le]
  cases strategy with
  | digits => exact (isGreatest_dustOf_pieces change.amount threshold).1.1
  | whole =>
    obtain ⟨count, order, within, -⟩ :=
      exists_roundingOrder_eq change.amount.toNat threshold.toNat
    rw [toNat_dust_whole, order]
    exact within

/-- The dust of the change is its largest remainder by a power of ten within the threshold. -/
theorem isGreatest_dust (below : threshold.toNat < 10 ^ 19) :
    IsGreatest (remaindersWithin change.amount.toNat threshold.toNat)
      (strategy.split destinations change threshold).2.toNat := by
  cases strategy with
  | digits => exact isGreatest_dustOf_pieces change.amount threshold
  | whole =>
    obtain ⟨count, order, within, ends⟩ :=
      exists_roundingOrder_eq change.amount.toNat threshold.toNat
    rw [toNat_dust_whole, order]
    refine isGreatest_remainder within (.inr ?_)
    rcases ends with rfl | most
    · exact .inl below
    · exact most

end SplitStrategy

/-- Both ways to make outputs leave the same dust of any change, for any threshold below the largest
power of ten that fits a word, whatever is paid besides: the largest remainder of the change by a
power of ten that stays within the threshold. -/
theorem dust_digits_eq_dust_whole (destinations destinations' : List Destination)
    (change : Destination) (threshold : UInt64) (below : threshold.toNat < 10 ^ 19) :
    (SplitStrategy.digits.split destinations change threshold).2 =
        (SplitStrategy.whole.split destinations' change threshold).2 ∧
      IsGreatest {r | r ≤ threshold.toNat ∧ ∃ k, r = change.amount.toNat % 10 ^ k}
        (SplitStrategy.digits.split destinations change threshold).2.toNat := by
  have gathered := SplitStrategy.digits.isGreatest_dust destinations change threshold below
  have rounded := SplitStrategy.whole.isGreatest_dust destinations' change threshold below
  exact ⟨UInt64.toNat_inj.mp (gathered.unique rounded), gathered⟩

/-- A change of 4050321 with a threshold of 50000: the next remainder would be 50321. -/
theorem dust_digits_eq_dust_whole_of_321 :
    (50000 : UInt64).toNat < 10 ^ 19 ∧
      (SplitStrategy.digits.split [] ⟨4050321, default⟩ 50000).2 = 321 ∧
      (SplitStrategy.whole.split [] ⟨4050321, default⟩ 50000).2 = 321 ∧
      IsGreatest {r | r ≤ 50000 ∧ ∃ k, r = 4050321 % 10 ^ k} 321 := by
  have below : (50000 : UInt64).toNat < 10 ^ 19 := by decide
  have dust : (SplitStrategy.digits.split [] ⟨4050321, default⟩ 50000).2 = 321 := by
    decide +kernel
  obtain ⟨same, greatest⟩ := dust_digits_eq_dust_whole [] [] ⟨4050321, default⟩ 50000 below
  rw [dust] at same greatest
  exact ⟨below, dust, same.symm, greatest⟩

/-- The bound on the threshold is the best: no word is a larger power of ten, by which the second
way would have to round. -/
example : (SplitStrategy.digits.split [] ⟨10 ^ 19, default⟩ (10 ^ 19)).2 = 10 ^ 19 ∧
    (SplitStrategy.whole.split [] ⟨10 ^ 19, default⟩ (10 ^ 19)).2 = 0 := by
  decide +kernel

end RingWallet
