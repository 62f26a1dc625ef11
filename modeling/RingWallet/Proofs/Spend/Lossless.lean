import RingWallet.Proofs.Spend.Dust
import RingWallet.Proofs.Spend.Refusal

/-!
# Splitting loses nothing

`split_conserves` puts together what the digits of an amount and the outputs of a split have in
common: nothing is lost on the way, and what is left as dust stays within the threshold. A build
checks that it does, and never fails over it (`Build.ne_invalidDust_of_build`).
-/

set_option autoImplicit false

namespace RingWallet

open WalletM

/-- No build fails because its dust is beyond the threshold. -/
theorem Build.ne_invalidDust_of_build {S : Suite} {σ : Type} {env : Environment σ}
    {r : TransferRequest} {s t : Session σ} {e : WalletError}
    (run : exec (build S env r) s = (.error e, t)) (dust threshold : UInt64) :
    e ≠ .consistency (.invalidDust dust threshold) := by
  rintro rfl
  cases refusal_of_build run with
  | daemon blamed => cases blamed
  | source at_index fails =>
    rcases cases_of_sourceOf_eq_error fails with same | ⟨cause, same⟩ | ⟨hash, same⟩ <;> cases same
  | @dust change outputs _ leaves beyond =>
    have within := r.strategy.dust_le r.destinations change r.dustPolicy.threshold
    rw [leaves] at within
    exact UInt64.not_lt.mpr within beyond

/-- Taking amounts apart loses nothing. The loop over the digits of an amount ends for every amount
and threshold without leaving the words. It hands out chunks that go up, each of them a digit other
than zero times a power of ten, and at most once a dust that is not zero and stays within the
threshold; together they are the amount. Both ways to make outputs give each destination outputs to
its own address that add up to its amount. The rest of the outputs goes back and is, with the dust,
the change. If nobody is paid nothing then no output is empty. The dust stays within the threshold,
so no build fails because it does not, for any wallet and request and whatever the daemon does. -/
theorem split_conserves :
    (∀ amount threshold : UInt64,
      (∀ ps, Decomposes threshold amount 1 0 false ps ↔ ps = pieces amount threshold) ∧
      (chunks (pieces amount threshold)).Pairwise (· < ·) ∧
      (∀ c ∈ chunks (pieces amount threshold), ∃ digit position,
        0 < digit ∧ digit < 10 ∧ c.toNat = digit * 10 ^ position) ∧
      (dusts (pieces amount threshold)).length ≤ 1 ∧
      (∀ d ∈ dusts (pieces amount threshold), d ≠ 0 ∧ d ≤ threshold) ∧
      exactSum (chunks (pieces amount threshold)) + exactSum (dusts (pieces amount threshold)) =
        amount.toNat) ∧
    (∀ (strategy : SplitStrategy) (destinations : List Destination) (change : Destination)
        (threshold dust : UInt64) (outputs : List Destination),
      (∀ d ∈ destinations, d.amount ≠ 0) →
      strategy.split destinations change threshold = (outputs, dust) →
      exactSum (outputs.map Destination.amount) + dust.toNat =
        exactSum (destinations.map Destination.amount) + change.amount.toNat ∧
      (∃ shares back, outputs = shares.flatten ++ back ∧
        List.Forall₂ Destination.PaidBy destinations shares ∧
        (∀ o ∈ back, o.address = change.address) ∧
        exactSum (back.map Destination.amount) + dust.toNat = change.amount.toNat) ∧
      (∀ o ∈ outputs, o.amount ≠ 0) ∧ dust ≤ threshold) ∧
    ∀ (S : Suite) {σ : Type} (env : Environment σ) (r : TransferRequest) (s t : Session σ)
      (dust threshold : UInt64), exec (build S env r) s ≠
        (.error (.consistency (.invalidDust dust threshold)), t) := by
  refine ⟨?_, ?_, ?_⟩
  · intro amount threshold
    refine ⟨fun ps => decomposes_iff, pairwise_chunks_pieces amount threshold, ?_,
      length_dusts_pieces_le amount threshold, fun d mem => of_mem_dusts_pieces mem, ?_⟩
    · intro c mem
      obtain ⟨position, present, value⟩ := exists_digit_of_mem_chunks mem
      exact ⟨_, position, Nat.pos_of_ne_zero present, Nat.mod_lt _ (by decide), value⟩
    · rw [exactSum_chunks_add_dusts, exactSum_pieces]
  · intro strategy destinations change threshold dust outputs positive splits
    have total := strategy.exactSum_split destinations change threshold
    have shares := strategy.exists_shares destinations change threshold
    have present : ∀ o ∈ (strategy.split destinations change threshold).1, o.amount ≠ 0 :=
      SplitStrategy.amount_ne_zero_of_mem_split positive
    have within := strategy.dust_le destinations change threshold
    -- the four facts are about the split that was run
    rw [splits] at total shares present within
    exact ⟨total, shares, present, within⟩
  · intro S σ env r s t dust threshold run
    exact Build.ne_invalidDust_of_build run dust threshold rfl

/-- A payment of 1050 and a change of 4321, where amounts up to 100 are dust. -/
theorem split_conserves_of_1050 :
    (∀ d ∈ [(⟨1050, default⟩ : Destination)], d.amount ≠ 0) ∧
      SplitStrategy.digits.split [⟨1050, default⟩] ⟨4321, default⟩ 100 =
        ([⟨50, default⟩, ⟨1000, default⟩, ⟨300, default⟩, ⟨4000, default⟩], 21) ∧
      ∃ shares back, [⟨50, default⟩, ⟨1000, default⟩, ⟨300, default⟩, ⟨4000, default⟩] =
          shares.flatten ++ back ∧
        List.Forall₂ Destination.PaidBy [⟨1050, default⟩] shares ∧
        exactSum (back.map Destination.amount) + 21 = 4321 := by
  have positive : ∀ d ∈ [(⟨1050, default⟩ : Destination)], d.amount ≠ 0 := by decide
  have splits : SplitStrategy.digits.split [⟨1050, default⟩] ⟨4321, default⟩ 100 =
      ([⟨50, default⟩, ⟨1000, default⟩, ⟨300, default⟩, ⟨4000, default⟩], 21) := by
    decide +kernel
  obtain ⟨-, ⟨shares, back, eq, paid, -, sum⟩, -⟩ := split_conserves.2.1 _ _ _ _ _ _ positive splits
  exact ⟨positive, splits, shares, back, eq, paid, sum⟩

end RingWallet
