import Mathlib.Algebra.Group.Nat.Defs
import Mathlib.Data.Nat.Log
import RingWallet.Wallet.History

/-!
# The shape of a fingerprint

The loop behind a fingerprint has three counters: the rounds made, the last step, and the next
distance from the end of the chain. After `k` rounds they are `k`, `History.stepAt k` and
`History.distanceAt k` (`History.fingerprintDistances_at`), so that the distances are 1 to 10 and
then 9 more than the powers of two. The loop stops before round `History.roundsFor n` of a chain of
`n` ids, which is logarithmic in `n`; `History.Walks` is the loop without any bound on its rounds.

`shape_of_fingerprint` says which heights a fingerprint lists, that all of them lie in the chain,
that each is listed once, from the newest down to the first one, and how many there are at most.
-/

set_option autoImplicit false

namespace RingWallet

namespace History

/-! ### The counters -/

/-- The distance at which a round stands: one more for each of the first ten, and then 9 more than a
power of two. -/
def distanceAt (round : Nat) : Nat := if round < 10 then round + 1 else 9 + 2 ^ (round - 9)

/-- The last step before a round: it doubles from the eleventh round on. -/
def stepAt (round : Nat) : Nat := 2 ^ (round - 10)

/-- The distance is still within the ten steps of one before the eleventh round. -/
theorem distanceAt_succ_of_lt {round : Nat} (early : round < 10) :
    distanceAt (round + 1) = distanceAt round + 1 ∧ stepAt (round + 1) = stepAt round := by
  unfold distanceAt stepAt
  have step : round + 1 - 10 = 0 ∧ round - 10 = 0 := by omega
  rw [step.1, step.2, if_pos early]
  refine ⟨?_, rfl⟩
  split
  · rfl
  · -- the tenth step of one leads to 9 + 2
    obtain rfl : round = 9 := by omega
    rfl

/-- From then on the step doubles, and so does what the distance has above 9. -/
theorem distanceAt_succ_of_le {round : Nat} (late : 10 ≤ round) :
    distanceAt (round + 1) = distanceAt round + 2 * stepAt round ∧
      stepAt (round + 1) = 2 * stepAt round := by
  obtain ⟨k, rfl⟩ := Nat.exists_eq_add_of_le late
  unfold distanceAt stepAt
  have exponents : 10 + k + 1 - 9 = k + 2 ∧ 10 + k - 9 = k + 1 ∧ 10 + k + 1 - 10 = k + 1 ∧
      10 + k - 10 = k := by omega
  rw [if_neg (by omega), if_neg (by omega), exponents.1, exponents.2.1, exponents.2.2.1,
    exponents.2.2.2, Nat.pow_succ 2 (k + 1), Nat.pow_succ 2 k]
  omega

/-- Every distance is larger than the one before it. -/
theorem distanceAt_lt_succ (round : Nat) : distanceAt round < distanceAt (round + 1) := by
  rcases Nat.lt_or_ge round 10 with early | late
  · rw [(distanceAt_succ_of_lt early).1]
    exact Nat.lt_succ_self _
  · have positive : 0 < stepAt round := Nat.two_pow_pos _
    rw [(distanceAt_succ_of_le late).1]
    omega

/-- Every round stands further away from the end than the ones before it. -/
theorem strictMono_distanceAt : StrictMono distanceAt :=
  strictMono_nat_of_lt_succ distanceAt_lt_succ

/-- The distances are 1 to 10 and those that are 9 more than a power of two from 2 on. -/
theorem exists_distanceAt_eq {d : Nat} :
    (∃ round, distanceAt round = d) ↔ (1 ≤ d ∧ d ≤ 10) ∨ ∃ j, 1 ≤ j ∧ d = 9 + 2 ^ j := by
  constructor
  · rintro ⟨round, rfl⟩
    unfold distanceAt
    -- the first ten rounds go down one by one, and the later ones double
    split
    · next early => exact .inl ⟨by omega, by omega⟩
    · next late => exact .inr ⟨round - 9, by omega, rfl⟩
  · rintro (⟨positive, near⟩ | ⟨j, positive, rfl⟩)
    · refine ⟨d - 1, ?_⟩
      unfold distanceAt
      rw [if_pos (by omega)]
      omega
    · refine ⟨j + 9, ?_⟩
      unfold distanceAt
      rw [if_neg (by omega), Nat.add_sub_cancel]

/-- The rounds that the loop makes for a chain of `length` ids. -/
def roundsFor (length : Nat) : Nat :=
  if length ≤ 10 then length - 1 else 10 + Nat.log 2 (length - 10)

/-- A round is made exactly if its distance does not lead out of the chain. -/
theorem distanceAt_lt_iff {length round : Nat} :
    distanceAt round < length ↔ round < roundsFor length := by
  unfold distanceAt roundsFor
  by_cases short : length ≤ 10
  -- a short chain has no later round than its length
  · rw [if_pos short]
    split
    · omega
    · have positive : 0 < 2 ^ (round - 9) := Nat.two_pow_pos _
      omega
  · rw [if_neg short]
    split
    · omega
    · next late =>
      -- the later distances are 9 more than a power of two, so that the logarithm counts them
      have within := Nat.le_log_iff_pow_le (b := 2) (x := round - 9) (y := length - 10)
        Nat.one_lt_two (by omega)
      omega

/-! ### The loop -/

/-- The run of the loop, as long as it takes: distances are listed while they do not lead out of the
chain, with a step of one after each of the first ten and a doubled step after the others. -/
inductive Walks (length : Nat) : (count step distance : Nat) → List Nat → Prop
  | stop {count step distance : Nat} (beyond : length ≤ distance) :
    Walks length count step distance []
  | near {count step distance : Nat} {rest : List Nat} (inside : distance < length)
    (early : count < 10) (later : Walks length (count + 1) step (distance + 1) rest) :
    Walks length count step distance (distance :: rest)
  | far {count step distance : Nat} {rest : List Nat} (inside : distance < length)
    (late : 10 ≤ count)
    (later : Walks length (count + 1) (2 * step) (distance + 2 * step) rest) :
    Walks length count step distance (distance :: rest)

/-- A round that is made lists its distance, and then come the rounds after it. -/
theorem fingerprintDistances_at {length round : Nat} :
    fingerprintDistances length round (stepAt round) (distanceAt round) =
      if round < roundsFor length then
        distanceAt round ::
          fingerprintDistances length (round + 1) (stepAt (round + 1)) (distanceAt (round + 1))
      else [] := by
  have positive : 0 < stepAt round := Nat.two_pow_pos _
  rw [fingerprintDistances]
  by_cases made : round < roundsFor length
  · have inside : distanceAt round < length := distanceAt_lt_iff.mpr made
    rw [if_pos ⟨inside, positive⟩, if_pos made]
    -- the step doubles from the tenth round on
    split
    · next early => rw [(distanceAt_succ_of_lt early).1, (distanceAt_succ_of_lt early).2]
    · next late =>
      have late := Nat.le_of_not_lt late
      rw [(distanceAt_succ_of_le late).1, (distanceAt_succ_of_le late).2]
  · rw [if_neg (fun both => made (distanceAt_lt_iff.mp both.1)), if_neg made]

/-- From some round on, the loop lists the distances of the rounds that are left, and stops. -/
theorem walks_from (length left : Nat) {round : Nat} (rest : left = roundsFor length - round) :
    fingerprintDistances length round (stepAt round) (distanceAt round) =
        (List.range' round left).map distanceAt ∧
      Walks length round (stepAt round) (distanceAt round)
        ((List.range' round left).map distanceAt) := by
  induction left generalizing round with
  | zero =>
    have finished : ¬ round < roundsFor length := by omega
    rw [fingerprintDistances_at, if_neg finished]
    exact ⟨rfl, .stop (Nat.le_of_not_lt fun inside => finished (distanceAt_lt_iff.mp inside))⟩
  | succ left ih =>
    have made : round < roundsFor length := by omega
    obtain ⟨later, walks⟩ := @ih (round + 1) (by omega)
    rw [fingerprintDistances_at, if_pos made, later, List.range'_succ, List.map_cons]
    refine ⟨rfl, ?_⟩
    have inside : distanceAt round < length := distanceAt_lt_iff.mpr made
    -- the loop relation knows the two kinds of rounds
    rcases Nat.lt_or_ge round 10 with early | late
    · rw [(distanceAt_succ_of_lt early).1, (distanceAt_succ_of_lt early).2] at walks
      exact .near inside early walks
    · rw [(distanceAt_succ_of_le late).1, (distanceAt_succ_of_le late).2] at walks
      exact .far inside late walks

/-- The loop stops, and has listed the distances of its rounds. -/
theorem fingerprintDistances_eq (length : Nat) :
    fingerprintDistances length 0 1 1 = (List.range (roundsFor length)).map distanceAt ∧
      Walks length 0 1 1 (fingerprintDistances length 0 1 1) := by
  obtain ⟨distances, walks⟩ := @walks_from length (roundsFor length) 0 rfl
  rw [← List.range_eq_range'] at distances walks
  exact ⟨distances, distances.symm ▸ walks⟩

/-- A chain has no more than logarithmically many rounds. -/
theorem roundsFor_le (length : Nat) : roundsFor length ≤ 10 + Nat.log 2 length := by
  unfold roundsFor
  split
  · omega
  · have := Nat.log_mono_right (b := 2) (Nat.sub_le length 10)
    omega

/-! ### The heights -/

/-- The heights above the first one that the fingerprint of a chain of `length` ids lists. -/
def heightsAbove (length : Nat) : List Nat :=
  (fingerprintDistances length 0 1 1).map fun distance => length - distance

/-- They are the heights at the distances of the rounds. -/
theorem mem_heightsAbove {length i : Nat} :
    i ∈ heightsAbove length ↔ 0 < i ∧
      ∃ d, i + d = length ∧ ((1 ≤ d ∧ d ≤ 10) ∨ ∃ j, 1 ≤ j ∧ d = 9 + 2 ^ j) := by
  unfold heightsAbove
  rw [(fingerprintDistances_eq length).1, List.map_map, List.mem_map]
  constructor
  · rintro ⟨round, made, rfl⟩
    -- a height is the length less a distance
    have inside := distanceAt_lt_iff.mpr (List.mem_range.mp made)
    refine ⟨Nat.sub_pos_of_lt inside, distanceAt round, Nat.sub_add_cancel inside.le, ?_⟩
    exact exists_distanceAt_eq.mp ⟨round, rfl⟩
  · rintro ⟨above, d, sum, listed⟩
    obtain ⟨round, rfl⟩ := exists_distanceAt_eq.mpr listed
    refine ⟨round, List.mem_range.mpr (distanceAt_lt_iff.mp (by omega)), ?_⟩
    exact Nat.sub_eq_of_eq_add sum.symm

/-- They go down, and the first height is below all of them. -/
theorem pairwise_heightsAbove (length : Nat) :
    (heightsAbove length ++ [0]).Pairwise (· > ·) := by
  refine List.pairwise_append.mpr ⟨?_, List.pairwise_singleton _ _, ?_⟩
  · unfold heightsAbove
    rw [(fingerprintDistances_eq length).1, List.map_map, List.pairwise_map]
    -- a later round stands further away, so that its height is lower
    refine List.Pairwise.imp_of_mem (fun {a b} _ made before => ?_) List.pairwise_lt_range
    have further := strictMono_distanceAt before
    have inside := distanceAt_lt_iff.mpr (List.mem_range.mp made)
    show length - distanceAt b < length - distanceAt a
    omega
  · intro i mem j last
    rw [List.mem_singleton.mp last]
    exact (mem_heightsAbove.mp mem).1

/-- A chain of 30 ids is listed down to the distance 25. -/
example : heightsAbove 30 = [29, 28, 27, 26, 25, 24, 23, 22, 21, 20, 19, 17, 13, 5] := by
  unfold heightsAbove
  rw [(fingerprintDistances_eq 30).1]
  decide +kernel

/-- Above the first height a fingerprint has at most ten heights, and one more for each doubling of
the length of the chain. -/
theorem length_heightsAbove_le (length : Nat) :
    (heightsAbove length).length ≤ 10 + Nat.log 2 length := by
  unfold heightsAbove
  rw [(fingerprintDistances_eq length).1, List.length_map, List.length_map, List.length_range]
  exact roundsFor_le length

/-- A fingerprint lists the known ids at its heights. -/
theorem fingerprint_eq {h : History} (some : h.chain ≠ []) :
    h.fingerprint =
      ((heightsAbove h.chain.length ++ [0]).filterMap fun i => h.chain[i]?).filter
        fun id => !id.isNull := by
  have first : h.chain.take 1 = [0].filterMap fun i => h.chain[i]? := by
    obtain ⟨id, rest, chain⟩ := List.exists_cons_of_ne_nil some
    rw [chain]
    rfl
  unfold fingerprint heightsAbove
  rw [List.filterMap_append, ← first, List.filterMap_map]
  rfl

end History

/-- The loop behind a fingerprint stops. The fingerprint of no ids is empty. For a chain of `n` ids
it is the known ones among the ids at some heights, all of which lie in the chain. They go down, so
that none is listed twice, and end with the first height; the others are those at the distances 1 to
10 from the end, and at 9 more than the powers of two from 2 on, as far as they lie above the first
one. There are at most `12 + log₂ n` of them. -/
theorem shape_of_fingerprint (h : History) :
    let n := h.chain.length
    let distances := History.fingerprintDistances n 0 1 1
    let above := distances.map fun d => n - d
    let heights := above ++ [0]
    History.Walks n 0 1 1 distances ∧
      (n = 0 ∧ h.fingerprint = [] ∨
        0 < n ∧
        h.fingerprint = (heights.filterMap fun i => h.chain[i]?).filter (fun id => !id.isNull) ∧
        (∀ i ∈ heights, i < n) ∧
        heights.Pairwise (· > ·) ∧
        (∀ i, i ∈ above ↔ 0 < i ∧
          ∃ d, i + d = n ∧ ((1 ≤ d ∧ d ≤ 10) ∨ ∃ j, 1 ≤ j ∧ d = 9 + 2 ^ j)) ∧
        heights.length ≤ 12 + Nat.log 2 n ∧ h.fingerprint.length ≤ 12 + Nat.log 2 n) := by
  intro n distances above heights
  refine ⟨(History.fingerprintDistances_eq n).2, ?_⟩
  -- an empty chain has no fingerprint
  by_cases none : h.chain = []
  · have stops : distances = [] := by
      show History.fingerprintDistances h.chain.length 0 1 1 = []
      rw [none, (History.fingerprintDistances_eq _).1]
      rfl
    refine .inl ⟨List.length_eq_zero_iff.mpr none, ?_⟩
    show ((distances.filterMap _) ++ h.chain.take 1).filter _ = []
    rw [stops, none]
    rfl
  · have positive : 0 < n := List.length_pos_iff.mpr none
    have many : heights.length ≤ 12 + Nat.log 2 n := by
      have := History.length_heightsAbove_le n
      show (History.heightsAbove n ++ [0]).length ≤ 12 + Nat.log 2 n
      rw [List.length_append, List.length_singleton]
      omega
    have listed := History.fingerprint_eq none
    refine .inr ⟨positive, listed, ?_, History.pairwise_heightsAbove n,
      fun i => History.mem_heightsAbove, many, ?_⟩
    · intro i mem
      rcases List.mem_append.mp mem with inside | first
      · obtain ⟨-, d, sum, far⟩ := History.mem_heightsAbove.mp inside
        have distance : 0 < d := by
          rcases far with ⟨near, -⟩ | ⟨j, -, far⟩
          · exact near
          · exact far ▸ Nat.add_pos_left (by decide) _
        omega
      · rw [List.mem_singleton.mp first]
        exact positive
    -- the ids that are not known are left out
    · rw [listed]
      exact (List.length_filter_le _ _).trans ((List.length_filterMap_le _ _).trans many)

end RingWallet
