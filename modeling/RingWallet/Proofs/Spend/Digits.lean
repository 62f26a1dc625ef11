import Mathlib.Order.Bounds.Defs
import RingWallet.Proofs.Support.Sums
import RingWallet.Spend.Destination

/-!
# The digits of an amount

Which pieces an amount is taken apart into: `exists_pieces_eq`. The low digits, as many as stay
within the threshold, are the dust, and each digit above them that is not zero is a chunk of its
own. The rest follows from this form. The chunks go up (`pairwise_chunks_pieces`), each is a digit
times a power of ten (`exists_digit_of_mem_chunks`), and dust is handed out at most once
(`length_dusts_pieces_le`). No piece is empty (`amount_ne_zero_of_mem_pieces`), and together they
are the amount (`exactSum_pieces`). The dust is the largest remainder of the amount by a power of
ten that stays within the threshold (`isGreatest_dustOf_pieces`).

The form rests on one fact about the loop over the digits: once a digit is too large for the dust,
every later one except zero is too, so that nothing is gathered after that
(`piecesFrom_eq_chunksFrom`).

The pieces are defined on numbers. `Decomposes` is the loop that makes them, in words: a digit is
multiplied by its order and added to the dust, and neither may leave the words. `decomposes_iff`
says that this loop runs to its end for every amount and threshold and gives these pieces.
-/

set_option autoImplicit false

namespace RingWallet

/-! ### Digits and remainders -/

/-- The digit of an amount at a position, times its power of ten. -/
def digitAt (amount position : Nat) : Nat := amount / 10 ^ position % 10 * 10 ^ position

/-- The digit at a position is what the remainder by the next power of ten has more. -/
theorem mod_pow_add_digitAt (amount position : Nat) :
    amount % 10 ^ position + digitAt amount position = amount % 10 ^ (position + 1) := by
  rw [Nat.mod_pow_succ, digitAt, Nat.mul_comm (10 ^ position)]

/-- A digit, with its zeros, is no more than the number. -/
theorem digitAt_le (amount position : Nat) : digitAt amount position ≤ amount := by
  have split := mod_pow_add_digitAt amount position
  have bound := Nat.mod_le amount (10 ^ (position + 1))
  omega

/-- A digit, with its zeros, stays below the next power of ten. -/
theorem digitAt_lt (amount position : Nat) : digitAt amount position < 10 ^ (position + 1) := by
  have split := mod_pow_add_digitAt amount position
  have bound : amount % 10 ^ (position + 1) < 10 ^ (position + 1) :=
    Nat.mod_lt _ (Nat.pow_pos (by decide))
  omega

/-- A digit that is not zero is at least one unit of its order. -/
theorem le_digitAt {amount position : Nat} (present : digitAt amount position ≠ 0) :
    10 ^ position ≤ digitAt amount position :=
  Nat.le_mul_of_pos_left _ (Nat.pos_of_ne_zero (Nat.ne_zero_of_mul_ne_zero_left present))

/-- Remainders by larger powers of ten are larger. -/
theorem mod_pow_mono (amount : Nat) {i j : Nat} (le : i ≤ j) :
    amount % 10 ^ i ≤ amount % 10 ^ j := by
  have divides : 10 ^ i ∣ 10 ^ j := Nat.pow_dvd_pow 10 le
  rw [← Nat.mod_mod_of_dvd amount divides]
  exact Nat.mod_le _ _

/-- The remainders of an amount by powers of ten that stay within a threshold. -/
def remaindersWithin (amount threshold : Nat) : Set Nat :=
  {r | r ≤ threshold ∧ ∃ k, r = amount % 10 ^ k}

/-- A remainder is the largest one within the threshold if it is the whole amount, if the threshold
has no digit at the next position, or if the next remainder is beyond the threshold. -/
theorem isGreatest_remainder {amount threshold count : Nat}
    (within : amount % 10 ^ count ≤ threshold)
    (most : amount < 10 ^ count ∨ threshold < 10 ^ count ∨ threshold < amount % 10 ^ (count + 1)) :
    IsGreatest (remaindersWithin amount threshold) (amount % 10 ^ count) := by
  refine ⟨⟨within, count, rfl⟩, ?_⟩
  rintro _ ⟨fits, k, rfl⟩
  -- longer remainders are no smaller, so that only those above `count` have to be looked at
  rcases Nat.lt_or_ge count k with above | below
  · rcases most with all | short | beyond
    · rw [Nat.mod_eq_of_lt all]
      exact Nat.mod_le _ _
    · -- the remainder has no digit at the positions above
      have divides : 10 ^ count ∣ 10 ^ k := Nat.pow_dvd_pow 10 (Nat.le_of_lt above)
      have small : amount % 10 ^ k < 10 ^ count := by omega
      have same := Nat.mod_mod_of_dvd amount divides
      rw [Nat.mod_eq_of_lt small] at same
      exact Nat.le_of_eq same
    · have larger : amount % 10 ^ (count + 1) ≤ amount % 10 ^ k := mod_pow_mono amount above
      omega
  · exact mod_pow_mono amount below

/-! ### The pieces of an amount -/

/-- The chunks of the digits from a position on, up to the last digit that a word can have. -/
def chunksFrom (amount position : Nat) : List Piece :=
  ((List.range' position (20 - position)).filter fun i => digitAt amount i ≠ 0).map
    fun i => .chunk (.ofNat (digitAt amount i))

/-- The digits from a position on: the one that stands there, if it is not zero, and the others. -/
theorem chunksFrom_eq (amount : Nat) {position : Nat} (inside : position < 20) :
    chunksFrom amount position =
      (if digitAt amount position = 0 then [] else [.chunk (.ofNat (digitAt amount position))]) ++
        chunksFrom amount (position + 1) := by
  obtain ⟨left, eq⟩ : ∃ left, 20 - position = left + 1 := ⟨19 - position, by omega⟩
  have rest : 20 - (position + 1) = left := by omega
  unfold chunksFrom
  rw [eq, rest, List.range'_succ]
  by_cases none : digitAt amount position = 0
  · simp [none]
  · simp [none]

/-- At the end only the dust is left. -/
theorem piecesFrom_zero (threshold order dust : Nat) (handed : Bool) :
    piecesFrom threshold 0 order dust handed = dustPiece handed dust := by
  rw [piecesFrom, if_pos rfl]

/-- The dust is handed out once. -/
theorem dustPiece_again (handed : Bool) (dust : Nat) :
    dustPiece (handed || dust ≠ 0) dust = [] := by
  unfold dustPiece
  by_cases none : dust = 0
  · simp [none]
  · simp [none]

/-- The loop at a position whose digit is gathered. -/
theorem piecesFrom_of_le {threshold amount position dust : Nat} {handed : Bool}
    (within : dust + digitAt amount position ≤ threshold) :
    piecesFrom threshold (amount / 10 ^ position) (10 ^ position) dust handed =
      piecesFrom threshold (amount / 10 ^ (position + 1)) (10 ^ (position + 1))
        (dust + digitAt amount position) handed := by
  rw [Nat.pow_succ, ← Nat.div_div_eq_div_mul]
  by_cases gone : amount / 10 ^ position = 0
  · rw [digitAt, gone, Nat.zero_mod, Nat.zero_mul, Nat.add_zero, Nat.zero_div, piecesFrom_zero,
      piecesFrom_zero]
  · conv => lhs; rw [piecesFrom, if_neg gone]
    exact if_pos within

/-- The loop at a position whose digit is too large to be gathered. -/
theorem piecesFrom_of_lt {threshold amount position dust : Nat} {handed : Bool}
    (beyond : threshold < dust + digitAt amount position) :
    piecesFrom threshold (amount / 10 ^ position) (10 ^ position) dust handed =
      dustPiece handed dust ++
        (if digitAt amount position = 0 then [] else [.chunk (.ofNat (digitAt amount position))]) ++
        piecesFrom threshold (amount / 10 ^ (position + 1)) (10 ^ (position + 1)) dust
          (handed || dust ≠ 0) := by
  rw [Nat.pow_succ, ← Nat.div_div_eq_div_mul]
  by_cases gone : amount / 10 ^ position = 0
  · have once := dustPiece_again handed dust
    rw [digitAt, gone, Nat.zero_mod, Nat.zero_mul, Nat.zero_div, piecesFrom_zero, piecesFrom_zero,
      once, if_pos rfl, List.append_nil, List.append_nil]
  · conv => lhs; rw [piecesFrom, if_neg gone]
    exact if_neg (Nat.not_le.mpr beyond)

/-- A word has at most twenty digits. -/
theorem lt_pow_of_no_digits {amount position : Nat} (word : amount < 10 ^ 20)
    (none_left : 0 = 20 - position) : amount < 10 ^ position :=
  Nat.lt_of_lt_of_le word (Nat.pow_le_pow_right (by decide) (by omega))

/-- Above the twentieth digit there are no chunks. -/
theorem chunksFrom_of_no_digits (amount : Nat) {position : Nat} (none_left : 0 = 20 - position) :
    chunksFrom amount position = [] := by
  rw [chunksFrom, ← none_left]
  rfl

/-- Once a digit of the order is too large for the dust, every digit other than zero is a chunk. -/
theorem piecesFrom_eq_chunksFrom {threshold amount dust : Nat} {handed : Bool}
    (word : amount < 10 ^ 20) (done : handed = true ∨ dust = 0) (left : Nat) :
    ∀ position, left = 20 - position → threshold < dust + 10 ^ position →
      piecesFrom threshold (amount / 10 ^ position) (10 ^ position) dust handed =
        chunksFrom amount position := by
  have given : dustPiece handed dust = [] := if_pos done
  have still : (handed || decide (dust ≠ 0)) = handed := by
    rcases done with rfl | rfl
    · rfl
    · simp
  induction left with
  -- above the twentieth digit there is nothing left
  | zero =>
    intro position eq _
    have gone : amount / 10 ^ position = 0 := Nat.div_eq_of_lt (lt_pow_of_no_digits word eq)
    rw [gone, piecesFrom_zero, given, chunksFrom_of_no_digits amount eq]
  | succ left ih =>
    intro position eq beyond
    have order : 10 ^ (position + 1) = 10 * 10 ^ position := Nat.pow_succ'
    have later := ih (position + 1) (by omega) (by omega)
    rw [chunksFrom_eq amount (by omega), ← later]
    by_cases within : dust + digitAt amount position ≤ threshold
    · -- only the digit zero is small enough
      have none : digitAt amount position = 0 := by
        refine Decidable.byContradiction fun present => ?_
        have := le_digitAt present
        omega
      rw [piecesFrom_of_le within, none, Nat.add_zero]
      simp
    · rw [piecesFrom_of_lt (Nat.lt_of_not_le within), given, still, List.nil_append]

/-- The low digits are gathered up to some position, as many as stay within the threshold, and the
digits from there on are chunks. -/
theorem exists_piecesFrom_eq {threshold amount : Nat} (word : amount < 10 ^ 20) (left : Nat) :
    ∀ position, left = 20 - position → amount % 10 ^ position ≤ threshold →
      ∃ count, piecesFrom threshold (amount / 10 ^ position) (10 ^ position)
          (amount % 10 ^ position) false =
            dustPiece false (amount % 10 ^ count) ++ chunksFrom amount count ∧
        amount % 10 ^ count ≤ threshold ∧
        (amount < 10 ^ count ∨ threshold < amount % 10 ^ (count + 1)) := by
  induction left with
  | zero =>
    intro position eq within
    -- above the twentieth digit there is nothing left
    have small := lt_pow_of_no_digits word eq
    refine ⟨position, ?_, within, .inl small⟩
    rw [Nat.div_eq_of_lt small, piecesFrom_zero, chunksFrom_of_no_digits amount eq, List.append_nil]
  | succ left ih =>
    intro position eq within
    have split := mod_pow_add_digitAt amount position
    by_cases more : amount % 10 ^ (position + 1) ≤ threshold
    · obtain ⟨count, pieces, rest⟩ := ih (position + 1) (by omega) more
      refine ⟨count, ?_, rest⟩
      rw [piecesFrom_of_le (split ▸ more), split, pieces]
    · -- the digit is too large, and the dust ends below it
      refine ⟨position, ?_, within, .inr (by omega)⟩
      have done : (false || decide (amount % 10 ^ position ≠ 0)) = true ∨
          amount % 10 ^ position = 0 := by
        by_cases none : amount % 10 ^ position = 0
        · exact .inr none
        · exact .inl (by simp [none])
      have bound := digitAt_lt amount position
      rw [piecesFrom_of_lt (by omega),
        piecesFrom_eq_chunksFrom word done (19 - position) (position + 1) (by omega) (by omega),
        List.append_assoc, ← chunksFrom_eq amount (by omega)]

/-- The pieces of an amount: the low digits, as many as stay within the threshold, in one piece
unless they are zero, and each digit above them that is not zero. -/
theorem exists_pieces_eq (amount threshold : UInt64) :
    ∃ count, pieces amount threshold =
        dustPiece false (amount.toNat % 10 ^ count) ++ chunksFrom amount.toNat count ∧
      amount.toNat % 10 ^ count ≤ threshold.toNat ∧
      (amount.toNat < 10 ^ count ∨ threshold.toNat < amount.toNat % 10 ^ (count + 1)) := by
  have word : amount.toNat < 10 ^ 20 := by
    have := amount.toNat_lt
    omega
  have all := @exists_piecesFrom_eq threshold.toNat _ word 20 0 rfl (by simp [Nat.mod_one])
  rw [Nat.pow_zero, Nat.mod_one, Nat.div_one] at all
  exact all

/-! ### Chunks and dust -/

/-- The dust among some pieces. -/
def dusts (ps : List Piece) : List UInt64 :=
  ps.filterMap fun
    | .chunk _ => none
    | .dust amount => some amount

/-- The chunks are the amounts of the pieces that are chunks. -/
theorem mem_chunks {ps : List Piece} {amount : UInt64} :
    amount ∈ chunks ps ↔ .chunk amount ∈ ps := by
  rw [chunks, List.mem_filterMap]
  constructor
  · rintro ⟨p, here, eq⟩
    cases p with
    | chunk amount' =>
      obtain rfl := Option.some.inj eq
      exact here
    | dust amount' => cases eq
  · exact fun here => ⟨_, here, rfl⟩

/-- The dust is made of the amounts of the pieces that are dust. -/
theorem mem_dusts {ps : List Piece} {amount : UInt64} :
    amount ∈ dusts ps ↔ .dust amount ∈ ps := by
  rw [dusts, List.mem_filterMap]
  constructor
  · rintro ⟨p, here, eq⟩
    cases p with
    | chunk amount' => cases eq
    | dust amount' =>
      obtain rfl := Option.some.inj eq
      exact here
  · exact fun here => ⟨_, here, rfl⟩

/-- Chunks and dust together are all pieces. -/
theorem exactSum_chunks_add_dusts (ps : List Piece) :
    exactSum (chunks ps) + exactSum (dusts ps) = exactSum (ps.map Piece.amount) := by
  induction ps with
  | nil => rfl
  | cons p rest ih =>
    cases p with
    | chunk amount =>
      show amount.toNat + exactSum (chunks rest) + exactSum (dusts rest) =
        amount.toNat + exactSum (rest.map Piece.amount)
      omega
    | dust amount =>
      show exactSum (chunks rest) + (amount.toNat + exactSum (dusts rest)) =
        amount.toNat + exactSum (rest.map Piece.amount)
      omega

/-- What counts as the dust of some pieces is the first of them that is dust. -/
theorem dustOf_eq_headD (ps : List Piece) : dustOf ps = (dusts ps).headD 0 := by
  induction ps with
  | nil => rfl
  | cons p rest ih =>
    cases p with
    | chunk amount => exact ih
    | dust amount => rfl

/-- The chunks of two lists in a row. -/
@[simp] theorem chunks_append (ps qs : List Piece) : chunks (ps ++ qs) = chunks ps ++ chunks qs :=
  List.filterMap_append

/-- The dust of two lists in a row. -/
@[simp] theorem dusts_append (ps qs : List Piece) : dusts (ps ++ qs) = dusts ps ++ dusts qs :=
  List.filterMap_append

/-- A piece of dust is no chunk. -/
@[simp] theorem chunks_dustPiece (handed : Bool) (dust : Nat) :
    chunks (dustPiece handed dust) = [] := by
  unfold dustPiece
  split <;> rfl

/-- The dust is handed out once, and not if there is none. -/
theorem dusts_dustPiece (handed : Bool) (dust : Nat) :
    dusts (dustPiece handed dust) = if handed ∨ dust = 0 then [] else [.ofNat dust] := by
  unfold dustPiece
  split <;> rfl

/-- The chunks from a position on are the digits there that are not zero. -/
@[simp] theorem chunks_chunksFrom (amount position : Nat) :
    chunks (chunksFrom amount position) =
      ((List.range' position (20 - position)).filter fun i => digitAt amount i ≠ 0).map
        fun i => .ofNat (digitAt amount i) := by
  rw [chunks, chunksFrom, List.filterMap_map]
  exact congrFun List.filterMap_eq_map' _

/-- There is no dust among the digits. -/
@[simp] theorem dusts_chunksFrom (amount position : Nat) :
    dusts (chunksFrom amount position) = [] := by
  rw [dusts, chunksFrom, List.filterMap_map]
  exact List.filterMap_eq_nil_iff.mpr fun _ _ => rfl

/-! ### What the pieces hold -/

/-- The word of a number that is not zero. -/
theorem ofNat_ne_zero {n : Nat} (fits : n ≤ maxWord) (present : n ≠ 0) : UInt64.ofNat n ≠ 0 := by
  intro zero
  have := congrArg UInt64.toNat zero
  rw [UInt64.toNat_ofNat_of_le_maxWord fits] at this
  exact present this

/-- The word of a digit of a word. -/
theorem toNat_ofNat_digitAt (amount : UInt64) (position : Nat) :
    (UInt64.ofNat (digitAt amount.toNat position)).toNat = digitAt amount.toNat position := by
  have bound := digitAt_le amount.toNat position
  have fits := amount.toNat_le_maxWord
  exact UInt64.toNat_ofNat_of_le_maxWord (by omega)

/-- The chunks of an amount go up. -/
theorem pairwise_chunks_pieces (amount threshold : UInt64) :
    (chunks (pieces amount threshold)).Pairwise (· < ·) := by
  obtain ⟨count, eq, -⟩ := exists_pieces_eq amount threshold
  rw [eq, chunks_append, chunks_dustPiece, List.nil_append, chunks_chunksFrom, List.pairwise_map]
  have order : (List.range' count (20 - count)).Pairwise (· < ·) := List.pairwise_lt_range'
  refine List.Pairwise.imp_of_mem ?_ (order.filter _)
  intro i j _ mem before
  have present : digitAt amount.toNat j ≠ 0 := by simpa using (List.mem_filter.mp mem).2
  -- the lower digit ends below the order of the higher one
  have lower := digitAt_lt amount.toNat i
  have orders : 10 ^ (i + 1) ≤ 10 ^ j := Nat.pow_le_pow_right (by decide) before
  have higher := le_digitAt present
  rw [UInt64.lt_iff_toNat_lt, toNat_ofNat_digitAt, toNat_ofNat_digitAt]
  omega

/-- A chunk is a digit of the amount that is not zero, times its power of ten. -/
theorem exists_digit_of_mem_chunks {amount threshold : UInt64} {c : UInt64}
    (mem : c ∈ chunks (pieces amount threshold)) :
    ∃ position, amount.toNat / 10 ^ position % 10 ≠ 0 ∧
      c.toNat = amount.toNat / 10 ^ position % 10 * 10 ^ position := by
  obtain ⟨count, eq, -⟩ := exists_pieces_eq amount threshold
  rw [eq, chunks_append, chunks_dustPiece, List.nil_append, chunks_chunksFrom] at mem
  obtain ⟨position, here, rfl⟩ := List.mem_map.mp mem
  have present : digitAt amount.toNat position ≠ 0 := by simpa using (List.mem_filter.mp here).2
  refine ⟨position, ?_, toNat_ofNat_digitAt amount position⟩
  intro none
  exact present (by rw [digitAt, none, Nat.zero_mul])

/-- What is handed out as dust is not zero and stays within the threshold. -/
theorem of_mem_dusts_pieces {amount threshold : UInt64} {d : UInt64}
    (mem : d ∈ dusts (pieces amount threshold)) : d ≠ 0 ∧ d ≤ threshold := by
  obtain ⟨count, eq, within, -⟩ := exists_pieces_eq amount threshold
  rw [eq, dusts_append, dusts_chunksFrom, List.append_nil, dusts_dustPiece] at mem
  have fits := threshold.toNat_le_maxWord
  split at mem
  · cases mem
  · next present =>
    obtain rfl := List.mem_singleton.mp mem
    refine ⟨ofNat_ne_zero (by omega) fun none => present (.inr none), ?_⟩
    rw [UInt64.le_iff_toNat_le, UInt64.toNat_ofNat_of_le_maxWord (by omega)]
    exact within

/-- Dust is handed out once at most. -/
theorem length_dusts_pieces_le (amount threshold : UInt64) :
    (dusts (pieces amount threshold)).length ≤ 1 := by
  obtain ⟨count, eq, -⟩ := exists_pieces_eq amount threshold
  rw [eq, dusts_append, dusts_chunksFrom, List.append_nil, dusts_dustPiece]
  split
  · exact Nat.zero_le 1
  · exact Nat.le_refl 1

/-- No piece is empty. -/
theorem amount_ne_zero_of_mem_pieces {amount threshold : UInt64} {p : Piece}
    (mem : p ∈ pieces amount threshold) : p.amount ≠ 0 := by
  cases p with
  | chunk c =>
    obtain ⟨position, present, value⟩ := exists_digit_of_mem_chunks (mem_chunks.mpr mem)
    rintro (rfl : c = 0)
    exact Nat.mul_ne_zero present (Nat.ne_of_gt (Nat.pow_pos (by decide))) value.symm
  | dust d => exact (of_mem_dusts_pieces (mem_dusts.mpr mem)).1

/-- The digits from a position on are what the remainder is short of. -/
theorem mod_pow_add_exactSum_chunksFrom (amount : UInt64) (left : Nat) :
    ∀ position, left = 20 - position →
      amount.toNat % 10 ^ position +
        exactSum ((chunksFrom amount.toNat position).map Piece.amount) = amount.toNat := by
  have word := amount.toNat_lt
  induction left with
  | zero =>
    intro position eq
    have long : 10 ^ 20 ≤ 10 ^ position := Nat.pow_le_pow_right (by decide) (by omega)
    have empty : 20 - position = 0 := eq.symm
    rw [Nat.mod_eq_of_lt (by omega), chunksFrom, empty]
    rfl
  | succ left ih =>
    intro position eq
    have split := mod_pow_add_digitAt amount.toNat position
    -- the digit at the position is what is taken off
    have later := ih (position + 1) (by omega)
    have digit : exactSum (((if digitAt amount.toNat position = 0 then []
        else [Piece.chunk (.ofNat (digitAt amount.toNat position))]) : List Piece).map
          Piece.amount) = digitAt amount.toNat position := by
      by_cases none : digitAt amount.toNat position = 0
      · simp [none]
      · rw [if_neg none, List.map_singleton, exactSum_cons, exactSum_nil, Nat.add_zero]
        exact toNat_ofNat_digitAt amount position
    rw [chunksFrom_eq _ (by omega), List.map_append, exactSum_append, digit]
    omega

/-- The pieces of an amount add up to it. -/
theorem exactSum_pieces (amount threshold : UInt64) :
    exactSum ((pieces amount threshold).map Piece.amount) = amount.toNat := by
  obtain ⟨count, eq, within, -⟩ := exists_pieces_eq amount threshold
  have fits := threshold.toNat_le_maxWord
  -- the dust is a word, because it is within the threshold
  have dust : exactSum ((dustPiece false (amount.toNat % 10 ^ count)).map Piece.amount) =
      amount.toNat % 10 ^ count := by
    unfold dustPiece
    by_cases none : amount.toNat % 10 ^ count = 0
    · simp [none]
    · have word := UInt64.toNat_ofNat_of_le_maxWord (Nat.le_trans within fits)
      simp [none, Piece.amount, word]
  rw [eq, List.map_append, exactSum_append, dust]
  exact mod_pow_add_exactSum_chunksFrom amount (20 - count) count rfl

/-- The chunks of an amount and its dust add up to it. -/
theorem exactSum_chunks_add_dustOf (amount threshold : UInt64) :
    exactSum (chunks (pieces amount threshold)) + (dustOf (pieces amount threshold)).toNat =
      amount.toNat := by
  have once := length_dusts_pieces_le amount threshold
  have total := exactSum_chunks_add_dusts (pieces amount threshold)
  rw [exactSum_pieces] at total
  have first : (dustOf (pieces amount threshold)).toNat =
      exactSum (dusts (pieces amount threshold)) := by
    rw [dustOf_eq_headD]
    match dusts (pieces amount threshold), once with
    | [], _ => rfl
    | [dust], _ => rfl
  omega

/-- The dust of an amount is the largest remainder by a power of ten within the threshold. -/
theorem isGreatest_dustOf_pieces (amount threshold : UInt64) :
    IsGreatest (remaindersWithin amount.toNat threshold.toNat)
      (dustOf (pieces amount threshold)).toNat := by
  obtain ⟨count, eq, within, most⟩ := exists_pieces_eq amount threshold
  have fits := threshold.toNat_le_maxWord
  -- what is handed out as dust is the remainder itself
  have dust : (dustOf (pieces amount threshold)).toNat = amount.toNat % 10 ^ count := by
    rw [dustOf_eq_headD, eq, dusts_append, dusts_chunksFrom, List.append_nil, dusts_dustPiece]
    by_cases none : amount.toNat % 10 ^ count = 0
    · simp [none]
    · simp only [Bool.false_eq_true, none, or_self, if_false, List.headD_cons]
      exact UInt64.toNat_ofNat_of_le_maxWord (by omega)
  rw [dust]
  refine isGreatest_remainder within ?_
  rcases most with all | beyond
  · exact .inl all
  · exact .inr (.inr beyond)

/-! ### The loop in words -/

/-- The run of the loop in words, as long as it takes. A round takes the last digit times its order;
the next order stops at the largest word, and so does the sum that is compared with the threshold.
The digit and, if it is gathered, the new dust are exact: a round in which one of them does not fit
a word is no round of this loop. -/
inductive Decomposes (threshold : UInt64) :
    (amount order dust : UInt64) → (handed : Bool) → List Piece → Prop
  | stop {order dust : UInt64} {handed : Bool} :
    Decomposes threshold 0 order dust handed (dustPiece handed dust.toNat)
  | gather {amount order dust digit sum : UInt64} {handed : Bool} {rest : List Piece}
    (more : amount ≠ 0) (digit_eq : digit.toNat = (amount % 10).toNat * order.toNat)
    (within : dust.addSat digit ≤ threshold) (sum_eq : sum.toNat = dust.toNat + digit.toNat)
    (later : Decomposes threshold (amount / 10) (order.mulSat 10) sum handed rest) :
    Decomposes threshold amount order dust handed rest
  | part {amount order dust digit : UInt64} {handed : Bool} {rest : List Piece}
    (more : amount ≠ 0) (digit_eq : digit.toNat = (amount % 10).toNat * order.toNat)
    (beyond : threshold < dust.addSat digit)
    (later : Decomposes threshold (amount / 10) (order.mulSat 10) dust (handed || dust ≠ 0) rest) :
    Decomposes threshold amount order dust handed
      (dustPiece handed dust.toNat ++ (if digit = 0 then [] else [.chunk digit]) ++ rest)

/-- An amount is its last digit and ten times the rest, in units of any order. -/
theorem digit_add_rest (amount order : Nat) :
    amount % 10 * order + amount / 10 * (order * 10) = amount * order := by
  rw [Nat.mul_comm order 10, ← Nat.mul_assoc, ← Nat.add_mul, Nat.add_comm, Nat.mul_comm (_ / _),
    Nat.div_add_mod]

/-- The words of a round, if the digits that are left and the dust fit a word together. The order
may have stopped at the largest word, but not as long as a digit is left. -/
theorem exists_digit {number units gathered : Nat} {amount order : UInt64} (more : number ≠ 0)
    (value : amount.toNat = number) (saturated : order.toNat = min units maxWord)
    (fits : number * units + gathered ≤ maxWord) :
    ∃ digit : UInt64, digit.toNat = number % 10 * units ∧
      digit.toNat = (amount % 10).toNat * order.toNat ∧ (amount / 10).toNat = number / 10 ∧
      (order.mulSat 10).toNat = min (units * 10) maxWord ∧ amount ≠ 0 := by
  have rest := digit_add_rest number units
  have one : 1 * units ≤ number * units :=
    Nat.mul_le_mul_right units (Nat.one_le_iff_ne_zero.mpr more)
  -- the order is exact as long as a digit is left
  have exact_order : order.toNat = units := by omega
  have word : (UInt64.ofNat (number % 10 * units)).toNat = number % 10 * units :=
    UInt64.toNat_ofNat_of_le_maxWord (by omega)
  refine ⟨.ofNat (number % 10 * units), word, ?_, ?_, ?_, ?_⟩
  · rw [word, exact_order, UInt64.toNat_mod, value]
    rfl
  · rw [UInt64.toNat_div, value]
    rfl
  · rw [UInt64.toNat_mulSat, exact_order]
    rfl
  · rintro rfl
    exact more value.symm

/-- The loop runs to its end from every such round. -/
theorem decomposes_piecesFrom (threshold : UInt64) (number units gathered : Nat) (handed : Bool) :
    ∀ amount order dust : UInt64, amount.toNat = number → order.toNat = min units maxWord →
      dust.toNat = gathered → number * units + gathered ≤ maxWord →
      Decomposes threshold amount order dust handed
        (piecesFrom threshold.toNat number units gathered handed) := by
  fun_induction piecesFrom threshold.toNat number units gathered handed with
  | case1 units gathered handed =>
    intro amount order dust value _ dust_eq _
    obtain rfl : amount = 0 := UInt64.toNat_inj.mp value
    rw [← dust_eq]
    exact .stop
  | case2 number units gathered handed more chunk within ih =>
    intro amount order dust value saturated dust_eq fits
    have rest := digit_add_rest number units
    obtain ⟨digit, digit_eq, product, quotient, order_eq, present⟩ :=
      exists_digit more value saturated fits
    have digit_eq : digit.toNat = chunk := digit_eq
    have sum_eq : (UInt64.ofNat (gathered + chunk)).toNat = gathered + chunk :=
      UInt64.toNat_ofNat_of_le_maxWord (by omega)
    refine .gather present product ?_ ?_ (ih _ _ _ quotient order_eq sum_eq (by omega))
    · rw [UInt64.le_iff_toNat_le, UInt64.toNat_addSat, dust_eq, digit_eq]
      omega
    · rw [sum_eq, dust_eq, digit_eq]
  | case3 number units gathered handed more chunk beyond ih =>
    intro amount order dust value saturated dust_eq fits
    have rest := digit_add_rest number units
    obtain ⟨digit, digit_eq, product, quotient, order_eq, present⟩ :=
      exists_digit more value saturated fits
    have digit_eq : digit.toNat = chunk := digit_eq
    -- the digit is zero as a word if it is as a number, and the same holds of the dust
    have zero_iff : digit = 0 ↔ chunk = 0 := by
      rw [← digit_eq, ← UInt64.toNat_inj]
      rfl
    have none_iff : dust = 0 ↔ gathered = 0 := by
      rw [← dust_eq, ← UInt64.toNat_inj]
      rfl
    have later := ih _ _ _ quotient order_eq dust_eq (by omega)
    have still : (handed || decide (gathered ≠ 0)) = (handed || decide (dust ≠ 0)) := by
      simp only [ne_eq, none_iff]
    rw [still] at later ⊢
    have round := Decomposes.part present product ?_ later
    · rw [dust_eq] at round
      have same : UInt64.ofNat chunk = digit := by
        rw [← digit_eq, UInt64.ofNat_toNat]
      simp only [zero_iff] at round
      rw [same]
      exact round
    · have bound := threshold.toNat_le_maxWord
      rw [UInt64.lt_iff_toNat_lt, UInt64.toNat_addSat, dust_eq, digit_eq]
      omega

/-- What the loop hands out is determined by where it starts. -/
theorem Decomposes.unique {threshold amount order dust : UInt64} {handed : Bool}
    {ps qs : List Piece} (run : Decomposes threshold amount order dust handed ps)
    (other : Decomposes threshold amount order dust handed qs) : ps = qs := by
  induction run generalizing qs with
  | stop =>
    cases other with
    | stop => rfl
    | gather more => exact absurd rfl more
    | part more => exact absurd rfl more
  -- the digit decides whether it is gathered or handed out, so that both runs do the same
  | gather more digit_eq within sum_eq later ih =>
    cases other with
    | stop => exact absurd rfl more
    | gather more' digit_eq' within' sum_eq' later' =>
      obtain rfl := UInt64.toNat_inj.mp (digit_eq.trans digit_eq'.symm)
      obtain rfl := UInt64.toNat_inj.mp (sum_eq.trans sum_eq'.symm)
      exact ih later'
    | part more' digit_eq' beyond' later' =>
      obtain rfl := UInt64.toNat_inj.mp (digit_eq.trans digit_eq'.symm)
      exact absurd within (UInt64.not_le.mpr beyond')
  | part more digit_eq beyond later ih =>
    cases other with
    | stop => exact absurd rfl more
    | gather more' digit_eq' within' sum_eq' later' =>
      obtain rfl := UInt64.toNat_inj.mp (digit_eq.trans digit_eq'.symm)
      exact absurd within' (UInt64.not_le.mpr beyond)
    | part more' digit_eq' beyond' later' =>
      obtain rfl := UInt64.toNat_inj.mp (digit_eq.trans digit_eq'.symm)
      rw [ih later']

/-- The loop takes every amount apart, whatever the threshold is, without leaving the words. -/
theorem decomposes_pieces (amount threshold : UInt64) :
    Decomposes threshold amount 1 0 false (pieces amount threshold) := by
  have fits := amount.toNat_le_maxWord
  exact decomposes_piecesFrom threshold _ _ _ _ amount 1 0 rfl rfl rfl (by simpa using fits)

/-- It hands out the pieces of the amount, and nothing else. -/
theorem decomposes_iff {amount threshold : UInt64} {ps : List Piece} :
    Decomposes threshold amount 1 0 false ps ↔ ps = pieces amount threshold := by
  constructor
  · intro run
    exact run.unique (decomposes_pieces amount threshold)
  · rintro rfl
    exact decomposes_pieces amount threshold

end RingWallet
