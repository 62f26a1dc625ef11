import Mathlib.Algebra.Field.Rat
import Mathlib.Algebra.Order.Ring.Rat
import Mathlib.Data.List.Basic
import Mathlib.Tactic.FieldSimp
import Mathlib.Tactic.NormNum
import RingWallet.Money
import RingWallet.Proofs.Support.Sums

/-!
# The number that an amount is shown as

A `DecimalText` is digits, a point, and digits; it denotes a rational number, and its characters
leave no doubt what stands before the point and what behind it (`DecimalText.text_injective`). The
text of an amount is one, with as many digits behind the point as it is asked for, and no other
amount has it (`formatMoney_inj`).

The number it denotes is the amount in coins, as long as a coin is the power of ten. From twenty
decimals on it is not: the power stops at the largest word. Every smaller amount is still shown as
what it is, since nothing of it stands before the point; the largest one is shown as one coin
(`value_ofAmount_eq_iff`).

`Words.formatMoney` makes the text in 64-bit words, where a division by zero and a field that is too
wide would end everything. It comes to the second alone, and else makes the same text
(`Words.formatMoney_eq`).
-/

set_option autoImplicit false

namespace UInt64

open RingWallet (maxWord)

/-- A power, or the largest word if the power does not fit. -/
def powSat (a : UInt64) : Nat → UInt64
  | 0 => 1
  | n + 1 => (a.powSat n).mulSat a

/-- A power stops at the largest word. -/
theorem toNat_powSat (a : UInt64) (n : Nat) : (a.powSat n).toNat = min (a.toNat ^ n) maxWord := by
  induction n with
  | zero => rfl
  | succ n ih =>
    rw [powSat, toNat_mulSat, ih, Nat.pow_succ]
    -- a product that has stopped at the largest word stays there, unless it meets a zero
    cases Nat.eq_zero_or_pos a.toNat with
    | inl zero => rw [zero, Nat.mul_zero, Nat.mul_zero]
    | inr positive =>
      cases Nat.le_total (a.toNat ^ n) maxWord with
      | inl fits => rw [Nat.min_eq_left fits]
      | inr beyond =>
        have stopped : maxWord ≤ maxWord * a.toNat := Nat.le_mul_of_pos_right _ positive
        rw [Nat.min_eq_right beyond, Nat.min_eq_right stopped,
          Nat.min_eq_right (stopped.trans (Nat.mul_le_mul_right _ beyond))]

end UInt64

/-- A word is zero only if its number is. -/
theorem UInt32.toNat_ne_zero {n : UInt32} (h : n ≠ 0) : n.toNat ≠ 0 :=
  fun zero => h (UInt32.toNat_inj.mp zero)

namespace RingWallet

/-! ### Digits -/

/-- Digits that fit into a width fill it. -/
theorem length_paddedDigits {width n : Nat} (present : width ≠ 0) (fits : n < 10 ^ width) :
    (paddedDigits 10 width n).length = width := by
  have short : (Nat.toDigits 10 n).length ≤ width :=
    (Nat.length_toDigits_le_iff (by decide) (Nat.pos_of_ne_zero present)).mpr fits
  rw [paddedDigits, List.length_append, List.length_replicate, Nat.sub_add_cancel short]

/-- Nothing but digits is written. -/
theorem isDigit_of_mem_paddedDigits {width n : Nat} {c : Char}
    (mem : c ∈ paddedDigits 10 width n) : c.isDigit = true := by
  rw [paddedDigits, List.mem_append, List.mem_replicate] at mem
  rcases mem with ⟨-, rfl⟩ | mem
  · rfl
  · exact Nat.isDigit_of_mem_toDigits (by decide) (by decide) mem

/-- Zeros on the left change nothing. -/
theorem ofDigitChars_paddedDigits (width n : Nat) :
    Nat.ofDigitChars 10 (paddedDigits 10 width n) 0 = n := by
  rw [paddedDigits, Nat.ofDigitChars_append, Nat.ofDigitChars_replicate_zero, Nat.mul_zero,
    Nat.ofDigitChars_ten_toDigits]

/-! ### Decimal texts -/

/-- At least one digit, a point, and digits. -/
@[ext]
structure DecimalText where
  whole : List Char
  fraction : List Char
  whole_ne_nil : whole ≠ []
  digits_whole : ∀ c ∈ whole, c.isDigit = true
  digits_fraction : ∀ c ∈ fraction, c.isDigit = true

namespace DecimalText

/-- The characters. -/
def text (t : DecimalText) : String := String.ofList (t.whole ++ '.' :: t.fraction)

/-- The number that a decimal text denotes. -/
def value (t : DecimalText) : ℚ :=
  Nat.ofDigitChars 10 t.whole 0 + Nat.ofDigitChars 10 t.fraction 0 / 10 ^ t.fraction.length

/-- Different decimal texts are written differently. -/
theorem text_injective : Function.Injective text := by
  intro t u same
  -- a point is no digit, so the one point shows where the whole part ends
  have point_notMem {chars : List Char} (digits : ∀ c ∈ chars, c.isDigit = true) :
      '.' ∉ chars := fun mem => Bool.noConfusion (digits '.' mem)
  obtain ⟨whole, -, fraction⟩ := (List.append_cons_inj_of_notMem (point_notMem t.digits_whole)
    (point_notMem t.digits_fraction)).mp (String.ofList_injective same)
  exact DecimalText.ext whole fraction

/-- The text with one number before the point and one behind it. -/
def ofNumbers (whole places fraction : Nat) : DecimalText where
  whole := Nat.toDigits 10 whole
  fraction := paddedDigits 10 places fraction
  whole_ne_nil := Nat.toDigits_ne_nil
  digits_whole _ mem := Nat.isDigit_of_mem_toDigits (by decide) (by decide) mem
  digits_fraction _ mem := isDigit_of_mem_paddedDigits mem

variable {whole places fraction : Nat}

/-- There are as many places as are wanted, if the fraction fits into them. -/
theorem length_fraction_ofNumbers (present : places ≠ 0) (fits : fraction < 10 ^ places) :
    (ofNumbers whole places fraction).fraction.length = places :=
  length_paddedDigits present fits

/-- The value of a text that is made of two numbers. -/
theorem value_ofNumbers (present : places ≠ 0) (fits : fraction < 10 ^ places) :
    (ofNumbers whole places fraction).value = whole + fraction / 10 ^ places := by
  rw [value, length_fraction_ofNumbers present fits, ofNumbers, Nat.ofDigitChars_ten_toDigits,
    ofDigitChars_paddedDigits]

/-- The numbers can be read off. -/
theorem eq_of_ofNumbers_eq {whole' places' fraction' : Nat}
    (same : ofNumbers whole places fraction = ofNumbers whole' places' fraction') :
    whole = whole' ∧ fraction = fraction' := by
  have left := congrArg (fun t : DecimalText => Nat.ofDigitChars 10 t.whole 0) same
  have right := congrArg (fun t : DecimalText => Nat.ofDigitChars 10 t.fraction 0) same
  simp only [ofNumbers, Nat.ofDigitChars_ten_toDigits, ofDigitChars_paddedDigits] at left right
  exact ⟨left, right⟩

end DecimalText

section

variable {decimals : Nat}

/-! ### Coins -/

/-- The unit is a power of ten, unless this is too large for a word. -/
theorem coinUnit_eq_min (decimals : Nat) : coinUnit decimals = min (10 ^ decimals) maxWord := by
  unfold coinUnit
  split
  · next many =>
    have above : 10 ^ 20 ≤ 10 ^ decimals := Nat.pow_le_pow_right (by decide) many
    exact (Nat.min_eq_right (Nat.le_trans (by decide) above)).symm
  · next few =>
    have below : 10 ^ decimals ≤ 10 ^ 19 := Nat.pow_le_pow_right (by decide) (by omega)
    exact (Nat.min_eq_left (Nat.le_trans below (by decide))).symm

/-- The unit is never zero. -/
theorem coinUnit_pos (decimals : Nat) : 0 < coinUnit decimals := by
  rw [coinUnit_eq_min]
  exact Nat.lt_min.mpr ⟨Nat.pow_pos (by decide), by decide⟩

/-- The unit is a power of ten at most. -/
theorem coinUnit_le_pow (decimals : Nat) : coinUnit decimals ≤ 10 ^ decimals := by
  rw [coinUnit_eq_min]
  exact Nat.min_le_left _ _

/-- The unit is the power of ten for fewer than twenty decimals. -/
theorem coinUnit_eq_pow_iff : coinUnit decimals = 10 ^ decimals ↔ decimals < 20 := by
  constructor
  · intro same
    by_contra many
    have above : 10 ^ 20 ≤ 10 ^ decimals := Nat.pow_le_pow_right (by decide) (by omega)
    rw [← same, coinUnit, if_pos (by omega)] at above
    exact absurd above (by decide)
  · intro few
    exact if_neg (by omega)

/-! ### The text of an amount -/

/-- The coins and the part of a coin that an amount is shown as. -/
def DecimalText.ofAmount (amount : UInt64) (decimals : Nat) : DecimalText :=
  ofNumbers (amount.toNat / coinUnit decimals) decimals (amount.toNat % coinUnit decimals)

/-- With decimals an amount is written as a decimal text. -/
theorem formatMoney_eq_text (amount : UInt64) (pointed : decimals ≠ 0) :
    formatMoney amount decimals = (DecimalText.ofAmount amount decimals).text :=
  if_neg pointed

example : formatMoney 1500000000000 12 = "1.500000000000" := by decide +kernel

/-- What is left of an amount has a place for each of its digits. -/
theorem mod_coinUnit_lt_pow (amount decimals : Nat) :
    amount % coinUnit decimals < 10 ^ decimals :=
  Nat.lt_of_lt_of_le (Nat.mod_lt _ (coinUnit_pos decimals)) (coinUnit_le_pow decimals)

/-- An amount has as many places as are wanted. -/
theorem length_fraction_ofAmount (amount : UInt64) (pointed : decimals ≠ 0) :
    (DecimalText.ofAmount amount decimals).fraction.length = decimals :=
  DecimalText.length_fraction_ofNumbers pointed (mod_coinUnit_lt_pow _ _)

/-- The text of an amount stands for whole units and a fraction of them. -/
theorem value_ofAmount (amount : UInt64) (pointed : decimals ≠ 0) :
    (DecimalText.ofAmount amount decimals).value =
      (amount.toNat / coinUnit decimals : Nat) +
        (amount.toNat % coinUnit decimals : Nat) / 10 ^ decimals :=
  DecimalText.value_ofNumbers pointed (mod_coinUnit_lt_pow _ _)

/-- Quotient and remainder by one number, put together with another one, are what was divided
exactly if the quotient is zero or the two numbers are the same. -/
theorem div_add_mod_div_eq_iff {n unit scale : Nat} (positive : 0 < scale) :
    ((n / unit : Nat) + (n % unit : Nat) / scale : ℚ) = n / scale ↔
      n / unit = 0 ∨ unit = scale := by
  have nonzero : (scale : ℚ) ≠ 0 := Nat.cast_ne_zero.mpr (Nat.ne_of_gt positive)
  -- the left side over one denominator
  have together : ((n / unit : Nat) + (n % unit : Nat) / scale : ℚ) =
      (n / unit * scale + n % unit : Nat) / scale := by
    push_cast
    field_simp
  have parts : n / unit * unit + n % unit = n := Nat.div_add_mod' n unit
  -- the remainders are equal, so that only the whole parts decide
  calc _ ↔ n / unit * scale + n % unit = n / unit * unit + n % unit := by
        rw [together, div_left_inj' nonzero, Nat.cast_inj, parts]
    _ ↔ n / unit * scale = n / unit * unit := Nat.add_right_cancel_iff
    _ ↔ n / unit = 0 ∨ unit = scale := by
        rw [mul_eq_mul_left_iff, or_comm, eq_comm (a := scale)]

/-- An amount is shown as what it is, but for the largest one once a coin is no power of ten. -/
theorem value_ofAmount_eq_iff (amount : UInt64) (pointed : decimals ≠ 0) :
    (DecimalText.ofAmount amount decimals).value = amount.toNat / 10 ^ decimals ↔
      ¬ (20 ≤ decimals ∧ amount.toNat = maxWord) := by
  have fits := amount.toNat_le_maxWord
  have exact_iff := @div_add_mod_div_eq_iff amount.toNat (coinUnit decimals) (10 ^ decimals)
    (Nat.pow_pos (by decide))
  rw [Nat.cast_pow, Nat.cast_ofNat] at exact_iff
  rw [value_ofAmount amount pointed, exact_iff, Nat.div_eq_zero_iff_lt (coinUnit_pos decimals),
    coinUnit_eq_pow_iff]
  -- where the power has stopped, the amounts below it leave nothing before the point
  by_cases many : 20 ≤ decimals
  · have stopped : coinUnit decimals = maxWord := if_pos many
    omega
  · omega

/-- Then it is shown as one coin. -/
theorem value_ofAmount_maxWord {amount : UInt64} (many : 20 ≤ decimals)
    (largest : amount.toNat = maxWord) : (DecimalText.ofAmount amount decimals).value = 1 := by
  have stopped : coinUnit decimals = maxWord := if_pos many
  rw [value_ofAmount amount (by omega), largest, stopped, Nat.div_self (by decide), Nat.mod_self,
    Nat.cast_zero, zero_div, Nat.cast_one, add_zero]

/-- No two amounts have the same text, and no amount has the same text with other decimals. -/
theorem formatMoney_inj {amount other : UInt64} {decimals places : Nat} (pointed : decimals ≠ 0)
    (pointed' : places ≠ 0) :
    formatMoney amount decimals = formatMoney other places ↔
      amount = other ∧ decimals = places := by
  constructor
  · intro same
    rw [formatMoney_eq_text amount pointed, formatMoney_eq_text other pointed'] at same
    have same := DecimalText.text_injective same
    -- the number of digits behind the point is the number of decimals
    obtain rfl : decimals = places :=
      calc decimals = (DecimalText.ofAmount amount decimals).fraction.length :=
            (length_fraction_ofAmount amount pointed).symm
        _ = (DecimalText.ofAmount other places).fraction.length := by rw [same]
        _ = places := length_fraction_ofAmount other pointed'
    obtain ⟨quotients, remainders⟩ := DecimalText.eq_of_ofNumbers_eq same
    -- an amount is its whole coins and its remainder
    refine ⟨UInt64.toNat_inj.mp ?_, rfl⟩
    rw [← Nat.div_add_mod amount.toNat (coinUnit decimals), quotients, remainders, Nat.div_add_mod]
  · rintro ⟨rfl, rfl⟩
    rfl

end

/-! ### The same text in words -/

/-- What can end the making of a text. -/
inductive TextFault where
  | divisionByZero
  /-- A field is wider than fields can be. -/
  | tooWide
deriving DecidableEq

namespace Words

/-- The most characters that a number can be padded to. -/
def maxWidth : Nat := 0xffff

/-- An operation that divides its first word by its second. -/
def divided (operation : UInt64 → UInt64 → UInt64) (a b : UInt64) : Except TextFault UInt64 :=
  if b = 0 then .error .divisionByZero else .ok (operation a b)

/-- A division by a word that is not zero. -/
theorem divided_of_ne_zero {operation : UInt64 → UInt64 → UInt64} {a b : UInt64} (h : b ≠ 0) :
    divided operation a b = .ok (operation a b) :=
  if_neg h

/-- The digits of a word, with zeros on the left up to a width. -/
def padded (width : UInt32) (a : UInt64) : Except TextFault (List Char) :=
  if width.toNat ≤ maxWidth then .ok (paddedDigits 10 width.toNat a.toNat) else .error .tooWide

/-- The text of an amount, made in words. -/
def formatMoney (amount : UInt64) (decimals : UInt32) : Except TextFault String :=
  if decimals = 0 then .ok (toString amount.toNat)
  else do
    let unit := (10 : UInt64).powSat decimals.toNat
    let whole ← divided (· / ·) amount unit
    let rest ← divided (· % ·) amount unit
    let fraction ← padded decimals rest
    return String.ofList (Nat.toDigits 10 whole.toNat ++ '.' :: fraction)

/-- The unit in words. -/
theorem toNat_unit (decimals : Nat) : ((10 : UInt64).powSat decimals).toNat = coinUnit decimals :=
  (UInt64.toNat_powSat 10 decimals).trans (coinUnit_eq_min decimals).symm

/-- A coin is never nothing, so a text is only refused for its width. -/
theorem formatMoney_eq (amount : UInt64) {decimals : UInt32} (pointed : decimals ≠ 0) :
    formatMoney amount decimals =
      if decimals.toNat ≤ maxWidth then .ok (RingWallet.formatMoney amount decimals.toNat)
      else .error .tooWide := by
  have unit_ne_zero : (10 : UInt64).powSat decimals.toNat ≠ 0 := by
    intro zero
    have positive := coinUnit_pos decimals.toNat
    rw [← toNat_unit, zero] at positive
    exact absurd positive (by decide)
  have pointed' : decimals.toNat ≠ 0 := UInt32.toNat_ne_zero pointed
  rw [RingWallet.formatMoney, if_neg pointed', ← toNat_unit, ← UInt64.toNat_div, ← UInt64.toNat_mod]
  simp only [formatMoney, if_neg pointed, divided_of_ne_zero unit_ne_zero, padded]
  split <;> rfl

end Words

/-- For every amount and every number of decimals but zero: made in words, the text never divides by
zero, and it is refused only if it has more decimals than a field can be wide. The text is digits, a
point and as many digits as there are decimals, and can be read in one way only. It denotes the
amount in coins, unless the amount is the largest word and there are at least twenty decimals, when
it denotes one coin. Even so it is the text of no other amount, and of none with other decimals. -/
theorem denoted_of_formatMoney (amount : UInt64) (decimals : UInt32) (pointed : decimals ≠ 0) :
    Words.formatMoney amount decimals =
      (if decimals.toNat ≤ Words.maxWidth then .ok (formatMoney amount decimals.toNat)
        else .error .tooWide) ∧
    (∃ t : DecimalText,
      (∀ u : DecimalText, u.text = formatMoney amount decimals.toNat ↔ u = t) ∧
      t.fraction.length = decimals.toNat ∧
      (t.value = amount.toNat / 10 ^ decimals.toNat ↔
        ¬ (20 ≤ decimals.toNat ∧ amount.toNat = maxWord)) ∧
      (20 ≤ decimals.toNat ∧ amount.toNat = maxWord → t.value = 1)) ∧
    ∀ (other : UInt64) (places : UInt32), places ≠ 0 →
      (formatMoney amount decimals.toNat = formatMoney other places.toNat ↔
        amount = other ∧ decimals = places) := by
  have pointed' : decimals.toNat ≠ 0 := UInt32.toNat_ne_zero pointed
  refine ⟨Words.formatMoney_eq amount pointed, ?_, ?_⟩
  · refine ⟨.ofAmount amount decimals.toNat, ?_, length_fraction_ofAmount amount pointed',
      value_ofAmount_eq_iff amount pointed', ?_⟩
    · intro u
      -- the text has one reading, which is that of the amount
      rw [formatMoney_eq_text amount pointed']
      exact DecimalText.text_injective.eq_iff
    · rintro ⟨many, largest⟩
      exact value_ofAmount_maxWord many largest
  · intro other places present
    have present' : places.toNat ≠ 0 := UInt32.toNat_ne_zero present
    exact (formatMoney_inj pointed' present').trans (and_congr_right fun _ => UInt32.toNat_inj)

/-- The largest amount with nineteen decimals, and with twenty. -/
theorem denoted_of_formatMoney_nineteen :
    (19 : UInt32) ≠ 0 ∧ (20 : UInt32) ≠ 0 ∧
      Words.formatMoney 18446744073709551615 19 = .ok "1.8446744073709551615" ∧
      (∃ t : DecimalText, t.text = "1.8446744073709551615" ∧ t.fraction.length = 19 ∧
        t.value = 18446744073709551615 / 10 ^ 19) ∧
      "1.8446744073709551615" ≠ formatMoney 18446744073709551615 20 := by
  have pointed : (19 : UInt32) ≠ 0 := by decide
  have pointed' : (20 : UInt32) ≠ 0 := by decide
  obtain ⟨made, ⟨t, only, places, exact_iff, -⟩, inj⟩ :=
    denoted_of_formatMoney 18446744073709551615 19 pointed
  have text : formatMoney 18446744073709551615 (19 : UInt32).toNat = "1.8446744073709551615" := by
    decide +kernel
  rw [text] at made only inj
  refine ⟨pointed, pointed', made, ⟨t, (only t).mpr rfl, places, exact_iff.mpr (by decide)⟩, ?_⟩
  intro same
  exact absurd ((inj 18446744073709551615 20 pointed').mp same).2 (by decide)

/-- With twenty decimals the largest amount, less than a fifth of a coin, is shown as one coin. -/
theorem largest_shown_as_coin :
    Words.formatMoney 18446744073709551615 20 = .ok "1.00000000000000000000" ∧
      ∀ t : DecimalText, t.text = "1.00000000000000000000" →
        t.value = 1 ∧ t.value ≠ 18446744073709551615 / 10 ^ 20 := by
  have text : formatMoney 18446744073709551615 (20 : UInt32).toNat = "1.00000000000000000000" := by
    decide +kernel
  refine ⟨?_, fun t same => ?_⟩
  · rw [Words.formatMoney_eq _ (by decide), text]
    rfl
  · -- the text is that of the largest amount, so that it can be read in no other way
    rw [← text, formatMoney_eq_text _ (by decide)] at same
    have one : t.value = 1 := by
      rw [DecimalText.text_injective same]
      exact value_ofAmount_maxWord (by decide) rfl
    refine ⟨one, ?_⟩
    rw [one]
    norm_num

end RingWallet
