import Mathlib.Data.List.Prime
import Mathlib.NumberTheory.LucasPrimality
import RingWallet.Scalar

/-!
# The order of the group is prime

Scalars are numbers modulo `groupOrder`, and a multiple of a point of the subgroup is the neutral
element only for the scalar zero because that order is prime. The proof is a certificate after
Pratt: a list of primes, each with a number that has every unit among its powers and with the
factors of the number before it, which are primes further up in the list. `Pratt.checks` tests a
certificate with powers by repeated squaring, and `Pratt.prime_of_checks` is what a test that
succeeds means.
-/

set_option autoImplicit false

namespace RingWallet

namespace Pratt

/-- A number congruent to `a ^ exponent` modulo `m`, for an exponent of at most `bits` bits. -/
def powMod (m : Nat) : (bits a exponent : Nat) → Nat
  | 0, _, _ => 1
  | bits + 1, a, exponent =>
    let power := powMod m bits (a * a % m) (exponent / 2)
    if exponent % 2 = 0 then power else a * power % m

/-- The power is the power. -/
theorem powMod_mod (m : Nat) {bits a exponent : Nat} (fits : exponent < 2 ^ bits) :
    powMod m bits a exponent % m = a ^ exponent % m := by
  induction bits generalizing a exponent with
  | zero =>
    obtain rfl : exponent = 0 := by simpa using fits
    rfl
  | succ bits ih =>
    have half : exponent / 2 < 2 ^ bits := by
      rw [Nat.pow_succ] at fits
      omega
    -- the square stands for two factors
    have square : powMod m bits (a * a % m) (exponent / 2) % m = a ^ (2 * (exponent / 2)) % m := by
      rw [ih half, ← Nat.pow_mod, Nat.pow_mul, Nat.pow_two]
    show (if exponent % 2 = 0 then powMod m bits (a * a % m) (exponent / 2)
      else a * powMod m bits (a * a % m) (exponent / 2) % m) % m = _
    split
    · next even =>
      rw [square, show 2 * (exponent / 2) = exponent by omega]
    · next odd =>
      rw [Nat.mod_mod, Nat.mul_mod, square, ← Nat.mul_mod, ← Nat.pow_succ',
        show (2 * (exponent / 2)).succ = exponent by omega]

/-- A line of a certificate. -/
structure Entry where
  prime : Nat
  /-- A number whose powers are all the units modulo the prime. -/
  root : Nat
  /-- The prime factors of the number before the prime, each as often as it occurs. -/
  factors : List Nat

namespace Entry

variable (e : Entry)

/-- Whether a power of the root is one. -/
def isOne (exponent : Nat) : Bool := powMod e.prime 256 e.root exponent % e.prime = 1

/-- The test of one line, where `known` are primes. -/
def checks (known : List Nat) : Bool :=
  decide (1 < e.prime ∧ e.prime < 2 ^ 256 ∧ e.factors.prod = e.prime - 1) && e.isOne (e.prime - 1)
    && e.factors.all fun q => q ∈ known && !e.isOne ((e.prime - 1) / q)

variable {e}

/-- The check by words is a power in the field. -/
theorem isOne_iff {exponent : Nat} (one_lt : 1 < e.prime) (fits : exponent < 2 ^ 256) :
    e.isOne exponent = true ↔ (e.root : ZMod e.prime) ^ exponent = 1 := by
  rw [isOne, decide_eq_true_eq, powMod_mod e.prime fits, ← Nat.cast_pow,
    ← Nat.cast_one (R := ZMod e.prime), ZMod.natCast_eq_natCast_iff', Nat.mod_eq_of_lt one_lt]

/-- A line that passes the test names a prime. -/
theorem prime_of_checks {known : List Nat} (primes : ∀ q ∈ known, q.Prime)
    (passed : e.checks known = true) : e.prime.Prime := by
  simp only [checks, Bool.and_eq_true, decide_eq_true_eq, List.all_eq_true,
    Bool.not_eq_true'] at passed
  obtain ⟨⟨⟨one_lt, bound, product⟩, full⟩, each⟩ := passed
  refine lucas_primality e.prime e.root ((isOne_iff one_lt (by omega)).mp full) ?_
  intro q prime divides
  -- a prime divisor of the product is one of the factors
  rw [← product] at divides
  obtain ⟨factor, mem, divides⟩ := prime.prime.dvd_prod_iff.mp divides
  obtain ⟨isKnown, notOne⟩ := each factor mem
  have same : q = factor := (Nat.prime_dvd_prime_iff_eq prime (primes factor isKnown)).mp divides
  subst same
  intro one
  have fits : (e.prime - 1) / q < 2 ^ 256 := Nat.lt_of_le_of_lt (Nat.div_le_self _ _) (by omega)
  rw [(isOne_iff one_lt fits).mpr one] at notOne
  exact nomatch notOne

end Entry

/-- The test of a certificate: each line is tested with the primes of the lines before it. -/
def checks (known : List Nat) : List Entry → Bool
  | [] => true
  | e :: rest => e.checks known && checks (e.prime :: known) rest

/-- Every line of a certificate that passes the test names a prime. -/
theorem prime_of_checks {known : List Nat} {lines : List Entry} (primes : ∀ q ∈ known, q.Prime)
    (passed : checks known lines = true) {e : Entry} (mem : e ∈ lines) : e.prime.Prime := by
  induction lines generalizing known with
  | nil => cases mem
  | cons first rest ih =>
    rw [checks, Bool.and_eq_true] at passed
    have prime := Entry.prime_of_checks primes passed.1
    cases mem with
    | head => exact prime
    | tail _ mem => exact ih (List.forall_mem_cons.mpr ⟨prime, primes⟩) passed.2 mem

/-- The certificate of `groupOrder`, which is its last line. -/
def certificate : List Entry :=
  [⟨2, 1, []⟩, ⟨3, 2, [2]⟩, ⟨5, 2, [2, 2]⟩, ⟨7, 3, [2, 3]⟩, ⟨11, 2, [2, 5]⟩, ⟨13, 2, [2, 2, 3]⟩,
    ⟨17, 3, [2, 2, 2, 2]⟩, ⟨19, 2, [2, 3, 3]⟩, ⟨23, 5, [2, 11]⟩, ⟨41, 6, [2, 2, 2, 5]⟩,
    ⟨43, 3, [2, 3, 7]⟩, ⟨47, 5, [2, 23]⟩, ⟨67, 2, [2, 3, 11]⟩, ⟨73, 5, [2, 2, 2, 3, 3]⟩,
    ⟨79, 3, [2, 3, 13]⟩, ⟨113, 3, [2, 2, 2, 2, 7]⟩, ⟨269, 2, [2, 2, 67]⟩, ⟨307, 5, [2, 3, 3, 17]⟩,
    ⟨1361, 3, [2, 2, 2, 2, 5, 17]⟩, ⟨1723, 3, [2, 3, 7, 41]⟩, ⟨2551, 6, [2, 3, 5, 5, 17]⟩,
    ⟨2851, 2, [2, 3, 5, 5, 19]⟩, ⟨2939, 2, [2, 13, 113]⟩, ⟨3797, 2, [2, 2, 13, 73]⟩,
    ⟨5879, 11, [2, 2939]⟩, ⟨17231, 13, [2, 5, 1723]⟩, ⟨22111, 6, [2, 3, 5, 11, 67]⟩,
    ⟨30703, 3, [2, 3, 7, 17, 43]⟩, ⟨34123, 2, [2, 3, 11, 11, 47]⟩, ⟨41081, 3, [2, 2, 2, 5, 13, 79]⟩,
    ⟨82163, 2, [2, 41081]⟩, ⟨132667, 5, [2, 3, 22111]⟩, ⟨137849, 3, [2, 2, 2, 17231]⟩,
    ⟨409477, 2, [2, 2, 3, 34123]⟩, ⟨531581, 2, [2, 2, 5, 7, 3797]⟩,
    ⟨1224481, 13, [2, 2, 2, 2, 2, 3, 5, 2551]⟩, ⟨14741173, 2, [2, 2, 3, 3, 409477]⟩,
    ⟨58964693, 2, [2, 2, 14741173]⟩, ⟨292386187, 2, [2, 3, 3, 3, 3, 307, 5879]⟩,
    ⟨213441916511, 13, [2, 5, 73, 292386187]⟩,
    ⟨1257559732178653, 2, [2, 2, 3, 7, 23, 531581, 1224481]⟩,
    ⟨4434155615661930479, 17, [2, 41, 43, 1257559732178653]⟩,
    ⟨3044861653679985063343, 5, [2, 3, 11, 30703, 82163, 132667, 137849]⟩,
    ⟨172054593956031949258510691, 2, [2, 5, 1361, 2851, 4434155615661930479]⟩,
    ⟨198211423230930754013084525763697, 5, [2, 2, 2, 2, 3, 23, 58964693, 3044861653679985063343]⟩,
    ⟨19757330305831588566944191468367130476339, 2, [2, 269, 213441916511,
      172054593956031949258510691]⟩,
    ⟨276602624281642239937218680557139826668747, 2, [2, 7,
      19757330305831588566944191468367130476339]⟩,
    ⟨groupOrder, 2, [2, 2, 3, 11, 198211423230930754013084525763697,
      276602624281642239937218680557139826668747]⟩]

/-- The certificate passes its check. -/
theorem checks_certificate : checks [] certificate = true := by decide +kernel

end Pratt

/-- The order of the group is a prime. -/
theorem prime_groupOrder : groupOrder.Prime :=
  Pratt.prime_of_checks (by simp) Pratt.checks_certificate (List.mem_of_getLast? rfl)

instance : Fact groupOrder.Prime := ⟨prime_groupOrder⟩

end RingWallet
