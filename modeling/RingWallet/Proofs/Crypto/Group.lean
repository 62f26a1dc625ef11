import Mathlib.Data.ZMod.Basic
import Mathlib.GroupTheory.OrderOfElement
import RingWallet.Keys
import RingWallet.Proofs.Crypto.GroupOrder
import RingWallet.Proofs.Support.Except
import RingWallet.RingSignature

/-!
# The laws of the group

`Suite.Lawful` is what the library takes from the curve: its points are a commutative group in which
`smul` is repeated addition, the base point has the order `groupOrder`, eight times any point lies
in the subgroup of that order, and a point survives being encoded. Every point then has a finite
order, so inverses need no law of their own.

From this follow the facts about scalars that keys and signatures rest on. On a torsion free point
they act as numbers modulo the order (`Lawful.smul_val_add`, `Lawful.smul_val_mul`), and no scalar
but zero takes such a point to the neutral element (`Lawful.smul_val_ne_zero`), because the order is
prime.
-/

set_option autoImplicit false

namespace RingWallet

/-- A key has a point when its bytes decode to one. -/
theorem PublicKey.point_eq_ok {S : Suite} {key : PublicKey} {P : S.Point} :
    key.point S = .ok P ↔ S.decode? key.bytes = some P := by
  unfold point
  cases S.decode? key.bytes with
  | none => simp
  | some Q => simp

namespace Suite

/-- A point is torsion-free if the order of the group takes it to zero. -/
theorem isTorsionFree_iff {S : Suite} {P : S.Point} :
    S.isTorsionFree P = true ↔ S.smul groupOrder P = S.zero := decide_eq_true_iff

/-- The laws of the group of points and of their encoding. -/
structure Lawful (S : Suite) : Prop where
  add_assoc (P Q R : S.Point) : S.add (S.add P Q) R = S.add P (S.add Q R)
  add_comm (P Q : S.Point) : S.add P Q = S.add Q P
  zero_add (P : S.Point) : S.add S.zero P = P
  zero_smul (P : S.Point) : S.smul 0 P = S.zero
  succ_smul (n : Nat) (P : S.Point) : S.smul (n + 1) P = S.add (S.smul n P) P
  order_smul_base : S.smul groupOrder S.base = S.zero
  base_ne_zero : S.base ≠ S.zero
  /-- The cofactor is 8. -/
  order_smul_clearCofactor (P : S.Point) : S.smul groupOrder (S.clearCofactor P) = S.zero
  decode?_encode (P : S.Point) : S.decode? (S.encode P) = some P

namespace Lawful

variable {S : Suite}

/-- The points as a monoid of Mathlib, whose lemmas about multiples are then at hand. -/
@[reducible]
def addCommMonoid (lawful : S.Lawful) : AddCommMonoid S.Point where
  add := S.add
  zero := S.zero
  nsmul := S.smul
  add_assoc := lawful.add_assoc
  add_comm := lawful.add_comm
  zero_add := lawful.zero_add
  add_zero P := (lawful.add_comm P S.zero).trans (lawful.zero_add P)
  nsmul_zero := lawful.zero_smul
  nsmul_succ := lawful.succ_smul

variable (lawful : S.Lawful)
include lawful

/-- Multiples of multiples. -/
theorem smul_smul (m n : Nat) (P : S.Point) : S.smul m (S.smul n P) = S.smul (m * n) P := by
  let := lawful.addCommMonoid
  show m • n • P = (m * n) • P
  rw [mul_nsmul']

/-- The order of two multiples does not matter. -/
theorem smul_comm (m n : Nat) (P : S.Point) : S.smul m (S.smul n P) = S.smul n (S.smul m P) := by
  rw [lawful.smul_smul, lawful.smul_smul, Nat.mul_comm]

/-- All multiples of zero are zero. -/
theorem smul_zero (n : Nat) : S.smul n S.zero = S.zero := by
  let := lawful.addCommMonoid
  exact nsmul_zero n

/-! ### Torsion free points -/

/-- The base point is torsion-free. -/
theorem isTorsionFree_base : S.isTorsionFree S.base = true :=
  isTorsionFree_iff.mpr lawful.order_smul_base

/-- Clearing the cofactor makes a point torsion-free. -/
theorem isTorsionFree_clearCofactor (P : S.Point) : S.isTorsionFree (S.clearCofactor P) = true :=
  isTorsionFree_iff.mpr (lawful.order_smul_clearCofactor P)

variable {P : S.Point}

/-- Multiples of a torsion-free point are torsion-free. -/
theorem isTorsionFree_smul (free : S.isTorsionFree P = true) (n : Nat) :
    S.isTorsionFree (S.smul n P) = true := by
  rw [isTorsionFree_iff] at free ⊢
  rw [lawful.smul_comm, free, lawful.smul_zero]

/-- Multiples of a torsion free point depend on the number modulo the order only. -/
theorem smul_mod (free : S.isTorsionFree P = true) (n : Nat) :
    S.smul (n % groupOrder) P = S.smul n P := by
  let := lawful.addCommMonoid
  have order : groupOrder • P = 0 := isTorsionFree_iff.mp free
  show (n % groupOrder) • P = n • P
  conv_rhs => rw [← Nat.div_add_mod n groupOrder, add_nsmul, mul_nsmul, order, nsmul_zero]
  exact (lawful.zero_add _).symm

/-- On torsion-free points scalars can be added before they are applied, although the sum is
reduced. -/
theorem smul_val_add (free : S.isTorsionFree P = true) (a b : Scalar) :
    S.smul (a + b).val P = S.add (S.smul a.val P) (S.smul b.val P) := by
  let := lawful.addCommMonoid
  rw [Fin.val_add, lawful.smul_mod free]
  exact add_nsmul P a.val b.val

/-- On torsion-free points scalars can be multiplied before they are applied. -/
theorem smul_val_mul (free : S.isTorsionFree P = true) (a b : Scalar) :
    S.smul (a * b).val P = S.smul a.val (S.smul b.val P) := by
  rw [Fin.val_mul, lawful.smul_mod free, lawful.smul_smul]

/-- The key of a sum of scalars is the sum of the keys. -/
theorem mulBase_add (a b : Scalar) : S.mulBase (a + b) = S.add (S.mulBase a) (S.mulBase b) :=
  lawful.smul_val_add lawful.isTorsionFree_base a b

/-- Only the scalar zero takes a torsion free point to the neutral element. -/
theorem smul_val_ne_zero (free : S.isTorsionFree P = true) (ne_zero : P ≠ S.zero) {a : Scalar}
    (nonzero : a ≠ .zero) : S.smul a.val P ≠ S.zero := by
  let := lawful.addCommMonoid
  intro vanishes
  have order : addOrderOf P = groupOrder := addOrderOf_eq_prime (isTorsionFree_iff.mp free) ne_zero
  have divides : addOrderOf P ∣ a.val := addOrderOf_dvd_iff_nsmul_eq_zero.mpr vanishes
  rw [order] at divides
  have zero : a.val = 0 := Nat.eq_zero_of_dvd_of_lt divides a.isLt
  exact nonzero (Fin.ext zero)

/-! ### Hashed points and key images -/

/-- A hashed point is torsion free and not the neutral element: either it was cleared of its
cofactor and tested, or it is the base point. -/
theorem of_hashToPointFrom (key : PublicKey) (attempts counter : Nat) :
    S.isTorsionFree (hashToPointFrom S key attempts counter) = true ∧
      hashToPointFrom S key attempts counter ≠ S.zero := by
  induction attempts generalizing counter with
  | zero => exact ⟨lawful.isTorsionFree_base, lawful.base_ne_zero⟩
  | succ attempts ih =>
    unfold hashToPointFrom
    split
    · next P _ =>
      show S.isTorsionFree (if S.clearCofactor P = S.zero then _ else _) = true ∧
        (if S.clearCofactor P = S.zero then _ else _) ≠ S.zero
      -- a point that the cofactor takes to zero is skipped
      split
      · exact ih (counter + 1)
      · next ne_zero => exact ⟨lawful.isTorsionFree_clearCofactor P, ne_zero⟩
    · exact ih (counter + 1)

/-- Keys are hashed to torsion-free points. -/
theorem isTorsionFree_hashToPoint (key : PublicKey) :
    S.isTorsionFree (hashToPoint S key) = true :=
  (lawful.of_hashToPointFrom key _ _).1

/-- No key is hashed to zero. -/
theorem hashToPoint_ne_zero (key : PublicKey) : hashToPoint S key ≠ S.zero :=
  (lawful.of_hashToPointFrom key _ _).2

/-- If the point of a key image may appear in a signature at all, it is the one that the image was
made from. -/
theorem point?_ofKeys {key : PublicKey} {secret : SecretKey} {image : KeyImage} {x : Scalar}
    (scalar : secret.scalar = .ok x) (made : KeyImage.ofKeys S key secret = .ok image) :
    image.point? S = if x = .zero then none else some (S.smul x.val (hashToPoint S key)) := by
  rw [KeyImage.ofKeys, scalar] at made
  obtain rfl := Except.ok.inj made
  -- the image lies in the prime order group, so that the check keeps it
  have free := lawful.isTorsionFree_smul (lawful.isTorsionFree_hashToPoint key) x.val
  show (S.decode? (S.encode (S.smul x.val (hashToPoint S key)))).filter _ = _
  rw [lawful.decode?_encode, Option.filter_some, free]
  by_cases zero : x = .zero
  · subst zero
    have vanishes : S.smul Scalar.zero.val (hashToPoint S key) = S.zero := lawful.zero_smul _
    simp [vanishes]
  · have nonzero := lawful.smul_val_ne_zero (lawful.isTorsionFree_hashToPoint key)
      (lawful.hashToPoint_ne_zero key) zero
    simp [zero, nonzero]

/-! ### Keys -/

/-- A point is read back from its key. -/
theorem point_ofPoint (P : S.Point) : (PublicKey.ofPoint S P).point S = .ok P := by
  rw [PublicKey.point, PublicKey.ofPoint, lawful.decode?_encode]
  rfl

/-- Either of two parties computes the secret that they share, from its own secret key and the
other's public key. -/
theorem ofKeys_comm {a b : Scalar} {secret secret' : SecretKey} (own : secret.scalar = .ok a)
    (other : secret'.scalar = .ok b) :
    KeyDerivation.ofKeys S (.ofPoint S (S.mulBase a)) secret' =
      KeyDerivation.ofKeys S (.ofPoint S (S.mulBase b)) secret := by
  have product : S.smul b.val (S.mulBase a) = S.smul a.val (S.mulBase b) :=
    lawful.smul_comm b.val a.val S.base
  simp only [KeyDerivation.ofKeys, lawful.point_ofPoint, own, other, Except.ok_bind, product]

end Lawful

end Suite

end RingWallet
