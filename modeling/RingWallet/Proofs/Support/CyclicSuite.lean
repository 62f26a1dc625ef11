import RingWallet.Proofs.Crypto.Group
import RingWallet.Spend.Construct

/-!
# A lawful suite to compute with

`Suite.cyclic` is the additive group of the numbers below eight times the group order, with 8 as its
base point. It hides nothing, but it has a cofactor as the real curve does: a point that is no
multiple of 8 lies outside of the subgroup. Its digest takes every byte of a message into account.
`CyclicSuite.account` is an account of it, `CyclicSuite.key` the key of an output that pays this
account, and `CyclicSuite.source` a ring in which such an output stands.
-/

set_option autoImplicit false

namespace RingWallet

/-- The number of points of the group, cofactor included. -/
def cyclicOrder : Nat := 8 * groupOrder

instance : NeZero cyclicOrder := ⟨by decide⟩

namespace Suite

/-- The additive group of the numbers below `cyclicOrder`. A point is encoded as the number after
it. -/
def cyclic : Suite where
  digest message :=
    .ofNat (message.foldl (fun h b => (257 * h + b.toNat + 1) % Nat.pow 2 255) 0)
  Point := Fin cyclicOrder
  zero := 0
  add a b := a + b
  smul k a := .ofNat cyclicOrder (k * a.val)
  base := 8
  decode? b :=
    if 0 < b.toNat ∧ b.toNat ≤ cyclicOrder then some (.ofNat cyclicOrder (b.toNat - 1)) else none
  encode P := .ofNat (P.val + 1)

/-- The suite obeys all the laws that the proofs ask for. -/
theorem lawful_cyclic : cyclic.Lawful where
  add_assoc := add_assoc (G := Fin cyclicOrder)
  add_comm := add_comm (G := Fin cyclicOrder)
  zero_add := zero_add (M := Fin cyclicOrder)
  zero_smul P := Fin.ext (show 0 * P.val % cyclicOrder = 0 by rw [Nat.zero_mul, Nat.zero_mod])
  succ_smul n P := Fin.ext (by
    show (n + 1) * P.val % cyclicOrder = (n * P.val % cyclicOrder + P.val) % cyclicOrder
    rw [Nat.succ_mul, Nat.mod_add_mod])
  order_smul_base := by decide +kernel
  base_ne_zero := by decide +kernel
  order_smul_clearCofactor P := Fin.ext (by
    show groupOrder * (8 * P.val % cyclicOrder) % cyclicOrder = 0
    -- the order of the group is that of the prime order group, eight times
    rw [Nat.mul_mod_mod, ← Nat.mul_assoc, Nat.mul_comm groupOrder 8]
    exact Nat.mul_mod_right cyclicOrder P.val)
  decode?_encode P := by
    have bound : P.val + 1 ≤ cyclicOrder := P.isLt
    have value : (Bytes.ofNat (P.val + 1) : Bytes32).toNat = P.val + 1 :=
      Bytes.toNat_ofNat (Nat.lt_of_le_of_lt bound (by decide))
    -- a point is encoded as the number after it, which is never zero
    have decodes : 0 < P.val + 1 ∧ P.val + 1 ≤ cyclicOrder := ⟨Nat.succ_pos _, bound⟩
    have back : Fin.ofNat cyclicOrder P.val = P := Fin.ext (Nat.mod_eq_of_lt P.isLt)
    unfold cyclic
    simp only [value, decodes, and_self, if_true, Nat.add_sub_cancel, back]

/-- No key image is null. -/
theorem cyclic_ofKeys_ne_null (key : PublicKey) (secret : SecretKey) :
    KeyImage.ofKeys cyclic key secret ≠ .ok .null := by
  intro eq
  obtain ⟨x, -, eq⟩ := Except.bind_eq_ok.mp eq
  -- the encoding of a point is the number after it, which is not zero
  generalize cyclic.smul x.val (hashToPoint cyclic key) = P at eq
  have bytes : (Bytes.ofNat (P.val + 1) : Bytes32) = .zero :=
    congrArg KeyImage.bytes (Except.ok.inj eq)
  have value : (Bytes.ofNat (P.val + 1) : Bytes32).toNat = P.val + 1 :=
    Bytes.toNat_ofNat (Nat.lt_of_le_of_lt P.isLt (by decide))
  rw [bytes] at value
  have zero : (Bytes.zero : Bytes32).toNat = 0 := by decide
  omega

end Suite

namespace CyclicSuite

/-- The key of a multiple of the base point. -/
def publicKey (a : Nat) : PublicKey := .ofPoint .cyclic (Suite.cyclic.mulBase (.ofNat a))

/-- A full account, of interest from the beginning. -/
def account : Account where
  keys :=
    { address := ⟨publicKey 5, publicKey 7⟩
      spendSecret := some (.ofScalar (.ofNat 5))
      viewSecret := .ofScalar (.ofNat 7) }
  createTime := 0

/-- The address of somebody else. -/
def stranger : Address := ⟨publicKey 11, publicKey 13⟩

/-- The one-time key of the first output that a sender pays to the account. -/
def key (sender : Nat) : PublicKey :=
  ((KeyDerivation.ofKeys .cyclic account.address.viewKey (.ofScalar (.ofNat sender))).bind fun d =>
    d.publicKey .cyclic 0 account.address.spendKey).toOption.getD default

/-- A key whose point lies outside of the subgroup. -/
def outside : PublicKey := .ofPoint .cyclic (1 : Fin cyclicOrder)

/-- An output of the account between two others, one of which lies outside of the subgroup. -/
def source : Source := ⟨[(2, outside), (7, key 3), (9, publicKey 9)], 1, publicKey 3, 0, 1000⟩

end CyclicSuite

end RingWallet
