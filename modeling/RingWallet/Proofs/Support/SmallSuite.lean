import RingWallet.Account
import RingWallet.Proofs.Support.Except
import RingWallet.Wallet.Sync

/-!
# A suite to compute with

`Suite.small` is the additive group of the numbers below the group order, with the length and the
value of a message as its digest. It hides nothing, but its keys and key images can be computed, and
no point is encoded as zero bytes (`Suite.small_ofKeys_ne_null`), so that whole runs of a wallet can
be followed in it. `SmallSuite.account` is an account of it, `SmallSuite.payment` pays that account,
and `SmallSuite.image` is the key image of such a payment. `SmallSuite.funding` is the first block
of a chain, and `SmallSuite.spending` and `SmallSuite.rewarding` are two that can come next.
-/

set_option autoImplicit false

namespace RingWallet

namespace Suite

/-- The additive group of the numbers below the group order. A point is encoded as the number after
it. -/
def small : Suite where
  digest message := Bytes.ofNat (ofLittleEndian message + message.length)
  Point := Nat
  zero := 0
  add a b := (a + b) % groupOrder
  smul k a := k * a % groupOrder
  base := 1
  decode? b := if 0 < b.toNat ∧ b.toNat ≤ groupOrder then some (b.toNat - 1) else none
  encode P := Bytes.ofNat (P + 1)

/-- No point is encoded as zero bytes. -/
theorem small_encode_ne_zero {P : Nat} (bound : P < groupOrder) : small.encode P ≠ .zero := by
  intro eq
  have fits : P + 1 < Nat.pow 256 32 := Nat.lt_of_le_of_lt bound (by decide)
  have value : (Bytes.ofNat (P + 1) : Bytes32).toNat = (Bytes.zero : Bytes32).toNat :=
    congrArg Bytes.toNat eq
  rw [Bytes.toNat_ofNat fits] at value
  have zero : (Bytes.zero : Bytes32).toNat = 0 := by decide
  omega

/-- No key image is null. -/
theorem small_ofKeys_ne_null (key : PublicKey) (secret : SecretKey) :
    KeyImage.ofKeys small key secret ≠ .ok .null := by
  intro eq
  obtain ⟨x, -, eq⟩ := Except.bind_eq_ok.mp eq
  exact small_encode_ne_zero (Nat.mod_lt _ (by decide))
    (congrArg KeyImage.bytes (Except.ok.inj eq))

/-- The key of a multiple of the base point can be decoded. -/
theorem small_decode?_encode (a : Scalar) :
    small.decode? (small.encode (small.mulBase a)) = some (small.mulBase a) := by
  -- the base point is one, so that a point is its own scalar
  have point : small.mulBase a = a.val := by
    show a.val * 1 % groupOrder = a.val
    rw [Nat.mul_one, Nat.mod_eq_of_lt a.isLt]
  have value : (Bytes.ofNat (a.val + 1) : Bytes32).toNat = a.val + 1 :=
    Bytes.toNat_ofNat (Nat.lt_of_le_of_lt a.isLt (by decide))
  -- the encoding is one more than the point, so that no point is encoded as zero
  have bound : 0 < a.val + 1 ∧ a.val + 1 ≤ groupOrder := ⟨Nat.succ_pos _, a.isLt⟩
  have decoded : small.decode? (Bytes.ofNat (a.val + 1)) = some a.val := by
    unfold small
    simp only [value, bound, and_self, if_true, Nat.add_sub_cancel]
  rw [show small.encode (small.mulBase a) = Bytes.ofNat (a.val + 1) from
    congrArg small.encode point, decoded]
  exact congrArg some point.symm

/-- A multiple of a sum is the sum of the multiples. -/
theorem small_mulBase_add (a b : Scalar) :
    small.mulBase (a + b) = small.add (small.mulBase a) (small.mulBase b) := by
  show (a + b).val * 1 % groupOrder = (a.val * 1 % groupOrder + b.val * 1 % groupOrder) % groupOrder
  rw [Fin.val_add]
  simp

end Suite

namespace SmallSuite

/-- A full account, of interest from the beginning. -/
def account : Account where
  keys :=
    { address := ⟨.ofPoint .small (5 : Nat), .ofPoint .small (7 : Nat)⟩
      spendSecret := some (.ofScalar (.ofNat 5))
      viewSecret := .ofScalar (.ofNat 7) }
  createTime := 0

/-- The secret that the account shares with a sender whose transaction key stands for `sender`. -/
def shared (sender : Nat) : KeyDerivation := ⟨Suite.small.encode (8 * (7 * sender) : Nat)⟩

/-- The one-time key of the first output that a sender pays to the account. -/
def key (sender : Nat) : PublicKey :=
  ((shared sender).publicKey .small 0 account.address.spendKey).toOption.getD default

/-- The key image of that output. -/
def image (sender : Nat) : KeyImage :=
  (((shared sender).secretKey .small 0 (.ofScalar (.ofNat 5))).bind
    (KeyImage.ofKeys .small (key sender))).toOption.getD .null

/-- A transaction with one output, which pays the account. -/
def payment (sender : Nat) (amount : UInt64) (inputs : List TxIn) : Transaction :=
  ⟨⟨1, 0, inputs, [⟨amount, key sender⟩], Extra.encodeKey (.ofPoint .small sender)⟩, []⟩

/-- A reward that pays nobody. -/
def coinbase (height : UInt64) : Transaction := ⟨⟨1, 0, [.generated height], [], []⟩, []⟩

/-- A block with some transactions after its reward. -/
def block (reward : Transaction) (txs : List Transaction) : ParsedBlock :=
  let block : Block := ⟨⟨1, 0, 1, .null, 0⟩, reward, txs.map (Transaction.hash .small)⟩
  { block, id := block.hash .small, txs := txs.map fun tx => (tx.hash .small, tx) }

/-- A block whose reward of 10 goes to the account. -/
def funding : ParsedBlock := block (payment 3 10 [.generated 0]) []

/-- A block in which the account spends that reward and gets 6 back. -/
def spending : ParsedBlock := block (coinbase 1) [payment 4 6 [.toKey 10 [0] (image 3)]]

/-- A block in which the account spends that reward as well, but gets the new reward of 4 before. -/
def rewarding : ParsedBlock :=
  block (payment 5 4 [.generated 1]) [payment 4 6 [.toKey 10 [0] (image 3)]]

end SmallSuite

end RingWallet
