import RingWallet.Proofs.Crypto.Group
import RingWallet.Proofs.Ledger.Extra
import RingWallet.Proofs.Spend.Construct
import RingWallet.Proofs.Support.CyclicSuite
import RingWallet.Proofs.Wallet.Replay

/-!
# The receiver finds what the sender made

Sender and receiver number the outputs and derive the one-time keys independently. What they share
is the transaction key in front of the extra bytes (`Extra.publicKey?_encodeKey`), from which either
computes the same derivation (`Suite.Lawful.ofKeys_comm`), and the position of an output in the
transaction: `Construct.paid_of_outputs` says what stands at a position, `Reading.mem_ownOutputs`
which positions a receiver recognises. `received_of_construct` puts these together.
-/

set_option autoImplicit false

namespace RingWallet

namespace Scan

variable {S : Suite} {address : Address} {d : KeyDerivation} {outs : List TxOut} {own : List Nat}

/-- What the recognised positions are worth. -/
theorem toNat_amountAt (run : ownOutputs S address d 0 outs = .ok own) :
    (amountAt outs own).toNat = min (exactSum ((outs.zipIdx.filter fun (out, i) =>
      (d.publicKey S i address.spendKey).toOption = some out.key).map fun p => p.1.amount))
      maxWord := by
  have each (p : TxOut × Nat) (mem : p ∈ outs.zipIdx) :
      ((outs[p.2]?.map TxOut.amount).getD 0).toNat = p.1.amount.toNat := by
    rw [List.mem_zipIdx_iff_getElem?.mp mem]
    rfl
  unfold amountAt exactSum
  rw [UInt64.toNat_foldl_addSat, Reading.ownOutputs_eq run, List.map_map, List.map_map]
  show min (0 + _) maxWord = _
  rw [Nat.zero_add]
  congr 2
  exact List.map_congr_left fun p mem => each p (List.mem_filter.mp mem).1

end Scan

namespace Construct

variable {S : Suite} {txSecret : SecretKey}

/-- The output for a destination, at the position where it was put: its key is derived from the
secret that is shared with the destination. -/
structure PaidAt (S : Suite) (txSecret : SecretKey) (out : TxOut) (i : Nat) (dst : Destination) :
    Prop where
  amount : out.amount = dst.amount
  key : ∃ d, KeyDerivation.ofKeys S dst.address.viewKey txSecret = .ok d ∧
    d.publicKey S i dst.address.spendKey = .ok out.key

/-- Every destination has its output. -/
theorem paid_of_outputs {index : Nat} {total total' : UInt64} {destinations : List Destination}
    {outs : List TxOut} (run : outputs S txSecret index total destinations = .ok (outs, total')) :
    List.Forall₂ (fun (out, i) dst => PaidAt S txSecret out i dst) (outs.zipIdx index)
      destinations := by
  induction destinations generalizing index total outs with
  | nil =>
    obtain ⟨rfl, -⟩ := Prod.mk.inj (Except.ok.inj run)
    exact .nil
  | cons dst rest ih =>
    obtain ⟨d, shared, run⟩ := Except.bind_eq_ok.mp run
    obtain ⟨key, derived, run⟩ := Except.bind_eq_ok.mp run
    -- a sum that does not fit ends the construction
    rcases sum : total.addChecked dst.amount with - | total₁
    · rw [sum] at run
      cases run
    · rw [sum] at run
      obtain ⟨⟨others, total₂⟩, later, run⟩ := Except.bind_eq_ok.mp run
      obtain ⟨rfl, rfl⟩ := Prod.mk.inj (Except.ok.inj run)
      rw [Except.mapError_eq_ok] at shared derived
      exact .cons ⟨rfl, d, shared, derived⟩ (ih later)

/-- What stands at the position of a destination. -/
theorem exists_paidAt {outs : List TxOut} {destinations : List Destination}
    (paid : List.Forall₂ (fun (out, i) dst => PaidAt S txSecret out i dst) outs.zipIdx destinations)
    {i : Nat} {dst : Destination} (here : destinations[i]? = some dst) :
    ∃ out, outs[i]? = some out ∧ PaidAt S txSecret out i dst := by
  obtain ⟨bound, rfl⟩ := List.getElem?_eq_some_iff.mp here
  obtain ⟨length, each⟩ := List.forall₂_iff_get.mp paid
  have inside : i < outs.length := by
    rw [List.length_zipIdx] at length
    omega
  refine ⟨outs[i], List.getElem?_eq_getElem inside, ?_⟩
  have made := each i (length ▸ bound) bound
  simp only [List.get_eq_getElem, List.getElem_zipIdx, Nat.zero_add] at made
  exact made

/-- If the outputs of one address satisfy a condition, those that do are worth at least what the
address is paid. -/
theorem exactSum_filter_le (address : Address) (P : TxOut × Nat → Bool) {outs : List (TxOut × Nat)}
    {destinations : List Destination}
    (paid : List.Forall₂ (fun (out, i) dst => PaidAt S txSecret out i dst) outs destinations)
    (each : ∀ out i dst, PaidAt S txSecret out i dst → dst.address = address → P (out, i) = true) :
    exactSum ((destinations.filter fun dst => dst.address = address).map Destination.amount) ≤
      exactSum ((outs.filter P).map fun p => p.1.amount) := by
  induction paid with
  | nil => exact Nat.le_refl 0
  | @cons p dst outs destinations first _ ih =>
    -- a destination of the address has its output among those that are kept
    by_cases own : dst.address = address
    · have kept := each p.1 p.2 dst first own
      have amount : p.1.amount = dst.amount := first.amount
      simp only [List.filter_cons, own, kept, decide_true, if_true, List.map_cons, exactSum_cons,
        amount]
      omega
    · simp only [List.filter_cons, own, decide_false, Bool.false_eq_true, if_false]
      split
      · simp only [List.map_cons, exactSum_cons]
        omega
      · exact ih

/-- A verified account finds the transaction key, and computes from it the derivation with which the
sender makes the outputs for its address. -/
theorem Pays.exists_derivation (lawful : S.Lawful) {destinations : List Destination}
    {tx : Transaction} {r : Scalar} (pays : Pays S destinations tx r) {account : Account}
    (verified : account.verify S = true) :
    Extra.publicKey? tx.extra = some (.ofPoint S (S.mulBase r)) ∧
      ∃ d, Scan.derivation? S account.keys (Extra.parse tx.extra).1 = some d ∧
        KeyDerivation.ofKeys S account.address.viewKey (.ofScalar r) = .ok d := by
  have found : Extra.publicKey? tx.extra = some (.ofPoint S (S.mulBase r)) := by
    obtain ⟨more, extra⟩ := pays.extra_eq
    rw [extra, Extra.publicKey?_encodeKey]
  have genuine := (Bool.and_eq_true_iff.mp verified).1
  obtain ⟨a, view, viewKey⟩ := Reading.exists_scalar_of_matches genuine
  -- the view secret and the secret of the transaction change places
  have shared : KeyDerivation.ofKeys S (.ofPoint S (S.mulBase r)) account.keys.viewSecret =
      KeyDerivation.ofKeys S account.address.viewKey (.ofScalar r) := by
    rw [viewKey]
    exact lawful.ofKeys_comm (SecretKey.scalar_ofScalar r) view
  obtain ⟨d, derived⟩ : ∃ d,
      KeyDerivation.ofKeys S account.address.viewKey (.ofScalar r) = .ok d := by
    rw [← shared, KeyDerivation.ofKeys, lawful.point_ofPoint, view]
    exact ⟨_, rfl⟩
  refine ⟨found, d, ?_, derived⟩
  show (Extra.publicKey? tx.extra).bind _ = _
  rw [found, Option.bind_some, shared, derived]
  rfl

end Construct

/-- Sender and receiver agree, whatever the sources, the destinations, the extra bytes and the
random words are, and for every verified account that is paid, view-only or not. In a constructed
transaction the receiver finds the transaction key and computes the derivation that the sender used;
it can try all outputs, and it recognises every output that was made for its address. The outputs
stand in the order `Construct.inOrder`. What it recognises is worth at least what it was paid, up to
the largest word. -/
theorem received_of_construct {S : Suite} (lawful : S.Lawful) {σ : Type} (next : RandomSource σ)
    {sender : AccountKeys} {sources : List Source} {destinations : List Destination} {extra : Blob}
    {unlockTime : UInt64} {s t : σ} {tx : Transaction}
    (run : (construct S next sender sources destinations extra unlockTime).run.run s = (.ok tx, t))
    {account : Account} (verified : account.verify S = true)
    (paid : ∃ dst ∈ destinations, dst.address = account.address) :
    ∃ d own,
      Extra.publicKey? tx.extra = some (.ofPoint S (S.mulBase (next.scalar.run s).1)) ∧
      Scan.derivation? S account.keys (Extra.parse tx.extra).1 = some d ∧
      KeyDerivation.ofKeys S account.address.viewKey (.ofScalar (next.scalar.run s).1) = .ok d ∧
      Scan.ownOutputs S account.address d 0 tx.outputs = .ok own ∧
      (Construct.inOrder destinations).Perm destinations ∧
      (∀ (i : Nat) (dst : Destination), (Construct.inOrder destinations)[i]? = some dst →
        (∃ out, tx.outputs[i]? = some out ∧ out.amount = dst.amount) ∧
        (dst.address = account.address → i ∈ own)) ∧
      min (exactSum ((destinations.filter fun dst => dst.address = account.address).map
          Destination.amount)) maxWord ≤ (Scan.amountAt tx.outputs own).toNat := by
  obtain ⟨spendSecret, prepared, money, spent, steps⟩ := Construct.steps_of_construct run
  have outputs := Construct.paid_of_outputs steps.pays
  have order : (Construct.inOrder destinations).Perm destinations := List.mergeSort_perm _ _
  obtain ⟨found, d, usable, derived⟩ := steps.paid.exists_derivation lawful verified
  -- an output for the address has the key that the receiver computes for its position
  have mine (out : TxOut) (i : Nat) (dst : Destination)
      (made : Construct.PaidAt S (.ofScalar (next.scalar.run s).1) out i dst)
      (own : dst.address = account.address) :
      d.publicKey S i account.address.spendKey = .ok out.key := by
    obtain ⟨d', shared, key⟩ := made.key
    rw [own] at shared key
    obtain rfl : d = d' := Except.ok.inj (derived.symm.trans shared)
    exact key
  -- so the spend key of the address has a point, and the receiver can try all outputs
  obtain ⟨own, recognised⟩ : ∃ own, Scan.ownOutputs S account.address d 0 tx.outputs = .ok own := by
    obtain ⟨dst, mem, own⟩ := paid
    obtain ⟨i, here⟩ := List.getElem?_of_mem (order.mem_iff.mpr mem)
    obtain ⟨out, -, made⟩ := Construct.exists_paidAt outputs here
    obtain ⟨P, point, -⟩ := Except.bind_eq_ok.mp (mine out i dst made own)
    exact Scan.exists_ownOutputs point d 0 tx.outputs
  refine ⟨d, own, found, usable, derived, recognised, order, ?_, ?_⟩
  · intro i dst here
    obtain ⟨out, at_i, made⟩ := Construct.exists_paidAt outputs here
    refine ⟨⟨out, at_i, made.amount⟩, ?_⟩
    intro own
    exact (Reading.mem_ownOutputs recognised).mpr ⟨out, at_i, mine out i dst made own⟩
  · have worth := Construct.exactSum_filter_le account.address (fun (out, i) =>
      (d.publicKey S i account.address.spendKey).toOption = some out.key) outputs
      fun out i dst made own =>
        decide_eq_true (Except.toOption_eq_some.mpr (mine out i dst made own))
    rw [exactSum_perm ((order.filter _).map _)] at worth
    rw [Scan.toNat_amountAt recognised]
    omega

/-! ### Two outputs for one receiver -/

namespace Receiving

open CyclicSuite

/-- Two amounts for the account, and one between them for somebody else. -/
def destinations : List Destination :=
  [⟨600, account.address⟩, ⟨300, stranger⟩, ⟨50, account.address⟩]

/-- They are paid from one output. The extra bytes hold a nonce and a tail that is no field. -/
def run (seed : UInt64) : Except TransactionError Transaction × UInt64 :=
  (construct .cyclic .splitMix account.keys [source] destinations [2, 1, 9, 255] 0).run.run seed

/-- The outputs are ordered by their amounts. -/
theorem inOrder_destinations : Construct.inOrder destinations =
    [⟨50, account.address⟩, ⟨300, stranger⟩, ⟨600, account.address⟩] := by
  simp [Construct.inOrder, destinations, List.mergeSort]

/-- The construction succeeds. -/
theorem exists_run : ∃ tx t, run 1 = (.ok tx, t) := by
  have succeeds : (run 1).1.toOption.isSome = true := by
    unfold run construct
    rw [show (destinations.mergeSort fun a b => a.amount ≤ b.amount) = _ from inOrder_destinations]
    decide +kernel
  obtain ⟨tx, made⟩ := Option.isSome_iff_exists.mp succeeds
  exact ⟨tx, _, Prod.ext (Except.toOption_eq_some.mp made) rfl⟩

end Receiving

open Receiving CyclicSuite in
/-- The account recognises the first and the last output, also without its spend secret. -/
theorem received_of_construct_cyclic :
    ∃ tx t, run 1 = (.ok tx, t) ∧ ∀ receiver ∈ [account, account.toViewOnly],
      receiver.verify .cyclic = true ∧ ∃ d own,
        Scan.derivation? .cyclic receiver.keys (Extra.parse tx.extra).1 = some d ∧
        Scan.ownOutputs .cyclic receiver.address d 0 tx.outputs = .ok own ∧ 0 ∈ own ∧ 2 ∈ own ∧
        650 ≤ (Scan.amountAt tx.outputs own).toNat := by
  obtain ⟨tx, t, made⟩ := exists_run
  refine ⟨tx, t, made, ?_⟩
  intro receiver mem
  have same : ∀ receiver ∈ [account, account.toViewOnly],
      receiver.verify .cyclic = true ∧ receiver.address = account.address := by
    decide +kernel
  obtain ⟨verified, address⟩ := same receiver mem
  obtain ⟨d, own, -, usable, -, recognised, -, positions, worth⟩ :=
    received_of_construct Suite.lawful_cyclic .splitMix made verified
      ⟨⟨600, account.address⟩, by simp [destinations], address.symm⟩
  -- two of the three outputs are paid to the account
  rw [inOrder_destinations] at positions
  have paid : min (exactSum ((destinations.filter fun dst => dst.address = receiver.address).map
      Destination.amount)) maxWord = 650 := by
    rw [address]
    decide +kernel
  rw [paid] at worth
  exact ⟨verified, d, own, usable, recognised, (positions 0 _ rfl).2 address.symm,
    (positions 2 _ rfl).2 address.symm, worth⟩

end RingWallet
