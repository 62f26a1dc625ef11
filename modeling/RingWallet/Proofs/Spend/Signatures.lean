import RingWallet.Proofs.Crypto.RingSignature
import RingWallet.Proofs.Spend.Construct
import RingWallet.Proofs.Support.CyclicSuite

/-!
# The signatures of a transaction are accepted

`signatures_accepted` says that a ring signature is accepted by whoever checks it, and that the
inputs of a constructed transaction are all signed in this way. The link between the two is
`Construct.check_of_prepared`: a source is prepared only if the derived secret belongs to the key at
the position of the real output, and the key image is made from the two.
-/

set_option autoImplicit false

namespace RingWallet

namespace Construct

variable {S : Suite} {σ : Type} {next : RandomSource σ}

/-- The signature of a prepared source is accepted. -/
theorem check_of_prepared (lawful : S.Lawful) {keys : AccountKeys} {spendSecret : SecretKey}
    {p : SpendableSource} (prepared : spendable S keys spendSecret p.source = .ok p)
    {message : Hash} {signature : List Signature} {s t : σ}
    (run : (RingSignature.generate S next message p.image p.source.keys p.secret
      p.source.position).run.run s = (.ok signature, t)) :
    RingSignature.check S message p.image p.source.keys signature = true := by
  obtain ⟨-, index, key, derivation, here, -, -, belongs, made⟩ := spendable_eq_ok.mp prepared
  obtain ⟨x, scalar, computed⟩ := Except.bind_eq_ok.mp belongs
  obtain rfl := Except.ok.inj computed
  have real : p.source.keys[p.source.position]? = some (.ofPoint S (S.mulBase x)) := by
    rw [Source.keys, List.getElem?_map, here]
    rfl
  exact RingSignature.check_of_generate lawful real (lawful.point_ofPoint _) scalar made run

end Construct

/-- Signatures are accepted, whatever the random words are. Whoever knows the secret of a member of
a ring of points, not the secret zero, gets a signature for the key image of this member, and it is
accepted. A constructed transaction has one input and one signature for each source, in order: the
input names the ring of the source, and the signature is accepted for this ring, for the key image
of the input and for the hash of the signed part of the transaction itself. -/
theorem signatures_accepted {S : Suite} (lawful : S.Lawful) {σ : Type} (next : RandomSource σ) :
    (∀ (message : Hash) (ring : List PublicKey) (signer : Nat) (key : PublicKey)
        (secret : SecretKey) (x : Scalar) (image : KeyImage) (s : σ),
      (∀ member ∈ ring, member.isValid S = true) → ring[signer]? = some key →
      key.point S = .ok (S.mulBase x) → secret.scalar = .ok x → x ≠ .zero →
      KeyImage.ofKeys S key secret = .ok image →
      ∃ signature t,
        (RingSignature.generate S next message image ring secret signer).run.run s =
          (.ok signature, t) ∧
        RingSignature.check S message image ring signature = true) ∧
    ∀ (sender : AccountKeys) (sources : List Source) (destinations : List Destination)
        (extra : Blob) (unlockTime : UInt64) (s t : σ) (tx : Transaction),
      (construct S next sender sources destinations extra unlockTime).run.run s = (.ok tx, t) →
      tx.inputs.length = sources.length ∧ tx.signatures.length = tx.inputs.length ∧
      ∀ (i : Nat) (source : Source), sources[i]? = some source → ∃ image signature,
        tx.inputs[i]? = some (.toKey source.amount
          (Offsets.toRelative (source.ring.map Prod.fst)) image) ∧
        tx.signatures[i]? = some signature ∧
        RingSignature.check S (tx.signedPart.hash S) image source.keys signature = true := by
  constructor
  · -- every valid ring can be signed, and the signature is accepted
    intro message ring signer key secret x image s valid real own scalar nonzero made
    have inside : signer < ring.length := (List.getElem?_eq_some_iff.mp real).1
    obtain ⟨signature, t, run⟩ :=
      RingSignature.exists_generate lawful valid inside scalar nonzero made s
    exact ⟨signature, t, run, RingSignature.check_of_generate lawful real own scalar made run⟩
  · -- every input of a constructed transaction was signed at the position of its source
    intro sender sources destinations extra unlockTime s t tx run
    obtain ⟨spendSecret, prepared, money, spent, steps⟩ := Construct.steps_of_construct run
    obtain ⟨same, each, -⟩ := Construct.of_spendables steps.prepares
    obtain ⟨s₁, t₁, signs⟩ := steps.signs
    obtain ⟨signed, paired⟩ := List.forall₂_iff_get.mp (Construct.of_sign signs)
    have inputs : tx.inputs.length = sources.length := by
      rw [steps.inputs, ← same, List.length_map, List.length_map]
    refine ⟨inputs, by rw [steps.inputs, List.length_map, signed], ?_⟩
    intro i source here
    rw [← same, List.getElem?_map] at here
    obtain ⟨p, found, rfl⟩ := Option.map_eq_some_iff.mp here
    obtain ⟨bound, rfl⟩ := List.getElem?_eq_some_iff.mp found
    obtain ⟨s₂, t₂, signs⟩ := paired i bound (signed ▸ bound)
    refine ⟨prepared[i].image, tx.signatures[i], ?_, List.getElem?_eq_getElem _, ?_⟩
    · rw [steps.inputs, List.getElem?_map, found]
      rfl
    · exact Construct.check_of_prepared lawful (each _ (List.getElem_mem bound)) signs

namespace Signing

open CyclicSuite

/-- The output is spent, and the fee is 100. -/
def run (seed : UInt64) : Except TransactionError Transaction × UInt64 :=
  (construct .cyclic .splitMix account.keys [source] [⟨900, stranger⟩] [] 0).run.run seed

end Signing

open Signing CyclicSuite in
/-- The second member of a ring of three signs, and a transaction with one input is made. -/
theorem signatures_accepted_cyclic :
    (∃ image signature t, KeyImage.ofKeys .cyclic (publicKey 5) (.ofScalar (.ofNat 5)) = .ok image ∧
      (RingSignature.generate .cyclic .splitMix .null image [outside, publicKey 5, publicKey 9]
        (.ofScalar (.ofNat 5)) 1).run.run 1 = (.ok signature, t) ∧
      RingSignature.check .cyclic .null image [outside, publicKey 5, publicKey 9] signature =
        true) ∧
    ∃ tx t, run 1 = (.ok tx, t) ∧ tx.signatures.length = 1 ∧ ∃ image signature,
      tx.signatures[0]? = some signature ∧
      RingSignature.check .cyclic (tx.signedPart.hash .cyclic) image source.keys signature =
        true := by
  obtain ⟨signs, constructs⟩ := signatures_accepted Suite.lawful_cyclic .splitMix
  constructor
  · -- the key of the secret 5 stands at position 1 of the ring
    have made : ∃ image, KeyImage.ofKeys .cyclic (publicKey 5) (.ofScalar (.ofNat 5)) = .ok image :=
      ⟨_, by rw [KeyImage.ofKeys, SecretKey.scalar_ofScalar]; rfl⟩
    obtain ⟨image, made⟩ := made
    obtain ⟨signature, t, run, accepted⟩ := signs .null [outside, publicKey 5, publicKey 9] 1
      (publicKey 5) (.ofScalar (.ofNat 5)) (.ofNat 5) image 1 (by decide +kernel) rfl
      (Suite.lawful_cyclic.point_ofPoint _) (SecretKey.scalar_ofScalar _) (by decide) made
    exact ⟨image, signature, t, made, run, accepted⟩
  · -- the transaction has one input, which is the one of the source
    have succeeds : (run 1).1.toOption.isSome = true := by decide +kernel
    obtain ⟨tx, made⟩ := Option.isSome_iff_exists.mp succeeds
    have made : run 1 = (.ok tx, (run 1).2) := Prod.ext (Except.toOption_eq_some.mp made) rfl
    obtain ⟨inputs, signatures, each⟩ := constructs _ _ _ _ _ _ _ tx made
    obtain ⟨image, signature, -, signed, accepted⟩ := each 0 source rfl
    exact ⟨tx, _, made, signatures.trans inputs, image, signature, signed, accepted⟩

end RingWallet
