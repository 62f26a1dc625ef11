import RingWallet.Proofs.Support.Except
import RingWallet.Proofs.Support.Sums
import RingWallet.Spend.Construct

/-!
# What a constructed transaction holds

`Construct.steps_of_construct` takes a successful construction apart into its steps. Of these,
`Construct.of_construct` says what becomes of the amounts: there is one input for each source, with
the amount and the key image of the source, the outputs are those of the destinations in another
order, and they do not exceed the inputs. Both sums fit a word, because the totals are checked.
-/

set_option autoImplicit false

namespace RingWallet

namespace Construct

variable {S : Suite}

/-- A source is prepared with the secret that the account derives for its real output, when this
secret belongs to the key that stands at the position of the real output. -/
theorem spendable_eq_ok {keys : AccountKeys} {spendSecret : SecretKey} {source : Source}
    {p : SpendableSource} :
    spendable S keys spendSecret source = .ok p ↔
      p.source = source ∧ ∃ index key derivation,
        source.ring[source.position]? = some (index, key) ∧
        KeyDerivation.ofKeys S source.txKey keys.viewSecret = .ok derivation ∧
        derivation.secretKey S source.outputIndex spendSecret = .ok p.secret ∧
        p.secret.publicKey S = .ok key ∧ KeyImage.ofKeys S key p.secret = .ok p.image := by
  unfold spendable
  rcases member : source.ring[source.position]? with - | ⟨index, realKey⟩
  · constructor
    · exact fun run => nomatch run
    · rintro ⟨-, _, _, _, none, -⟩
      exact nomatch none
  constructor
  · intro run
    obtain ⟨derivation, shared, run⟩ := Except.bind_eq_ok.mp run
    obtain ⟨secret, derived, run⟩ := Except.bind_eq_ok.mp run
    obtain ⟨key, belongs, run⟩ := Except.bind_eq_ok.mp run
    split at run
    · cases run
    · -- the derived key has to be the one in the ring
      next same =>
      obtain ⟨image, made, run⟩ := Except.bind_eq_ok.mp run
      obtain rfl := Except.ok.inj run
      obtain rfl : key = realKey := not_not.mp same
      rw [Except.mapError_eq_ok] at shared derived belongs made
      exact ⟨rfl, index, key, derivation, rfl, shared, derived, belongs, made⟩
  · rintro ⟨rfl, _, key, derivation, here, shared, derived, belongs, made⟩
    obtain ⟨rfl, rfl⟩ := Prod.mk.inj (Option.some.inj here)
    simp only [shared, derived, belongs, made, Except.mapError_ok, Except.ok_bind]
    exact if_neg (not_not_intro rfl)

/-- A prepared source is still the source. -/
theorem source_of_spendable {keys : AccountKeys} {spendSecret : SecretKey} {source : Source}
    {p : SpendableSource} (run : spendable S keys spendSecret source = .ok p) :
    p.source = source :=
  (spendable_eq_ok.mp run).1

/-- The sources are prepared one by one, and their amounts fit the total. -/
theorem of_spendables {keys : AccountKeys} {spendSecret : SecretKey} {total total' : UInt64}
    {sources : List Source} {prepared : List SpendableSource}
    (run : spendables S keys spendSecret total sources = .ok (prepared, total')) :
    prepared.map SpendableSource.source = sources ∧
      (∀ p ∈ prepared, spendable S keys spendSecret p.source = .ok p) ∧
      total'.toNat = total.toNat + exactSum (sources.map Source.amount) := by
  induction sources generalizing total prepared total' with
  | nil =>
    obtain ⟨rfl, rfl⟩ := Prod.mk.inj (Except.ok.inj run)
    exact ⟨rfl, by simp, rfl⟩
  | cons source rest ih =>
    obtain ⟨p, first, run⟩ := Except.bind_eq_ok.mp run
    -- the total is checked with every source
    rcases sum : total.addChecked source.amount with - | total₁
    · rw [sum] at run
      cases run
    · rw [sum] at run
      obtain ⟨⟨others, total₂⟩, later, run⟩ := Except.bind_eq_ok.mp run
      obtain ⟨rfl, rfl⟩ := Prod.mk.inj (Except.ok.inj run)
      obtain ⟨same, each, add⟩ := ih later
      have own := source_of_spendable first
      have step := UInt64.addChecked_eq_some.mp sum
      refine ⟨?_, List.forall_mem_cons.mpr ⟨own ▸ first, each⟩, ?_⟩
      · rw [List.map_cons, own, same]
      · rw [add, step, List.map_cons, exactSum_cons, Nat.add_assoc]

/-- There is one output for each destination, and their amounts fit the total. -/
theorem of_outputs {txSecret : SecretKey} {index : Nat} {total total' : UInt64}
    {destinations : List Destination} {outs : List TxOut}
    (run : outputs S txSecret index total destinations = .ok (outs, total')) :
    outs.map TxOut.amount = destinations.map Destination.amount ∧
      total'.toNat = total.toNat + exactSum (destinations.map Destination.amount) := by
  induction destinations generalizing index total outs total' with
  | nil =>
    obtain ⟨rfl, rfl⟩ := Prod.mk.inj (Except.ok.inj run)
    exact ⟨rfl, rfl⟩
  | cons d rest ih =>
    obtain ⟨derivation, -, run⟩ := Except.bind_eq_ok.mp run
    obtain ⟨key, -, run⟩ := Except.bind_eq_ok.mp run
    -- the total is checked with every output
    rcases sum : total.addChecked d.amount with - | total₁
    · rw [sum] at run
      cases run
    · rw [sum] at run
      obtain ⟨⟨others, total₂⟩, later, run⟩ := Except.bind_eq_ok.mp run
      obtain ⟨rfl, rfl⟩ := Prod.mk.inj (Except.ok.inj run)
      obtain ⟨each, add⟩ := ih later
      have step := UInt64.addChecked_eq_some.mp sum
      refine ⟨congrArg (d.amount :: ·) each, ?_⟩
      rw [add, step, List.map_cons, exactSum_cons, Nat.add_assoc]

/-- Every prepared source is signed. -/
theorem of_sign {σ : Type} {next : RandomSource σ} {message : Hash}
    {prepared : List SpendableSource} {signatures : List (List Signature)} {s t : σ}
    (run : (sign S next message prepared).run.run s = (.ok signatures, t)) :
    List.Forall₂ (fun p signature => ∃ s t, (RingSignature.generate S next message p.image
      p.source.keys p.secret p.source.position).run.run s = (.ok signature, t))
      prepared signatures := by
  induction prepared generalizing signatures s t with
  | nil =>
    obtain rfl := Except.ok.inj (Prod.mk.inj run).1
    exact .nil
  | cons p rest ih =>
    obtain ⟨signature, s₁, first, run⟩ := ExceptT.run_bind_eq_ok.mp run
    obtain ⟨others, s₂, later, run⟩ := ExceptT.run_bind_eq_ok.mp run
    obtain rfl := Except.ok.inj (Prod.mk.inj run).1
    exact .cons ⟨s, s₁, ExceptT.run_adapt_eq_ok.mp first⟩ (ih later)

/-- The order in which destinations become outputs. -/
def inOrder (destinations : List Destination) : List Destination :=
  destinations.mergeSort fun a b => a.amount ≤ b.amount

/-- The outputs of a transaction are made for some destinations, with the secret `r` of the
transaction key that stands in front of its extra bytes. -/
structure Pays (S : Suite) (destinations : List Destination) (tx : Transaction) (r : Scalar) :
    Prop where
  outputs : ∃ spent, outputs S (.ofScalar r) 0 0 (inOrder destinations) = .ok (tx.outputs, spent)
  extra_eq : ∃ more, tx.extra = Extra.encodeKey (.ofPoint S (S.mulBase r)) ++ more

/-- The steps of a construction that succeeds. The secret `r` of the transaction key is drawn first,
`prepared` are the sources with the secrets of their real outputs. -/
structure Steps (S : Suite) {σ : Type} (next : RandomSource σ) (sender : AccountKeys)
    (sources : List Source) (destinations : List Destination) (extra : Blob) (tx : Transaction)
    (r : Scalar) (spendSecret : SecretKey) (prepared : List SpendableSource)
    (money spent : UInt64) : Prop where
  secret : sender.spendSecret = some spendSecret
  prepares : spendables S sender spendSecret 0 sources = .ok (prepared, money)
  pays : outputs S (.ofScalar r) 0 0 (inOrder destinations) = .ok (tx.outputs, spent)
  covers : spent ≤ money
  inputs : tx.inputs = prepared.map SpendableSource.input
  extra_eq : tx.extra = Extra.encodeKey (.ofPoint S (S.mulBase r)) ++ extra
  signs : ∃ s t, (sign S next (tx.signedPart.hash S) prepared).run.run s = (.ok tx.signatures, t)

/-- A construction that has gone through its steps pays the destinations. -/
theorem Steps.paid {σ : Type} {next : RandomSource σ} {sender : AccountKeys} {sources : List Source}
    {destinations : List Destination} {extra : Blob} {tx : Transaction} {r : Scalar}
    {spendSecret : SecretKey} {prepared : List SpendableSource} {money spent : UInt64}
    (steps : Steps S next sender sources destinations extra tx r spendSecret prepared money spent) :
    Pays S destinations tx r :=
  ⟨⟨spent, steps.pays⟩, ⟨extra, steps.extra_eq⟩⟩

/-- A construction that succeeds has gone through its steps. -/
theorem steps_of_construct {σ : Type} {next : RandomSource σ} {sender : AccountKeys}
    {sources : List Source} {destinations : List Destination} {extra : Blob} {unlockTime : UInt64}
    {s t : σ} {tx : Transaction}
    (run : (construct S next sender sources destinations extra unlockTime).run.run s =
      (.ok tx, t)) :
    ∃ spendSecret prepared money spent, Steps S next sender sources destinations extra tx
      (next.scalar.run s).1 spendSecret prepared money spent := by
  unfold construct at run
  rcases secret : sender.spendSecret with - | spendSecret
  · rw [secret] at run
    exact nomatch (Prod.mk.inj run).1
  rw [secret] at run
  simp only [] at run
  split at run
  · exact nomatch (Prod.mk.inj run).1
  -- the keys of the transaction, its inputs and its outputs
  obtain ⟨⟨txKey, txSecret⟩, s₁, drawn, run⟩ := ExceptT.run_bind_eq_ok.mp run
  obtain ⟨⟨prepared, money⟩, s₂, inputs, run⟩ := ExceptT.run_bind_eq_ok.mp run
  obtain ⟨⟨outs, spent⟩, s₃, outputs, run⟩ := ExceptT.run_bind_eq_ok.mp run
  obtain ⟨rfl, rfl⟩ := Prod.mk.inj (Except.ok.inj (Prod.mk.inj drawn).1)
  simp only [] at run
  split at run
  · exact nomatch (Prod.mk.inj run).1
  · next enough =>
    obtain ⟨signatures, s₄, signs, run⟩ := ExceptT.run_bind_eq_ok.mp run
    obtain rfl := Except.ok.inj (Prod.mk.inj run).1
    exact ⟨spendSecret, prepared, money, spent,
      { secret
        prepares := (ExceptT.run_lift_eq_ok.mp inputs).1
        pays := (ExceptT.run_lift_eq_ok.mp outputs).1
        covers := UInt64.not_lt.mp enough
        inputs := rfl
        extra_eq := rfl
        signs := ⟨s₃, s₄, signs⟩ }⟩

/-- What holds of a constructed transaction, where `prepared` are the sources with the secrets of
their real outputs. -/
structure Signed (S : Suite) (sender : AccountKeys) (sources : List Source)
    (destinations : List Destination) (tx : Transaction) (prepared : List SpendableSource) :
    Prop where
  same : prepared.map SpendableSource.source = sources
  secrets : ∃ spendSecret, sender.spendSecret = some spendSecret ∧
    ∀ p ∈ prepared, spendable S sender spendSecret p.source = .ok p
  inputs : tx.inputs = prepared.map SpendableSource.input
  outputs : (tx.outputs.map TxOut.amount).Perm (destinations.map Destination.amount)
  paid : ∃ r, Pays S destinations tx r
  fits : exactSum (sources.map Source.amount) ≤ maxWord
  covered : exactSum (destinations.map Destination.amount) ≤ exactSum (sources.map Source.amount)

/-- A construction that succeeds has signed for each of its sources. -/
theorem of_construct {σ : Type} {next : RandomSource σ} {sender : AccountKeys}
    {sources : List Source} {destinations : List Destination} {extra : Blob} {unlockTime : UInt64}
    {s t : σ} {tx : Transaction}
    (run : (construct S next sender sources destinations extra unlockTime).run.run s =
      (.ok tx, t)) : ∃ prepared, Signed S sender sources destinations tx prepared := by
  obtain ⟨spendSecret, prepared, money, spent, steps⟩ := steps_of_construct run
  obtain ⟨same, each, total⟩ := of_spendables steps.prepares
  obtain ⟨amounts, sum⟩ := of_outputs steps.pays
  -- the outputs stand in the order of their amounts, which does not change the sum
  have sorted : ((inOrder destinations).map Destination.amount).Perm
      (destinations.map Destination.amount) := (List.mergeSort_perm destinations _).map _
  have bound := money.toNat_le_maxWord
  have covers := UInt64.le_iff_toNat_le.mp steps.covers
  rw [exactSum_perm sorted] at sum
  simp at total sum
  refine ⟨prepared, same, ⟨spendSecret, steps.secret, each⟩, steps.inputs, ?_, ⟨_, steps.paid⟩,
    ?_, ?_⟩
  · rw [amounts]
    exact sorted
  · omega
  · omega

end Construct

end RingWallet
