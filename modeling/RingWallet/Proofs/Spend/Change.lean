import RingWallet.Proofs.Spend.Conserve
import RingWallet.Proofs.Spend.Receive
import RingWallet.Proofs.Wallet.Payments

/-!
# The change comes back

The sender of a transaction is one of its receivers. `Construct.ownedSum_of_pays` says what an
account recognises in a transaction: exactly the outputs that were made for its address, if the
other ones were made for accounts that share no output with it (`Elsewhere`). So what a wallet
recognises in a transaction of its own is the change without the dust that is left to the fee
(`Build.Drafted.ownedSum_add_dust`).
-/

set_option autoImplicit false

namespace RingWallet

open Reading Scan

/-- An address of another account, which passes its check and recognises none of the outputs of a
transaction that `account` recognises. -/
structure Elsewhere (S : Suite) (account : Account) (tx : Transaction) (address : Address) :
    Prop where
  other : address ≠ account.address
  payee : ∃ payee : Account, payee.address = address ∧ payee.verify S = true ∧
    (owned S payee tx).Disjoint (owned S account tx)

namespace Reading

variable {S : Suite} {account : Account}

/-- The own outputs of a transaction, with their positions. -/
theorem ownedSum_eq_filter {tx : Transaction} {d : KeyDerivation}
    (usable : derivation? S account.keys (Extra.parse tx.extra).1 = some d) :
    ownedSum S account tx = exactSum ((tx.outputs.zipIdx.filter fun p =>
      p.2 ∈ owned S account tx).map fun p => p.1.amount) := by
  have each (p : TxOut × Nat) (mem : p ∈ tx.outputs.zipIdx) :
      (tx.outputs[p.2]?.map TxOut.amount).getD 0 = p.1.amount := by
    rw [List.mem_zipIdx_iff_getElem?.mp mem]
    rfl
  -- to be recognised is the same condition for the position and for the output at it
  have positions : owned S account tx = (tx.outputs.zipIdx.filter fun p =>
      p.2 ∈ owned S account tx).map Prod.snd := by
    conv_lhs => rw [owned, usable, Option.elim_some]
    refine congrArg _ (List.filter_congr fun p mem => decide_eq_decide.mpr ?_)
    rw [mem_owned usable, List.mem_zipIdx_iff_getElem?.mp mem, Except.toOption_eq_some]
    simp
  rw [ownedSum_eq, worthAt]
  conv_lhs => rw [positions, List.map_map]
  exact congrArg _ (List.map_congr_left fun p mem => each p (List.mem_filter.mp mem).1)

end Reading

namespace Construct

variable {S : Suite}

/-- If exactly the outputs of one address satisfy a condition, those that do are worth what the
address is paid. -/
theorem exactSum_filter_eq (address : Address) (P : TxOut × Nat → Bool) {txSecret : SecretKey}
    {outs : List (TxOut × Nat)} {destinations : List Destination}
    (paid : List.Forall₂ (fun (out, i) dst => PaidAt S txSecret out i dst) outs destinations)
    (each : ∀ p ∈ outs, ∀ dst ∈ destinations, PaidAt S txSecret p.1 p.2 dst →
      (P p = true ↔ dst.address = address)) :
    exactSum ((outs.filter P).map fun p => p.1.amount) =
      exactSum ((destinations.filter fun dst => dst.address = address).map
        Destination.amount) := by
  -- along the outputs and the destinations that they were made for, in the same order
  induction paid with
  | nil => rfl
  | @cons p dst outs destinations first _ ih =>
    have made := each p List.mem_cons_self dst List.mem_cons_self first
    have rest := ih fun p mem dst mem' =>
      each p (List.mem_cons_of_mem _ mem) dst (List.mem_cons_of_mem _ mem')
    have amount : p.1.amount = dst.amount := first.amount
    by_cases own : dst.address = address
    · simp [made.mpr own, own, amount, rest]
    · simp [Bool.eq_false_iff.mpr (mt made.mp own), own, rest]

variable {destinations : List Destination} {tx : Transaction} {r : Scalar}

/-- The output for the address of a verified account is one of its own. -/
theorem Pays.mem_owned (lawful : S.Lawful) (pays : Pays S destinations tx r) {account : Account}
    (verified : account.verify S = true) {out : TxOut} {i : Nat} {dst : Destination}
    (here : tx.outputs[i]? = some out) (made : PaidAt S (.ofScalar r) out i dst)
    (own : dst.address = account.address) : i ∈ owned S account tx := by
  obtain ⟨-, d, usable, derived⟩ := pays.exists_derivation lawful verified
  obtain ⟨d', shared, key⟩ := made.key
  rw [own] at shared key
  obtain rfl : d = d' := Except.ok.inj (derived.symm.trans shared)
  exact (Reading.mem_owned usable).mpr ⟨out, here, key⟩

/-- What a verified account recognises is worth what its address is paid, if all other destinations
are elsewhere. -/
theorem ownedSum_of_pays (lawful : S.Lawful) (pays : Pays S destinations tx r) {account : Account}
    (verified : account.verify S = true)
    (others : ∀ dst ∈ destinations, dst.address = account.address ∨
      Elsewhere S account tx dst.address) :
    ownedSum S account tx =
      exactSum ((destinations.filter fun dst => dst.address = account.address).map
        Destination.amount) := by
  obtain ⟨-, d, usable, -⟩ := pays.exists_derivation lawful verified
  obtain ⟨spent, run⟩ := pays.outputs
  have order : (inOrder destinations).Perm destinations := List.mergeSort_perm _ _
  rw [← exactSum_perm ((order.filter _).map _), ownedSum_eq_filter usable]
  refine exactSum_filter_eq account.address _ (paid_of_outputs run) ?_
  intro p mem dst among made
  have here : tx.outputs[p.2]? = some p.1 := List.mem_zipIdx_iff_getElem?.mp mem
  rw [decide_eq_true_iff]
  constructor
  · intro is_owned
    refine (others dst (order.mem_iff.mp among)).resolve_right ?_
    -- the output belongs to its payee, who shares none
    rintro ⟨-, payee, address, genuine, apart⟩
    exact apart (pays.mem_owned lawful genuine here made address.symm) is_owned
  · exact pays.mem_owned lawful verified here made

end Construct

namespace SplitStrategy

variable (strategy : SplitStrategy) (destinations : List Destination) (change : Destination)
  (threshold : UInt64)

/-- What is left of the change and its dust is the change. -/
theorem exactSum_filter_split (others : ∀ d ∈ destinations, d.address ≠ change.address) :
    exactSum (((strategy.split destinations change threshold).1.filter
        fun d => d.address = change.address).map Destination.amount) +
      (strategy.split destinations change threshold).2.toNat = change.amount.toNat := by
  obtain ⟨shares, back, outputs, paid, own, rest⟩ :=
    strategy.exists_shares destinations change threshold
  have none : shares.flatten.filter (fun d => d.address = change.address) = [] := by
    refine List.filter_eq_nil_iff.mpr fun d mem => ?_
    obtain ⟨d', here, same⟩ := exists_destination_of_paidBy paid mem
    simpa [← same] using others d' here
  have all : back.filter (fun d => d.address = change.address) = back :=
    List.filter_eq_self.mpr fun d mem => by simpa using own d mem
  rw [outputs, List.filter_append, none, all, List.nil_append]
  exact rest

end SplitStrategy

namespace Build

/-- A destination of a split is the address of a destination or of the change. -/
theorem address_of_mem_split {strategy : SplitStrategy} {destinations : List Destination}
    {change : Destination} {threshold : UInt64} :
    ∀ d ∈ (strategy.split destinations change threshold).1,
      d.address = change.address ∨ ∃ d' ∈ destinations, d'.address = d.address := by
  intro d mem
  obtain ⟨shares, back, outputs, paid, own, -⟩ :=
    strategy.exists_shares destinations change threshold
  rw [outputs] at mem
  rcases List.mem_append.mp mem with share | rest
  · exact .inr (exists_destination_of_paidBy paid share)
  · exact .inl (own d rest)

/-- What a wallet recognises in a transaction that pays others is the change without the dust, if
the dust is left to the fee. -/
theorem Drafted.ownedSum_add_dust {S : Suite} (lawful : S.Lawful) {w : Wallet}
    {r : TransferRequest} {draft : Draft} {p : PendingTransaction} (drafted : Drafted S w r draft p)
    (verified : w.account.verify S = true) (policy : r.dustPolicy.addToFee = true)
    (others : ∀ dst ∈ r.destinations, Elsewhere S w.account p.tx dst.address) :
    ownedSum S w.account p.tx + p.dust.toNat = p.change.amount.toNat := by
  obtain ⟨key, pays⟩ := drafted.paid
  have none : dustOutput r.dustPolicy w.account.address p.dust = [] := by
    simp [dustOutput, policy]
  rw [none, List.append_nil] at pays
  -- so the outputs are those of the split, for others and for the change
  have own : p.change.address = w.account.address := by rw [drafted.change]
  have apart : ∀ dst ∈ (r.strategy.split r.destinations p.change r.dustPolicy.threshold).1,
      dst.address = w.account.address ∨ Elsewhere S w.account p.tx dst.address := by
    intro dst mem
    rcases address_of_mem_split dst mem with back | ⟨dst', here, same⟩
    · exact .inl (back.trans own)
    · exact .inr (same ▸ others dst' here)
  rw [Construct.ownedSum_of_pays lawful pays verified apart, drafted.dust, ← own]
  refine SplitStrategy.exactSum_filter_split _ _ _ _ fun dst mem => ?_
  rw [own]
  exact (others dst mem).other

end Build

end RingWallet
