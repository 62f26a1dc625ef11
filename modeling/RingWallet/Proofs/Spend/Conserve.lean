import RingWallet.Proofs.Spend.Build
import RingWallet.Proofs.Spend.Split
import RingWallet.Proofs.Support.Script

/-!
# Money is conserved

A transaction that was built spends exactly what it pays and leaves to the fee:
`conserved_of_build`. Money passes through four places on its way. The selection reports its total
cut off at the largest word, but the construction refuses inputs whose sum does not fit a word, so
that nothing was cut off (`Build.Drafted.toNat_found`). The change is what the selection has beyond
the destinations and the fee. The split keeps the sum (`SplitStrategy.exactSum_split`), and the dust
becomes an output or is left to the fee (`Build.exactSum_dustOutput`).
-/

set_option autoImplicit false

namespace RingWallet

open WalletM

namespace Build

variable {S : Suite} {w : Wallet} {r : TransferRequest} {draft : Draft} {p : PendingTransaction}

/-- The amounts of the inputs are those of the picked outputs. -/
theorem Drafted.amounts_eq (drafted : Drafted S w r draft p) :
    p.tx.inputs.map TxIn.amount = draft.picked.map fun c => c.transfer.amount := by
  rw [drafted.inputs, List.map_map]
  have draws := drafted.draws
  generalize draft.picked = picked, draft.prepared = prepared at draws
  induction draws with
  | nil => rfl
  | cons first _ ih => exact congrArg₂ List.cons first.amount_eq ih

/-- Nothing was cut off from the total of the selection. -/
theorem Drafted.toNat_found (drafted : Drafted S w r draft p) :
    draft.found.toNat = exactSum (p.tx.inputs.map TxIn.amount) := by
  have total := Balance.toNat_result 0 draft.picked
  rw [← drafted.selected, ← drafted.amounts_eq] at total
  have fits := drafted.fits
  have same : (draft.prepared.map fun source => source.source.amount) =
      p.tx.inputs.map TxIn.amount := by
    rw [drafted.inputs, List.map_map]
    rfl
  rw [same] at fits
  simp at total
  omega

/-- Each handle stands for the output that the input at its place spends. -/
theorem Drafted.forall₂_inputs (drafted : Drafted S w r draft p) :
    List.Forall₂ (fun input handle => ∃ t, w.history.transfers[handle.index]? = some t ∧
      input.amount = t.amount) p.tx.inputs p.selected := by
  have here : ∀ c ∈ draft.picked, w.history.transfers[c.index]? = some c.transfer :=
    fun c mem => drafted.getElem?_transfers mem
  rw [drafted.selected_eq, drafted.inputs, List.forall₂_map_left_iff, List.forall₂_map_right_iff]
  have draws := drafted.draws
  generalize draft.picked = picked, draft.prepared = prepared at draws here
  induction draws with
  | nil => exact .nil
  | cons first _ ih =>
    rw [List.forall_mem_cons] at here
    exact .cons ⟨_, here.1, first.amount_eq⟩ (ih here.2)

/-- The dust is an output, unless there is none or it is left to the fee. -/
theorem amount_dustOutput (policy : DustPolicy) (own : Address) (dust : UInt64) :
    (dustOutput policy own dust).map Destination.amount =
      if dust = 0 ∨ policy.addToFee then [] else [dust] := by
  unfold dustOutput
  split <;> rfl

/-- The dust of the change goes to an output or to the fee. -/
theorem exactSum_dustOutput (policy : DustPolicy) (own : Address) (dust : UInt64) :
    exactSum ((dustOutput policy own dust).map Destination.amount) +
      (if policy.addToFee then dust.toNat else 0) = dust.toNat := by
  rw [amount_dustOutput]
  by_cases left : policy.addToFee = true
  · simp [left]
  · by_cases none : dust = 0
    · simp [none]
    · simp [left, none]

/-- What the inputs have beyond the destinations and the fee comes back. -/
theorem Drafted.change_eq (drafted : Drafted S w r draft p) :
    exactSum (p.tx.inputs.map TxIn.amount) =
      exactSum (r.destinations.map Destination.amount) + r.fee.toNat + p.change.amount.toNat := by
  obtain ⟨money, run⟩ := drafted.needed
  obtain ⟨-, needed⟩ := of_neededMoney run
  have found := drafted.toNat_found
  have enough := UInt64.le_iff_toNat_le.mp drafted.enough
  have change : p.change.amount.toNat = draft.found.toNat - draft.needed.toNat := by
    rw [drafted.change]
    exact UInt64.toNat_sub_of_le _ _ drafted.enough
  omega

/-- What the destinations and the change are split into, and the dust, is all of it. -/
theorem Drafted.exactSum_split (drafted : Drafted S w r draft p) :
    exactSum ((r.strategy.split r.destinations p.change r.dustPolicy.threshold).1.map
        Destination.amount) + p.dust.toNat =
      exactSum (r.destinations.map Destination.amount) + p.change.amount.toNat := by
  rw [drafted.dust]
  exact SplitStrategy.exactSum_split r.strategy r.destinations p.change r.dustPolicy.threshold

/-- What the inputs have is what the outputs have, the fee, and the dust that is left to it. -/
theorem Drafted.exactSum_inputs (drafted : Drafted S w r draft p) :
    exactSum (p.tx.inputs.map TxIn.amount) =
      exactSum (p.tx.outputs.map TxOut.amount) + r.fee.toNat +
        (if r.dustPolicy.addToFee then p.dust.toNat else 0) := by
  have outputs := exactSum_perm drafted.outputs
  rw [List.map_append, exactSum_append] at outputs
  have split := drafted.exactSum_split
  have back := drafted.change_eq
  -- what of the dust is left to the fee, and what becomes an output
  have dust := exactSum_dustOutput r.dustPolicy w.account.address p.dust
  omega

/-- No output is empty. -/
theorem Drafted.outputs_ne_zero (drafted : Drafted S w r draft p) :
    ∀ out ∈ p.tx.outputs, out.amount ≠ 0 := by
  obtain ⟨money, run⟩ := drafted.needed
  obtain ⟨present, -⟩ := of_neededMoney run
  intro out mem
  have amount := drafted.outputs.subset (List.mem_map_of_mem mem)
  obtain ⟨d, here, eq⟩ := List.mem_map.mp amount
  rw [← eq]
  -- a destination is split into pieces that are not zero
  rcases List.mem_append.mp here with paid | dust
  · exact SplitStrategy.amount_ne_zero_of_mem_split present d paid
  · unfold dustOutput at dust
    split at dust
    · cases dust
    · next kept =>
      -- dust that is kept as an output is not zero
      obtain rfl := List.mem_singleton.mp dust
      exact fun none => kept (.inl none)

end Build

/-- A transaction that was built, for any wallet and request and whatever the daemon and the source
of random words answer. Its inputs have the amounts of the selected outputs, one for each. Its
outputs have the amounts into which the destinations and the change are split, and the dust if there
is some that is not left to the fee, and none of them is zero. What the inputs have in sum is what
the outputs have, the fee, and the dust that is left to it; and it is what the destinations get, the
fee and the change. -/
theorem conserved_of_build (S : Suite) {σ : Type} (env : Environment σ) (r : TransferRequest)
    (s t : Session σ) (p : PendingTransaction) (run : exec (build S env r) s = (.ok p, t)) :
    let parts := r.strategy.split r.destinations p.change r.dustPolicy.threshold
    exactSum (p.tx.inputs.map TxIn.amount) =
        exactSum (p.tx.outputs.map TxOut.amount) + r.fee.toNat +
          (if r.dustPolicy.addToFee then p.dust.toNat else 0) ∧
      List.Forall₂ (fun input handle => ∃ t, s.history.transfers[handle.index]? = some t ∧
        input.amount = t.amount) p.tx.inputs p.selected ∧
      (p.tx.outputs.map TxOut.amount).Perm (parts.1.map Destination.amount ++
        if p.dust = 0 ∨ r.dustPolicy.addToFee then [] else [p.dust]) ∧
      exactSum (parts.1.map Destination.amount) + p.dust.toNat =
        exactSum (r.destinations.map Destination.amount) + p.change.amount.toNat ∧
      (∀ out ∈ p.tx.outputs, out.amount ≠ 0) ∧
      p.dust = parts.2 ∧ p.fee = r.fee ∧
      exactSum (p.tx.inputs.map TxIn.amount) =
        exactSum (r.destinations.map Destination.amount) + r.fee.toNat + p.change.amount.toNat := by
  intro parts
  obtain ⟨⟨draft, drafted⟩, -⟩ := Build.of_build run
  have outputs := drafted.outputs
  rw [List.map_append, Build.amount_dustOutput] at outputs
  exact ⟨drafted.exactSum_inputs, drafted.forall₂_inputs, outputs, drafted.exactSum_split,
    drafted.outputs_ne_zero, drafted.dust, drafted.fee, drafted.change_eq⟩

/-! ### A payment that leaves dust to the fee -/

namespace Conserved

open SmallSuite

/-- The output of a payment, at a position. -/
def output (height : Nat) (sender : Nat) (amount : UInt64) : Transfer :=
  ⟨height, payment sender amount [], (payment sender amount []).hash .small, 0, 7, false,
    image sender⟩

/-- A wallet with two outputs that are old enough to be spent. -/
def wallet : Session Script where
  env := {}
  wallet := ⟨account, { spendableAge := 1, dustThreshold := 10 },
    { chain := [.null, .null, .null], transfers := [output 1 3 1000, output 2 4 34] }⟩

/-- 1000 for somebody else, with a fee of 25. -/
def request : TransferRequest :=
  .standard wallet.wallet.config [⟨1000, ⟨.ofPoint .small (11 : Nat), .ofPoint .small (13 : Nat)⟩⟩]
    0 0 25 []

end Conserved

open Conserved in
/-- Both outputs are spent, and the 9 that are left are too little for an output. -/
theorem conserved_of_build_small :
    ∃ p t, exec (build .small Script.environment request) wallet = (.ok p, t) ∧
      p.tx.inputs.map TxIn.amount = [1000, 34] ∧ p.tx.outputs.map TxOut.amount = [1000] ∧
      p.dust = 9 ∧
      exactSum (p.tx.inputs.map TxIn.amount) =
        exactSum (p.tx.outputs.map TxOut.amount) + 25 + p.dust.toNat ∧
      List.Forall₂ (fun input handle => ∃ t, wallet.history.transfers[handle.index]? = some t ∧
        input.amount = t.amount) p.tx.inputs p.selected := by
  have amounts : (exec (build .small Script.environment request) wallet).1.toOption.map (fun p =>
      (p.tx.inputs.map TxIn.amount, p.tx.outputs.map TxOut.amount, p.dust)) =
      some ([1000, 34], [1000], 9) := by decide +kernel
  obtain ⟨p, built, amounts⟩ := Option.map_eq_some_iff.mp amounts
  obtain ⟨inputs, outputs⟩ := Prod.mk.inj amounts
  obtain ⟨outputs, dust⟩ := Prod.mk.inj outputs
  have run := exec_eq_ok built
  obtain ⟨conserved, spent, -⟩ :=
    conserved_of_build .small Script.environment request wallet _ p run
  exact ⟨p, _, run, inputs, outputs, dust, conserved, spent⟩

end RingWallet
