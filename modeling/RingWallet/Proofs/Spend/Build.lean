import RingWallet.Proofs.Spend.Construct
import RingWallet.Proofs.Spend.Draws
import RingWallet.Proofs.Spend.Select
import RingWallet.Spend.Build

/-!
# What a built transaction holds

`Build.steps_of_build` takes a successful build apart into its steps. What it has found out on its
way is a `Build.Draft`: the candidates that were picked, the decoys that were offered for them, and
their outputs as prepared sources. `Build.Drafted` says how the draft follows from the wallet and
the request, and how the transaction follows from the draft (`Build.drafted_of_build`);
`Build.Offered` that the decoys are those of a reply of the daemon. A build changes nothing but the
environment, and sends nothing (`Build.quiet_build`).
-/

set_option autoImplicit false

namespace RingWallet

namespace Build

open WalletM

/-! ### The money that is needed -/

/-- Summing up the amounts of some destinations. -/
theorem toNat_of_sumAmounts {total total' : UInt64} {destinations : List Destination}
    (run : sumAmounts total destinations = .ok total') :
    total'.toNat = total.toNat + exactSum (destinations.map Destination.amount) := by
  induction destinations generalizing total with
  | nil =>
    obtain rfl := Except.ok.inj run
    rfl
  | cons d rest ih =>
    unfold sumAmounts at run
    split at run
    · next total₁ sum =>
      -- the checked sum is the exact one
      have step := UInt64.addChecked_eq_some.mp sum
      rw [ih run, step, List.map_cons, exactSum_cons, Nat.add_assoc]
    · cases run

/-- A request that can be met pays nobody nothing, and what it needs is the sum of the destinations
and the fee. -/
theorem of_neededMoney {config : Config} {r : TransferRequest} {money needed : UInt64}
    (run : neededMoney config r = .ok (money, needed)) :
    (∀ d ∈ r.destinations, d.amount ≠ 0) ∧
      needed.toNat = exactSum (r.destinations.map Destination.amount) + r.fee.toNat := by
  unfold neededMoney at run
  simp only [] at run
  split at run
  · cases run
  · next payable =>
    obtain ⟨money, sum, run⟩ := Except.bind_eq_ok.mp run
    -- the fee is added last, and then the sum is looked at
    rcases total : money.addChecked r.fee with - | needed
    · rw [total] at run
      cases run
    · rw [total] at run
      simp only [] at run
      split at run
      · cases run
      · obtain ⟨rfl, rfl⟩ := Prod.mk.inj (Except.ok.inj run)
        have step := UInt64.addChecked_eq_some.mp total
        have amounts := toNat_of_sumAmounts sum
        obtain ⟨-, present⟩ : r.destinations ≠ [] ∧ ∀ d ∈ r.destinations, d.amount ≠ 0 := by
          simpa using payable
        refine ⟨present, ?_⟩
        rw [step, amounts]
        simp

/-! ### Sources -/

/-- A source whose real output is an output of the wallet. -/
structure Draws (t : Transfer) (source : Source) : Prop where
  real : ∃ out, t.output? = some out ∧ source.amount = out.amount ∧
    source.ring[source.position]? = some (t.globalIndex, out.key)
  txKey : Extra.publicKey? t.tx.extra = some source.txKey
  outputIndex : source.outputIndex = t.outputIndex

/-- A source has the amount of its transfer. -/
theorem Draws.amount_eq {t : Transfer} {source : Source} (draws : Draws t source) :
    source.amount = t.amount := by
  obtain ⟨out, here, amount, -⟩ := draws.real
  rw [amount, Transfer.amount, here]
  rfl

/-- The ring has the real member at its position. -/
theorem getElem?_ringOf (decoys : List (UInt64 × PublicKey)) (real : UInt64 × PublicKey) :
    (ringOf decoys real).1[(ringOf decoys real).2]? = some real := by
  unfold ringOf
  have fits : (decoys.findIdx fun d => real.1 ≤ d.1) ≤ decoys.length := List.findIdx_le_length
  simp [List.getElem?_insertIdx_self, fits]

/-- What a source is made of: a transfer, its output, the decoys that are chosen for it, and the key
of its transaction. -/
theorem eq_of_sourceOf {w : Wallet} {mixin : UInt64} {handle : Handle} {decoys : List Daemon.Decoy}
    {source : Source} (run : sourceOf w mixin handle decoys = .ok source) :
    ∃ t out chosen txKey, w.history.transfers[handle.index]? = some t ∧ t.output? = some out ∧
      chooseDecoys mixin t.globalIndex decoys = .ok chosen ∧
      Extra.publicKey? t.tx.extra = some txKey ∧
      source =
        { ring := (ringOf chosen (t.globalIndex, out.key)).1
          position := (ringOf chosen (t.globalIndex, out.key)).2
          txKey
          outputIndex := t.outputIndex
          amount := out.amount } := by
  unfold sourceOf at run
  -- each lookup that finds nothing ends the source
  rcases at_index : w.history.transfers[handle.index]? with - | t
  · rw [at_index] at run
    cases run
  rw [at_index] at run
  simp only [] at run
  rcases here : t.output? with - | out
  · rw [here] at run
    cases run
  rw [here] at run
  obtain ⟨chosen, choice, run⟩ := Except.bind_eq_ok.mp run
  rcases key : Extra.publicKey? t.tx.extra with - | txKey
  · rw [key] at run
    cases run
  rw [key] at run
  exact ⟨t, out, chosen, txKey, rfl, here, Except.mapError_eq_ok.mp choice, key,
    (Except.ok.inj run).symm⟩

/-- A source is drawn from a transfer, and its ring holds the real output among the chosen
decoys. -/
theorem of_sourceOf {w : Wallet} {mixin : UInt64} {handle : Handle} {decoys : List Daemon.Decoy}
    {source : Source} (run : sourceOf w mixin handle decoys = .ok source) :
    ∃ t, w.history.transfers[handle.index]? = some t ∧ Draws t source ∧
      ∃ chosen key, chooseDecoys mixin t.globalIndex decoys = .ok chosen ∧
        source.ring = (ringOf chosen (t.globalIndex, key)).1 := by
  obtain ⟨t, out, chosen, txKey, at_index, here, choice, key, rfl⟩ := eq_of_sourceOf run
  exact ⟨t, at_index, ⟨⟨out, here, rfl, getElem?_ringOf _ _⟩, key, rfl⟩, chosen, out.key, choice,
    rfl⟩

/-- The rings of picked outputs have these outputs as their real members. -/
theorem draws_of_mapM {w : Wallet} {mixin : UInt64} {picked : List Candidate}
    {decoys : List (List Daemon.Decoy)} {sources : List Source}
    (here : ∀ c ∈ picked, w.history.transfers[c.index]? = some c.transfer)
    (length : decoys.length = (picked.map Candidate.handle).length)
    (run : ((picked.map Candidate.handle).zip decoys).mapM (fun q => sourceOf w mixin q.1 q.2) =
      .ok sources) : List.Forall₂ (fun c source => Draws c.transfer source) picked sources := by
  induction picked generalizing decoys sources with
  | nil =>
    obtain rfl := Except.ok.inj run
    exact .nil
  | cons c rest ih =>
    rcases decoys with - | ⟨first, others⟩
    · cases length
    · rw [List.forall_mem_cons] at here
      rw [List.map_cons, List.zip_cons_cons, List.mapM_cons] at run
      obtain ⟨source, drawn, run⟩ := Except.bind_eq_ok.mp run
      obtain ⟨later, drawnLater, run⟩ := Except.bind_eq_ok.mp run
      obtain rfl := Except.ok.inj run
      -- the candidate's handle leads back to its transfer
      obtain ⟨t, at_index, draws, -⟩ := of_sourceOf drawn
      obtain rfl : c.transfer = t := Option.some.inj (here.1.symm.trans at_index)
      exact .cons draws (ih here.2 (Nat.succ.inj length) drawnLater)

/-! ### Steps that leave the wallet alone -/

variable {S : Suite} {σ : Type} {env : Environment σ}

/-- To fetch decoys changes the environment alone. -/
theorem quiet_fetchDecoys (env : Environment σ) (w : Wallet) (mixin : UInt64)
    (selected : List Handle) : Quiet env (fetchDecoys env w mixin selected) := by
  unfold fetchDecoys
  split
  · exact quiet_pure _
  · refine .bind (quiet_orFail _ _) fun count => ?_
    refine .bind (quiet_ask (.of_step (.getDecoys _))) fun reply => ?_
    refine .bind (quiet_checkStatus _ _) fun _ => ?_
    split
    · exact quiet_throw _
    · simp only []
      split
      · exact quiet_throw _
      · exact quiet_pure _

/-- A build changes the environment alone and sends nothing, however it ends. -/
theorem quiet_build (S : Suite) (env : Environment σ) (r : TransferRequest) :
    Quiet env (build S env r) := by
  unfold build
  refine .bind quiet_wallet fun w => .bind (quiet_orFail _ _) fun needed => ?_
  simp only []
  split
  on_goal 1 => refine .bind (quiet_orFail _ _) fun id => ?_
  -- what follows does not depend on where the extra bytes come from
  all_goals
    refine .bind (quiet_pure _) fun extra => .bind (quiet_outside (.of_step .now)) fun now => ?_
    refine .bind (quiet_outside (Balance.mute_select env _ _ _ _ _ _)) fun ⟨found, selected⟩ => ?_
    split
    · exact quiet_throw _
    refine .bind (quiet_fetchDecoys env w _ _) fun decoys =>
      .bind (quiet_orFail _ _) fun sources => ?_
    split
    · exact quiet_throw _
    refine .bind (quiet_outside (mute_construct env S _ _ _ _ _)) fun result => ?_
    refine .bind (quiet_orFail _ _) fun tx => ?_
    split
    · exact quiet_throw _
    · exact quiet_pure _

/-- To build several transactions changes the environment alone. -/
theorem quiet_buildAll (S : Suite) (env : Environment σ)
    (request : List Destination → TransferRequest) (excluded : List Nat)
    (parts : List (List Destination)) : Quiet env (buildAll S env request excluded parts) := by
  induction parts generalizing excluded with
  | nil => exact quiet_pure _
  | cons destinations rest ih =>
    exact .bind (quiet_build S env _) fun p => .bind (ih _) fun _ => quiet_pure _

/-- So does every attempt with more parts. -/
theorem quiet_buildSplitFrom (S : Suite) (env : Environment σ)
    (request : List Destination → TransferRequest) (destinations : List Destination)
    (attempts parts : Nat) (last : WalletError) :
    Quiet env (buildSplitFrom S env request destinations attempts parts last) := by
  induction attempts generalizing parts last with
  | zero => exact quiet_throw _
  | succ attempts ih =>
    refine .bind (quiet_buildAll S env request [] _).outcome fun outcome => ?_
    split
    · exact quiet_pure _
    · split
      · exact ih _ _
      · exact quiet_throw _

/-- The search for a number of parts sends nothing either. -/
theorem quiet_buildSplit (S : Suite) (env : Environment σ) (destinations : List Destination)
    (mixin unlockTime fee : UInt64) (extra : Blob) :
    Quiet env (buildSplit S env destinations mixin unlockTime fee extra) :=
  .bind quiet_wallet fun _ => quiet_buildSplitFrom S env _ _ _ _ _

/-- The request for decoys for some selected outputs: one more for each than a ring needs. -/
def decoysRequest (w : Wallet) (mixin : UInt64) (selected : List Handle) :
    Daemon.DecoysRequest where
  amounts := selected.map fun h => ((w.history.transfers[h.index]?).map Transfer.amount).getD 0
  count := mixin + 1

/-- The state of the environment in which a build asks for decoys: it has looked at the clock and
has selected outputs. -/
def asking (env : Environment σ) (s : Session σ) (r : TransferRequest) : σ :=
  let (now, e) := env.now.run s.env
  let needed := ((neededMoney s.wallet.config r).toOption.map Prod.snd).getD 0
  ((Balance.select env.random s.wallet now needed (r.mixin = 0) r.dustPolicy.threshold
    r.excluded).run e).2

/-- Decoys are asked for after a look at the clock and the selection. -/
theorem asking_eq {env : Environment σ} {s : Session σ} {r : TransferRequest}
    {money needed : UInt64} (needs : neededMoney s.wallet.config r = .ok (money, needed)) :
    asking env s r = ((Balance.select env.random s.wallet (env.now.run s.env).1 needed (r.mixin = 0)
      r.dustPolicy.threshold r.excluded).run (env.now.run s.env).2).2 := by
  unfold asking
  rw [needs]
  rfl

/-- The reply of the daemon to that request, in the state `e`, is one that the wallet takes: it has
a list for each selected output, none of which is shorter than `mixin`. -/
structure Offered (env : Environment σ) (e : σ) (w : Wallet) (mixin : UInt64)
    (selected : List Handle) (reply : Daemon.DecoysReply) : Prop where
  answer : ((env.getDecoys (decoysRequest w mixin selected)).run e).1 = .ok reply
  count : (decoysRequest w mixin selected).count.toNat = mixin.toNat + 1
  accepted : reply.status = Daemon.okStatus
  length : reply.amounts.length = selected.length
  enough : ∀ a ∈ reply.amounts, mixin.toNat ≤ a.decoys.length

/-- The number of decoys to ask for is one of the words. -/
theorem decoyCount_eq_ok {mixin count : UInt64} :
    decoyCount mixin = .ok count ↔ count = mixin + 1 ∧ count.toNat = mixin.toNat + 1 := by
  have sum : mixin.addChecked 1 = some count ↔ count.toNat = mixin.toNat + 1 :=
    -- a sum that fits is the wrapped one
    UInt64.addChecked_eq_some
  unfold decoyCount
  rcases fits : mixin.addChecked 1 with - | c
  · rw [fits] at sum
    simpa using fun _ => mt sum.mpr nofun
  · obtain rfl : mixin + 1 = c := by
      unfold UInt64.addChecked at fits
      split at fits
      · exact Option.some.inj fits
      · cases fits
    rw [fits, Option.some.injEq] at sum
    simp only [Except.ok.injEq, ← sum, eq_comm, and_self]

/-- Only for the largest word there is no such number. -/
theorem decoyCount_eq_error {mixin : UInt64} {e : WalletError} :
    decoyCount mixin = .error e ↔ e = .overflow ∧ mixin.toNat = maxWord := by
  have most := mixin.toNat_le_maxWord
  have one : (1 : UInt64).toNat = 1 := rfl
  unfold decoyCount UInt64.addChecked
  rw [one]
  by_cases fits : mixin.toNat + 1 ≤ maxWord
  · simp [fits, show mixin.toNat ≠ maxWord by omega]
  · simp only [if_neg fits, Except.error.injEq, eq_comm, iff_self_and]
    omega

/-- There are as many lists of decoys as selected outputs. They are those of the daemon, unless no
decoys are wanted. -/
theorem of_fetchDecoys {w : Wallet} {mixin : UInt64} {selected : List Handle}
    {s t : Session σ} {decoys : List (List Daemon.Decoy)}
    (run : exec (fetchDecoys env w mixin selected) s = (.ok decoys, t)) :
    decoys.length = selected.length ∧ t = { s with env := t.env } ∧
      (mixin ≠ 0 → ∃ reply, Offered env s.env w mixin selected reply ∧
        decoys = reply.amounts.map Daemon.DecoysOfAmount.decoys) := by
  unfold fetchDecoys at run
  split at run
  · next none =>
    obtain ⟨found, rfl⟩ := Prod.mk.inj run
    obtain rfl := Except.ok.inj found
    exact ⟨List.length_map _, rfl, fun some => absurd none some⟩
  · -- with decoys there are four steps, of which only the question touches the environment
    obtain ⟨count, s₁, counted, run⟩ := exec_bind_eq_ok.mp run
    obtain ⟨counts, rfl⟩ := exec_orFail_eq_ok.mp counted
    obtain ⟨rfl, fits⟩ := decoyCount_eq_ok.mp counts
    obtain ⟨reply, s₁, asked, run⟩ := exec_bind_eq_ok.mp run
    obtain ⟨answer, rfl⟩ := exec_ask_eq_ok.mp asked
    obtain ⟨⟨⟩, s₂, checked, run⟩ := exec_bind_eq_ok.mp run
    obtain ⟨accepted, rfl⟩ := exec_checkStatus_eq_ok.mp checked
    -- an answer of another length is refused, and so is one with too few decoys
    simp only [] at run
    split at run
    · exact nomatch (Prod.mk.inj run).1
    · next same =>
      split at run
      · exact nomatch (Prod.mk.inj run).1
      · next enough =>
        obtain ⟨found, rfl⟩ := Prod.mk.inj run
        obtain rfl := Except.ok.inj found
        have length : reply.amounts.length = selected.length := by simpa using same
        refine ⟨(List.length_map _).trans length, rfl, fun _ => ⟨reply, ?_, rfl⟩⟩
        exact ⟨answer, fits, accepted, length, by simpa using enough⟩

/-! ### The steps of a build -/

/-- The extra bytes of a request, with its payment id at their end. -/
def extraBytes (r : TransferRequest) : Except TransactionError Blob :=
  match r.paymentId with
  | some text => do return r.extra ++ (← Extra.ofPaymentId text)
  | none => return r.extra

/-- The steps of a build that succeeds: what is needed at which time, the total of what was
selected, the decoys that are offered for it, the sources made of them, and the extra bytes. -/
structure Steps (S : Suite) (env : Environment σ) (s : Session σ) (r : TransferRequest)
    (needed now found : UInt64) (decoys : List (List Daemon.Decoy)) (sources : List Source)
    (extra : Blob) (p : PendingTransaction) : Prop where
  needs : ∃ money, neededMoney s.wallet.config r = .ok (money, needed)
  extra_eq : extraBytes r = .ok extra
  selects : ∃ e, ((Balance.select env.random s.wallet now needed (r.mixin = 0)
    r.dustPolicy.threshold r.excluded).run e).1 = (found, p.selected)
  enough : needed ≤ found
  length : decoys.length = p.selected.length
  offers : r.mixin ≠ 0 → ∃ reply, Offered env (asking env s r) s.wallet r.mixin p.selected reply ∧
    decoys = reply.amounts.map Daemon.DecoysOfAmount.decoys
  sourced : (p.selected.zip decoys).mapM (fun q => sourceOf s.wallet r.mixin q.1 q.2) = .ok sources
  change : p.change = ⟨found - needed, s.wallet.account.address⟩
  dust : p.dust = (r.strategy.split r.destinations p.change r.dustPolicy.threshold).2
  small : p.dust ≤ r.dustPolicy.threshold
  constructs : ∃ e e', (construct S env.random s.wallet.account.keys sources
    ((r.strategy.split r.destinations p.change r.dustPolicy.threshold).1 ++
      dustOutput r.dustPolicy s.wallet.account.address p.dust) extra r.unlockTime).run.run e =
    (.ok p.tx, e')
  size : p.tx.toBlob.length < s.wallet.config.transactionSizeLimit
  hash : p.hash = p.tx.hash S
  fee : p.fee = r.fee

/-- The extra bytes are put together without touching the session. -/
private theorem of_extra {r : TransferRequest} {next : Blob → WalletM σ PendingTransaction}
    {s t : Session σ} {p : PendingTransaction}
    (run : exec (match r.paymentId with
      | some text => do
        let id ← orFail .transaction (Extra.ofPaymentId text)
        let extra ← pure (r.extra ++ id)
        next extra
      | none => do
        let extra ← pure r.extra
        next extra) s = (.ok p, t)) :
    ∃ extra, extraBytes r = .ok extra ∧ exec (next extra) s = (.ok p, t) := by
  unfold extraBytes
  rcases given : r.paymentId with - | text
  · rw [given] at run
    exact ⟨_, rfl, run⟩
  · rw [given] at run
    obtain ⟨id, s₁, named, run⟩ := exec_bind_eq_ok.mp run
    obtain ⟨spelled, rfl⟩ := exec_orFail_eq_ok.mp named
    simp only [spelled]
    exact ⟨_, rfl, run⟩

/-- A build that succeeds has gone through its steps, and has changed the environment alone. -/
theorem steps_of_build {r : TransferRequest} {s t : Session σ} {p : PendingTransaction}
    (run : exec (build S env r) s = (.ok p, t)) :
    (∃ needed now found decoys sources extra,
      Steps S env s r needed now found decoys sources extra p) ∧
    t = { s with env := t.env } := by
  unfold build at run
  rw [exec_bind_ok _ (exec_wallet s)] at run
  -- the selection
  obtain ⟨⟨money, needed⟩, s₁, needs, run⟩ := exec_bind_eq_ok.mp run
  obtain ⟨payable, rfl⟩ := exec_orFail_eq_ok.mp needs
  obtain ⟨extra, extra_eq, run⟩ := of_extra run
  obtain ⟨now, s₁, clock, run⟩ := exec_bind_eq_ok.mp run
  obtain ⟨rfl, rfl⟩ := exec_outside_eq_ok.mp clock
  obtain ⟨⟨found, selected⟩, s₁, selection, run⟩ := exec_bind_eq_ok.mp run
  obtain ⟨chosen, rfl⟩ := exec_outside_eq_ok.mp selection
  simp only [] at run
  split at run
  · exact nomatch (Prod.mk.inj run).1
  next enough =>
  -- the decoys, which the daemon is asked for in the state after the selection, and the sources
  obtain ⟨decoys, s₁, fetched, run⟩ := exec_bind_eq_ok.mp run
  obtain ⟨length, same, offers⟩ := of_fetchDecoys fetched
  rw [← asking_eq payable] at offers
  obtain ⟨sources, s₂, drawn, run⟩ := exec_bind_eq_ok.mp run
  obtain ⟨sourced, rfl⟩ := exec_orFail_eq_ok.mp drawn
  split at run
  · exact nomatch (Prod.mk.inj run).1
  next small =>
  -- the transaction and its size
  obtain ⟨result, s₂, construction, run⟩ := exec_bind_eq_ok.mp run
  obtain ⟨constructed, rfl⟩ := exec_outside_eq_ok.mp construction
  obtain ⟨tx, s₃, succeeds, run⟩ := exec_bind_eq_ok.mp run
  obtain ⟨rfl, rfl⟩ := exec_orFail_eq_ok.mp succeeds
  split at run
  · exact nomatch (Prod.mk.inj run).1
  next size =>
  obtain ⟨finished, rfl⟩ := Prod.mk.inj run
  obtain rfl := Except.ok.inj finished
  refine ⟨⟨needed, (env.now.run s.env).1, found, decoys, sources, extra, ?_⟩, by rw [same]⟩
  exact
    { needs := ⟨money, payable⟩
      extra_eq
      selects := ⟨_, chosen⟩
      enough := UInt64.not_lt.mp enough
      length
      offers
      sourced
      change := rfl
      dust := rfl
      small := UInt64.not_lt.mp small
      constructs := ⟨_, _, Prod.ext constructed rfl⟩
      size := Nat.not_le.mp size
      hash := rfl
      fee := rfl }

/-! ### The draft of a transaction -/

/-- What a build finds out on its way. -/
structure Draft where
  /-- The sum of the destinations and the fee. -/
  needed : UInt64
  /-- The time of the selection. -/
  now : UInt64
  picked : List Candidate
  /-- The total of what was picked, up to the largest word. -/
  found : UInt64
  /-- The decoys that are offered for each of them. -/
  offered : List (List Daemon.Decoy)
  /-- The picked outputs with their secrets. -/
  prepared : List SpendableSource

/-- A pending transaction that comes from a draft. -/
structure Drafted (S : Suite) (w : Wallet) (r : TransferRequest) (draft : Draft)
    (p : PendingTransaction) : Prop where
  needed : ∃ money, neededMoney w.config r = .ok (money, draft.needed)
  picked : draft.picked.Subperm (Balance.candidates w draft.now r.excluded)
  selected : (draft.found, p.selected) = Balance.result 0 draft.picked
  enough : draft.needed ≤ draft.found
  sourced : (p.selected.zip draft.offered).mapM (fun q => sourceOf w r.mixin q.1 q.2) =
    .ok (draft.prepared.map SpendableSource.source)
  draws : List.Forall₂ (fun c source => Draws c.transfer source.source) draft.picked draft.prepared
  secrets : ∃ spendSecret, w.account.keys.spendSecret = some spendSecret ∧
    ∀ source ∈ draft.prepared,
      Construct.spendable S w.account.keys spendSecret source.source = .ok source
  inputs : p.tx.inputs = draft.prepared.map SpendableSource.input
  fee : p.fee = r.fee
  change : p.change = ⟨draft.found - draft.needed, w.account.address⟩
  dust : p.dust = (r.strategy.split r.destinations p.change r.dustPolicy.threshold).2
  outputs : (p.tx.outputs.map TxOut.amount).Perm
    (((r.strategy.split r.destinations p.change r.dustPolicy.threshold).1 ++
      dustOutput r.dustPolicy w.account.address p.dust).map Destination.amount)
  paid : ∃ key, Construct.Pays S
    ((r.strategy.split r.destinations p.change r.dustPolicy.threshold).1 ++
      dustOutput r.dustPolicy w.account.address p.dust) p.tx key
  small : p.dust ≤ r.dustPolicy.threshold
  fits : exactSum (draft.prepared.map fun source => source.source.amount) ≤ maxWord
  hash : p.hash = p.tx.hash S
  size : p.tx.toBlob.length < w.config.transactionSizeLimit

/-- The selected handles are those of the picked candidates. -/
theorem Drafted.selected_eq {w : Wallet} {r : TransferRequest} {draft : Draft}
    {p : PendingTransaction} (drafted : Drafted S w r draft p) :
    p.selected = draft.picked.map Candidate.handle := congrArg Prod.snd drafted.selected

/-- A picked candidate is a transfer of the wallet. -/
theorem Drafted.getElem?_transfers {w : Wallet} {r : TransferRequest} {draft : Draft}
    {p : PendingTransaction} (drafted : Drafted S w r draft p) {c : Candidate}
    (mem : c ∈ draft.picked) : w.history.transfers[c.index]? = some c.transfer :=
  (Balance.mem_candidates.mp (drafted.picked.subset mem)).1

/-- A transaction that was built comes from a draft whose decoys the daemon has offered, and the
wallet is as it was. -/
theorem drafted_of_build {r : TransferRequest} {s t : Session σ} {p : PendingTransaction}
    (run : exec (build S env r) s = (.ok p, t)) :
    (∃ draft, Drafted S s.wallet r draft p ∧
      (r.mixin ≠ 0 → ∃ reply, Offered env (asking env s r) s.wallet r.mixin p.selected reply ∧
        draft.offered = reply.amounts.map Daemon.DecoysOfAmount.decoys)) ∧
      t = { s with env := t.env } := by
  obtain ⟨⟨needed, now, found, decoys, sources, extra, steps⟩, same⟩ := steps_of_build run
  obtain ⟨e, chosen⟩ := steps.selects
  obtain ⟨picked, part, picks⟩ := Balance.run_select env.random s.wallet now needed
    (r.mixin = 0) r.dustPolicy.threshold r.excluded e
  replace picks : (found, p.selected) = Balance.result 0 picked := chosen.symm.trans picks
  have own : p.selected = picked.map Candidate.handle := congrArg Prod.snd picks
  -- every source draws the candidate at its place
  obtain ⟨e₁, e₂, constructed⟩ := steps.constructs
  obtain ⟨prepared, signed⟩ := Construct.of_construct constructed
  refine ⟨⟨⟨needed, now, picked, found, decoys, prepared⟩, ?_, steps.offers⟩, same⟩
  have draws : List.Forall₂ (fun c source => Draws c.transfer source.source) picked prepared := by
    rw [← List.forall₂_map_right_iff, signed.same]
    exact draws_of_mapM (fun c mem => (Balance.mem_candidates.mp (part.subset mem)).1)
      (own ▸ steps.length) (own ▸ steps.sourced)
  have fits := signed.fits
  rw [← signed.same, List.map_map] at fits
  exact
    { needed := steps.needs
      picked := part
      selected := picks
      enough := steps.enough
      sourced := signed.same ▸ steps.sourced
      draws
      secrets := signed.secrets
      inputs := signed.inputs
      fee := steps.fee
      change := steps.change
      dust := steps.dust
      outputs := signed.outputs
      paid := signed.paid
      small := steps.small
      fits
      hash := steps.hash
      size := steps.size }

/-- A transaction that was built comes from a draft, and the wallet is as it was. -/
theorem of_build {r : TransferRequest} {s t : Session σ} {p : PendingTransaction}
    (run : exec (build S env r) s = (.ok p, t)) :
    (∃ draft, Drafted S s.wallet r draft p) ∧ t = { s with env := t.env } :=
  ⟨(drafted_of_build run).1.imp fun _ => And.left, (drafted_of_build run).2⟩

/-- A build succeeds if its steps do. Here no decoys are wanted, and there is no payment id. -/
theorem exec_build_of_steps {r : TransferRequest} {s : Session σ}
    {now money needed found dust : UInt64} {selected : List Handle} {sources : List Source}
    {paid : List Destination} {tx : Transaction} {e₁ e₂ e₃ : σ}
    (plain : r.paymentId = none) (alone : r.mixin = 0)
    (needs : neededMoney s.wallet.config r = .ok (money, needed))
    (clock : env.now.run s.env = (now, e₁))
    (selection : (Balance.select env.random s.wallet now needed true r.dustPolicy.threshold
      r.excluded).run e₁ = ((found, selected), e₂))
    (enough : needed ≤ found)
    (sourced : (selected.zip (selected.map fun _ => [])).mapM
      (fun q => sourceOf s.wallet 0 q.1 q.2) = .ok sources)
    (splits : r.strategy.split r.destinations ⟨found - needed, s.wallet.account.address⟩
      r.dustPolicy.threshold = (paid, dust))
    (small : dust ≤ r.dustPolicy.threshold)
    (constructed : (construct S env.random s.wallet.account.keys sources
      (paid ++ dustOutput r.dustPolicy s.wallet.account.address dust) r.extra
      r.unlockTime).run.run e₂ = (.ok tx, e₃))
    (size : tx.toBlob.length < s.wallet.config.transactionSizeLimit) :
    exec (build S env r) s =
      (.ok
        { tx
          hash := tx.hash S
          fee := r.fee
          dust
          change := ⟨found - needed, s.wallet.account.address⟩
          selected },
        { s with env := e₃ }) := by
  -- each step is run on its own, and then the steps are put together
  have checks : exec (orFail .transaction (neededMoney s.wallet.config r)) s =
      (.ok (money, needed), s) := by
    rw [exec_orFail, needs]
    rfl
  have ticks : exec (outside env.now) s = (.ok now, { s with env := e₁ }) := by
    rw [exec_outside, clock]
  have picks : exec (outside (Balance.select env.random s.wallet now needed (r.mixin = 0)
      r.dustPolicy.threshold r.excluded)) { s with env := e₁ } =
        (.ok (found, selected), { s with env := e₂ }) := by
    rw [decide_eq_true alone, exec_outside]
    simp only [selection]
  have decoys : exec (fetchDecoys env s.wallet r.mixin selected) { s with env := e₂ } =
      (.ok (selected.map fun _ => []), { s with env := e₂ }) := by
    rw [fetchDecoys, if_pos alone]
    rfl
  have draws : exec (orFail id ((selected.zip (selected.map fun _ => [])).mapM
      fun q => sourceOf s.wallet r.mixin q.1 q.2)) { s with env := e₂ } =
        (.ok sources, { s with env := e₂ }) := by
    rw [alone, exec_orFail, sourced]
    rfl
  have signs : exec (outside (construct S env.random s.wallet.account.keys sources
      (paid ++ dustOutput r.dustPolicy s.wallet.account.address dust) r.extra
      r.unlockTime).run) { s with env := e₂ } = (.ok (.ok tx), { s with env := e₃ }) := by
    rw [exec_outside]
    simp only [constructed]
  have signed : exec (orFail .transaction (.ok tx)) { s with env := e₃ } =
      (.ok tx, { s with env := e₃ }) := rfl
  unfold build
  rw [exec_bind_ok _ (exec_wallet s), exec_bind_ok _ checks, plain]
  rw [exec_bind_ok _ (exec_pure _ _), exec_bind_ok _ ticks, exec_bind_ok _ picks]
  simp only [UInt64.not_lt.mpr enough, if_false]
  rw [exec_bind_ok _ decoys]
  refine (exec_bind_ok _ draws).trans ?_
  simp only [splits, UInt64.not_lt.mpr small, if_false]
  rw [exec_bind_ok _ signs, exec_bind_ok _ signed]
  simp only [Nat.not_le.mpr size, if_false]
  rfl

end Build

end RingWallet
