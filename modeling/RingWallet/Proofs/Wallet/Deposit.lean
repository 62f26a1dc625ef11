import RingWallet.Proofs.Spend.PaymentId
import RingWallet.Proofs.Wallet.Confirm

/-!
# Deposits under a payment id

A transaction that is constructed with the field of a payment id as its extra bytes `Arrives` under
this id: whoever parses its extra bytes finds the transaction key and the id, and a wallet that
scans it notes what the transaction leaves with it under the id, and nothing under any other
(`Scan.noted_of_transaction`).

What the transaction leaves with a wallet is what it pays the account (`Reading.ownedSum`), which
fits a word since all outputs of a constructed transaction do, less what it spends. The scan reports
the same as received if it records all own outputs, that is, if none of them was known before.
-/

set_option autoImplicit false

namespace RingWallet

open Reading Scan WalletM

namespace History

/-- Taking in own outputs adds at most one transfer for each. -/
theorem length_receiveAll_le (h : History) (found : List Receipt) :
    (found.foldl receive h).transfers.length ≤ h.transfers.length + found.length := by
  induction found generalizing h with
  | nil => exact Nat.le_refl _
  | cons r rest ih =>
    have later := ih (h.receive r)
    rw [List.foldl_cons, List.length_cons]
    -- a known output leaves the list as it is, a new one makes it longer by one
    by_cases recorded : h.isRecorded r.image r.transfer.txHash r.transfer.outputIndex = true
    · rw [receive_of_recorded recorded] at later ⊢
      omega
    · rw [receive_of_new recorded] at later ⊢
      have one : (h.record r.transfer r.image).transfers.length = h.transfers.length + 1 :=
        List.length_append
      omega

/-- If it adds one for each, all of them are new, and the gain is their sum. -/
theorem toNat_gain_of_length {h : History} {found : List Receipt}
    (all : (found.foldl receive h).transfers.length = h.transfers.length + found.length)
    (total : UInt64) :
    (h.gain found total).toNat =
      min (total.toNat + exactSum (found.map fun r => r.transfer.amount)) maxWord := by
  induction found generalizing h total with
  | nil =>
    have := total.toNat_le_maxWord
    simp [gain]
    omega
  | cons r rest ih =>
    have most := length_receiveAll_le (h.receive r) rest
    rw [List.foldl_cons, List.length_cons] at all
    -- if one output were known already, the list would have grown by less
    by_cases recorded : h.isRecorded r.image r.transfer.txHash r.transfer.outputIndex = true
    · rw [receive_of_recorded recorded] at all most
      omega
    · have one : (h.receive r).transfers.length = h.transfers.length + 1 := by
        rw [receive_of_new recorded]
        exact List.length_append
      rw [gain, if_neg recorded, ih (by omega), UInt64.toNat_addSat, List.map_cons, exactSum_cons]
      omega

/-- In any case the gain is no more than that. -/
theorem toNat_gain_le (h : History) (found : List Receipt) (total : UInt64) :
    (h.gain found total).toNat ≤
      total.toNat + exactSum (found.map fun r => r.transfer.amount) := by
  induction found generalizing h total with
  | nil => exact Nat.le_refl _
  | cons r rest ih =>
    rw [gain, List.map_cons, exactSum_cons]
    refine Nat.le_trans (ih (h.receive r) _) ?_
    split
    · omega
    · rw [UInt64.toNat_addSat]
      omega

/-- What a transaction leaves is noted under its payment id, unless it was noted before. -/
theorem paymentsOf_credit {h : History} {tx : Transaction} {txHash : Hash}
    {fields : List ExtraField} {received : UInt64} {id : Hash}
    (named : Extra.paymentIdOf? fields = some id) (proper : id.isNull = false)
    (positive : received ≠ 0) (new : txHash ∉ (h.paymentsOf id).map Payment.txHash)
    (height : Nat) (id' : Hash) :
    (h.credit tx txHash height fields received).paymentsOf id' = h.paymentsOf id' ++
      if id = id' then
        [{ txHash, amount := received, blockHeight := height, unlockTime := tx.unlockTime }]
      else [] := by
  have under : (Extra.paymentIdOf? fields).filter (fun id => !id.isNull) = some id :=
    Option.filter_eq_some_iff.mpr ⟨named, by rw [proper]; rfl⟩
  unfold credit
  rw [under]
  simp only [if_neg positive]
  rw [paymentsOf_addPayment]
  by_cases same : id = id'
  · rw [if_pos ⟨same, new⟩, if_pos same]
  · rw [if_neg fun both => same both.1, if_neg same]

end History

namespace Scan

variable {S : Suite} {σ : Type} {env : Environment σ} {tx : Transaction} {txHash : Hash}
  {height : Nat} {d : KeyDerivation} {own : List Nat} {indices : List UInt64} {s t : Session σ}
  {o : ScanOutcome}

/-- The end of a scan reports what the inputs take away. -/
theorem spent_of_close {received : UInt64}
    (run : exec (close tx txHash height own received) s = (.ok o, t)) :
    o.spent = (tx.inputs.filterMap s.history.spentAmount?).foldl UInt64.addSat 0 := by
  obtain ⟨u, marks, -⟩ := exec_recordSpends txHash height tx.inputs 0 s
  rw [close, exec_bind_ok _ marks, exec_bind_ok _ (exec_recordPayment _ _ _ _ _ _)] at run
  obtain rfl := Except.ok.inj (Prod.mk.inj run).1
  rfl

/-- What the scan of a transaction with a usable key does and reports: it takes in the own outputs
that it has `found`, marks what the inputs spend, and notes the payment. -/
structure Scanned (S : Suite) (tx : Transaction) (txHash : Hash) (height : Nat)
    (s t : Session σ) (o : ScanOutcome) (found : List Receipt) : Prop where
  amounts : found.map (fun r => r.transfer.amount) =
    if ownedSum S s.wallet.account tx = 0 then []
    else (owned S s.wallet.account tx).map fun i => (tx.outputs[i]?.map TxOut.amount).getD 0
  received : o.received = (s.history.forget txHash).gain found 0
  history : t.history = (tx.inputs.foldl History.spendInput
    (found.foldl History.receive (s.history.forget txHash))).credit tx txHash height
      (Extra.parse tx.extra).1 ((amountAt tx.outputs (owned S s.wallet.account tx)).subSat o.spent)

/-- Each own position gives a receipt with the amount of its output. -/
theorem amounts_receipts {keys : AccountKeys} (length_eq : indices.length = tx.outputs.length)
    (derivable : Derivable S keys d tx.outputs own)
    (inside : ∀ i ∈ own, ∃ out, tx.outputs[i]? = some out) :
    (receipts S keys d tx txHash height indices own).map (fun r => r.transfer.amount) =
      own.map fun i => (tx.outputs[i]?.map TxOut.amount).getD 0 := by
  unfold receipts
  -- every own output has an image and an index, so that none is left out
  rw [List.map_filterMap, List.filterMap_eq_map_iff_forall_eq_some]
  intro i mem
  obtain ⟨out, here⟩ := inside i mem
  obtain ⟨image, computed⟩ := derivable i mem out here
  obtain ⟨g, answer⟩ : ∃ g, indices[i]? = some g := by
    have := (List.getElem?_eq_some_iff.mp here).1
    rw [← length_eq] at this
    exact ⟨_, List.getElem?_eq_getElem this⟩
  have zip : (tx.outputs.zip indices)[i]? = some (out, g) :=
    List.getElem?_zip_eq_some.mpr ⟨here, answer⟩
  simp [receipt?, zip, computed, Except.toOption, Transfer.amount, Transfer.output?, here]

/-- A scan that comes to its end has taken in every own output of the transaction, and records those
that were not there. -/
theorem scanned_of_transaction
    (run : exec (transaction S env tx txHash height) s = (.ok o, t))
    (usable : derivation? S s.wallet.account.keys (Extra.parse tx.extra).1 = some d) :
    ∃ found, Scanned S tx txHash height s t o found := by
  -- the scan succeeds, so that the outputs were recognised
  rcases recognised : ownOutputs S s.wallet.account.address d 0 tx.outputs with e | own
  · rw [exec_transaction_of_not_owned S env usable recognised] at run
    cases run
  rw [exec_transaction_of_owned S env usable recognised] at run
  obtain ⟨received, u, took, run⟩ := exec_bind_eq_ok.mp run
  obtain ⟨r, u', indices, done, took', wallet, -, all⟩ := exec_takeIn S env tx txHash height
    (s.withHistory (s.history.forget txHash)) usable recognised
  obtain ⟨rfl, rfl⟩ := Prod.mk.inj (took'.symm.trans took)
  obtain ⟨rfl, completed⟩ := all received rfl
  have taken : u'.history = (brought S s.wallet.account.keys d tx txHash height indices own).foldl
      History.receive (s.history.forget txHash) := congrArg Wallet.history wallet
  obtain ⟨o', v, closed, reported, core⟩ := exec_close tx txHash height own received u'
  obtain ⟨same, rfl⟩ := Prod.mk.inj (closed.symm.trans run)
  obtain rfl := Except.ok.inj same
  -- what is reported as received is the gain of the outputs that were taken in
  have gain : received = (s.history.forget txHash).gain
      (brought S s.wallet.account.keys d tx txHash height indices own) 0 := by
    by_cases worth : Worth tx own
    · refine gain_of_takeIn took fun reply answer _ => ?_
      rw [completed.asked worth] at answer
      obtain rfl := Except.ok.inj answer
      rfl
    · unfold takeIn at took
      rw [if_neg worth] at took
      rw [brought, if_neg worth]
      exact (Except.ok.inj (Prod.mk.inj took).1).symm
  obtain rfl : own = owned S s.wallet.account tx :=
    owned_of_completed (p := ⟨height, txHash, tx⟩) completed
  refine ⟨_, ?_, reported.trans gain, ?_⟩
  · -- outputs that are worth nothing are passed over
    by_cases worth : Worth tx (owned S s.wallet.account tx)
    · rw [brought, if_pos worth, if_neg ((worth_iff tx).mp worth)]
      exact amounts_receipts (completed.length_eq worth) (completed.derivable worth)
        fun i => exists_of_mem_owned
    · rw [brought, if_neg worth, if_pos (not_not.mp ((not_congr (worth_iff tx)).mp worth))]
      rfl
  · rw [spent_of_close closed, Session.history, Session.wallet_of_core core, taken]
    rfl

/-- A transaction that pays an account something has a usable key. -/
theorem exists_derivation_of_ownedSum {account : Account} (pays : ownedSum S account tx ≠ 0) :
    ∃ d, derivation? S account.keys (Extra.parse tx.extra).1 = some d := by
  rcases usable : derivation? S account.keys (Extra.parse tx.extra).1 with - | d
  · rw [ownedSum, owned, usable] at pays
    exact absurd rfl pays
  · exact ⟨d, rfl⟩

/-- A scan reports no more as received than the transaction pays the account. -/
theorem received_le_ownedSum (run : exec (transaction S env tx txHash height) s = (.ok o, t)) :
    o.received.toNat ≤ ownedSum S s.wallet.account tx := by
  -- a transaction without a usable key brings nothing
  rcases usable : derivation? S s.wallet.account.keys (Extra.parse tx.extra).1 with - | d
  · rw [exec_transaction_of_unusable S env usable] at run
    obtain rfl := Except.ok.inj (Prod.mk.inj run).1
    exact Nat.zero_le _
  · obtain ⟨found, scanned⟩ := scanned_of_transaction run usable
    have most := History.toNat_gain_le (s.history.forget txHash) found 0
    rw [← scanned.received, scanned.amounts] at most
    have zero : (0 : UInt64).toNat = 0 := rfl
    split at most
    · next nothing => simpa [nothing, zero] using most
    · rw [ownedSum_eq, worthAt]
      omega

/-- A wallet after the scan of a transaction that it had not noted under a payment id. What the
transaction pays the account, less what it spends, is noted under the id, and nothing is noted under
another one. If all own outputs are new, what the scan reports as received is what the transaction
pays the account. -/
structure Noted (S : Suite) (id : Hash) (tx : Transaction) (txHash : Hash) (height : Nat)
    (s t : Session σ) (o : ScanOutcome) : Prop where
  payment : ∃ p : Payment, p.txHash = txHash ∧ p.blockHeight = height ∧
    p.unlockTime = tx.unlockTime ∧
    p.amount.toNat = ownedSum S s.wallet.account tx - o.spent.toNat ∧
    ∀ id', t.history.paymentsOf id' = s.history.paymentsOf id' ++ if id = id' then [p] else []
  received : t.history.transfers.length =
      s.history.transfers.length + (owned S s.wallet.account tx).length →
    o.received.toNat = ownedSum S s.wallet.account tx

/-- A payment that comes in under a payment id is noted under it, with the net amount. -/
theorem noted_of_transaction {id : Hash}
    (run : exec (transaction S env tx txHash height) s = (.ok o, t))
    (named : Extra.paymentId? tx.extra = some id) (proper : id.isNull = false)
    (new : txHash ∉ (s.history.paymentsOf id).map Payment.txHash)
    (fits : ownedSum S s.wallet.account tx ≤ maxWord)
    (positive : o.spent.toNat < ownedSum S s.wallet.account tx) :
    Noted S id tx txHash height s t o := by
  -- what pays the account has a usable key, so that the scan does not skip it
  have pays : ownedSum S s.wallet.account tx ≠ 0 := by omega
  obtain ⟨d, usable⟩ := exists_derivation_of_ownedSum pays
  obtain ⟨found, scanned⟩ := scanned_of_transaction run usable
  have total := toNat_amountAt_owned S s.wallet.account tx
  have net : ((amountAt tx.outputs (owned S s.wallet.account tx)).subSat o.spent).toNat =
      ownedSum S s.wallet.account tx - o.spent.toNat := by
    rw [UInt64.toNat_subSat, total]
    omega
  have some_left : (amountAt tx.outputs (owned S s.wallet.account tx)).subSat o.spent ≠ 0 := by
    intro none
    rw [none] at net
    have zero : (0 : UInt64).toNat = 0 := rfl
    omega
  -- before the payment is noted the payments are as they were
  have before (id' : Hash) : (tx.inputs.foldl History.spendInput
      (found.foldl History.receive (s.history.forget txHash))).paymentsOf id' =
        s.history.paymentsOf id' := by
    unfold History.paymentsOf
    rw [History.payments_spendInputs, History.payments_receiveAll]
    rfl
  let payment : Payment :=
    { txHash, amount := (amountAt tx.outputs (owned S s.wallet.account tx)).subSat o.spent
      blockHeight := height, unlockTime := tx.unlockTime }
  refine ⟨⟨payment, rfl, rfl, rfl, net, fun id' => ?_⟩, fun all => ?_⟩
  · rw [scanned.history,
      History.paymentsOf_credit named proper some_left (by rwa [before]) height id', before]
  · -- a transfer for every own output means that none of them was left out
    have amounts := scanned.amounts
    rw [if_neg pays] at amounts
    have count : found.length = (owned S s.wallet.account tx).length := by
      have := congrArg List.length amounts
      rwa [List.length_map, List.length_map] at this
    have same := (History.sameOutputs_spendInputs (found.foldl History.receive
      (s.history.forget txHash)) tx.inputs).trans (History.sameOutputs_credit _ tx txHash height
        (Extra.parse tx.extra).1 payment.amount)
    have length := congrArg List.length same.transfers
    rw [← scanned.history, List.length_map, List.length_map, all, ← count] at length
    rw [scanned.received, History.toNat_gain_of_length length.symm, amounts, ownedSum_eq, worthAt]
    rw [ownedSum_eq, worthAt] at fits
    have zero : (0 : UInt64).toNat = 0 := rfl
    omega

/-- A transaction pays an account no more than all its outputs are worth. -/
theorem ownedSum_le_outputs (account : Account) (tx : Transaction) :
    ownedSum S account tx ≤ exactSum (tx.outputs.map TxOut.amount) := by
  -- the own outputs are some of the outputs
  have inside : owned S account tx ⊆ List.range tx.outputs.length := by
    intro i mem
    obtain ⟨out, here⟩ := exists_of_mem_owned mem
    exact List.mem_range.mpr (List.getElem?_eq_some_iff.mp here).1
  have all : (List.range tx.outputs.length).map
      (fun i => (tx.outputs[i]?.map TxOut.amount).getD 0) = tx.outputs.map TxOut.amount := by
    refine List.ext_getElem (by simp) fun i _ below => ?_
    have below : i < tx.outputs.length := by simpa using below
    simp [below]
  rw [ownedSum_eq, ← all]
  exact worthAt_le_of_subset tx (nodup_owned tx) inside

end Scan

/-! ### From the sender to the receiver -/

/-- A transaction whose extra bytes hold its key, the one with the secret `r`, and a payment id,
each where a reader looks for it. A wallet that scans it, and has not noted it before, notes it
under this id, if the id is a proper one and the transaction leaves anything with the wallet; in
particular if more is received than is spent. -/
structure Arrives (S : Suite) (id : Hash) (r : Scalar) (tx : Transaction) : Prop where
  key_eq : Extra.publicKey? tx.extra = some (.ofPoint S (S.mulBase r))
  id_eq : Extra.paymentId? tx.extra = some id
  noted : ∀ {σ : Type} (env : Environment σ) (txHash : Hash) (height : Nat) (s t : Session σ)
    (o : ScanOutcome), exec (Scan.transaction S env tx txHash height) s = (.ok o, t) →
      o.received.toNat ≤ ownedSum S s.wallet.account tx ∧
      (id.isNull = false → txHash ∉ (s.history.paymentsOf id).map Payment.txHash →
        o.spent.toNat < ownedSum S s.wallet.account tx →
        Scan.Noted S id tx txHash height s t o)

/-- A transaction with the field of a payment id as its extra bytes arrives under this id. -/
theorem arrives_of_construct {S : Suite} {σ : Type} {next : RandomSource σ} {sender : AccountKeys}
    {sources : List Source} {destinations : List Destination} {id : Hash} {unlockTime : UInt64}
    {s t : σ} {tx : Transaction}
    (run : (construct S next sender sources destinations (Extra.idField id) unlockTime).run.run s =
      (.ok tx, t)) :
    Construct.Pays S destinations tx (next.scalar.run s).1 ∧
      Arrives S id (next.scalar.run s).1 tx := by
  obtain ⟨spendSecret, prepared, money, spent, steps⟩ := Construct.steps_of_construct run
  obtain ⟨prepared', signed⟩ := Construct.of_construct run
  -- the extra field is the key followed by the payment id
  have fields := steps.extra_eq
  rw [← List.append_nil (Extra.idField id)] at fields
  have named : Extra.paymentId? tx.extra = some id := by
    rw [fields, Extra.paymentId?_idField]
  refine ⟨steps.paid, ?_, named, ?_⟩
  · rw [fields, Extra.publicKey?_encodeKey]
  · intro σ' env txHash height s t o scan
    refine ⟨Scan.received_le_ownedSum scan, fun proper new positive => ?_⟩
    refine Scan.noted_of_transaction scan named proper new ?_ positive
    -- a transaction pays no more than a word holds, since its amounts were summed in words
    have outputs := Scan.ownedSum_le_outputs (S := S) s.wallet.account tx
    rw [exactSum_perm signed.outputs] at outputs
    exact Nat.le_trans outputs (Nat.le_trans signed.covered signed.fits)

/-- **Payment ids arrive.** Extra bytes are made of the texts of 64 hexadecimal digits, of either
case, and of no others. The transactions that are constructed with them, for whatever sources,
destinations and random numbers, hold the key with which their outputs are paid and the id that the
text spells; so do the transactions that are built with them, or with the text. A wallet that scans
such a transaction, and that it leaves something with, notes exactly this under exactly this id,
unless the id is null, which is spelled by zeros. -/
theorem paymentId_arrives (S : Suite) (text : String) :
    (¬ SpellsId text → Extra.ofPaymentId text = .error (.wrongPaymentId text)) ∧
    (SpellsId text → ∃ id extra, parsePaymentId? text = some id ∧
      id.hex = String.ofList (text.toList.map Char.toLower) ∧
      (id.isNull = true ↔ ∀ c ∈ text.toList, c = '0') ∧
      Extra.ofPaymentId text = .ok extra ∧
      (∀ {σ : Type} (next : RandomSource σ) (sender : AccountKeys) (sources : List Source)
        (destinations : List Destination) (unlockTime : UInt64) (s t : σ) (tx : Transaction),
        (construct S next sender sources destinations extra unlockTime).run.run s = (.ok tx, t) →
          Construct.Pays S destinations tx (next.scalar.run s).1 ∧
          Arrives S id (next.scalar.run s).1 tx) ∧
      ∀ {σ : Type} (env : Environment σ) (request : TransferRequest) (s t : Session σ)
        (p : PendingTransaction), exec (build S env request) s = (.ok p, t) →
        request.extra = extra ∧ request.paymentId = none ∨
          request.extra = [] ∧ request.paymentId = some text →
        ∃ destinations r, Construct.Pays S destinations p.tx r ∧ Arrives S id r p.tx) := by
  refine ⟨fun other => Extra.ofPaymentId_eq_error.mpr ⟨other, rfl⟩, fun spells => ?_⟩
  obtain ⟨id, spelled⟩ := exists_parsePaymentId? spells
  have made := Extra.ofPaymentId_of_some spelled
  refine ⟨id, Extra.idField id, spelled, (parsePaymentId?_eq_some.mp spelled).2,
    isNull_of_parsePaymentId? spelled, made, ?_, ?_⟩
  · intro σ next sender sources destinations unlockTime s t tx run
    exact arrives_of_construct run
  · intro σ env request s t p run asked
    obtain ⟨⟨needed, now, found, decoys, sources, extra, steps⟩, -⟩ := Build.steps_of_build run
    -- the id was given as the extra field or as a text, and both come to the same bytes
    have same : extra = Extra.idField id := by
      have bytes := steps.extra_eq
      unfold Build.extraBytes at bytes
      rcases asked with ⟨given, none⟩ | ⟨given, some⟩
      · rw [none, given] at bytes
        exact (Except.ok.inj bytes).symm
      · rw [some, given] at bytes
        simp only [made] at bytes
        exact (Except.ok.inj bytes).symm
    subst same
    obtain ⟨e, e', constructs⟩ := steps.constructs
    obtain ⟨paid, arrives⟩ := arrives_of_construct constructs
    exact ⟨_, _, paid, arrives⟩

/-! ### A customer and a shop -/

namespace Depositing

open CyclicSuite Confirming

/-- A payment id in both cases. -/
def text : String := "00000000000000000000000000000000000000000000000000000000000000aB"

/-- 600 from the customer to the shop. -/
def sent : Except TransactionError Transaction × UInt64 :=
  (construct .cyclic .splitMix account.keys [source] [⟨600, payee.address⟩]
    ((Extra.ofPaymentId text).toOption.getD []) 0).run.run 1

/-- The new wallet of the shop, whose daemon numbers one output. -/
def shop : Session Unit := { env := (), wallet := ⟨payee, {}, {}⟩ }

def scan (tx : Transaction) : Except WalletError ScanOutcome × Session Unit :=
  exec (Scan.transaction .cyclic ({ blocks := [], indices := fun _ => [8] } :
    ChainServer).environment tx (tx.hash .cyclic) 5) shop

end Depositing

open Depositing in
/-- The shop notes 600 under the id. -/
theorem paymentId_arrives_cyclic :
    SpellsId text ∧ ¬ SpellsId "12" ∧
      Extra.ofPaymentId "12" = .error (.wrongPaymentId "12") ∧
      ∃ id tx t, parsePaymentId? text = some id ∧ sent = (.ok tx, t) ∧
        Extra.paymentId? tx.extra = some id ∧
        ∃ o v p, scan tx = (.ok o, v) ∧ v.history.paymentsOf id = [p] ∧ p.amount = 600 := by
  have spells : SpellsId text := by decide +kernel
  have other : ¬ SpellsId "12" := by decide +kernel
  -- the amount and the spending are read off the run
  have passes : sent.1.toOption.any (fun tx => (scan tx).1.toOption.any fun o =>
      decide (o.spent = 0 ∧ ownedSum .cyclic Confirming.payee tx = 600)) = true := by decide +kernel
  obtain ⟨tx, made, passes⟩ := (Option.any_eq_true _ _).mp passes
  obtain ⟨o, scanned, passes⟩ := (Option.any_eq_true _ _).mp passes
  obtain ⟨unspent, pays⟩ := of_decide_eq_true passes
  obtain ⟨id, extra, spelled, -, zeros, bytes, arrives, -⟩ :=
    (paymentId_arrives .cyclic text).2 spells
  have run : sent = (.ok tx, sent.2) := Prod.ext (Except.toOption_eq_some.mp made) rfl
  have scan_eq : scan tx = (.ok o, (scan tx).2) :=
    Prod.ext (Except.toOption_eq_some.mp scanned) rfl
  obtain ⟨-, arrives⟩ := arrives .splitMix CyclicSuite.account.keys [CyclicSuite.source]
    [⟨600, Confirming.payee.address⟩] 0 1 sent.2 tx (by
      rw [← run]
      unfold sent
      rw [bytes]
      rfl)
  -- the id is not the null one, since its text has a letter
  have proper : id.isNull = false := by
    refine Bool.eq_false_iff.mpr fun null => ?_
    exact absurd (zeros.mp null 'a' (by decide +kernel)) (by decide)
  have empty : shop.history.paymentsOf id = [] := by
    simp [shop, Session.history, History.paymentsOf]
  have positive : o.spent.toNat < ownedSum .cyclic Confirming.payee tx := by
    rw [unspent, pays]
    decide
  obtain ⟨p, -, -, -, amount, payments⟩ :=
    ((arrives.noted _ _ 5 shop _ o scan_eq).2 proper (by simp [empty]) positive).payment
  refine ⟨spells, other, (paymentId_arrives .cyclic "12").1 other, id, tx, sent.2, spelled, run,
    arrives.id_eq, o, _, p, scan_eq, ?_, ?_⟩
  · rw [payments, if_pos rfl, empty, List.nil_append]
  · rw [unspent] at amount
    exact UInt64.toNat_inj.mp (amount.trans (congrArg (· - 0) pays))

end RingWallet
