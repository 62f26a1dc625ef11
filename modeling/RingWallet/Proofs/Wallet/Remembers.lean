import RingWallet.Proofs.Wallet.Deeds
import RingWallet.Proofs.Wallet.Outcome
import RingWallet.Proofs.Wallet.Payments
import RingWallet.Proofs.Wallet.Restore

/-!
# Transactions that a history remembers

A history remembers a transaction (`History.Remembers`) if the scan of the transaction would change
nothing: its own outputs are recorded, the own outputs that its inputs spend are marked, its payment
is noted, and nobody waits for it. Every scan that comes to its end leaves a history that remembers
the transaction (`History.remembers_settled`). A scan of a remembered transaction leaves the history
as it is and reports nothing, whatever indices the daemon answers (`Scan.reread_of_remembers`,
`Scan.gained_of_remembers`).

A history that grows could forget a transaction in one way only, by recording an output that the
transaction spends: `History.Remembers.grows`.
-/

set_option autoImplicit false

namespace RingWallet

open Reading Scan WalletM

/-- What an account finds in a transaction: the secret shared with the sender, and the positions of
the own outputs. -/
structure Scan.Finds (S : Suite) (account : Account) (tx : Transaction) (d : KeyDerivation)
    (own : List Nat) : Prop where
  usable : derivation? S account.keys (Extra.parse tx.extra).1 = some d
  owned : ownOutputs S account.address d 0 tx.outputs = .ok own

namespace History

/-- The sum of the own outputs that a transaction spends. -/
def spentSum (h : History) (tx : Transaction) : UInt64 :=
  (tx.inputs.filterMap h.spentAmount?).foldl UInt64.addSat 0

/-- The history has taken in everything that a scan of the transaction finds. -/
structure Remembers (S : Suite) (account : Account) (h : History) (p : Placed) : Prop where
  confirmed : h.unconfirmed[p.txHash]? = none
  recorded : ∀ d own, Finds S account p.tx d own → Worth p.tx own → ∀ i ∈ own, ∀ out,
    p.tx.outputs[i]? = some out → ∀ image, keyImageOf S account.keys d i out.key = .ok image →
      h.isRecorded image p.txHash i = true
  spent : ∀ d own, Finds S account p.tx d own → ∀ image ∈ p.tx.inputs.filterMap TxIn.keyImage?,
    ∀ t, h.transferOf? image = some t → t.spent = true
  noted : ∀ d own, Finds S account p.tx d own → ∀ id,
    (Extra.paymentIdOf? (Extra.parse p.tx.extra).1).filter (fun id => !id.isNull) = some id →
      (amountAt p.tx.outputs own).subSat (h.spentSum p.tx) ≠ 0 →
        ∃ q ∈ h.paymentsOf id, q.txHash = p.txHash

variable {S : Suite} {account : Account} {h h' : History} {p : Placed}

/-! ### What is there already -/

/-- Outputs that are all recorded change nothing. -/
theorem receiveAll_eq_self {found : List Receipt}
    (recorded : ∀ r ∈ found,
      h.isRecorded r.image r.transfer.txHash r.transfer.outputIndex = true) :
    found.foldl receive h = h := by
  induction found with
  | nil => rfl
  | cons r rest ih =>
    rw [List.forall_mem_cons] at recorded
    rw [List.foldl_cons, receive_of_recorded recorded.1]
    exact ih recorded.2

/-- Outputs that are all recorded add no amount. -/
theorem gain_of_recorded {found : List Receipt}
    (recorded : ∀ r ∈ found,
      h.isRecorded r.image r.transfer.txHash r.transfer.outputIndex = true) (total : UInt64) :
    h.gain found total = total := by
  induction found with
  | nil => rfl
  | cons r rest ih =>
    rw [List.forall_mem_cons] at recorded
    rw [gain, receive_of_recorded recorded.1, if_pos recorded.1]
    exact ih recorded.2

/-- Marking an output that is marked changes nothing. -/
theorem spend_eq_self {image : KeyImage}
    (spent : ∀ t, h.transferOf? image = some t → t.spent = true) : h.spend image = h := by
  unfold transferOf? at spent
  unfold spend
  rcases known : h.keyImages[image]? with - | i
  · rfl
  · rw [known] at spent
    -- the mark is there already, so setting it once more changes nothing
    have same : h.transfers.modify i (fun t => { t with spent := true }) = h.transfers := by
      apply List.ext_getElem?
      intro j
      rw [List.getElem?_modify]
      by_cases here : i = j
      · subst here
        rcases at_i : h.transfers[i]? with - | t
        · rfl
        · obtain ⟨blockHeight, tx, txHash, outputIndex, globalIndex, marked, keyImage⟩ := t
          obtain rfl : marked = true := spent _ at_i
          simp
      · simp [here]
    show h.spendAt i = h
    unfold spendAt
    rw [same]

/-- Inputs whose outputs are all marked change nothing. -/
theorem spendInputs_eq_self {inputs : List TxIn}
    (spent : ∀ image ∈ inputs.filterMap TxIn.keyImage?, ∀ t, h.transferOf? image = some t →
      t.spent = true) : inputs.foldl spendInput h = h := by
  induction inputs with
  | nil => rfl
  | cons input rest ih =>
    -- the wallet knows the first input as spent, or does not know it
    have first : h.spendInput input = h := by
      unfold spendInput
      rcases known : input.keyImage? with - | image
      · rfl
      · refine spend_eq_self (spent image ?_)
        rw [List.filterMap_cons, known]
        exact List.mem_cons_self
    rw [List.foldl_cons, first]
    refine ih fun image mem => spent image ?_
    rw [List.filterMap_cons]
    split
    · exact mem
    · exact List.mem_cons_of_mem _ mem

/-- A payment that was noted before is not noted again. -/
theorem credit_eq_self {tx : Transaction} {txHash : Hash} {height : Nat}
    {fields : List ExtraField} {received : UInt64}
    (noted : ∀ id, (Extra.paymentIdOf? fields).filter (fun id => !id.isNull) = some id →
      received ≠ 0 → ∃ q ∈ h.paymentsOf id, q.txHash = txHash) :
    h.credit tx txHash height fields received = h := by
  unfold credit
  split
  · next id known =>
    split
    · rfl
    · next some_left =>
      -- a payment is noted once per transaction
      have old : ((h.payments[id]?).getD []).any (fun q => q.txHash = txHash) = true := by
        obtain ⟨q, mem, same⟩ := noted id known some_left
        exact List.any_eq_true.mpr ⟨q, mem, decide_eq_true same⟩
      unfold addPayment
      simp only [old, if_true]
  · rfl

end History

namespace Scan

variable {S : Suite} {account : Account} {h h' : History} {p : Placed} {d : KeyDerivation}
  {own : List Nat} {indices : List UInt64}

/-- The own outputs of a remembered transaction are recorded, whatever their indices are. -/
theorem isRecorded_of_mem_brought (remembers : h.Remembers S account p)
    (finds : Finds S account p.tx d own) {r : Receipt}
    (mem : r ∈ brought S account.keys d p.tx p.txHash p.height indices own) :
    h.isRecorded r.image r.transfer.txHash r.transfer.outputIndex = true := by
  unfold brought at mem
  split at mem
  · next worth =>
    obtain ⟨i, is_own, found⟩ := List.mem_filterMap.mp mem
    obtain ⟨⟨out, globalIndex⟩, zip, found⟩ := Option.bind_eq_some_iff.mp found
    obtain ⟨image, computed, rfl⟩ := Option.map_eq_some_iff.mp found
    exact remembers.recorded d own finds worth i is_own out (List.getElem?_zip_eq_some.mp zip).1
      image (Except.toOption_eq_some.mp computed)
  · cases mem

/-- The scan of a remembered transaction leaves the history as it is. -/
theorem reread_of_remembers (remembers : h.Remembers S account p)
    (scannable : Scannable S account p.tx) (indices : Hash → List UInt64) :
    reread S account indices h p = h := by
  unfold reread
  -- without a usable key the transaction is only taken off the unconfirmed ones
  rcases usable : derivation? S account.keys (Extra.parse p.tx.extra).1 with - | d
  · exact History.forget_eq_self remembers.confirmed
  obtain ⟨own, owned, -⟩ := scannable d usable
  have finds : Finds S account p.tx d own := ⟨usable, owned⟩
  have took : (brought S account.keys d p.tx p.txHash p.height (indices p.txHash) own).foldl
      History.receive h = h :=
    History.receiveAll_eq_self fun r mem => isRecorded_of_mem_brought remembers finds mem
  simp only [owned, Except.toOption, Option.getD_some, settled,
    History.forget_eq_self remembers.confirmed, took]
  rw [History.spendInputs_eq_self (remembers.spent d own finds)]
  exact History.credit_eq_self (remembers.noted d own finds)

/-- The scan of a remembered transaction reports nothing. -/
theorem gained_of_remembers (remembers : h.Remembers S account p)
    (scannable : Scannable S account p.tx) (indices : Hash → List UInt64) :
    gained S account indices h p = 0 := by
  unfold gained
  rcases usable : derivation? S account.keys (Extra.parse p.tx.extra).1 with - | d
  · rfl
  obtain ⟨own, owned, -⟩ := scannable d usable
  simp only [owned, Except.toOption, Option.getD_some,
    History.forget_eq_self remembers.confirmed]
  exact History.gain_of_recorded
    (fun r mem => isRecorded_of_mem_brought remembers ⟨usable, owned⟩ mem) 0

/-- A remembered transaction that is scanned to its end leaves the wallet as it is. -/
theorem wallet_of_remembers {σ : Type} {env : Environment σ} {s t : Session σ} {o : ScanOutcome}
    (run : exec (transaction S env p.tx p.txHash p.height) s = (.ok o, t))
    (scannable : Scannable S s.wallet.account p.tx)
    (remembers : s.history.Remembers S s.wallet.account p) :
    t.wallet = s.wallet ∧ o.received = 0 := by
  -- it does not matter which indices the daemon answers, if it does
  let answered : List UInt64 := match ((env.getIndices p.txHash).run s.env).1 with
    | .ok reply => reply.indices
    | .error _ => []
  have answers : ∀ reply, ((env.getIndices p.txHash).run s.env).1 = .ok reply →
      reply.status = Daemon.okStatus → reply.indices = answered := by
    intro reply told _
    simp only [answered, told]
  obtain ⟨wallet, received⟩ : t.wallet = s.wallet.withHistory
        (reread S s.wallet.account (fun _ => answered) s.history p) ∧
      o.received = gained S s.wallet.account (fun _ => answered) s.history p :=
    reread_of_transaction run answers
  rw [reread_of_remembers remembers scannable] at wallet
  rw [gained_of_remembers remembers scannable] at received
  exact ⟨wallet, received⟩

end Scan

namespace History

variable {S : Suite} {account : Account} {h h' : History} {p : Placed}

/-! ### What a scan leaves -/

/-- An image leads to the transfer at its position in the index. -/
theorem transferOf?_eq_some {image : KeyImage} {t : Transfer} :
    h.transferOf? image = some t ↔
      ∃ i, h.keyImages[image]? = some i ∧ h.transfers[i]? = some t := by
  unfold transferOf?
  exact Option.bind_eq_some_iff

/-- What is recorded stays recorded while the history grows. -/
theorem isRecorded_of_grows {seen : Hash → Transaction → Nat → Prop} (grows : Grows seen h h')
    {image : Option KeyImage} {txHash : Hash} {index : Nat}
    (recorded : h.isRecorded image txHash index = true) :
    h'.isRecorded image txHash index = true := by
  cases image with
  | some k =>
    have known : h.keyImages.contains k = true := recorded
    show h'.keyImages.contains k = true
    rw [Std.ExtTreeMap.contains_eq_isSome_getElem?, Option.isSome_iff_exists] at known ⊢
    obtain ⟨i, found⟩ := known
    exact ⟨i, grows.keyImages k i found⟩
  | none =>
    -- a view-only wallet looks for the place of the output, which stays as it is
    obtain ⟨t, mem, is_it⟩ := List.any_eq_true.mp recorded
    obtain ⟨i, at_i⟩ := List.mem_iff_getElem?.mp mem
    obtain ⟨t', at_i', same, -⟩ := grows.kept i t at_i
    refine List.any_eq_true.mpr ⟨t', List.mem_of_getElem? at_i', ?_⟩
    have hash : t'.unspent.txHash = t.unspent.txHash := congrArg Transfer.txHash same
    have place : t'.unspent.outputIndex = t.unspent.outputIndex :=
      congrArg Transfer.outputIndex same
    show (t'.unspent.txHash = txHash && t'.unspent.outputIndex = index : Bool) = true
    rw [hash, place]
    exact is_it

/-- An output that was marked stays marked. -/
theorem spent_of_spend {image : KeyImage} (other : KeyImage)
    (spent : ∀ t, h.transferOf? image = some t → t.spent = true) :
    ∀ t, (h.spend other).transferOf? image = some t → t.spent = true := by
  intro t found
  obtain ⟨i, known, at_i⟩ := transferOf?_eq_some.mp found
  rw [(sameOutputs_spend h other).keyImages] at known
  unfold spend at at_i
  -- an image that is not in the index marks nothing
  rcases marked : h.keyImages[other]? with - | j <;> rw [marked] at at_i
  · exact spent t (transferOf?_eq_some.mpr ⟨i, known, at_i⟩)
  · have at_i : (h.transfers.modify j fun t => { t with spent := true })[i]? = some t := at_i
    rw [List.getElem?_modify] at at_i
    obtain ⟨u, at_u, rfl⟩ := Option.map_eq_some_iff.mp at_i
    split
    · rfl
    · exact spent u (transferOf?_eq_some.mpr ⟨i, known, at_u⟩)

/-- The inputs of a transaction leave no output of theirs unmarked. -/
theorem spent_of_spendInputs (h : History) {inputs : List TxIn} {image : KeyImage}
    (mem : image ∈ inputs.filterMap TxIn.keyImage?) :
    ∀ t, (inputs.foldl spendInput h).transferOf? image = some t → t.spent = true := by
  have stays (rest : List TxIn) (h : History)
      (spent : ∀ t, h.transferOf? image = some t → t.spent = true) :
      ∀ t, (rest.foldl spendInput h).transferOf? image = some t → t.spent = true := by
    induction rest generalizing h with
    | nil => exact spent
    | cons input rest ih =>
      refine ih _ ?_
      unfold spendInput
      rcases input.keyImage? with - | other
      · exact spent
      · exact spent_of_spend other spent
  obtain ⟨input, among, known⟩ := List.mem_filterMap.mp mem
  obtain ⟨before, after, rfl⟩ := List.append_of_mem among
  rw [List.foldl_append, List.foldl_cons]
  refine stays after _ ?_
  generalize before.foldl spendInput h = h
  rw [spendInput, known]
  -- the output that the index leads to is the one that gets marked
  intro t found
  obtain ⟨i, at_image, at_i⟩ := transferOf?_eq_some.mp found
  have at_image : (h.spend image).keyImages[image]? = some i := at_image
  rw [(sameOutputs_spend h image).keyImages] at at_image
  have at_i : (h.spend image).transfers[i]? = some t := at_i
  unfold spend at at_i
  rw [at_image] at at_i
  have at_i : (h.transfers.modify i fun t => { t with spent := true })[i]? = some t := at_i
  rw [List.getElem?_modify] at at_i
  obtain ⟨u, -, rfl⟩ := Option.map_eq_some_iff.mp at_i
  rw [if_pos rfl]

/-- An own output that was taken in is recorded. -/
theorem isRecorded_of_receiveAll {txs : List (Hash × Transaction)} {height : Nat}
    {found : List Receipt} (all : ∀ r ∈ found, Found S txs height r.transfer r.image)
    (h : History) : ∀ r ∈ found, (found.foldl receive h).isRecorded r.image r.transfer.txHash
      r.transfer.outputIndex = true := by
  induction found generalizing h with
  | nil => simp
  | cons first rest ih =>
    rw [List.forall_mem_cons] at all
    rw [List.forall_mem_cons, List.foldl_cons]
    refine ⟨?_, ih all.2 _⟩
    -- recorded already, or recorded now under its image
    have now : (h.receive first).isRecorded first.image first.transfer.txHash
        first.transfer.outputIndex = true := by
      by_cases known : h.isRecorded first.image first.transfer.txHash
          first.transfer.outputIndex = true
      · rwa [receive_of_recorded known]
      · rw [receive_of_new known]
        rcases first.image with - | k
        · refine List.any_eq_true.mpr ⟨first.transfer, ?_, by simp⟩
          exact List.mem_append_right _ (List.mem_singleton_self _)
        · exact Std.ExtTreeMap.contains_insert_self
    exact isRecorded_of_grows (changes_receive all.2 _).grows now

/-- Noting a payment leaves the outputs alone. -/
theorem sameOutputs_credit (h : History) (tx : Transaction) (txHash : Hash) (height : Nat)
    (fields : List ExtraField) (received : UInt64) :
    SameOutputs h (h.credit tx txHash height fields received) := by
  obtain ⟨payments, eq⟩ := exists_payments_credit h tx txHash height fields received
  rw [eq]
  exact ⟨rfl, rfl, rfl⟩

/-- After the payment of a transaction was noted it is there. -/
theorem noted_credit (h : History) (tx : Transaction) (txHash : Hash) (height : Nat)
    {fields : List ExtraField} {received : UInt64} {id : Hash}
    (known : (Extra.paymentIdOf? fields).filter (fun id => !id.isNull) = some id)
    (some_left : received ≠ 0) :
    ∃ q ∈ (h.credit tx txHash height fields received).paymentsOf id, q.txHash = txHash := by
  unfold credit
  rw [known]
  simp only [if_neg some_left]
  rw [paymentsOf_addPayment]
  by_cases old : txHash ∈ (h.paymentsOf id).map Payment.txHash
  · obtain ⟨q, mem, same⟩ := List.mem_map.mp old
    exact ⟨q, List.mem_append_left _ mem, same⟩
  · rw [if_pos ⟨rfl, old⟩]
    exact ⟨_, List.mem_append_right _ (List.mem_singleton_self _), rfl⟩

/-- An output with an index and a key image is found. -/
theorem exists_receipt {keys : AccountKeys} {d : KeyDerivation} {tx : Transaction} {i : Nat}
    {out : TxOut} {indices : List UInt64} {image : Option KeyImage} (txHash : Hash) (height : Nat)
    (here : tx.outputs[i]? = some out) (length : indices.length = tx.outputs.length)
    (computed : keyImageOf S keys d i out.key = .ok image) :
    ∃ r, receipt? S keys d tx txHash height indices i = some r ∧ r.image = image ∧
      r.transfer.txHash = txHash ∧ r.transfer.outputIndex = i := by
  obtain ⟨g, answer⟩ : ∃ g, indices[i]? = some g := by
    have inside := (List.getElem?_eq_some_iff.mp here).1
    rw [← length] at inside
    exact ⟨_, List.getElem?_eq_getElem inside⟩
  have zip : (tx.outputs.zip indices)[i]? = some (out, g) :=
    List.getElem?_zip_eq_some.mpr ⟨here, answer⟩
  rw [receipt?, zip]
  simp only [Option.bind_some, computed, Except.toOption, Option.map_some]
  exact ⟨_, rfl, rfl, rfl, rfl⟩

/-- A scan that comes to its end leaves a history that remembers the transaction. -/
theorem remembers_settled {d : KeyDerivation} {own : List Nat} {indices : List UInt64}
    (finds : Finds S account p.tx d own)
    (length : Worth p.tx own → indices.length = p.tx.outputs.length) (h : History) :
    Remembers S account (settled S account.keys d p.tx p.txHash p.height indices own h) p := by
  let mem := List.mem_singleton_self (p.txHash, p.tx)
  let found := brought S account.keys d p.tx p.txHash p.height indices own
  let taken := found.foldl receive (h.forget p.txHash)
  have each : ∀ r ∈ found, Found S [(p.txHash, p.tx)] p.height r.transfer r.image := by
    intro r is_found
    unfold found brought at is_found
    split at is_found
    · exact found_of_mem_receipts mem is_found
    · cases is_found
  have first : Changes S [(p.txHash, p.tx)] p.height (h.forget p.txHash) taken :=
    changes_receive each _
  -- from where the outputs are taken in, the scan only adds to the history
  have later : Changes S [(p.txHash, p.tx)] p.height taken
      (settled S account.keys d p.tx p.txHash p.height indices own h) :=
    (changes_spendInputs mem (List.Subset.refl _) _).trans (changes_credit mem _ _ _)
  have outputs : SameOutputs taken
      (settled S account.keys d p.tx p.txHash p.height indices own h) :=
    (sameOutputs_spendInputs _ _).trans (sameOutputs_credit _ _ _ _ _ _)
  -- what the account finds is unique
  have only (d' : KeyDerivation) (own' : List Nat) (finds' : Finds S account p.tx d' own') :
      d' = d ∧ own' = own := by
    obtain rfl := Option.some.inj (finds'.usable.symm.trans finds.usable)
    exact ⟨rfl, Except.ok.inj (finds'.owned.symm.trans finds.owned)⟩
  refine ⟨?_, ?_, ?_, ?_⟩
  -- it is not waited for
  · have gone : (h.forget p.txHash).unconfirmed[p.txHash]? = none := by
      simp [History.forget]
    rcases (first.grows.trans later.grows).unconfirmed p.txHash with same | ⟨-, none⟩
    · rw [same, gone]
    · exact none
  -- its outputs are recorded
  · intro d' own' finds' worth i is_own out here image computed
    obtain ⟨rfl, rfl⟩ := only d' own' finds'
    obtain ⟨r, received, rfl, hash, place⟩ :=
      exists_receipt p.txHash p.height here (length worth) computed
    have among : r ∈ found := by
      unfold found brought
      rw [if_pos worth]
      exact List.mem_filterMap.mpr ⟨i, is_own, received⟩
    have recorded := isRecorded_of_grows later.grows (isRecorded_of_receiveAll each _ _ among)
    rwa [hash, place] at recorded
  -- what it spends is spent
  · intro d' own' finds' image input t held
    refine spent_of_spendInputs taken input t ?_
    obtain ⟨i, known, at_i⟩ := transferOf?_eq_some.mp held
    have same := credit_outputs (p.tx.inputs.foldl spendInput taken) p.tx p.txHash p.height
      (Extra.parse p.tx.extra).1 ((amountAt p.tx.outputs own).subSat (taken.spentSum p.tx))
    refine transferOf?_eq_some.mpr ⟨i, ?_, ?_⟩
    · rw [← same.2]
      exact known
    · rw [← same.1]
      exact at_i
  -- its payment is noted
  · intro d' own' finds' id known some_left
    obtain ⟨rfl, rfl⟩ := only d' own' finds'
    have sum : spentSum (settled S account.keys d' p.tx p.txHash p.height indices own' h) p.tx =
        taken.spentSum p.tx := by
      unfold spentSum
      rw [funext outputs.spentAmount?]
    rw [sum] at some_left
    exact noted_credit _ p.tx p.txHash p.height known some_left

/-- The scan of a transaction whose key the account cannot use leaves a history that remembers it.
-/
theorem remembers_forget
    (unusable : derivation? S account.keys (Extra.parse p.tx.extra).1 = none) (h : History) :
    Remembers S account (h.forget p.txHash) p where
  confirmed := by simp [History.forget]
  recorded _ _ finds := nomatch unusable.symm.trans finds.usable
  spent _ _ finds := nomatch unusable.symm.trans finds.usable
  noted _ _ finds := nomatch unusable.symm.trans finds.usable

/-! ### What growing leaves -/

/-- An input takes the same amount as before, unless an output with its key image was added. -/
theorem spentAmount?_of_grows {seen : Hash → Transaction → Nat → Prop} (grows : Grows seen h h')
    (points : h.Points) {input : TxIn}
    (old : ∀ image, input.keyImage? = some image → ∀ i, h'.keyImages[image]? = some i →
      h.keyImages[image]? = some i) : h'.spentAmount? input = h.spentAmount? input := by
  unfold spentAmount? transferOf?
  rcases known : input.keyImage? with - | image
  · rfl
  · simp only [Option.bind_some]
    have index : h'.keyImages[image]? = h.keyImages[image]? := by
      rcases found : h'.keyImages[image]? with - | i
      · rcases before : h.keyImages[image]? with - | i
        · rfl
        · rw [grows.keyImages image i before] at found
          cases found
      · rw [old image known i found]
    rw [index]
    rcases found : h.keyImages[image]? with - | i
    · rfl
    · -- the entry points at an output, which stays there
      have inside := (List.getElem?_eq_some_iff.mp (points image i found)).1
      rw [length_images] at inside
      obtain ⟨t', at_i', same, -⟩ := grows.kept i _ (List.getElem?_eq_getElem inside)
      have amount : t'.unspent.amount = h.transfers[i].unspent.amount :=
        congrArg Transfer.amount same
      rw [Option.bind_some, Option.bind_some, at_i', List.getElem?_eq_getElem inside]
      exact congrArg some amount

/-- A history that grows remembers a transaction, unless an output is added that the transaction
spends. -/
theorem Remembers.grows {seen : Hash → Transaction → Nat → Prop}
    (remembers : Remembers S account h p) (grows : Grows seen h h') (points : h.Points)
    (old : ∀ image ∈ p.tx.inputs.filterMap TxIn.keyImage?, ∀ i, h'.keyImages[image]? = some i →
      h.keyImages[image]? = some i) : Remembers S account h' p where
  confirmed := by
    rcases grows.unconfirmed p.txHash with same | ⟨-, none⟩
    · rw [same]
      exact remembers.confirmed
    · exact none
  recorded d own finds worth i is_own out here image computed :=
    isRecorded_of_grows grows
      (remembers.recorded d own finds worth i is_own out here image computed)
  spent d own finds image input t' found := by
    -- a marked output stays marked, because outputs never leave the list
    obtain ⟨i, known, at_i'⟩ := transferOf?_eq_some.mp found
    have before := old image input i known
    have inside := (List.getElem?_eq_some_iff.mp (points image i before)).1
    rw [length_images] at inside
    have at_i := List.getElem?_eq_getElem inside
    have marked := remembers.spent d own finds image input _
      (transferOf?_eq_some.mpr ⟨i, before, at_i⟩)
    obtain ⟨u, at_u, -, spent⟩ := grows.kept i _ at_i
    obtain rfl := Option.some.inj (at_u.symm.trans at_i')
    rcases spent with same | ⟨now, -⟩
    · rw [same, marked]
    · exact now
  noted d own finds id known some_left := by
    -- the amounts of the inputs are read off outputs that are still there
    have amounts : p.tx.inputs.filterMap h'.spentAmount? =
        p.tx.inputs.filterMap h.spentAmount? := by
      refine List.filterMap_congr fun input mem => ?_
      refine spentAmount?_of_grows grows points fun image is_it => old image ?_
      exact List.mem_filterMap.mpr ⟨input, mem, is_it⟩
    have sum : h'.spentSum p.tx = h.spentSum p.tx := by
      unfold spentSum
      rw [amounts]
    rw [sum] at some_left
    obtain ⟨q, mem, same⟩ := remembers.noted d own finds id known some_left
    obtain ⟨new, eq, -⟩ := grows.payments id
    exact ⟨q, eq ▸ List.mem_append_left new mem, same⟩

/-- It is remembered that nobody waits for a transaction, also when others are forgotten. -/
theorem Remembers.forget (remembers : Remembers S account h p) (txHash : Hash) :
    Remembers S account (h.forget txHash) p where
  confirmed := by
    show (h.unconfirmed.erase txHash)[p.txHash]? = none
    rw [Std.ExtTreeMap.getElem?_erase]
    split
    · rfl
    · exact remembers.confirmed
  recorded := remembers.recorded
  spent := remembers.spent
  noted := remembers.noted

/-- Another chain is not of interest. -/
theorem Remembers.withChain (remembers : Remembers S account h p) (chain : List Hash) :
    Remembers S account { h with chain } p where
  confirmed := remembers.confirmed
  recorded := remembers.recorded
  spent := remembers.spent
  noted := remembers.noted

end History

end RingWallet
