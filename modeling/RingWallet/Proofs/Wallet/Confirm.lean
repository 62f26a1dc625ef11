import RingWallet.Proofs.Codec
import RingWallet.Proofs.Spend.Change
import RingWallet.Proofs.Spend.Spendable
import RingWallet.Proofs.Wallet.Commit
import RingWallet.Proofs.Wallet.Remembers

/-!
# From pending to confirmed

A transaction that was sent counts with its change until a block holds it, and with its own outputs
from then on. Both figures go through several hands: the change is written down when the transaction
is sent, before it is split (`awaits_of_send`); the split keeps its dust apart, and the outputs that
are made of the rest are those that the account recognises (`Build.Drafted.ownedSum_add_dust`); the
scan takes these in, marks nothing that was not marked before, and ends the wait
(`Scan.funds_of_transaction`).

So the two figures agree up to the dust that is left to the fee: `balance_of_confirmed`. The change
that is written down contains it: `short_of_confirmed`.
-/

set_option autoImplicit false

namespace RingWallet

open Reading Scan WalletM

namespace History

/-! ### The change that is waited for -/

/-- The change of a transaction counts until it is forgotten. -/
theorem changeSum_eq {h : History} {id : Hash} {u : Unconfirmed}
    (waiting : h.unconfirmed[id]? = some u) :
    h.changeSum = u.change.toNat + (h.forget id).changeSum := by
  -- the entries with the waiting one in front are a rearrangement of all entries
  have entries : h.unconfirmed.toList.Perm ((id, u) :: (h.unconfirmed.erase id).toList) := by
    have distinct (m : Std.ExtTreeMap Hash Unconfirmed) : m.toList.Nodup :=
      (Codec.nodup_keys_toList m).of_map
    refine (List.perm_ext_iff_of_nodup (distinct _) ?_).mpr ?_
    · refine List.nodup_cons.mpr ⟨?_, distinct _⟩
      simp [Std.ExtTreeMap.mem_toList_iff_getElem?_eq_some]
    · rintro ⟨id', u'⟩
      rw [List.mem_cons, Std.ExtTreeMap.mem_toList_iff_getElem?_eq_some,
        Std.ExtTreeMap.mem_toList_iff_getElem?_eq_some, Std.ExtTreeMap.getElem?_erase]
      by_cases same : id = id'
      · subst same
        simp [waiting, eq_comm]
      · simp [same, Ne.symm same]
  exact exactSum_perm (entries.map fun q => q.2.change)

end History

section

variable {S : Suite} {account : Account} {σ : Type} {env : Environment σ}

/-! ### Sending -/

/-- A transaction was sent: it is waited for with its change, and the outputs that it spends are
known and marked. -/
structure History.Awaits (h : History) (p : PendingTransaction) : Prop where
  waiting : ∃ time, h.unconfirmed[p.hash]? = some ⟨p.tx, p.change.amount, time⟩
  known : ∀ image ∈ p.inputImages, h.keyImages.contains image = true
  marked : ∀ t ∈ h.transfers, t.keyImage ∈ p.inputImages → t.spent = true

/-- A transaction that was sent successfully is waited for. -/
theorem awaits_of_send (derivable : ∀ key secret, KeyImage.ofKeys S key secret ≠ .ok .null)
    {s sent : Session σ} (derived : s.Derived S account) {p : PendingTransaction}
    (spends : p.Spends S) {id : Hash} (run : exec (send env p) s = (.ok id, sent)) :
    sent.history.Awaits p := by
  -- the transaction was sent, so that its selection was checked
  rcases exec_send_cases env p s with ⟨e, env', failed⟩ | ⟨time, env', passes, -, sends⟩
  · cases failed.symm.trans run
  obtain ⟨-, rfl⟩ := Prod.mk.inj (sends.symm.trans run)
  show (s.history.markSent p time).Awaits p
  rw [markSent_eq_committed derivable derived spends passes time]
  refine ⟨⟨time, ?_⟩, ?_, ?_⟩
  · simp [History.committed]
  · -- every input belongs to a transfer with an image of its own
    intro image spent
    obtain ⟨handle, selected, same⟩ := spends.exists_selected spent
    obtain ⟨t, here, -, image'⟩ := forall_of_checkSelection passes handle selected
    have present : t.keyImage ≠ .null :=
      derived.keyImage_ne_null derivable t (List.mem_of_getElem? here)
    refine (derived.consistent.indexed.contains_iff (same ▸ image' ▸ present)).mpr ?_
    exact List.mem_map.mpr ⟨t, List.mem_of_getElem? here, image'.trans same⟩
  · intro t mem spent
    obtain ⟨t₀, -, rfl⟩ := List.mem_map.mp mem
    have spent : t₀.keyImage ∈ p.inputImages := spent
    simp [spent]

/-! ### Scanning -/

/-- The own outputs of a transaction have key images that differ from each other and from those that
are known. -/
structure History.Fresh (S : Suite) (account : Account) (h : History) (tx : Transaction) :
    Prop where
  distinct : ((owned S account tx).map (imageAt? S account tx)).Nodup
  unknown : ∀ i ∈ owned S account tx, ∀ image, imageAt? S account tx i = some image →
    h.keyImages[image]? = none

/-- A transaction that has nothing to do with a wallet: it pays the account nothing, spends none of
its outputs, and is not waited for. -/
structure History.Uninvolved (S : Suite) (account : Account) (h : History) (txHash : Hash)
    (tx : Transaction) : Prop where
  unpaid : owned S account tx = []
  unspent : ∀ image ∈ tx.inputs.filterMap TxIn.keyImage?, h.keyImages[image]? = none
  unawaited : h.unconfirmed[txHash]? = none

namespace Scan

variable {h : History} {q : Placed} {e e' : σ} {d : KeyDerivation} {own : List Nat}
  {indices : List UInt64}

/-- Own outputs with new key images are all taken in. -/
theorem transfers_receive_outputsOf (fresh : h.Fresh S account q.tx)
    (derivable : ∀ i ∈ owned S account q.tx, ∃ image, imageAt? S account q.tx i = some image)
    (n : Nat) (indices : List UInt64) :
    (((outputsOf S account q n indices).map OwnOutput.receipt).foldl History.receive h).transfers =
        h.transfers ++ (outputsOf S account q n indices).map OwnOutput.transfer ∧
      ∀ o ∈ outputsOf S account q n indices, h.keyImages[o.image]? = none := by
  -- the images of the new outputs are those that the account derives, which are distinct and
  -- unknown
  have same : (owned S account q.tx).map (imageAt? S account q.tx) =
      ((outputsOf S account q n indices).map OwnOutput.image).map some := by
    rw [outputsOf, List.map_map, List.map_map]
    refine List.map_congr_left fun i mem => ?_
    obtain ⟨image, at_i⟩ := derivable i mem
    simp [OwnOutput.image, at_i]
  have unknown : ∀ o ∈ outputsOf S account q n indices, h.keyImages[o.image]? = none := by
    intro o mem
    obtain ⟨i, is_owned, rfl⟩ := List.mem_map.mp mem
    obtain ⟨image, at_i⟩ := derivable i is_owned
    simp only [OwnOutput.image, at_i, Option.getD_some]
    exact fresh.unknown i is_owned image at_i
  have distinct : ((outputsOf S account q n indices).map OwnOutput.image).Nodup :=
    List.Nodup.of_map _ (same ▸ fresh.distinct)
  refine ⟨?_, unknown⟩
  rw [History.transfers_receiveAll_new ?_ distinct (List.forall_mem_map.mpr unknown), List.map_map]
  · rfl
  · rw [List.map_map, List.map_map]
    rfl

/-- What the own outputs of a transaction are worth. -/
theorem exactSum_outputsOf (q : Placed) (n : Nat) (indices : List UInt64) :
    exactSum ((outputsOf S account q n indices).map fun o => o.transfer.amount) =
      ownedSum S account q.tx := by
  rw [ownedSum_eq, worthAt, outputsOf, List.map_map]
  rfl

/-- What a transaction with new outputs brings goes to the end of the list, unspent, and is worth
what the transaction pays the account. -/
theorem exists_brought (full : account.keys.spendSecret.isSome)
    (completed : Completed S env account q.tx q.txHash e e' d own indices)
    (fresh : h.Fresh S account q.tx) :
    ∃ new : List Transfer,
      ((brought S account.keys d q.tx q.txHash q.height indices own).foldl History.receive
        (h.forget q.txHash)).transfers = h.transfers ++ new ∧
      (∀ t ∈ new, t.spent = false ∧ h.keyImages[t.keyImage]? = none) ∧
      exactSum (new.map Transfer.amount) = ownedSum S account q.tx := by
  have owned_eq := owned_of_completed completed
  by_cases worth : Worth q.tx own
  · have derivable : ∀ i ∈ owned S account q.tx,
        ∃ image, imageAt? S account q.tx i = some image := by
      intro i mem
      obtain ⟨out, here⟩ := exists_of_mem_owned mem
      obtain ⟨image, -, at_i⟩ := exists_imageAt? full completed worth mem here
      exact ⟨image, at_i⟩
    have fresh' : (h.forget q.txHash).Fresh S account q.tx := ⟨fresh.distinct, fresh.unknown⟩
    obtain ⟨took, unknown⟩ := transfers_receive_outputsOf fresh' derivable 0 indices
    refine ⟨(outputsOf S account q 0 indices).map OwnOutput.transfer, ?_, ?_, ?_⟩
    · rw [brought, if_pos worth, receipts_eq full completed worth 0, took]
      rfl
    · intro t mem
      obtain ⟨o, among, rfl⟩ := List.mem_map.mp mem
      obtain ⟨i, is_owned, rfl⟩ := List.mem_map.mp among
      exact ⟨rfl, unknown _ among⟩
    · rw [List.map_map]
      exact exactSum_outputsOf q 0 indices
  · -- outputs that are worth nothing are passed over
    have worthless := not_not.mp ((not_congr (worth_iff q.tx)).mp (owned_eq ▸ worth))
    refine ⟨[], ?_, by simp, by rw [worthless]; rfl⟩
    rw [brought, if_neg worth]
    simp [History.forget]

/-- The scan of a transaction adds what the transaction pays the account, if its outputs are new and
its inputs spend nothing that was not marked before. -/
theorem unspentSum_settled (derivable : ∀ key secret, KeyImage.ofKeys S key secret ≠ .ok .null)
    (full : account.keys.spendSecret.isSome)
    (completed : Completed S env account q.tx q.txHash e e' d own indices)
    (indexed : h.Indexed (· ≠ .null)) (fresh : h.Fresh S account q.tx)
    (known : ∀ image ∈ q.tx.inputs.filterMap TxIn.keyImage?, h.keyImages.contains image = true)
    (marked : ∀ t ∈ h.transfers, t.keyImage ∈ q.tx.inputs.filterMap TxIn.keyImage? →
      t.spent = true) :
    (settled S account.keys d q.tx q.txHash q.height indices own h).unspentSum =
      h.unspentSum + ownedSum S account q.tx := by
  obtain ⟨new, took, unspent, worth⟩ := exists_brought full completed fresh
  have indexed' : ((brought S account.keys d q.tx q.txHash q.height indices own).foldl
      History.receive (h.forget q.txHash)).Indexed (· ≠ .null) :=
    Changes.indexed derivable (changes_brought (List.mem_singleton_self _) h) indexed
  -- the inputs mark no new output, because their images were known before
  have unmarked : ∀ t ∈ h.transfers ++ new, t.spent = false → t.keyImage ≠ .null →
      t.keyImage ∉ q.tx.inputs.filterMap TxIn.keyImage? := by
    intro t mem flag _ spent
    rcases List.mem_append.mp mem with old | is_new
    · exact Bool.false_ne_true (flag.symm.trans (marked t old spent))
    · have present := known t.keyImage spent
      rw [Std.ExtTreeMap.contains_eq_isSome_getElem?, (unspent t is_new).2] at present
      cases present
  have transfers : (settled S account.keys d q.tx q.txHash q.height indices own h).transfers =
      h.transfers ++ new := by
    rw [transfers_settled indexed', took]
    exact map_markIn_eq_self.mpr unmarked
  have all : new.filter (fun t => !t.spent) = new :=
    List.filter_eq_self.mpr fun t mem => by simp [(unspent t mem).1]
  rw [History.unspentSum, transfers, List.filter_append, all, List.map_append, exactSum_append,
    worth]
  rfl

/-- The scan of a transaction that was waited for puts its own outputs in the place of its change.
-/
theorem funds_of_transaction (derivable : ∀ key secret, KeyImage.ofKeys S key secret ≠ .ok .null)
    (full : account.keys.spendSecret.isSome) {p : PendingTransaction} {height : Nat}
    {s t : Session σ} {o : ScanOutcome} (derived : s.Derived S account)
    (usable : ∃ d, derivation? S account.keys (Extra.parse p.tx.extra).1 = some d)
    (awaits : s.history.Awaits p) (fresh : s.history.Fresh S account p.tx)
    (run : exec (transaction S env p.tx p.hash height) s = (.ok o, t)) :
    t.wallet.funds + p.change.amount.toNat = s.wallet.funds + ownedSum S account p.tx := by
  obtain rfl := derived.own
  obtain ⟨r, u, run', ends⟩ := exec_transaction S env p.tx p.hash height s
  obtain ⟨rfl, rfl⟩ := Prod.mk.inj (run.symm.trans run')
  -- a transaction without a usable key would be passed over, but this one has one
  cases ends with
  | passed unusable core =>
    obtain ⟨d, usable⟩ := usable
    cases unusable.symm.trans usable
  | @settled _ _ d own indices completed wallet =>
    have history : t.history = settled S s.wallet.account.keys d p.tx p.hash height indices own
        s.history := congrArg Wallet.history wallet
    -- the outputs come in unspent, and the change is no longer waited for
    have unspent : t.history.unspentSum = s.history.unspentSum + ownedSum S s.wallet.account p.tx :=
      history ▸ unspentSum_settled (q := ⟨height, p.hash, p.tx⟩) derivable full completed
        derived.consistent.indexed fresh awaits.known awaits.marked
    have waiting : t.history.changeSum = (s.history.forget p.hash).changeSum := by
      rw [History.changeSum, History.changeSum, history, unconfirmed_settled]
      rfl
    obtain ⟨time, here⟩ := awaits.waiting
    have change : s.history.changeSum =
        p.change.amount.toNat + (s.history.forget p.hash).changeSum := History.changeSum_eq here
    show t.history.unspentSum + t.history.changeSum + _ =
      s.history.unspentSum + s.history.changeSum + _
    omega

end Scan

/-- The scan of a transaction that has nothing to do with a wallet leaves it as it is. -/
theorem History.Uninvolved.wallet_eq {s t : Session σ} {txHash : Hash} {tx : Transaction}
    {height : Nat} {o : ScanOutcome}
    (uninvolved : s.history.Uninvolved S s.wallet.account txHash tx)
    (run : exec (transaction S env tx txHash height) s = (.ok o, t)) : t.wallet = s.wallet := by
  have forgets := History.forget_eq_self uninvolved.unawaited
  obtain ⟨r, u, run', ends⟩ := exec_transaction S env tx txHash height s
  obtain ⟨rfl, rfl⟩ := Prod.mk.inj (run.symm.trans run')
  cases ends with
  | passed unusable core =>
    rw [Session.wallet_of_core core, forgets]
    rfl
  -- nothing is owned, so that nothing is recorded
  | @settled _ _ d own indices completed wallet =>
    obtain rfl : own = [] :=
      (owned_of_completed (p := ⟨height, txHash, tx⟩) completed).trans uninvolved.unpaid
    have nothing : brought S s.wallet.account.keys d tx txHash height indices [] = [] :=
      if_neg fun worth => worth.1 rfl
    have same : settled S s.wallet.account.keys d tx txHash height indices [] s.history =
        s.history := by
      unfold settled
      rw [nothing, List.foldl_nil, forgets]
      simp only []
      rw [History.spendInputs_eq_self]
      -- without an own output there is no amount to be noted
      · refine History.credit_eq_self fun id _ some_left => absurd ?_ some_left
        rw [← UInt64.toNat_inj, UInt64.toNat_subSat]
        exact Nat.zero_sub _
      · intro image mem t found
        simp [History.transferOf?, uninvolved.unspent image mem] at found
    rw [wallet, same]
    rfl

/-! ### The block -/

/-- A block that holds a transaction that was waited for, and nothing else that has to do with the
wallet. -/
theorem funds_of_addBlock (derivable : ∀ key secret, KeyImage.ofKeys S key secret ≠ .ok .null)
    (full : account.keys.spendSecret.isSome) {p : PendingTransaction} {b : ParsedBlock}
    {height : Nat} {target : Option Hash} {s t : Session σ} (derived : s.Derived S account)
    (usable : ∃ d, derivation? S account.keys (Extra.parse p.tx.extra).1 = some d)
    (awaits : s.history.Awaits p) (fresh : s.history.Fresh S account p.tx)
    (holds : b.txs = [(p.hash, p.tx)])
    (reward : s.history.Uninvolved S account (b.block.minerTx.hash S) b.block.minerTx)
    (young : Sync.isRelevant s.wallet b.block = true)
    (run : exec (Sync.addBlock S env b height target) s = (.ok (), t)) :
    t.wallet.funds + p.change.amount.toNat = s.wallet.funds + ownedSum S account p.tx := by
  obtain rfl := derived.own
  rw [Sync.exec_addBlock, Sync.scanBlock, if_pos young] at run
  rcases scan : exec (Sync.scanAll S env height (Sync.allTransactions S b)) s with ⟨e | ⟨⟩, w⟩
  · rw [scan] at run
    cases run
  rw [scan] at run
  obtain rfl : Sync.appended S b height target w = t := (Prod.mk.inj run).2
  rw [Sync.allTransactions, holds] at scan
  -- the reward first, then the transaction
  obtain ⟨o, u, v, first, core, scan⟩ := Sync.scanAll_cons_eq_ok scan
  obtain ⟨o', u', v', second, core', scan⟩ := Sync.scanAll_cons_eq_ok scan
  obtain rfl : v' = w := (Prod.mk.inj scan).2
  have wallet : v.wallet = s.wallet := (Session.wallet_of_core core).trans (reward.wallet_eq first)
  have history : v.history = s.history := congrArg Wallet.history wallet
  have derived' : v.Derived S s.wallet.account :=
    derived.sameOutputs (congrArg Wallet.account wallet) (history ▸ .refl _)
  have funds := funds_of_transaction derivable full derived' usable (history ▸ awaits)
    (history ▸ fresh) second
  rw [← Session.wallet_of_core core', wallet] at funds
  rw [← funds]
  rfl

end

/-- The balance right after a transaction was sent is the balance after a block with exactly this
transaction, and the dust that the transaction leaves to its fee. So the two agree if the split of
the change leaves no dust, and only then. The destinations belong to other accounts, who recognise
no output that this one recognises too; the one-time keys that the transaction pays to its own
account have not been seen before, and the total stays below the greatest amount. -/
theorem balance_of_confirmed (S : Suite) (lawful : S.Lawful)
    (derivable : ∀ key secret, KeyImage.ofKeys S key secret ≠ .ok .null) {σ : Type}
    (account : Account) (verified : account.verify S = true) (full : account.isViewOnly = false)
    (envBuild envSend envScan : Environment σ)
    -- it was built
    (s₀ u : Session σ) (reached₀ : s₀.Reached S account) (r : TransferRequest)
    (policy : r.dustPolicy.addToFee = true) (p : PendingTransaction)
    (built : exec (build S envBuild r) s₀ = (.ok p, u))
    (others : ∀ dst ∈ r.destinations, Elsewhere S account p.tx dst.address)
    -- and sent
    (s sent : Session σ) (reached : s.Reached S account) (id : Hash)
    (sends : exec (send envSend p) s = (.ok id, sent))
    (fits : sent.wallet.funds ≤ maxWord) (fresh : sent.history.Fresh S account p.tx)
    -- and is in a block
    (b : ParsedBlock) (height : Nat) (target : Option Hash) (t : Session σ)
    (holds : b.txs = [(p.hash, p.tx)])
    (reward : sent.history.Uninvolved S account (b.block.minerTx.hash S) b.block.minerTx)
    (young : Sync.isRelevant sent.wallet b.block = true)
    (scans : exec (Sync.addBlock S envScan b height target) sent = (.ok (), t)) :
    sent.wallet.balance.toNat = t.wallet.balance.toNat + p.dust.toNat ∧
      p.dust ≤ r.dustPolicy.threshold ∧
      p.dust = (r.strategy.split r.destinations p.change r.dustPolicy.threshold).2 ∧
      (sent.wallet.balance = t.wallet.balance ↔ p.dust = 0) := by
  have present : account.keys.spendSecret.isSome := by
    simpa [Account.isViewOnly] using full
  -- what the transaction pays its own account
  have derived₀ := derived_of_reached derivable present reached₀
  obtain ⟨⟨draft, drafted⟩, -⟩ := Build.of_build built
  have pays := drafted.ownedSum_add_dust lawful (derived₀.own ▸ verified) policy
    (derived₀.own ▸ others)
  rw [derived₀.own] at pays
  obtain ⟨key, paid⟩ := drafted.paid
  obtain ⟨-, d, usable, -⟩ := paid.exists_derivation lawful verified
  -- the sending writes the change down, and the block replaces it
  have spends : p.Spends S := spends_of_build built (derived₀.own ▸ derived₀.derived)
  have awaits := awaits_of_send derivable (derived_of_reached derivable present reached) spends
    sends
  have derived : sent.Derived S account := by
    have after := derived_of_reached derivable present (reached.send envSend p)
    rwa [sends] at after
  have funds := funds_of_addBlock derivable present derived ⟨d, usable⟩ awaits fresh holds reward
    young scans
  have total : sent.wallet.balance.toNat = t.wallet.balance.toNat + p.dust.toNat := by
    rw [Wallet.toNat_balance, Wallet.toNat_balance]
    omega
  refine ⟨total, drafted.small, drafted.dust, ?_⟩
  rw [← UInt64.toNat_inj, ← UInt64.toNat_inj, total]
  show _ ↔ p.dust.toNat = 0
  omega

/-! ### A change with dust -/

namespace Confirming

open CyclicSuite Respending

/-- 300 for somebody else, which leave 666 of the reward. -/
def payment : TransferRequest := .standard new.wallet.config [⟨300, stranger⟩] 0 0 34 []

/-- The account at the address of somebody else. -/
def payee : Account where
  keys :=
    { address := stranger
      spendSecret := some (.ofScalar (.ofNat 11))
      viewSecret := .ofScalar (.ofNat 13) }
  createTime := 0

/-- The reward is enough. -/
def selection : (UInt64 × List Handle) × Unit :=
  (Balance.select environment.random refreshed.wallet 0 334 true 10 []).run ()

def sources : List Source :=
  ((selection.1.2.zip (selection.1.2.map fun _ => [])).mapM fun q =>
    Build.sourceOf refreshed.wallet 0 q.1 q.2).toOption.getD []

/-- The amounts that the split makes, in its order. -/
def destinations : List Destination :=
  [⟨300, stranger⟩, ⟨60, account.address⟩, ⟨600, account.address⟩]

def constructed : Except TransactionError Transaction × Unit :=
  (construct .cyclic environment.random account.keys sources destinations [] 0).run.run ()

def pending (tx : Transaction) : PendingTransaction where
  tx
  hash := tx.hash .cyclic
  fee := 34
  dust := 6
  change := ⟨666, account.address⟩
  selected := selection.1.2

def sent (p : PendingTransaction) : Session Unit := (exec (send environment p) refreshed).2

/-- A block with the transaction, whose reward pays nobody. -/
def holder (p : PendingTransaction) : ParsedBlock :=
  let block : Block := ⟨⟨1, 0, 1, .null, 0⟩, ⟨⟨1, 0, [.generated 2], [], []⟩, []⟩, [p.hash]⟩
  { block, id := block.hash .cyclic, txs := [(p.hash, p.tx)] }

/-- A daemon that numbers the three outputs of the transaction. -/
def scanning : Environment Unit := { server with indices := fun _ => [8, 9, 10] }.environment

def scan (p : PendingTransaction) : Except WalletError Unit × Session Unit :=
  exec (Sync.addBlock .cyclic scanning (holder p) 2 none) (sent p)

/-- What the sending and the scan need of a transaction, and what comes of them. -/
def Passes (p : PendingTransaction) : Prop :=
  (exec (send environment p) refreshed).1.toOption = some p.hash ∧
    Sync.isRelevant (sent p).wallet (holder p).block = true ∧
    (scan p).1.toOption = some () ∧
    (∀ i ∈ owned .cyclic payee p.tx, i ∉ owned .cyclic account p.tx) ∧
    ((owned .cyclic account p.tx).map (imageAt? .cyclic account p.tx)).Nodup ∧
    (∀ i ∈ owned .cyclic account p.tx, (imageAt? .cyclic account p.tx i).all (fun image =>
      (sent p).history.keyImages[image]?.isNone) = true) ∧
    owned .cyclic account (holder p).block.minerTx = [] ∧
    (sent p).history.unconfirmed[(holder p).block.minerTx.hash .cyclic]? = none ∧
    (sent p).wallet.funds ≤ maxWord ∧ p.dust = 6 ∧
    (sent p).wallet.balance = 666 ∧ (scan p).2.wallet.balance = 660

instance (p : PendingTransaction) : Decidable (Passes p) :=
  inferInstanceAs (Decidable (_ ∧ _))

/-- The outputs are put in the order of their amounts. -/
theorem inOrder_destinations : Construct.inOrder destinations =
    [⟨60, account.address⟩, ⟨300, stranger⟩, ⟨600, account.address⟩] := by
  simp [Construct.inOrder, destinations, List.mergeSort]

/-- The refresh keeps the account. -/
theorem refreshed_account : refreshed.wallet.account = account :=
  (derived_of_reached Suite.cyclic_ofKeys_ne_null rfl reached_refreshed).own

/-- The refresh keeps the configuration. -/
theorem refreshed_config : refreshed.wallet.config = new.wallet.config := by decide +kernel

/-- The selection takes the one output of a thousand. -/
theorem selection_eq : selection = ((1000, selection.1.2), ()) :=
  Prod.ext (Prod.ext (by decide +kernel) rfl) rfl

/-- Every selected output can be spent. -/
theorem sources_eq : ((selection.1.2.zip (selection.1.2.map fun _ => [])).mapM fun q =>
    Build.sourceOf refreshed.wallet 0 q.1 q.2) = .ok sources := by
  have found : ((selection.1.2.zip (selection.1.2.map fun _ => [])).mapM fun q =>
      Build.sourceOf refreshed.wallet 0 q.1 q.2).toOption.isSome = true := by decide +kernel
  obtain ⟨ss, found⟩ := Option.isSome_iff_exists.mp found
  rw [sources, found]
  exact Except.toOption_eq_some.mp found

/-- The transaction is built, if its construction succeeds and it is small enough. -/
theorem build_eq {tx : Transaction} (made : constructed = (.ok tx, ()))
    (size : tx.toBlob.length < new.wallet.config.transactionSizeLimit) :
    exec (build .cyclic environment payment) refreshed = (.ok (pending tx), refreshed) := by
  -- the configuration and the account are those of the wallet before the refresh
  have needs : Build.neededMoney refreshed.wallet.config payment = .ok (300, 334) := by
    rw [refreshed_config]
    decide +kernel
  have splits : payment.strategy.split payment.destinations
      ⟨1000 - 334, refreshed.wallet.account.address⟩ payment.dustPolicy.threshold =
        (destinations, 6) := by
    rw [refreshed_account]
    decide +kernel
  have signs : (construct .cyclic environment.random refreshed.wallet.account.keys sources
      (destinations ++ Build.dustOutput payment.dustPolicy refreshed.wallet.account.address 6)
      payment.extra payment.unlockTime).run.run () = (.ok tx, ()) := by
    rw [refreshed_account]
    exact made
  have run := Build.exec_build_of_steps rfl rfl needs rfl selection_eq (by decide) sources_eq splits
    (by decide) signs (refreshed_config ▸ size)
  rw [refreshed_account] at run
  exact run

/-- The transaction is built and passes all the checks, which are evaluated here. -/
theorem exists_passes :
    ∃ p u, exec (build .cyclic environment payment) refreshed = (.ok p, u) ∧ Passes p := by
  have passes : constructed.1.toOption.any (fun tx =>
      decide (tx.toBlob.length < new.wallet.config.transactionSizeLimit ∧ Passes (pending tx))) =
        true := by
    unfold constructed construct
    rw [show (destinations.mergeSort fun a b => a.amount ≤ b.amount) = _ from inOrder_destinations]
    decide +kernel
  obtain ⟨tx, made, passes⟩ := (Option.any_eq_true _ _).mp passes
  obtain ⟨size, passes⟩ := of_decide_eq_true passes
  exact ⟨_, _, build_eq (Prod.ext (Except.toOption_eq_some.mp made) rfl) size, passes⟩

/-- The keys of the account belong together. -/
theorem verified : account.verify .cyclic = true := by decide +kernel

variable {p : PendingTransaction} {h : History}

/-- Nobody is paid but the payee. -/
theorem elsewhere (apart : ∀ i ∈ owned .cyclic payee p.tx, i ∉ owned .cyclic account p.tx) :
    ∀ dst ∈ payment.destinations, Elsewhere .cyclic account p.tx dst.address := by
  have other : stranger ≠ account.address ∧ payee.verify .cyclic = true := by decide +kernel
  exact List.forall_mem_singleton.mpr ⟨other.1, payee, rfl, other.2, fun i => apart i⟩

/-- The outputs of a transaction are new to a history if their key images are distinct and
unknown. -/
theorem fresh (distinct : ((owned .cyclic account p.tx).map (imageAt? .cyclic account p.tx)).Nodup)
    (unknown : ∀ i ∈ owned .cyclic account p.tx, (imageAt? .cyclic account p.tx i).all (fun image =>
      h.keyImages[image]?.isNone) = true) : h.Fresh .cyclic account p.tx := by
  refine ⟨distinct, fun i mem image at_i => ?_⟩
  have absent := unknown i mem
  rw [at_i, Option.all_some] at absent
  exact Option.isNone_iff_eq_none.mp absent

/-- The reward of the block has nothing to do with the wallet. -/
theorem uninvolved (unpaid : owned .cyclic account (holder p).block.minerTx = [])
    (unawaited : h.unconfirmed[(holder p).block.minerTx.hash .cyclic]? = none) :
    h.Uninvolved .cyclic account ((holder p).block.minerTx.hash .cyclic)
      (holder p).block.minerTx := by
  refine ⟨unpaid, fun image mem => ?_, unawaited⟩
  cases (show image ∈ ([] : List KeyImage) from mem)

end Confirming

open Confirming CyclicSuite Respending in
/-- The change of 666 comes back as 60 and 600, and 6 are left to the fee. -/
theorem balance_of_confirmed_dust :
    refreshed.Reached .cyclic account ∧ account.verify .cyclic = true ∧
      account.isViewOnly = false ∧ payment.dustPolicy.addToFee = true ∧
      ∃ p u, exec (build .cyclic environment payment) refreshed = (.ok p, u) ∧
        (∀ dst ∈ payment.destinations, Elsewhere .cyclic account p.tx dst.address) ∧
        exec (send environment p) refreshed = (.ok p.hash, sent p) ∧
        (sent p).history.Fresh .cyclic account p.tx ∧
        exec (Sync.addBlock .cyclic scanning (holder p) 2 none) (sent p) = (.ok (), (scan p).2) ∧
        (sent p).wallet.balance.toNat = (scan p).2.wallet.balance.toNat + 6 := by
  -- what the decision procedure has found are the hypotheses of the theorem
  obtain ⟨p, u, built, taken, young, scanned, apart, distinct, unknown, unpaid, unawaited, fits,
    dust, -⟩ := exists_passes
  have sends : exec (send environment p) refreshed = (.ok p.hash, sent p) := exec_eq_ok taken
  have scans : exec (Sync.addBlock .cyclic scanning (holder p) 2 none) (sent p) =
      (.ok (), (scan p).2) := exec_eq_ok scanned
  obtain ⟨balance, -⟩ := balance_of_confirmed .cyclic Suite.lawful_cyclic
    Suite.cyclic_ofKeys_ne_null account verified rfl environment environment scanning refreshed u
    reached_refreshed payment rfl p built (elsewhere apart) refreshed (sent p) reached_refreshed
    p.hash sends fits (fresh distinct unknown) (holder p) 2 none (scan p).2 rfl
    (uninvolved unpaid unawaited) young scans
  rw [dust] at balance
  exact ⟨reached_refreshed, verified, rfl, rfl, p, u, built, elsewhere apart, sends,
    fresh distinct unknown, scans, balance⟩

open Confirming CyclicSuite Respending in
/-- The balance is 666 after the transaction was sent, and 660 after the block. -/
theorem short_of_confirmed :
    refreshed.Reached .cyclic account ∧ account.verify .cyclic = true ∧
      account.isViewOnly = false ∧
      payment = .standard refreshed.wallet.config [⟨300, stranger⟩] 0 0 34 [] ∧
      ∃ p u sent t, exec (build .cyclic environment payment) refreshed = (.ok p, u) ∧
        (∀ dst ∈ payment.destinations, Elsewhere .cyclic account p.tx dst.address) ∧
        exec (send environment p) refreshed = (.ok p.hash, sent) ∧
        sent.wallet.funds ≤ maxWord ∧ sent.history.Fresh .cyclic account p.tx ∧
        (holder p).txs = [(p.hash, p.tx)] ∧
        Sync.isRelevant sent.wallet (holder p).block = true ∧
        exec (Sync.addBlock .cyclic scanning (holder p) 2 none) sent = (.ok (), t) ∧
        sent.wallet.balance = 666 ∧ t.wallet.balance = 660 := by
  obtain ⟨p, u, built, taken, young, scanned, apart, distinct, unknown, -, -, fits, -, before,
    after⟩ := exists_passes
  exact ⟨reached_refreshed, verified, rfl,
    by rw [refreshed_config, payment], p, u, sent p, (scan p).2, built,
    elsewhere apart, exec_eq_ok taken, fits, fresh distinct unknown, rfl, young,
    exec_eq_ok scanned, before, after⟩

end RingWallet
