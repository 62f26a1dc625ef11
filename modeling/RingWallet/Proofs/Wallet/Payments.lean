import Mathlib.Algebra.Order.BigOperators.Group.List
import Mathlib.Algebra.Order.Group.Nat
import Mathlib.Data.List.Nodup
import Mathlib.Data.List.Perm.Subperm
import RingWallet.Proofs.Support.ChainServer
import RingWallet.Proofs.Wallet.Bounds
import RingWallet.Proofs.Wallet.Reading

/-!
# What stands behind a payment

A payment under an id is noted with the sum of all own outputs of its transaction. The outputs
themselves are told apart by their key images: one whose image is known already is not recorded
again. Every own output of a transaction with a payment is therefore matched by a transfer with its
key image (`History.Earned`), but this transfer may be an output of another transaction that was
paid to the same one-time key. Such outputs are `borrowed`.

`History.Backed` is the invariant. A scan keeps it because the payment is noted after the outputs
were taken in, and a cut keeps it because no matching transfer is higher than the payment.
`payments_backed` says that a transaction has at most one payment, which is at most the sum of the
transfers of this transaction and of its borrowed outputs. `payment_of_reused_key` is a payment
with nothing behind it.
-/

set_option autoImplicit false

namespace RingWallet

open Reading Scan WalletM

section

namespace History

variable (S : Suite) (account : Account)

/-- A payment under an id comes from a transaction. It is at most what the own outputs of the
transaction are worth, and the wallet has a transfer with the key image of each of them. -/
structure Earned (h : History) (id : Hash) (p : Payment) (tx : Transaction) : Prop where
  txHash_eq : p.txHash = tx.hash S
  id_eq : Extra.paymentId? tx.extra = some id
  amount_le : p.amount.toNat ≤ ownedSum S account tx
  held : ∀ i ∈ owned S account tx, ∃ t ∈ h.transfers,
    imageAt? S account tx i = some t.keyImage ∧ t.blockHeight ≤ p.blockHeight

/-- Every payment comes from a transaction that the daemon has served, and so does every transfer.
No transaction is noted twice under one id. -/
structure Backed (served : Transaction → Prop) (h : History) : Prop where
  consistent : h.Consistent S
  genuine : ∀ t ∈ h.transfers, served t.tx
  nodup : ∀ id, ((h.paymentsOf id).map Payment.txHash).Nodup
  earned : ∀ id, ∀ p ∈ h.paymentsOf id, ∃ tx, served tx ∧ Earned S account h id p tx

variable {S account} {served : Transaction → Prop} {h h' : History}

/-! ### Transfers that stay -/

/-- Only the transfers matter that are not higher than the payment, and not their spent flags. -/
theorem Earned.mono {id : Hash} {p : Payment} {tx : Transaction}
    (earned : Earned S account h id p tx)
    (kept : ∀ t ∈ h.transfers, t.blockHeight ≤ p.blockHeight →
      ∃ t' ∈ h'.transfers, t'.unspent = t.unspent) : Earned S account h' id p tx where
  txHash_eq := earned.txHash_eq
  id_eq := earned.id_eq
  amount_le := earned.amount_le
  held i mem := by
    -- the output that is held may have been marked as spent since
    obtain ⟨t, ht, image, below⟩ := earned.held i mem
    obtain ⟨t', ht', same⟩ := kept t ht below
    refine ⟨t', ht', ?_, ?_⟩
    · rw [← Transfer.keyImage_unspent t', same]
      exact image
    · rw [← Transfer.blockHeight_unspent t', same]
      exact below

/-- Every output of the one history stands in the other one, up to its spent flag. -/
theorem SameOutputs.exists_unspent_eq (same : SameOutputs h h') {t : Transfer}
    (mem : t ∈ h.transfers) : ∃ t' ∈ h'.transfers, t'.unspent = t.unspent := by
  have found : t.unspent ∈ h'.transfers.map Transfer.unspent := by
    rw [same.transfers]
    exact List.mem_map_of_mem mem
  exact List.mem_map.mp found

/-- Payments stay backed while outputs are only marked. -/
theorem Backed.sameOutputs (backed : Backed S account served h) (same : SameOutputs h h')
    (payments : h'.payments = h.payments) : Backed S account served h' where
  consistent := backed.consistent.sameOutputs same
  genuine := same.forall_mem (fun _ => Iff.rfl) backed.genuine
  nodup id := by
    rw [paymentsOf, payments]
    exact backed.nodup id
  earned id p hp := by
    rw [paymentsOf, payments] at hp
    obtain ⟨tx, mem, earned⟩ := backed.earned id p hp
    exact ⟨tx, mem, earned.mono fun t ht _ => same.exists_unspent_eq ht⟩

/-- Another chain that is at least as long. -/
theorem Backed.withChain (backed : Backed S account served h) {chain : List Hash}
    (length : h.height ≤ chain.length) :
    Backed S account served ({ h with chain } : History) where
  consistent := backed.consistent.withChain length
  genuine := backed.genuine
  nodup := backed.nodup
  earned id p hp := by
    obtain ⟨tx, mem, earned⟩ := backed.earned id p hp
    exact ⟨tx, mem, earned.mono fun t ht _ => ⟨t, ht, rfl⟩⟩

/-- A cut takes a payment away before it takes away what is behind it. -/
theorem Backed.detach (backed : Backed S account served h) (n : Nat) :
    Backed S account served (h.detach n) where
  consistent := backed.consistent.detach n
  genuine t ht := backed.genuine t ((List.takeWhile_prefix _).subset ht)
  nodup id := by
    rw [paymentsOf_detach]
    exact (backed.nodup id).sublist (List.filter_sublist.map _)
  -- a payment that is left lies below the cut, and so do the outputs that earned it
  earned id p hp := by
    rw [paymentsOf_detach, List.mem_filter] at hp
    obtain ⟨tx, mem, earned⟩ := backed.earned id p hp.1
    have below : p.blockHeight < n := by simpa using hp.2
    refine ⟨tx, mem, earned.mono fun t ht le => ⟨t, ?_, rfl⟩⟩
    exact (mem_transfers_detach backed.consistent.sorted).mpr ⟨ht, Nat.lt_of_le_of_lt le below⟩

/-! ### Scans -/

/-- A scan that notes no payment keeps the payments backed. -/
theorem Backed.grows {seen : Hash → Transaction → Nat → Prop} (backed : Backed S account served h)
    (consistent : h'.Consistent S) (grows : Grows seen h h')
    (by_served : ∀ id tx n, seen id tx n → served tx) (payments : h'.payments = h.payments) :
    Backed S account served h' where
  consistent := consistent
  genuine t ht := by
    obtain ⟨i, at_i⟩ := List.mem_iff_getElem?.mp ht
    -- an output was there before or has come from a transaction that was seen
    rcases Nat.lt_or_ge i h.transfers.length with old | new
    · obtain ⟨t', at_i', same, -⟩ := grows.kept i _ (List.getElem?_eq_getElem old)
      obtain rfl : t = t' := Option.some.inj (at_i.symm.trans at_i')
      rw [← Transfer.tx_unspent t, same, Transfer.tx_unspent]
      exact backed.genuine _ (List.getElem_mem old)
    · exact by_served _ _ _ (grows.added i t at_i new)
  nodup id := by
    rw [paymentsOf, payments]
    exact backed.nodup id
  earned id p hp := by
    rw [paymentsOf, payments] at hp
    -- outputs that earned a payment are only marked, never taken away
    obtain ⟨tx, mem, earned⟩ := backed.earned id p hp
    refine ⟨tx, mem, earned.mono fun t ht _ => ?_⟩
    obtain ⟨i, at_i⟩ := List.mem_iff_getElem?.mp ht
    obtain ⟨t', at_i', same, -⟩ := grows.kept i t at_i
    exact ⟨t', List.mem_of_getElem? at_i', same⟩

/-- A payment goes behind the others of its id, unless its transaction has one already. -/
theorem paymentsOf_addPayment (h : History) (id id' : Hash) (p : Payment) :
    (h.addPayment id p).paymentsOf id' = h.paymentsOf id' ++
      if id = id' ∧ p.txHash ∉ (h.paymentsOf id).map Payment.txHash then [p] else [] := by
  -- whether a payment is known is asked by its transaction
  have known : ((h.paymentsOf id).any fun q => q.txHash = p.txHash) =
      decide (p.txHash ∈ (h.paymentsOf id).map Payment.txHash) := by
    rw [Bool.eq_iff_iff]
    simp
  unfold addPayment
  simp only [show (h.payments[id]?).getD [] = h.paymentsOf id from rfl, known, decide_eq_true_iff]
  by_cases old : p.txHash ∈ (h.paymentsOf id).map Payment.txHash
  · rw [if_pos old, if_neg fun new => new.2 old, List.append_nil]
  · -- a new payment only shows under its own id
    rw [if_neg old]
    by_cases same : id = id'
    · subst same
      rw [if_pos ⟨rfl, old⟩]
      simp [paymentsOf]
    · rw [if_neg fun new => same new.1, List.append_nil]
      simp [paymentsOf, Std.ExtTreeMap.getElem?_insert, same]

/-- A payment that was earned is backed when it is noted. -/
theorem Backed.addPayment (backed : Backed S account served h) {id : Hash} {p : Payment}
    {tx : Transaction} (mem : served tx) (earned : Earned S account h id p tx) :
    Backed S account served (h.addPayment id p) := by
  have same := sameOutputs_addPayment h id p
  have kept {id' : Hash} {q : Payment} {tx : Transaction} (earned : Earned S account h id' q tx) :
      Earned S account (h.addPayment id p) id' q tx :=
    earned.mono fun t ht _ => same.exists_unspent_eq ht
  -- a payment is added under one id at most, and only for a transaction that had none there
  refine ⟨backed.consistent.sameOutputs same, same.forall_mem (fun _ => Iff.rfl) backed.genuine,
    fun id' => ?_, fun id' q hq => ?_⟩
  · rw [paymentsOf_addPayment]
    split
    · next new =>
      obtain ⟨rfl, new⟩ := new
      rw [List.map_append, List.map_singleton]
      rw [← List.concat_eq_append]
      exact List.Nodup.concat new (backed.nodup id)
    · rw [List.append_nil]
      exact backed.nodup id'
  · rw [paymentsOf_addPayment, List.mem_append] at hq
    rcases hq with old | new
    · obtain ⟨tx', mem', earned'⟩ := backed.earned id' q old
      exact ⟨tx', mem', kept earned'⟩
    · split at new
      · next here =>
        obtain ⟨rfl, -⟩ := here
        obtain rfl := List.mem_singleton.mp new
        exact ⟨tx, mem, kept earned⟩
      · cases new

/-- The key image of an output that was taken in is known. -/
theorem contains_receiveAll {found : List Receipt} {r : Receipt} {k : KeyImage} (mem : r ∈ found)
    (image : r.image = some k) (h : History) :
    (found.foldl receive h).keyImages.contains k = true := by
  have stays (rest : List Receipt) (h : History) (known : h.keyImages.contains k = true) :
      (rest.foldl receive h).keyImages.contains k = true := by
    induction rest generalizing h with
    | nil => exact known
    | cons r rest ih =>
      rw [List.foldl_cons]
      refine ih _ ?_
      unfold receive
      split
      · exact known
      · unfold record
        rcases r.image with - | image
        · exact known
        · simp [Std.ExtTreeMap.contains_insert, known]
  induction found generalizing h with
  | nil => cases mem
  | cons first rest ih =>
    rw [List.foldl_cons]
    -- either the output is taken in now, or its key image was known before
    rcases List.mem_cons.mp mem with rfl | later
    · refine stays rest _ ?_
      by_cases recorded : h.isRecorded r.image r.transfer.txHash r.transfer.outputIndex = true
      · rw [receive_of_recorded recorded]
        rwa [isRecorded.eq_def, image] at recorded
      · rw [receive_of_new recorded, image]
        exact Std.ExtTreeMap.contains_insert_self
    · exact ih later _

end History

open History

variable {S : Suite} {account : Account} {served : Transaction → Prop} {σ : Type}
  {env : Environment σ}

/-- After the own outputs of a transaction were taken in there is a transfer with the key image of
each of them, be it a new one or one that was there before. -/
theorem exists_keyImage_eq_of_taken (full : account.keys.spendSecret.isSome) {tx : Transaction}
    {height : Nat} {e e' : σ} {d : KeyDerivation} {own : List Nat} {indices : List UInt64}
    {h taken : History} (completed : Completed S env account tx (tx.hash S) e e' d own indices)
    (worth : Worth tx own)
    (took : taken =
      (brought S account.keys d tx (tx.hash S) height indices own).foldl receive h)
    (indexed : taken.Indexed (· ≠ .null)) {i : Nat} (mem : i ∈ owned S account tx) :
    ∃ t ∈ taken.transfers, imageAt? S account tx i = some t.keyImage := by
  obtain ⟨out, here⟩ := exists_of_mem_owned mem
  obtain ⟨k, -, image⟩ := exists_imageAt? (p := ⟨height, tx.hash S, tx⟩) full completed worth mem
    here
  have receipts := receipts_eq (p := ⟨height, tx.hash S, tx⟩) full completed worth 0
  have found : ∃ r ∈ brought S account.keys d tx (tx.hash S) height indices own,
      r.image = some k := by
    rw [brought, if_pos worth, receipts]
    refine ⟨_, List.mem_map_of_mem (List.mem_map_of_mem mem), ?_⟩
    show some ((imageAt? S account tx i).getD .null) = some k
    rw [image, Option.getD_some]
  obtain ⟨r, found, known⟩ := found
  -- the image is indexed now, and the index agrees with the transfers
  have contains := contains_receiveAll found known h
  rw [← took, Std.ExtTreeMap.contains_eq_isSome_getElem?, Option.isSome_iff_exists] at contains
  obtain ⟨j, at_j⟩ := contains
  obtain ⟨-, position⟩ := (indexed k j).mp at_j
  rw [History.images, List.getElem?_map, Option.map_eq_some_iff] at position
  obtain ⟨t, position, rfl⟩ := position
  exact ⟨t, List.mem_of_getElem? position, image⟩

/-- The payment of a transaction is noted after all of its own outputs were taken in. -/
theorem History.Backed.credit (full : account.keys.spendSecret.isSome) {tx : Transaction}
    (mem : served tx) {height : Nat} {e e' : σ} {d : KeyDerivation} {own : List Nat}
    {indices : List UInt64} {h taken : History}
    (completed : Completed S env account tx (tx.hash S) e e' d own indices)
    (took : taken =
      (brought S account.keys d tx (tx.hash S) height indices own).foldl receive h)
    (backed : Backed S account served taken) (on_top : taken.height = height) (spent : UInt64) :
    Backed S account served ((tx.inputs.foldl spendInput taken).credit tx (tx.hash S) height
      (Extra.parse tx.extra).1 ((amountAt tx.outputs own).subSat spent)) := by
  have same := sameOutputs_spendInputs taken tx.inputs
  have marked := backed.sameOutputs same (payments_spendInputs _ _)
  have owned_eq := owned_of_completed (p := ⟨height, tx.hash S, tx⟩) completed
  have total : (amountAt tx.outputs own).toNat = min (ownedSum S account tx) maxWord := by
    rw [owned_eq, toNat_amountAt_owned]
  have rest := UInt64.toNat_subSat (amountAt tx.outputs own) spent
  unfold History.credit
  split
  · next id under =>
    split
    · exact marked
    · next pays =>
      -- what is left is not zero, so that the own outputs are worth something
      have left : ((amountAt tx.outputs own).subSat spent).toNat ≠ 0 := fun none =>
        pays (UInt64.toNat_inj.mp none)
      have worth : Worth tx own := by
        rw [owned_eq]
        exact (worth_iff tx).mpr (by omega)
      have earned : Earned S account taken id
          { txHash := tx.hash S, amount := (amountAt tx.outputs own).subSat spent
            blockHeight := height, unlockTime := tx.unlockTime } tx := by
        refine ⟨rfl, (Option.filter_eq_some_iff.mp under).1, ?_, fun i mem => ?_⟩
        · show ((amountAt tx.outputs own).subSat spent).toNat ≤ _
          omega
        · obtain ⟨t, mem, image⟩ := exists_keyImage_eq_of_taken full completed worth took
            backed.consistent.indexed mem
          exact ⟨t, mem, image, on_top ▸ backed.consistent.height_le t mem⟩
      exact marked.addPayment mem (earned.mono fun t ht _ => same.exists_unspent_eq ht)
  · exact marked

/-- The single transaction of a scan is one that the daemon has served. -/
theorem History.Backed.changes (derivable : ∀ key secret, KeyImage.ofKeys S key secret ≠ .ok .null)
    {tx : Transaction} (mem : served tx) {h h' : History} (backed : Backed S account served h)
    (changes : Changes S [(tx.hash S, tx)] h.height h h') (payments : h'.payments = h.payments) :
    Backed S account served h' := by
  refine backed.grows (changes.consistent_of_single derivable backed.consistent) changes.grows ?_
    payments
  rintro id tx' n ⟨this, -⟩
  obtain ⟨-, rfl⟩ := Prod.mk.inj (List.mem_singleton.mp this)
  exact mem

/-- However the scan of a transaction ends, the payments stay backed. -/
theorem History.Backed.scan (derivable : ∀ key secret, KeyImage.ofKeys S key secret ≠ .ok .null)
    (full : account.keys.spendSecret.isSome) {tx : Transaction} (mem : served tx)
    {s t : Session σ} {r : Except WalletError ScanOutcome} (own : s.wallet.account = account)
    (ends : Ends S env tx (tx.hash S) s.history.height s r t)
    (backed : Backed S account served s.history) : Backed S account served t.history := by
  subst own
  obtain ⟨h', wallet, changes⟩ := ends.changes (List.mem_singleton_self _)
  have at_end : t.history = h' := congrArg Wallet.history wallet
  cases ends with
  | passed unusable core =>
    have ended := congrArg Wallet.history (Session.wallet_of_core core)
    refine backed.changes derivable mem (at_end ▸ changes) ?_
    rw [show t.history = _ from ended]
    rfl
  | stopped ended =>
    refine backed.changes derivable mem (at_end ▸ changes) ?_
    rw [Session.history, ended]
    rfl
  | broke usable owned part ended =>
    refine backed.changes derivable mem (at_end ▸ changes) ?_
    rw [Session.history, ended]
    exact payments_receiveAll _ _
  | @settled o t d own indices completed ended =>
    -- all outputs are taken in before the payment is noted
    have taking : Changes S [(tx.hash S, tx)] s.history.height s.history
        ((brought S s.wallet.account.keys d tx (tx.hash S) s.history.height indices own).foldl
          receive (s.history.forget (tx.hash S))) :=
      changes_brought (List.mem_singleton_self _) s.history
    have took := backed.changes derivable mem taking (payments_receiveAll _ _)
    rw [Session.history, ended]
    exact took.credit full mem completed rfl (congrArg List.length taking.chain_eq) _

/-! ### Calls -/

/-- The account of a wallet never changes, and its payments stay backed. -/
structure Session.Backed (S : Suite) (account : Account) (served : Transaction → Prop)
    (s : Session σ) : Prop where
  own : s.wallet.account = account
  history : s.history.Backed S account served

/-- The steps of a refresh keep the payments backed. -/
theorem maintained_backed (derivable : ∀ key secret, KeyImage.ofKeys S key secret ≠ .ok .null)
    (full : account.keys.spendSecret.isSome) :
    Sync.Maintained S env served (Session.Backed S account served) where
  idle s t same _ _ := by
    rintro ⟨own, backed⟩
    exact ⟨by rw [same]; exact own, by rw [Session.history, same]; exact backed⟩
  scan {tx s t r} mem ends _ _ := by
    rintro ⟨own, backed⟩
    -- only scanning can add outputs or payments
    obtain ⟨h', wallet, -⟩ := ends.changes (List.mem_singleton_self _)
    exact ⟨by rw [wallet]; exact own, backed.scan derivable full mem own ends⟩
  chain length := by
    rintro ⟨own, backed⟩
    exact ⟨own, backed.withChain length⟩
  cut {s n} _ := by
    rintro ⟨own, backed⟩
    exact ⟨own, backed.detach n⟩

/-- A call keeps the payments backed, however it ends. -/
theorem Call.backed (derivable : ∀ key secret, KeyImage.ofKeys S key secret ≠ .ok .null)
    (full : account.keys.spendSecret.isSome) (serves : env.Serves S served) (call : Call)
    {s : Session σ} (backed : s.Backed S account served) :
    (exec (call.run S env) s).2.Backed S account served := by
  cases call with
  | refresh | refreshFrom | refreshFromLocalChain | refreshUntil =>
    rw [run, exec_discard]
    exact (maintained_backed derivable full).pull _ serves _ s backed
  | detach height => exact ⟨backed.own, backed.history.detach height⟩
  | assumeScanned height =>
    refine ⟨backed.own, backed.history.withChain ?_⟩
    simp [History.height, Session.history]
  | send pending =>
    rw [run, exec_discard]
    rcases exec_send_cases env pending s with ⟨e, env', failed⟩ | ⟨now, env', -, -, sent⟩
    · rw [failed]
      exact ⟨backed.own, backed.history⟩
    · -- sending marks outputs and touches no payment
      obtain ⟨same, payments⟩ := sameOutputs_markSent s.history pending now
      rw [sent]
      exact ⟨backed.own, backed.history.sameOutputs same payments⟩

/-- A new wallet has no payments. -/
theorem backed_create {config : Config} {s : Session σ}
    (created : Wallet.create account config = .ok s.wallet) : s.Backed S account served := by
  have consistent : s.history.Consistent S := consistent_create created
  obtain ⟨chain, -, new⟩ := eq_of_create created
  have payments : s.history.payments = ∅ := by rw [Session.history, new]
  have transfers : s.history.transfers = [] := by rw [Session.history, new]
  refine ⟨by rw [new], consistent, ?_, fun id => ?_, fun id p hp => ?_⟩
  · simp [transfers]
  · simp [paymentsOf, payments]
  · simp [paymentsOf, payments] at hp

/-- The payments of a full account stay backed, whatever the calls and the daemon do. -/
theorem backed_afterCalls (derivable : ∀ key secret, KeyImage.ofKeys S key secret ≠ .ok .null)
    (full : account.keys.spendSecret.isSome) (serves : env.Serves S served) (calls : List Call)
    {s : Session σ} (backed : s.Backed S account served) :
    (afterCalls S env calls s).Backed S account served :=
  afterCalls_holds (fun call _ _ backed => call.backed derivable full serves backed) backed

/-! ### The sum behind a payment -/

/-- What the outputs of a transaction at some positions are worth. -/
def worthAt (tx : Transaction) (positions : List Nat) : Nat :=
  exactSum (positions.map fun i => (tx.outputs[i]?.map TxOut.amount).getD 0)

/-- The positions of the own outputs of a transaction whose key image a transfer of another output
has. -/
def borrowed (S : Suite) (account : Account) (h : History) (tx : Transaction) : List Nat :=
  (owned S account tx).filter fun i => h.transfers.any fun t =>
    imageAt? S account tx i = some t.keyImage ∧ ¬ (t.txHash = tx.hash S ∧ t.outputIndex = i)

/-- No position is owned twice. -/
theorem nodup_owned (tx : Transaction) : (owned S account tx).Nodup := by
  unfold owned
  rcases derivation? S account.keys (Extra.parse tx.extra).1 with - | d
  · exact .nil
  · show (List.map Prod.snd (List.filter _ _)).Nodup
    refine List.Nodup.sublist (List.filter_sublist.map _) ?_
    rw [List.zipIdx_map_snd]
    exact List.nodup_range'

/-- Fewer positions are worth less. -/
theorem worthAt_le_of_subset (tx : Transaction) {few many : List Nat} (nodup : few.Nodup)
    (sub : few ⊆ many) : worthAt tx few ≤ worthAt tx many := by
  obtain ⟨part, perm, sublist⟩ := List.subperm_of_subset nodup sub
  unfold worthAt
  rw [← exactSum_perm (perm.map _)]
  exact ((sublist.map _).map _).sum_le_sum fun _ _ => Nat.zero_le _

/-- What a transaction pays an account is what its own outputs are worth. -/
theorem ownedSum_eq (tx : Transaction) :
    ownedSum S account tx = worthAt tx (owned S account tx) := by
  unfold ownedSum worthAt exactSum
  rw [List.map_map]
  rfl

/-- The own outputs of a transaction are worth what its transfers and its borrowed outputs are. -/
theorem ownedSum_le {h : History} (tx : Transaction)
    (held : ∀ i ∈ owned S account tx, ∃ t ∈ h.transfers,
      imageAt? S account tx i = some t.keyImage)
    (own : ∀ t ∈ h.transfers, t.txHash = tx.hash S → t.tx = tx) :
    ownedSum S account tx ≤
      exactSum ((h.transfers.filter fun t => t.txHash = tx.hash S).map Transfer.amount) +
        worthAt tx (borrowed S account h tx) := by
  let lent : Nat → Bool := fun i => h.transfers.any fun t =>
    imageAt? S account tx i = some t.keyImage ∧ ¬ (t.txHash = tx.hash S ∧ t.outputIndex = i)
  let mine := h.transfers.filter fun t => t.txHash = tx.hash S
  have split : ownedSum S account tx =
      worthAt tx ((owned S account tx).filter fun i => !lent i) +
        worthAt tx (borrowed S account h tx) := by
    have parts := List.filter_append_perm (fun i => !lent i) (owned S account tx)
    have total := exactSum_perm (parts.map fun i => (tx.outputs[i]?.map TxOut.amount).getD 0)
    rw [List.map_append, exactSum_append] at total
    simp only [Bool.not_not] at total
    rw [ownedSum_eq, worthAt, ← total]
    rfl
  -- an own output that is not borrowed is a transfer of its own
  have sub : ((owned S account tx).filter fun i => !lent i) ⊆ mine.map Transfer.outputIndex := by
    intro i mem
    obtain ⟨mem, kept⟩ := List.mem_filter.mp mem
    obtain ⟨t, ht, image⟩ := held i mem
    have here : t.txHash = tx.hash S ∧ t.outputIndex = i := by
      by_contra other
      have borrows : lent i = true := List.any_eq_true.mpr ⟨t, ht, decide_eq_true ⟨image, other⟩⟩
      simp [borrows] at kept
    exact List.mem_map.mpr ⟨t, List.mem_filter.mpr ⟨ht, by simpa using here.1⟩, here.2⟩
  have covered := worthAt_le_of_subset tx ((nodup_owned tx).filter _) sub
  have amounts : worthAt tx (mine.map Transfer.outputIndex) =
      exactSum (mine.map Transfer.amount) := by
    unfold worthAt
    rw [List.map_map]
    congr 1
    refine List.map_congr_left fun t ht => ?_
    obtain ⟨ht, by_tx⟩ := List.mem_filter.mp ht
    have same := own t ht (by simpa using by_tx)
    show (tx.outputs[t.outputIndex]?.map TxOut.amount).getD 0 = t.amount
    rw [← same]
    rfl
  show _ ≤ exactSum (mine.map Transfer.amount) + _
  omega

end

/-- A wallet of a full account has learned something from any refreshes, cuts and sendings, of a
daemon that never serves two transactions with one hash. Then a transaction has at most one payment,
under at most one id, and the amount is at most the sum of the transfers of the transaction and of
its borrowed outputs. If none is borrowed it is at most the sum of the transfers. -/
theorem payments_backed (S : Suite) {σ : Type} (env : Environment σ) (served : Transaction → Prop)
    (derivable : ∀ key secret, KeyImage.ofKeys S key secret ≠ .ok .null)
    (serves : env.Serves S served)
    (no_collision : ∀ tx tx', served tx → served tx' → tx.hash S = tx'.hash S → tx = tx')
    (account : Account) (config : Config) (calls : List Call) (s : Session σ)
    (created : Wallet.create account config = .ok s.wallet) (full : account.isViewOnly = false) :
    let h := (afterCalls S env calls s).history
    (∀ id id' p p', p ∈ h.paymentsOf id → p' ∈ h.paymentsOf id' → p.txHash = p'.txHash →
        id = id' ∧ p = p') ∧
      (∀ id, (h.paymentsOf id).Nodup) ∧
      ∀ id, ∀ p ∈ h.paymentsOf id, ∃ tx, served tx ∧ p.txHash = tx.hash S ∧
        p.amount.toNat ≤
          exactSum ((h.transfers.filter fun t => t.txHash = p.txHash).map Transfer.amount) +
            worthAt tx (borrowed S account h tx) := by
  intro h
  have spendable : account.keys.spendSecret.isSome := by
    rcases secret : account.keys.spendSecret with - | spend
    · simp [Account.isViewOnly, secret] at full
    · rfl
  have backed : h.Backed S account served :=
    (backed_afterCalls derivable spendable serves calls (backed_create created)).history
  refine ⟨?_, fun id => List.Nodup.of_map _ (backed.nodup id), ?_⟩
  · intro id id' p p' mem mem' same
    obtain ⟨tx, served, earned⟩ := backed.earned id p mem
    obtain ⟨tx', served', earned'⟩ := backed.earned id' p' mem'
    -- the hash tells the transaction, and the transaction tells the id
    have one : tx = tx' := no_collision tx tx' served served'
      (earned.txHash_eq.symm.trans (same.trans earned'.txHash_eq))
    subst one
    have under : some id = some id' := earned.id_eq.symm.trans earned'.id_eq
    obtain rfl := Option.some.inj under
    exact ⟨rfl, List.inj_on_of_nodup_map (backed.nodup id) mem mem' same⟩
  · intro id p mem
    obtain ⟨tx, served, earned⟩ := backed.earned id p mem
    refine ⟨tx, served, earned.txHash_eq, Nat.le_trans earned.amount_le ?_⟩
    rw [earned.txHash_eq]
    refine ownedSum_le tx (fun i mem => ?_) fun t ht by_tx => ?_
    · obtain ⟨t, ht, image, -⟩ := earned.held i mem
      exact ⟨t, ht, image⟩
    · have hash := backed.consistent.txHash_eq t ht
      exact no_collision _ _ (backed.genuine t ht) served (hash.symm.trans by_tx)

/-! ### A key that is paid twice

A block pays the account a reward, and then the same amount again to the same one-time key, under a
payment id. -/

namespace Reused

open SmallSuite Script

/-- The payment id. -/
def id : Hash := ⟨.ofNat 7⟩

/-- A payment under that id, to the one-time key of the first output that a sender pays. -/
def paymentUnder (sender : Nat) (amount : UInt64) : Transaction :=
  ⟨⟨1, 0, [.toKey amount [0] (image 8)], [⟨amount, key sender⟩],
    Extra.encodeKey (.ofPoint .small sender) ++
      (Extra.encodeNonce? (Extra.paymentNonce id)).getD []⟩, []⟩

/-- A block whose reward and whose transaction go to one key. -/
def block : ParsedBlock := SmallSuite.block (payment 3 10 [.generated 0]) [paymentUnder 3 10]

/-- A new wallet, whose daemon will send it that block. -/
def unpaid : Session Script := opened {} ⟨[batch 0 block], [indicesOf [0], indicesOf [1]]⟩

/-- The session in which the block was scanned. -/
def scanned : Session Script :=
  (exec (Sync.addBlock .small environment block 0 none)
    (fetched (Sync.started .localChain unpaid))).2

/-- The wallet after the refresh. -/
def paid : Session Script :=
  scanned.told (.refreshCompleted scanned.summary.blocksFetched scanned.wallet.height)

/-- The refresh succeeds and leaves the wallet with the payment. -/
theorem paid_of_unpaid : ∃ summary,
    exec (Sync.refreshFromLocalChain .small environment) unpaid = (.ok summary, paid) := by
  have legible : Legible .small block := by
    refine legible_block (by decide +kernel) fun tx mem => ?_
    rw [List.mem_singleton.mp mem]
    decide +kernel
  have run : exec (Sync.addBlock .small environment block 0 none)
      (fetched (Sync.started .localChain unpaid)) = (.ok (), scanned) :=
    exec_eq_ok (by decide +kernel)
  have smooth : Sync.Smooth .small environment none .localChain unpaid paid :=
    smooth_pull legible rfl run (by decide +kernel)
  exact smooth.succeeds

/-- A chain of that block and another one, which pays 6 to another key under the same id. -/
def server : ChainServer := { blocks := [block, SmallSuite.block (coinbase 1) [paymentUnder 4 6]] }

/-- A new wallet, whose daemon knows that chain. -/
def watching : Session Unit := { env := (), wallet := ⟨SmallSuite.account, {}, {}⟩ }

end Reused

open Reused in
/-- No two transactions of the chain have one hash. -/
theorem payments_backed_server :
    (∀ key secret, KeyImage.ofKeys .small key secret ≠ .ok .null) ∧
      server.environment.Serves .small (fun tx => tx ∈ server.transactions .small) ∧
      (∀ tx tx', tx ∈ server.transactions .small → tx' ∈ server.transactions .small →
        tx.hash .small = tx'.hash .small → tx = tx') ∧
      Wallet.create SmallSuite.account {} = .ok watching.wallet ∧
      SmallSuite.account.isViewOnly = false ∧
      let h :=
        (afterCalls .small server.environment [.refresh, .detach 1, .refresh] watching).history
      (∀ id, (h.paymentsOf id).Nodup) ∧
        ∀ id, ∀ p ∈ h.paymentsOf id, ∃ tx ∈ server.transactions .small, p.txHash = tx.hash .small ∧
          p.amount.toNat ≤
            exactSum ((h.transfers.filter fun t => t.txHash = p.txHash).map Transfer.amount) +
              worthAt tx (borrowed .small SmallSuite.account h tx) := by
  have legible : ∀ b ∈ server.blocks, Script.Legible .small b := by
    have readable : ∀ tx ∈ [paymentUnder 3 10, paymentUnder 4 6],
        (Transaction.ofBlob tx.toBlob).toOption = some tx := by decide +kernel
    rw [List.forall_mem_cons, List.forall_mem_singleton] at readable
    rw [server, List.forall_mem_cons, List.forall_mem_singleton]
    refine ⟨Script.legible_block (by decide +kernel) ?_,
      Script.legible_block (by decide +kernel) ?_⟩
    · rw [List.forall_mem_singleton]
      exact readable.1
    · rw [List.forall_mem_singleton]
      exact readable.2
  -- the two transactions have different hashes, which the kernel computes
  have no_collision : ∀ tx tx', tx ∈ server.transactions .small → tx' ∈ server.transactions .small →
      tx.hash .small = tx'.hash .small → tx = tx' := by
    have nodup : ((server.transactions .small).map (Transaction.hash .small)).Nodup := by
      decide +kernel
    exact fun tx tx' mem mem' same => List.inj_on_of_nodup_map nodup mem mem' same
  have serves := ChainServer.serves legible
  obtain ⟨-, nodup, backed⟩ := payments_backed .small server.environment _
    Suite.small_ofKeys_ne_null serves no_collision SmallSuite.account {}
    [.refresh, .detach 1, .refresh] watching rfl rfl
  exact ⟨Suite.small_ofKeys_ne_null, serves, no_collision, rfl, rfl, nodup, backed⟩

open Reused in
/-- The payment of 10 is noted, but no output of its transaction is recorded. -/
theorem payment_of_reused_key :
    Wallet.create SmallSuite.account {} = .ok unpaid.wallet ∧
      SmallSuite.account.verify .small = true ∧ SmallSuite.account.isViewOnly = false ∧
      (∃ summary, exec (Sync.refreshFromLocalChain .small Script.environment) unpaid =
        (.ok summary, paid)) ∧
      ∃ p ∈ paid.history.paymentsOf Reused.id, p.amount = 10 ∧
        paid.history.transfers.filter (fun t => t.txHash = p.txHash) = [] := by
  refine ⟨rfl, by decide +kernel, rfl, paid_of_unpaid, ?_⟩
  decide +kernel

end RingWallet
