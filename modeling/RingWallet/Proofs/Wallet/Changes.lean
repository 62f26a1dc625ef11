import Mathlib.Logic.Relation
import RingWallet.Proofs.Wallet.Scan
import RingWallet.Wallet.Sync

/-!
# What scanning changes

However the scan of a block ends, what it did to the history is a sequence of four kinds of changes
(`Scan.Change`): it forgets an unconfirmed transaction, records an own output, marks an output as
spent, or notes a payment. `Sync.changes_scanAll` says so for the transactions of a block, and
`Sync.changes_of_addBlock_ok` and `Sync.changes_of_addBlock_error` for a block that was added and
for one that failed. What holds of a history after a scan is then shown for one change at a time:

* `Scan.Changes.consistent`: a consistent history stays consistent;
* `Scan.Changes.grows`: nothing that was known is lost, except that transactions of the block are
  no longer unconfirmed, and what is new comes from them and stands at the height of the block.
-/

set_option autoImplicit false

namespace RingWallet

namespace Scan

open History Relation

variable {S : Suite}

/-- An own output that a scan of some transactions at a height can find. -/
structure Found (S : Suite) (txs : List (Hash × Transaction)) (height : Nat) (t : Transfer)
    (image : Option KeyImage) : Prop where
  mem : (t.txHash, t.tx) ∈ txs
  height_eq : t.blockHeight = height
  index_lt : t.outputIndex < t.tx.outputs.length
  keyImage_eq : t.keyImage = image.getD .null
  derived : ∀ k, image = some k → ∃ key secret, KeyImage.ofKeys S key secret = .ok k

/-- One change that the scan of some transactions at a height makes. -/
inductive Change (S : Suite) (txs : List (Hash × Transaction)) (height : Nat) :
    History → History → Prop
  | forget (h : History) {txHash : Hash} {tx : Transaction} (mem : (txHash, tx) ∈ txs) :
    Change S txs height h (h.forget txHash)
  | record (h : History) {t : Transfer} {image : Option KeyImage}
    (found : Found S txs height t image)
    (new : h.isRecorded image t.txHash t.outputIndex = false) :
    Change S txs height h (h.record t image)
  | spend (h : History) {txHash : Hash} {tx : Transaction} {image : KeyImage}
    (mem : (txHash, tx) ∈ txs) (input : image ∈ tx.inputs.filterMap TxIn.keyImage?) :
    Change S txs height h (h.spend image)
  | pay (h : History) (id : Hash) {tx : Transaction} {payment : Payment}
    (mem : (payment.txHash, tx) ∈ txs) (at_height : payment.blockHeight = height) :
    Change S txs height h (h.addPayment id payment)

/-- Changes, one after the other. -/
abbrev Changes (S : Suite) (txs : List (Hash × Transaction)) (height : Nat) :
    History → History → Prop := ReflTransGen (Change S txs height)

variable {txs : List (Hash × Transaction)} {height : Nat} {h h' : History}

/-! ### One change -/

/-- Recording does not touch the chain; neither does anything else. -/
theorem Change.chain_eq (change : Change S txs height h h') : h'.chain = h.chain := by
  cases change with
  | forget mem => rfl
  | record found new => rfl
  | spend mem input => exact (sameOutputs_spend h _).chain
  | pay id mem at_height => exact (sameOutputs_addPayment h id _).chain

/-- The index keeps agreeing with the transfers, if no key image that can be computed is null. -/
theorem Change.indexed (derivable : ∀ key secret, KeyImage.ofKeys S key secret ≠ .ok .null)
    (change : Change S txs height h h') (hi : h.Indexed (· ≠ .null)) :
    h'.Indexed (· ≠ .null) := by
  cases change with
  | forget mem => exact hi
  | spend mem input =>
    exact hi.congr (sameOutputs_spend h _).keyImages (sameOutputs_spend h _).images
  | pay id mem at_height =>
    exact hi.congr (sameOutputs_addPayment h id _).keyImages (sameOutputs_addPayment h id _).images
  -- only a recorded output can bring an entry, and its image was derived, so that it is not null
  | @record t image found new =>
    cases image with
    | none => exact hi.record_none (by simpa using found.keyImage_eq)
    | some k =>
      obtain ⟨key, secret, eq⟩ := found.derived k rfl
      exact hi.record_some (fun null => derivable key secret (null ▸ eq)) found.keyImage_eq new

/-- A change on top of the chain keeps a history consistent, if no key image that can be computed
is null. -/
theorem Change.consistent (derivable : ∀ key secret, KeyImage.ofKeys S key secret ≠ .ok .null)
    (genuine : ∀ txHash tx, (txHash, tx) ∈ txs → txHash = tx.hash S)
    (change : Change S txs height h h') (on_top : h.height = height) (hc : h.Consistent S) :
    h'.Consistent S := by
  cases change with
  | forget mem => exact hc.sameOutputs (sameOutputs_forget h _)
  | spend mem input => exact hc.sameOutputs (sameOutputs_spend h _)
  | pay id mem at_height => exact hc.sameOutputs (sameOutputs_addPayment h id _)
  | record found new =>
    refine hc.record (found.height_eq.trans on_top.symm) (genuine _ _ found.mem) found.index_lt
      found.keyImage_eq ?_ new
    rintro k hk rfl
    obtain ⟨key, secret, eq⟩ := found.derived _ hk
    exact derivable key secret eq

/-! ### Growing -/

/-- What the scan of transactions does to a history `h`, where `seen` tells the transactions with
their hashes and the heights at which they are scanned. Nothing is lost except that some of these
transactions are no longer unconfirmed, what is new comes from them, and outputs are only marked as
spent for their inputs. -/
structure Grows (seen : Hash → Transaction → Nat → Prop) (h h' : History) : Prop where
  kept : ∀ (i : Nat) (t : Transfer), h.transfers[i]? = some t → ∃ t' : Transfer,
    h'.transfers[i]? = some t' ∧ t'.unspent = t.unspent ∧ (t'.spent = t.spent ∨
      t'.spent = true ∧ ∃ id tx n image, seen id tx n ∧
        image ∈ tx.inputs.filterMap TxIn.keyImage? ∧ h'.keyImages[image]? = some i)
  added : ∀ (i : Nat) (t' : Transfer), h'.transfers[i]? = some t' → h.transfers.length ≤ i →
    seen t'.txHash t'.tx t'.blockHeight
  keyImages : ∀ (image : KeyImage) (i : Nat), h.keyImages[image]? = some i →
    h'.keyImages[image]? = some i
  keyImages_added : ∀ (image : KeyImage) (i : Nat), h'.keyImages[image]? = some i →
    h.keyImages[image]? = some i ∨ h.transfers.length ≤ i
  payments : ∀ id : Hash, ∃ new, h'.paymentsOf id = h.paymentsOf id ++ new ∧
    ∀ p ∈ new, ∃ tx, seen p.txHash tx p.blockHeight
  unconfirmed : ∀ id : Hash, h'.unconfirmed[id]? = h.unconfirmed[id]? ∨
    (∃ tx n, seen id tx n) ∧ h'.unconfirmed[id]? = none

variable {seen : Hash → Transaction → Nat → Prop}

/-- A history that stays as it is has grown by nothing. -/
theorem Grows.refl (h : History) : Grows seen h h where
  kept _ t ht := ⟨t, ht, rfl, .inl rfl⟩
  added i t' ht hi := by
    have := (List.getElem?_eq_some_iff.mp ht).1
    omega
  keyImages _ _ found := found
  keyImages_added _ _ found := .inl found
  payments _ := ⟨[], by simp, by simp⟩
  unconfirmed _ := .inl rfl

/-- Outputs are never lost. -/
theorem Grows.length_le (grows : Grows seen h h') :
    h.transfers.length ≤ h'.transfers.length := by
  rcases last : h.transfers.length with - | i
  · exact Nat.zero_le _
  · have inside : i < h.transfers.length := by omega
    obtain ⟨t', ht', -⟩ := grows.kept i _ (List.getElem?_eq_getElem inside)
    exact (List.getElem?_eq_some_iff.mp ht').1

/-- Growing twice is growing. -/
theorem Grows.trans {h'' : History} (first : Grows seen h h') (second : Grows seen h' h'') :
    Grows seen h h'' where
  kept i t ht := by
    obtain ⟨t', ht', same, spent⟩ := first.kept i t ht
    obtain ⟨t'', ht'', same', spent'⟩ := second.kept i t' ht'
    refine ⟨t'', ht'', same'.trans same, ?_⟩
    -- a mark of the second scan counts, and else the one of the first
    rcases spent' with spent' | marked
    · rcases spent with spent | ⟨marked, id, tx, n, image, by_tx, input, found⟩
      · exact .inl (spent'.trans spent)
      · exact .inr ⟨spent'.trans marked, id, tx, n, image, by_tx, input,
          second.keyImages image i found⟩
    · exact .inr marked
  added i t'' ht'' hi := by
    by_cases hlt : i < h'.transfers.length
    · -- an output that the first scan brought, and that the second one may have marked as spent
      obtain ⟨t', ht'⟩ : ∃ t', h'.transfers[i]? = some t' := ⟨_, List.getElem?_eq_getElem hlt⟩
      obtain ⟨u, hu, same, -⟩ := second.kept i t' ht'
      rw [ht''] at hu
      obtain rfl := Option.some.inj hu
      show seen t''.unspent.txHash t''.unspent.tx t''.unspent.blockHeight
      rw [same]
      exact first.added i t' ht' hi
    · exact second.added i t'' ht'' (Nat.le_of_not_lt hlt)
  keyImages image i found := second.keyImages image i (first.keyImages image i found)
  keyImages_added image i found := by
    rcases second.keyImages_added image i found with found | beyond
    · exact first.keyImages_added image i found
    · exact .inr (Nat.le_trans first.length_le beyond)
  payments id := by
    obtain ⟨new, eq, by_tx⟩ := first.payments id
    obtain ⟨new', eq', by_tx'⟩ := second.payments id
    refine ⟨new ++ new', ?_, ?_⟩
    · rw [eq', eq, List.append_assoc]
    · -- the payments of both scans, one after the other
      intro p hp
      rcases List.mem_append.mp hp with hp | hp
      · exact by_tx p hp
      · exact by_tx' p hp
  unconfirmed id := by
    rcases second.unconfirmed id with same | lost
    · rw [same]
      exact first.unconfirmed id
    · exact .inr lost

/-- A scan of transactions is also one of more transactions. -/
theorem Grows.mono {more : Hash → Transaction → Nat → Prop} (grows : Grows seen h h')
    (sub : ∀ id tx n, seen id tx n → more id tx n) : Grows more h h' where
  kept i t ht := by
    obtain ⟨t', ht', same, spent⟩ := grows.kept i t ht
    refine ⟨t', ht', same, spent.imp id ?_⟩
    rintro ⟨marked, id, tx, n, image, by_tx, input⟩
    exact ⟨marked, id, tx, n, image, sub _ _ _ by_tx, input⟩
  added i t' ht' hi := sub _ _ _ (grows.added i t' ht' hi)
  keyImages := grows.keyImages
  keyImages_added := grows.keyImages_added
  payments id := by
    obtain ⟨new, eq, by_tx⟩ := grows.payments id
    refine ⟨new, eq, fun p hp => ?_⟩
    obtain ⟨tx, by_tx⟩ := by_tx p hp
    exact ⟨tx, sub _ _ _ by_tx⟩
  unconfirmed id := by
    rcases grows.unconfirmed id with same | ⟨⟨tx, n, by_tx⟩, none⟩
    · exact .inl same
    · exact .inr ⟨⟨tx, n, sub _ _ _ by_tx⟩, none⟩

/-- A scan does not depend on the chain. -/
theorem Grows.withChain (grows : Grows seen h h') (chain : List Hash) :
    Grows seen h { h' with chain } := { grows with }

/-- An input marks the output that is indexed under its key image. -/
theorem grows_spend {txHash : Hash} {tx : Transaction} {n : Nat} {image : KeyImage}
    (by_tx : seen txHash tx n) (input : image ∈ tx.inputs.filterMap TxIn.keyImage?) :
    Grows seen h (h.spend image) := by
  unfold History.spend
  -- an image that is not in the index marks nothing
  rcases found : h.keyImages[image]? with - | index
  · exact .refl h
  · refine { Grows.refl h with kept := ?_, added := ?_ }
    · intro i t ht
      refine ⟨if index = i then { t with spent := true } else t, ?_, ?_, ?_⟩
      · simp [spendAt, List.getElem?_modify, ht]
      · split <;> rfl
      · split
        · next here => exact .inr ⟨rfl, txHash, tx, n, image, by_tx, input, here ▸ found⟩
        · exact .inl rfl
    · intro i t' ht' hi
      have := (List.getElem?_eq_some_iff.mp ht').1
      simp [spendAt] at this
      omega

/-- A new output goes behind the others. -/
theorem grows_record {t : Transfer} {image : Option KeyImage}
    (by_tx : seen t.txHash t.tx t.blockHeight)
    (new : h.isRecorded image t.txHash t.outputIndex = false) :
    Grows seen h (h.record t image) := by
  -- the index does not know the image, so that no entry is overwritten
  have unknown (own : KeyImage) (is_own : image = some own) : h.keyImages[own]? = none := by
    have absent : h.keyImages.contains own = false := by
      subst is_own
      exact new
    rw [Std.ExtTreeMap.contains_eq_isSome_getElem?] at absent
    exact Option.isNone_iff_eq_none.mp (Option.isSome_eq_false_iff.mp absent)
  refine { Grows.refl h with kept := ?_, added := ?_, keyImages := ?_, keyImages_added := ?_ }
  · intro i u hu
    have hlt := (List.getElem?_eq_some_iff.mp hu).1
    refine ⟨u, ?_, rfl, .inl rfl⟩
    show (h.transfers ++ [t])[i]? = some u
    rwa [List.getElem?_append_left hlt]
  · intro i u hu hi
    have hu : (h.transfers ++ [t])[i]? = some u := hu
    rw [List.getElem?_append_right hi] at hu
    obtain ⟨-, rfl⟩ : i - h.transfers.length = 0 ∧ t = u := by
      rcases hk : i - h.transfers.length with - | k
      · simpa [hk] using hu
      · simp [hk] at hu
    exact by_tx
  · intro k i hk
    cases image with
    | none => exact hk
    | some own =>
      have other : own ≠ k := by
        rintro rfl
        rw [unknown own rfl] at hk
        cases hk
      show (h.keyImages.insert own h.transfers.length)[k]? = some i
      rw [Std.ExtTreeMap.getElem?_insert, if_neg, hk]
      rwa [Std.LawfulEqOrd.compare_eq_iff_eq]
  · intro k i hk
    cases image with
    | none => exact .inl hk
    | some own =>
      have hk : (h.keyImages.insert own h.transfers.length)[k]? = some i := hk
      rw [Std.ExtTreeMap.getElem?_insert] at hk
      split at hk
      · exact .inr (Nat.le_of_eq (Option.some.inj hk))
      · exact .inl hk

/-- A payment goes behind the others of its id. -/
theorem grows_addPayment {id : Hash} {payment : Payment} {tx : Transaction}
    (by_tx : seen payment.txHash tx payment.blockHeight) :
    Grows seen h (h.addPayment id payment) := by
  unfold History.addPayment
  simp only []
  split
  · exact .refl h
  · refine { Grows.refl h with payments := fun id' => ?_ }
    -- the payment goes to the end of its id's list
    by_cases hid : id' = id
    · subst hid
      refine ⟨[payment], by simp [paymentsOf], ?_⟩
      intro p hp
      rw [List.mem_singleton.mp hp]
      exact ⟨tx, by_tx⟩
    · exact ⟨[], by simp [paymentsOf, Std.ExtTreeMap.getElem?_insert, Ne.symm hid], by simp⟩

/-- The scan of a transaction that was waited for ends the wait. -/
theorem grows_forget {txHash : Hash} {tx : Transaction} {n : Nat} (by_tx : seen txHash tx n) :
    Grows seen h (h.forget txHash) := by
  refine { (Grows.refl h : Grows seen h h) with unconfirmed := fun id => ?_ }
  by_cases hid : id = txHash
  · subst hid
    exact .inr ⟨⟨tx, n, by_tx⟩, by simp [History.forget]⟩
  · left
    simp [History.forget, Std.ExtTreeMap.getElem?_erase, Ne.symm hid]

/-- A change is due to the scanned transactions. -/
theorem Change.grows (change : Change S txs height h h') :
    Grows (fun id tx n => (id, tx) ∈ txs ∧ n = height) h h' := by
  cases change with
  | forget mem => exact grows_forget ⟨mem, rfl⟩
  | record found new => exact grows_record ⟨found.mem, found.height_eq⟩ new
  | spend mem input => exact grows_spend ⟨mem, rfl⟩ input
  | pay id mem at_height => exact grows_addPayment ⟨mem, at_height⟩

/-! ### All changes of a scan -/

/-- Scanned transactions leave the chain to the block that holds them. -/
theorem Changes.chain_eq (changes : Changes S txs height h h') : h'.chain = h.chain := by
  induction changes with
  | refl => rfl
  | tail _ change ih => exact change.chain_eq.trans ih

/-- Scanned transactions keep the index of the key images right. -/
theorem Changes.indexed (derivable : ∀ key secret, KeyImage.ofKeys S key secret ≠ .ok .null)
    (changes : Changes S txs height h h') (hi : h.Indexed (· ≠ .null)) :
    h'.Indexed (· ≠ .null) := by
  induction changes with
  | refl => exact hi
  | tail _ change ih => exact change.indexed derivable ih

/-- Scanned transactions keep the history consistent, if it ends where they are scanned and they
carry their own hashes. -/
theorem Changes.consistent (derivable : ∀ key secret, KeyImage.ofKeys S key secret ≠ .ok .null)
    (genuine : ∀ txHash tx, (txHash, tx) ∈ txs → txHash = tx.hash S)
    (changes : Changes S txs height h h') (on_top : h.height = height) (hc : h.Consistent S) :
    h'.Consistent S := by
  induction changes with
  | refl => exact hc
  | tail before change ih =>
    -- no change touches the chain, so that its end is still where it was
    refine change.consistent derivable genuine ?_ ih
    rw [History.height, Changes.chain_eq before]
    exact on_top

/-- The changes of a single transaction with its hash, on top of the chain. -/
theorem Changes.consistent_of_single
    (derivable : ∀ key secret, KeyImage.ofKeys S key secret ≠ .ok .null) {tx : Transaction}
    (changes : Changes S [(tx.hash S, tx)] h.height h h') (hc : h.Consistent S) :
    h'.Consistent S := by
  refine changes.consistent derivable ?_ rfl hc
  intro txHash tx' mem
  obtain ⟨rfl, rfl⟩ := Prod.mk.inj (List.mem_singleton.mp mem)
  rfl

/-- What scanned transactions do to a history is growing by them. -/
theorem Changes.grows (changes : Changes S txs height h h') :
    Grows (fun id tx n => (id, tx) ∈ txs ∧ n = height) h h' := by
  induction changes with
  | refl => exact .refl h
  | tail _ change ih => exact ih.trans change.grows

/-! ### Every scan is made of changes -/

/-- A receipt of a transaction is an output that was found in it. -/
theorem found_of_mem_receipts {keys : AccountKeys} {d : KeyDerivation} {tx : Transaction}
    {txHash : Hash} {indices : List UInt64} {positions : List Nat} {r : Receipt}
    (mem : (txHash, tx) ∈ txs)
    (hr : r ∈ receipts S keys d tx txHash height indices positions) :
    Found S txs height r.transfer r.image := by
  obtain ⟨index, -, eq⟩ := List.mem_filterMap.mp hr
  obtain ⟨⟨out, globalIndex⟩, hz, eq⟩ := Option.bind_eq_some_iff.mp eq
  obtain ⟨image, hi, rfl⟩ := Option.map_eq_some_iff.mp eq
  have here : tx.outputs[index]? = some out := (List.getElem?_zip_eq_some.mp hz).1
  refine ⟨mem, rfl, (List.getElem?_eq_some_iff.mp here).1, rfl, ?_⟩
  rintro k rfl
  rcases keyImageOf_cases S (Except.toOption_eq_some.mp hi) with ⟨-, ⟨⟩⟩ | known
  obtain ⟨spend, secret, k', -, -, -, derived, ⟨⟩⟩ := known
  exact ⟨out.key, secret, derived⟩

/-- Taking in own outputs that a scan can find is made of changes. -/
theorem changes_receive {done : List Receipt}
    (found : ∀ r ∈ done, Found S txs height r.transfer r.image) (h : History) :
    Changes S txs height h (done.foldl History.receive h) := by
  induction done generalizing h with
  | nil => exact .refl
  | cons r rest ih =>
    rw [List.forall_mem_cons] at found
    rw [List.foldl_cons]
    -- an output that is known already is no change
    by_cases recorded : h.isRecorded r.image r.transfer.txHash r.transfer.outputIndex = true
    · rw [receive_of_recorded recorded]
      exact ih found.2 h
    · rw [receive_of_new recorded]
      exact .head (.record h found.1 (by simpa using recorded)) (ih found.2 _)

/-- Marking the outputs that inputs of a transaction spend is made of changes. -/
theorem changes_spendInputs {txHash : Hash} {tx : Transaction} (mem : (txHash, tx) ∈ txs)
    {inputs : List TxIn} (sub : inputs ⊆ tx.inputs) (h : History) :
    Changes S txs height h (inputs.foldl History.spendInput h) := by
  induction inputs generalizing h with
  | nil => exact .refl
  | cons input rest ih =>
    rw [List.cons_subset] at sub
    rw [List.foldl_cons]
    refine ReflTransGen.trans ?_ (ih sub.2 _)
    unfold spendInput
    rcases known : input.keyImage? with - | image
    · exact .refl
    · exact .single (.spend h mem (List.mem_filterMap.mpr ⟨input, sub.1, known⟩))

/-- Noting the money that a transaction pays under a payment id is a change it may make. -/
theorem changes_credit {txHash : Hash} {tx : Transaction} (mem : (txHash, tx) ∈ txs) (h : History)
    (fields : List ExtraField) (received : UInt64) :
    Changes S txs height h (h.credit tx txHash height fields received) := by
  unfold credit
  split
  · split
    · exact .refl
    · exact .single (.pay h _ mem rfl)
  · exact .refl

section

variable {keys : AccountKeys} {d : KeyDerivation} {tx : Transaction} {txHash : Hash}
  {indices : List UInt64} {own : List Nat}

/-- Taking in what a transaction brings is made of changes. -/
theorem changes_brought (mem : (txHash, tx) ∈ txs) (h : History) :
    Changes S txs height h
      ((brought S keys d tx txHash height indices own).foldl receive (h.forget txHash)) := by
  unfold brought
  refine .head (.forget h mem) (changes_receive ?_ _)
  intro r hr
  split at hr
  · exact found_of_mem_receipts mem hr
  · cases hr

/-- A scan that comes to its end is made of changes. -/
theorem changes_settled (mem : (txHash, tx) ∈ txs) (h : History) :
    Changes S txs height h (settled S keys d tx txHash height indices own h) :=
  (changes_brought mem h).trans
    ((changes_spendInputs mem (List.Subset.refl _) _).trans (changes_credit mem _ _ _))

end

variable {σ : Type} {env : Environment σ}

/-- However the scan of a transaction ends, what it did is made of changes. -/
theorem Ends.changes {tx : Transaction} {txHash : Hash} {s t : Session σ}
    {r : Except WalletError ScanOutcome} (mem : (txHash, tx) ∈ txs)
    (ends : Ends S env tx txHash height s r t) :
    ∃ h', t.wallet = s.wallet.withHistory h' ∧ Changes S txs height s.history h' := by
  have first : Changes S txs height s.history (s.history.forget txHash) := .single (.forget _ mem)
  cases ends with
  | passed unusable core => exact ⟨_, Session.wallet_of_core core, first⟩
  | stopped wallet => exact ⟨_, wallet, first⟩
  | broke usable owned part wallet =>
    refine ⟨_, wallet, first.trans (changes_receive ?_ _)⟩
    exact fun r hr => found_of_mem_receipts mem (part.subset hr)
  | settled completed wallet =>
    exact ⟨_, wallet, changes_settled mem s.history⟩

end Scan

namespace Sync

open Scan WalletM

variable (S : Suite) {σ : Type} (env : Environment σ)

/-- However the scan of some transactions of a block ends, what it did is made of changes. -/
theorem changes_scanAll (height : Nat) (all : List (Hash × Transaction))
    (txs : List (Hash × Transaction)) (sub : txs ⊆ all) (s : Session σ) :
    ∃ h', (exec (scanAll S env height txs) s).2.wallet = s.wallet.withHistory h' ∧
      Changes S all height s.history h' := by
  induction txs generalizing s with
  | nil => exact ⟨s.history, rfl, .refl⟩
  | cons entry rest ih =>
    obtain ⟨txHash, tx⟩ := entry
    rw [List.cons_subset] at sub
    obtain ⟨r, t, run, ends⟩ := exec_transaction S env tx txHash height s
    obtain ⟨h', wallet, changes⟩ := ends.changes sub.1
    rw [scanAll]
    rcases r with e | outcome
    · rw [exec_bind_error _ run]
      exact ⟨h', wallet, changes⟩
    · rw [exec_bind_ok _ run]
      -- whether the summary is written before the next transaction does not matter
      have go_on (u : Session σ) (same : u.wallet = t.wallet) :
          ∃ h', (exec (scanAll S env height rest) u).2.wallet = s.wallet.withHistory h' ∧
            Changes S all height s.history h' := by
        obtain ⟨h'', wallet', changes'⟩ := ih sub.2 u
        rw [Session.history, same, wallet] at changes'
        rw [same, wallet, Wallet.withHistory_withHistory] at wallet'
        exact ⟨h'', wallet', changes.trans changes'⟩
      by_cases received : outcome.received ≠ 0
      · rw [if_pos received, exec_bind_ok _ (exec_modifySummary _ t)]
        exact go_on _ rfl
      · rw [if_neg received]
        exact go_on t rfl

/-- The session after a scanned block was added to the chain. -/
def appended (b : ParsedBlock) (height : Nat) (target : Option Hash) (s : Session σ) : Session σ :=
  let seen := (allTransactions S b).any fun (txHash, _) => some txHash = target
  let h := { s.history with chain := s.history.chain ++ [b.id] }
  ({ s.withHistory h with
    summary := { s.summary with
      targetFound := seen || s.summary.targetFound
      blocksFetched := s.summary.blocksFetched + 1 } } : Session σ).told (.newBlock height b.id)

/-- When a block is appended, its id is all that the wallet learns. -/
theorem core_appended (b : ParsedBlock) (height : Nat) (target : Option Hash) (s : Session σ) :
    (appended S b height target s).core =
      (s.env, s.wallet.withHistory { s.history with chain := s.history.chain ++ [b.id] }) := rfl

/-- Where there is no transaction to wait for, none is found. -/
theorem summary_appended_none (b : ParsedBlock) (height : Nat) (s : Session σ) :
    (appended S b height none s).summary =
      { s.summary with blocksFetched := s.summary.blocksFetched + 1 } := by
  unfold appended
  simp [Session.told]

/-- The scan of a block, if it is young enough. -/
def scanBlock (b : ParsedBlock) (height : Nat) (s : Session σ) :
    Except WalletError Unit × Session σ :=
  if isRelevant s.wallet b.block then exec (scanAll S env height (allTransactions S b)) s
  else (.ok (), s)

/-- A block is added when its scan succeeds. -/
theorem exec_addBlock (b : ParsedBlock) (height : Nat) (target : Option Hash) (s : Session σ) :
    exec (addBlock S env b height target) s = match scanBlock S env b height s with
      | (.ok (), t) => (.ok (), appended S b height target t)
      | (.error e, t) => (.error e, t) := by
  -- what follows the scan cannot fail, and does not depend on whether there was one
  have close (t : Session σ) : exec (do
      if (allTransactions S b).any fun (txHash, _) => some txHash = target then
        WalletM.modifySummary fun s => { s with targetFound := true }
      WalletM.modifyHistory fun h => { h with chain := h.chain ++ [b.id] }
      WalletM.modifySummary fun s => { s with blocksFetched := s.blocksFetched + 1 }
      WalletM.tell (.newBlock height b.id)) t = (.ok (), appended S b height target t) := by
    unfold appended
    rcases (allTransactions S b).any fun (txHash, _) => some txHash = target
    · rfl
    · rfl
  unfold addBlock scanBlock
  rw [exec_bind_ok _ (exec_wallet s)]
  by_cases relevant : isRelevant s.wallet b.block = true
  · simp only [relevant, if_true]
    rw [exec_bind]
    rcases exec (scanAll S env height (allTransactions S b)) s with ⟨e | ⟨⟩, t⟩
    · rfl
    · exact close t
  · simp only [relevant]
    exact close s

/-- However the scan of a block ends, what it did is made of changes at the height of the block. -/
theorem changes_scanBlock (b : ParsedBlock) (height : Nat) (s : Session σ) :
    ∃ h', (scanBlock S env b height s).2.wallet = s.wallet.withHistory h' ∧
      Changes S (allTransactions S b) height s.history h' := by
  unfold scanBlock
  split
  · exact changes_scanAll S env height _ _ (List.Subset.refl _) s
  · exact ⟨s.history, rfl, .refl⟩

variable {S env} {b : ParsedBlock} {height : Nat} {target : Option Hash} {s t : Session σ}

/-- A block that was added was scanned, and its id stands at the end of the chain. -/
theorem changes_of_addBlock_ok (run : exec (addBlock S env b height target) s = (.ok (), t)) :
    ∃ h', Changes S (allTransactions S b) height s.history h' ∧
      t.wallet = s.wallet.withHistory { h' with chain := h'.chain ++ [b.id] } := by
  obtain ⟨h', wallet, changes⟩ := changes_scanBlock S env b height s
  rw [exec_addBlock] at run
  rcases scan : scanBlock S env b height s with ⟨e | ⟨⟩, u⟩
  · rw [scan] at run
    cases run
  · rw [scan] at run wallet
    obtain rfl : appended S b height target u = t := (Prod.mk.inj run).2
    refine ⟨h', changes, ?_⟩
    rw [Session.wallet_of_core (core_appended S b height target u), Session.history, wallet]
    rfl

/-- A block that was added makes the chain one longer. -/
theorem height_of_addBlock (run : exec (addBlock S env b height target) s = (.ok (), t)) :
    t.history.height = s.history.height + 1 := by
  obtain ⟨h', changes, wallet⟩ := changes_of_addBlock_ok run
  rw [Session.history, wallet]
  show (h'.chain ++ [b.id]).length = s.history.chain.length + 1
  rw [changes.chain_eq, List.length_append, List.length_singleton]

/-- A block that failed was scanned in part, and the chain is as it was. -/
theorem changes_of_addBlock_error {e : WalletError}
    (run : exec (addBlock S env b height target) s = (.error e, t)) :
    ∃ h', Changes S (allTransactions S b) height s.history h' ∧
      t.wallet = s.wallet.withHistory h' := by
  obtain ⟨h', wallet, changes⟩ := changes_scanBlock S env b height s
  rw [exec_addBlock] at run
  rcases scan : scanBlock S env b height s with ⟨e' | ⟨⟩, u⟩
  · rw [scan] at run wallet
    obtain rfl : u = t := (Prod.mk.inj run).2
    exact ⟨h', changes, wallet⟩
  · rw [scan] at run
    cases run

end Sync

end RingWallet
