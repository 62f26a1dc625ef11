import Mathlib.Algebra.Order.BigOperators.Group.List
import Mathlib.Algebra.Order.Group.Nat
import RingWallet.Proofs.Support.ChainServer
import RingWallet.Proofs.Wallet.Deeds
import RingWallet.Proofs.Wallet.Paired
import RingWallet.Proofs.Wallet.Replay

/-!
# The view-only wallet of an account

A full wallet tells by the key image whether it has an output already. The view-only wallet of the
same account has no key images: it goes by the hash of the transaction and the position of the
output, and it never learns that an output is spent. As long as the chain tells outputs apart both
ways (`Reading.TellsApart`), the two record the same outputs.

`History.Watched` relates what the two wallets have learned. The scan of a transaction keeps the
relation and brings both wallets the same (`Session.Watched.transaction`), and so does every refresh
(`paired_watched`). `watched_afterCalls` says this of new wallets, and that the view-only one shows
at least the balance of the other.
-/

set_option autoImplicit false

namespace RingWallet

open Reading Scan WalletM

/-- The transfer as a view-only wallet has it: unspent, and without a key image. -/
def Transfer.watched (t : Transfer) : Transfer := { t with spent := false, keyImage := .null }

/-- The hash of a transaction and the position of an output in it tell the own outputs of the served
transactions apart, and so do their key images. -/
structure Reading.TellsApart (S : Suite) (account : Account) (served : Transaction → Prop) :
    Prop where
  of_hash : ∀ tx tx', served tx → served tx' → tx.hash S = tx'.hash S → tx = tx'
  of_image : ∀ tx tx', served tx → served tx' → ∀ i ∈ owned S account tx,
    ∀ j ∈ owned S account tx', imageAt? S account tx i = imageAt? S account tx' j →
    tx = tx' ∧ i = j

/-- The transfer is an own output of a served transaction, with its key image. -/
structure Transfer.Genuine (S : Suite) (account : Account) (served : Transaction → Prop)
    (t : Transfer) : Prop where
  served : served t.tx
  txHash_eq : t.txHash = t.tx.hash S
  owned : t.outputIndex ∈ owned S account t.tx
  image : imageAt? S account t.tx t.outputIndex = some t.keyImage

/-- What the view-only wallet has learned where the full one has learned `h`, payments aside. -/
structure History.Watched (S : Suite) (account : Account) (served : Transaction → Prop)
    (h h' : History) : Prop where
  chain : h'.chain = h.chain
  transfers : h'.transfers = h.transfers.map Transfer.watched
  keyImages : h'.keyImages = ∅
  unconfirmed : h'.unconfirmed = h.unconfirmed
  indexed : h.Indexed (· ≠ .null)
  genuine : ∀ t ∈ h.transfers, t.Genuine S account served

variable {S : Suite} {account : Account} {served : Transaction → Prop}

namespace History

variable {h h' : History}

namespace Watched

/-- Nothing has been learned yet. -/
theorem new (chain : List Hash) :
    History.Watched S account served { chain := chain } { chain := chain } where
  chain := rfl
  transfers := rfl
  keyImages := rfl
  unconfirmed := rfl
  indexed image i := by simp [images]
  genuine := by simp

/-- The two wallets may learn the same ids. -/
theorem withChain (watched : h.Watched S account served h') (ids : List Hash) :
    History.Watched S account served { h with chain := ids } { h' with chain := ids } :=
  ⟨rfl, watched.transfers, watched.keyImages, watched.unconfirmed, watched.indexed,
    watched.genuine⟩

/-- The two wallets do not have to agree on payments. -/
theorem credit (watched : h.Watched S account served h') (tx : Transaction) (txHash : Hash)
    (height : Nat) (fields : List ExtraField) (received received' : UInt64) :
    (h.credit tx txHash height fields received).Watched S account served
      (h'.credit tx txHash height fields received') := by
  obtain ⟨payments, eq⟩ := exists_payments_credit h tx txHash height fields received
  obtain ⟨payments', eq'⟩ := exists_payments_credit h' tx txHash height fields received'
  rw [eq, eq']
  exact ⟨watched.chain, watched.transfers, watched.keyImages, watched.unconfirmed,
    watched.indexed, watched.genuine⟩

/-- The two wallets may forget the same unconfirmed transaction. -/
theorem forget (watched : h.Watched S account served h') (txHash : Hash) :
    (h.forget txHash).Watched S account served (h'.forget txHash) where
  chain := watched.chain
  transfers := watched.transfers
  keyImages := watched.keyImages
  unconfirmed := congrArg (·.erase txHash) watched.unconfirmed
  indexed := watched.indexed
  genuine := watched.genuine

/-- The view-only wallet does not notice that an output is spent. -/
theorem spend (watched : h.Watched S account served h') (image : KeyImage) :
    (h.spend image).Watched S account served h' := by
  have same := sameOutputs_spend h image
  refine ⟨watched.chain.trans same.chain.symm, ?_, watched.keyImages, ?_,
    watched.indexed.congr same.keyImages same.images, ?_⟩
  · -- marking as spent is what the watched transfers leave out
    have marks := congrArg (List.map Transfer.watched) same.transfers
    rw [List.map_map, List.map_map] at marks
    exact watched.transfers.trans marks.symm
  · rw [watched.unconfirmed]
    unfold History.spend
    rcases h.keyImages[image]? with - | i
    · rfl
    · rfl
  · refine same.forall_mem (fun t => ?_) watched.genuine
    exact ⟨fun ⟨a, b, c, d⟩ => ⟨a, b, c, d⟩, fun ⟨a, b, c, d⟩ => ⟨a, b, c, d⟩⟩

/-- Both wallets cut off the same outputs. -/
theorem detach (watched : h.Watched S account served h') (n : Nat) :
    (h.detach n).Watched S account served (h'.detach n) := by
  have kept : (h'.detach n).transfers = (h.detach n).transfers.map Transfer.watched := by
    show h'.transfers.takeWhile _ = (h.transfers.takeWhile _).map Transfer.watched
    rw [watched.transfers, List.takeWhile_map]
    rfl
  refine ⟨congrArg (List.take n) watched.chain, kept, ?_, watched.unconfirmed,
    watched.indexed.detach n, fun t mem => ?_⟩
  · -- there is nothing to take out of an empty index
    apply Std.ExtTreeMap.ext_getElem?
    intro image
    rw [getElem?_keyImages_detach, watched.keyImages]
    split
    · exact Std.ExtTreeMap.getElem?_empty.symm
    · rfl
  · exact watched.genuine t ((List.takeWhile_prefix _).subset mem)

/-- The two wallets agree on whether an own output is recorded. -/
theorem isRecorded_eq (apart : TellsApart S account served)
    (watched : h.Watched S account served h') {tx : Transaction} (mem : served tx)
    {i : Nat} (own : i ∈ owned S account tx) {k : KeyImage}
    (image : imageAt? S account tx i = some k) (present : k ≠ .null) :
    h'.isRecorded none (tx.hash S) i = h.isRecorded (some k) (tx.hash S) i := by
  rw [Bool.eq_iff_iff]
  -- the one wallet looks the output up by its image, the other by its place
  show (h'.transfers.any _) = true ↔ h.keyImages.contains k = true
  rw [watched.indexed.contains_iff present, watched.transfers, List.any_map, List.any_eq_true,
    images, List.mem_map]
  refine exists_congr fun t => and_congr_right fun recorded => ?_
  have genuine := watched.genuine t recorded
  show (decide (t.txHash = tx.hash S) && decide (t.outputIndex = i)) = true ↔ t.keyImage = k
  rw [Bool.and_eq_true, decide_eq_true_eq, decide_eq_true_eq, genuine.txHash_eq]
  constructor
  · -- the same hash is the same transaction, and so the same output with the same image
    rintro ⟨hash, index⟩
    have same := apart.of_hash _ _ genuine.served mem hash
    have own_image := genuine.image
    rw [same, index, image] at own_image
    exact (Option.some.inj own_image).symm
  · -- the same image is the same output, and so in the same place
    intro eq
    obtain ⟨same, index⟩ := apart.of_image _ _ genuine.served mem _ genuine.owned _ own
      (by rw [genuine.image, image, eq])
    exact ⟨congrArg (Transaction.hash S) same, index⟩

/-- An own output that is new to both wallets. -/
theorem record (watched : h.Watched S account served h') {t : Transfer}
    (genuine : t.Genuine S account served)
    (present : t.keyImage ≠ .null) (new : h.keyImages.contains t.keyImage = false) :
    (h.record t (some t.keyImage)).Watched S account served (h'.record t.watched none) where
  chain := watched.chain
  transfers := by
    -- the key image is new, so the index of the one wallet grows and the other stays empty
    show h'.transfers ++ [t.watched] = (h.transfers ++ [t]).map Transfer.watched
    rw [watched.transfers, List.map_append, List.map_singleton]
  keyImages := watched.keyImages
  unconfirmed := watched.unconfirmed
  indexed := watched.indexed.record_some present rfl new
  genuine u mem := by
    rcases List.mem_append.mp mem with old | new
    · exact watched.genuine u old
    · rw [List.mem_singleton.mp new]
      exact genuine

end Watched

end History

/-! ### Scans -/

/-- The session of a full wallet and that of the view-only one, in the same environment and with the
same handlers, which do not stop a refresh because an output is spent. -/
structure Session.Watched (S : Suite) (account : Account) (served : Transaction → Prop) {σ : Type}
    (s t : Session σ) : Prop where
  env : t.env = s.env
  own : s.wallet.account = account
  viewOnly : t.wallet.account = account.toViewOnly
  config : t.wallet.config = s.wallet.config
  history : s.history.Watched S account served t.history
  handlers : t.handlers = s.handlers
  unstopped : ∀ height txHash amount,
    EventHandler.anyStops s.handlers (.moneySpent height txHash amount) = false
  stop : t.stop = s.stop
  summary : t.summary = s.summary

/-- The key image that a full account computes for an output. -/
theorem exists_image (derivable : ∀ key secret, KeyImage.ofKeys S key secret ≠ .ok .null)
    (full : account.isViewOnly = false) {tx : Transaction} {d : KeyDerivation}
    (usable : derivation? S account.keys (Extra.parse tx.extra).1 = some d) {i : Nat} {out : TxOut}
    (here : tx.outputs[i]? = some out)
    (computable : ∃ image, keyImageOf S account.keys d i out.key = .ok image) :
    ∃ k, keyImageOf S account.keys d i out.key = .ok (some k) ∧
      imageAt? S account tx i = some k ∧ k ≠ .null := by
  obtain ⟨image, computed⟩ := computable
  rcases keyImageOf_cases S computed with ⟨none, -⟩ | ⟨_, _, k, -, -, -, derived, rfl⟩
  · rw [Account.isViewOnly, none] at full
    cases full
  · refine ⟨k, computed, imageAt?_of_keyImageOf usable here computed, ?_⟩
    rintro rfl
    exact derivable _ _ derived

namespace Session.Watched

variable {σ : Type} {s t : Session σ}

/-- The two wallets go through the same batches. -/
theorem abreast (watched : s.Watched S account served t) : s.Abreast t where
  env := watched.env
  createTime := by rw [watched.own, watched.viewOnly]; rfl
  config := watched.config
  chain := watched.history.chain
  stop := watched.stop
  summary := watched.summary

/-- The environment may go on for both. -/
theorem withEnv (watched : s.Watched S account served t) (env : σ) :
    Session.Watched S account served { s with env } { t with env } :=
  { watched with env := rfl }

/-- The histories may be replaced by others that belong together. -/
theorem withHistory (watched : s.Watched S account served t) {h h' : History}
    (history : h.Watched S account served h') :
    (s.withHistory h).Watched S account served (t.withHistory h') :=
  { watched with history }

/-- The same event may be told to both. -/
theorem told (watched : s.Watched S account served t) (e : Event) :
    (s.told e).Watched S account served (t.told e) :=
  { watched with
    stop := by
      show (t.stop || EventHandler.anyStops t.handlers e) =
        (s.stop || EventHandler.anyStops s.handlers e)
      rw [watched.stop, watched.handlers] }

/-- Only the full wallet notices that an output is spent. -/
theorem spent (watched : s.Watched S account served t) (image : KeyImage) (height : Nat)
    (txHash : Hash) (amount : UInt64) :
    ((s.withHistory (s.history.spend image)).told
      (.moneySpent height txHash amount)).Watched S account served t :=
  { watched with
    history := watched.history.spend image
    stop := by
      show t.stop = (s.stop || EventHandler.anyStops s.handlers (.moneySpent height txHash amount))
      rw [watched.unstopped, Bool.or_false, watched.stop] }

/-- The view-only wallet finds no own output that an input spends. -/
theorem recordSpends (height : Nat) (txHash : Hash) (inputs : List TxIn) (spent spent' : UInt64)
    (watched : s.Watched S account served t) :
    Coupled (Session.Watched S account served) (fun _ _ => True)
      (exec (recordSpends txHash height inputs spent) s)
      (exec (recordSpends txHash height inputs spent') t) := by
  induction inputs generalizing spent s with
  | nil => exact .succeeded trivial watched
  | cons input rest ih =>
    have nothing : (input.keyImage?.bind fun image =>
        (t.history.transferOf? image).map (image, ·)) = none := by
      rw [Option.bind_eq_none_iff]
      intro image _
      rw [History.transferOf?, watched.history.keyImages, Std.ExtTreeMap.getElem?_empty]
      rfl
    rw [Scan.recordSpends, Scan.recordSpends, exec_bind_ok _ (exec_history s),
      exec_bind_ok _ (exec_history t), nothing]
    simp only []
    -- the view-only wallet stands still while the full one marks what is spent
    split
    · exact ih spent watched
    · next image u found =>
      rw [exec_bind_ok _ (exec_modifyHistory _ s), exec_bind_ok _ (exec_tell _ _)]
      exact ih _ (watched.spent image height txHash u.amount)

/-- What a scan does after the own outputs. -/
theorem close (height : Nat) (tx : Transaction) (txHash : Hash) (own : List Nat) (received : UInt64)
    (watched : s.Watched S account served t) :
    Coupled (Session.Watched S account served) (fun o o' => o'.received = o.received)
      (exec (close tx txHash height own received) s)
      (exec (close tx txHash height own received) t) := by
  unfold Scan.close
  refine (watched.recordSpends height txHash tx.inputs 0 0).bind
    fun spent spent' u v _ _ after => ?_
  rw [exec_bind_ok _ (exec_recordPayment _ _ _ _ _ u),
    exec_bind_ok _ (exec_recordPayment _ _ _ _ _ v)]
  exact .succeeded rfl (after.withHistory (after.history.credit tx txHash height _ _ _))

/-- Both ask for the same indices. -/
theorem fetchIndices (env : Environment σ) (tx : Transaction) (txHash : Hash)
    (watched : s.Watched S account served t) :
    Coupled (Session.Watched S account served) Eq (exec (fetchIndices env tx txHash) s)
      (exec (fetchIndices env tx txHash) t) := by
  unfold Scan.fetchIndices
  refine (coupled_ask watched.env fun _ => watched.withEnv _).bind
    fun reply _ u v _ same after => ?_
  subst same
  refine (coupled_checkStatus _ _ after).bind fun _ _ u v _ _ after => ?_
  split
  · exact .failed after
  · exact .succeeded rfl after

section

variable (derivable : ∀ key secret, KeyImage.ofKeys S key secret ≠ .ok .null)
  (apart : TellsApart S account served) (full : account.isViewOnly = false) {tx : Transaction}
  (mem : served tx) (height : Nat) {d : KeyDerivation}

include derivable apart full mem

/-- Both record the same own outputs of a transaction. -/
theorem recordOutputs (usable : derivation? S account.keys (Extra.parse tx.extra).1 = some d)
    (indices : List UInt64) {positions : List Nat}
    (own : ∀ i ∈ positions, i ∈ owned S account tx)
    (computable : Derivable S account.keys d tx.outputs positions) (received : UInt64)
    (watched : s.Watched S account served t) :
    Coupled (Session.Watched S account served) Eq
      (exec (recordOutputs S tx (tx.hash S) height d indices positions received) s)
      (exec (recordOutputs S tx (tx.hash S) height d indices positions received) t) := by
  induction positions generalizing received s t with
  | nil => exact .succeeded rfl watched
  | cons index rest ih =>
    rw [List.forall_mem_cons] at own
    have later : Derivable S account.keys d tx.outputs rest := fun i mem =>
      computable i (List.mem_cons_of_mem index mem)
    rw [Scan.recordOutputs]
    split
    · next out globalIndex place =>
      have here : tx.outputs[index]? = some out := (List.getElem?_zip_eq_some.mp place).1
      obtain ⟨k, computed, image, present⟩ := exists_image derivable full usable here
        (computable index List.mem_cons_self out here)
      -- the full wallet knows the key image of the output, and the other one has none
      have known : exec (orFail id (keyImageOf S s.wallet.account.keys d index out.key)) s =
          (.ok (some k), s) := by
        rw [exec_orFail, watched.own, computed]
        rfl
      have unknown : exec (orFail id (keyImageOf S t.wallet.account.keys d index out.key)) t =
          (.ok none, t) := by
        rw [exec_orFail, watched.viewOnly]
        rfl
      have same : t.wallet.history.isRecorded none (tx.hash S) index =
          s.wallet.history.isRecorded (some k) (tx.hash S) index :=
        watched.history.isRecorded_eq apart mem own.1 image present
      rw [exec_bind_ok _ (exec_wallet s), exec_bind_ok _ known, exec_bind_ok _ (exec_wallet t),
        exec_bind_ok _ unknown, same]
      -- both skip an output that is recorded already, or both record it and tell of it
      split
      · exact ih own.2 later received watched
      · next new =>
        rw [exec_bind_ok _ (exec_modifyHistory _ s), exec_bind_ok _ (exec_tell _ _),
          exec_bind_ok _ (exec_modifyHistory _ t), exec_bind_ok _ (exec_tell _ _)]
        let found : Transfer :=
          { blockHeight := height, tx, txHash := tx.hash S, outputIndex := index, globalIndex
            spent := false, keyImage := k }
        have genuine : found.Genuine S account served := ⟨mem, rfl, own.1, image⟩
        have recorded := watched.history.record genuine present (Bool.eq_false_iff.mpr new)
        exact ih own.2 later _ ((watched.withHistory recorded).told _)
    · exact ih own.2 later received watched

/-- The scan of a transaction brings both the same. -/
theorem transaction (env : Environment σ) (scannable : Scannable S account tx)
    (watched : s.Watched S account served t) :
    Coupled (Session.Watched S account served) (fun o o' : ScanOutcome => o'.received = o.received)
      (exec (transaction S env tx (tx.hash S) height) s)
      (exec (transaction S env tx (tx.hash S) height) t) := by
  have forgot := watched.withHistory (watched.history.forget (tx.hash S))
  -- both look for the own outputs with the view secret
  have keys : derivation? S t.wallet.account.keys (Extra.parse tx.extra).1 =
      derivation? S s.wallet.account.keys (Extra.parse tx.extra).1 := by
    rw [watched.own, watched.viewOnly]
    rfl
  have address : t.wallet.account.address = s.wallet.account.address := by
    rw [watched.own, watched.viewOnly]
    rfl
  rcases usable : derivation? S s.wallet.account.keys (Extra.parse tx.extra).1 with - | d
  · rw [exec_transaction_of_unusable S env usable,
      exec_transaction_of_unusable S env (keys.trans usable)]
    exact .succeeded rfl (forgot.told _)
  · have usable' := usable
    rw [watched.own] at usable'
    obtain ⟨own, owned, computable⟩ := scannable d usable'
    have found : ownOutputs S s.wallet.account.address d 0 tx.outputs = .ok own := by
      rwa [watched.own]
    rw [exec_transaction_of_owned S env usable found,
      exec_transaction_of_owned S env (keys.trans usable) (address ▸ found)]
    refine Coupled.bind (Q := Eq) ?_ fun received _ u v _ same after => ?_
    · unfold takeIn
      split
      · next worth =>
        refine (forgot.fetchIndices env tx (tx.hash S)).bind fun indices _ u v _ same after => ?_
        subst same
        refine after.recordOutputs derivable apart full mem height usable' indices ?_
          (computable worth) 0
        intro i among
        rw [mem_owned usable']
        exact (mem_ownOutputs owned).mp among
      · exact .succeeded rfl forgot
    · subst same
      exact after.close height tx (tx.hash S) own received

end

end Session.Watched

/-- Refreshes keep the two wallets together. -/
theorem paired_watched (derivable : ∀ key secret, KeyImage.ofKeys S key secret ≠ .ok .null)
    (apart : TellsApart S account served) (full : account.isViewOnly = false)
    (scannable : ∀ tx, Scannable S account tx) {σ : Type} (env : Environment σ) :
    Sync.Paired S env served (Session.Watched S account served) where
  abreast watched := watched.abreast
  asked env watched := watched.withEnv env
  flagged _ watched := { watched with stop := rfl }
  noted _ watched := { watched with summary := rfl }
  told e watched := watched.told e
  chain ids watched := watched.withHistory (watched.history.withChain ids)
  cut n watched := watched.withHistory (watched.history.detach n)
  scan height _ _ mem watched :=
    watched.transaction derivable apart full mem height env (scannable _)

/-! ### Balances -/

/-- The view-only wallet shows at least the balance of the full one. -/
theorem History.Watched.balance_le {w w' : Wallet}
    (watched : w.history.Watched S account served w'.history) : w.balance ≤ w'.balance := by
  have amounts : ((w.history.transfers.filter fun t => !t.spent).map Transfer.amount).Sublist
      (w.history.transfers.map Transfer.amount) := List.filter_sublist.map _
  -- nothing is ever spent for the watching wallet, so all its transfers count
  have unspent : w'.history.unspentSum = exactSum (w.history.transfers.map Transfer.amount) := by
    unfold History.unspentSum
    rw [watched.transfers, List.filter_eq_self.mpr, List.map_map]
    · rfl
    · intro t mem
      obtain ⟨u, -, rfl⟩ := List.mem_map.mp mem
      rfl
  have funds : w.funds ≤ w'.funds := by
    have less : w.history.unspentSum ≤ w'.history.unspentSum :=
      unspent ▸ (amounts.map UInt64.toNat).sum_le_sum fun _ _ => Nat.zero_le _
    unfold Wallet.funds History.changeSum
    rw [watched.unconfirmed]
    exact Nat.add_le_add_right less _
  rw [UInt64.le_iff_toNat_le, Wallet.toNat_balance, Wallet.toNat_balance]
  omega

/-- A new wallet of a full account and one of its view-only copy make the same calls, other than to
send, with the same daemon. In what the daemon may serve the hashes tell the transactions apart, and
the key images the own outputs. Then both are given the same answers, have the same ids and record
the same transfers, up to the spent flags and the key images: the view-only one has an empty index,
no key image and no spent transfer. So it shows at least the balance of the other. -/
theorem watched_afterCalls (S : Suite) {σ : Type} (env : Environment σ)
    (served : Transaction → Prop)
    (decode_encode : ∀ a : Scalar, S.decode? (S.encode (S.mulBase a)) = some (S.mulBase a))
    (mulBase_add : ∀ a b : Scalar, S.mulBase (a + b) = S.add (S.mulBase a) (S.mulBase b))
    (derivable : ∀ key secret, KeyImage.ofKeys S key secret ≠ .ok .null)
    (serves : env.Serves S served)
    (no_collision : ∀ tx tx', served tx → served tx' → tx.hash S = tx'.hash S → tx = tx')
    (account : Account) (verified : account.verify S = true) (full : account.isViewOnly = false)
    (distinct : ∀ tx tx', served tx → served tx' → ∀ i ∈ owned S account tx,
      ∀ j ∈ owned S account tx', imageAt? S account tx i = imageAt? S account tx' j →
      tx = tx' ∧ i = j)
    (config : Config) (w w' : Wallet) (created : Wallet.create account config = .ok w)
    (created' : Wallet.create account.toViewOnly config = .ok w') (s : Session σ)
    (unstopped : ∀ height txHash amount,
      EventHandler.anyStops s.handlers (.moneySpent height txHash amount) = false)
    (calls : List Call) (unsent : ∀ pending, .send pending ∉ calls) :
    let t : Session σ := afterCalls S env calls { s with wallet := w }
    let t' : Session σ := afterCalls S env calls { s with wallet := w' }
    t'.env = t.env ∧ t'.history.chain = t.history.chain ∧
      t'.history.transfers = t.history.transfers.map (fun u =>
        { u with spent := false, keyImage := .null }) ∧
      t'.history.keyImages = ∅ ∧
      (∀ u ∈ t'.history.transfers, u.keyImage = .null ∧ u.spent = false) ∧
      t.wallet.balance ≤ t'.wallet.balance := by
  intro t t'
  have apart : TellsApart S account served := ⟨no_collision, distinct⟩
  have scannable (tx : Transaction) : Scannable S account tx :=
    scannable_of_verify decode_encode mulBase_add verified (by simp [full]) tx
  have new : Session.Watched S account served ({ s with wallet := w } : Session σ)
      { s with wallet := w' } := by
    -- both start with the same first block
    obtain ⟨genesis, known, eq⟩ := Except.bind_eq_ok.mp created
    obtain ⟨genesis', known', eq'⟩ := Except.bind_eq_ok.mp created'
    obtain rfl : genesis = genesis' := Except.ok.inj (known.symm.trans known')
    obtain rfl := Except.ok.inj eq
    obtain rfl := Except.ok.inj eq'
    exact ⟨rfl, rfl, rfl, rfl, .new _, rfl, unstopped, rfl, rfl⟩
  have watched : t.Watched S account served t' :=
    (paired_watched derivable apart full scannable env).afterCalls serves unsent new
  refine ⟨watched.env, watched.history.chain, watched.history.transfers, watched.history.keyImages,
    fun u mem => ?_, watched.history.balance_le⟩
  rw [watched.history.transfers] at mem
  obtain ⟨v, -, rfl⟩ := List.mem_map.mp mem
  exact ⟨rfl, rfl⟩

/-! ### A transaction that is repeated -/

namespace Repeated

open SmallSuite

/-- The reward is spent, and a third block repeats the transaction that spends it. -/
def server : ChainServer where
  blocks := [funding, spending, block (coinbase 2) [payment 4 6 [.toKey 10 [0] (image 3)]]]

def opened : Session Unit := { env := (), wallet := ⟨SmallSuite.account, {}, {}⟩ }

/-- Every block of the daemon can be read. -/
theorem legible : ∀ b ∈ server.blocks, Script.Legible .small b := by
  have readable : (Transaction.ofBlob
      (payment 4 6 [.toKey 10 [0] (image 3)]).toBlob).toOption =
        some (payment 4 6 [.toKey 10 [0] (image 3)]) := by decide +kernel
  simp only [server, funding, spending, List.forall_mem_cons]
  refine ⟨Script.legible_block (by decide +kernel) (by simp),
    Script.legible_block (by decide +kernel) ?_, Script.legible_block (by decide +kernel) ?_,
    by simp⟩
  · rwa [List.forall_mem_singleton]
  · rwa [List.forall_mem_singleton]

end Repeated

open Repeated in
/-- Both wallets refresh, are cut back, and refresh again. -/
theorem watched_afterCalls_repeated :
    (∀ a : Scalar, Suite.small.decode? (Suite.small.encode (Suite.small.mulBase a)) =
        some (Suite.small.mulBase a)) ∧
      (∀ a b : Scalar, Suite.small.mulBase (a + b) =
        Suite.small.add (Suite.small.mulBase a) (Suite.small.mulBase b)) ∧
      (∀ key secret, KeyImage.ofKeys .small key secret ≠ .ok .null) ∧
      server.environment.Serves .small (fun tx => tx ∈ server.transactions .small) ∧
      (∀ tx tx', tx ∈ server.transactions .small → tx' ∈ server.transactions .small →
        tx.hash .small = tx'.hash .small → tx = tx') ∧
      SmallSuite.account.verify .small = true ∧ SmallSuite.account.isViewOnly = false ∧
      (∀ tx tx', tx ∈ server.transactions .small → tx' ∈ server.transactions .small →
        ∀ i ∈ owned .small SmallSuite.account tx, ∀ j ∈ owned .small SmallSuite.account tx',
          imageAt? .small SmallSuite.account tx i = imageAt? .small SmallSuite.account tx' j →
          tx = tx' ∧ i = j) ∧
      Wallet.create SmallSuite.account {} = .ok ⟨SmallSuite.account, {}, {}⟩ ∧
      Wallet.create SmallSuite.account.toViewOnly {} =
        .ok ⟨SmallSuite.account.toViewOnly, {}, {}⟩ ∧
      let calls : List Call := [.refresh, .detach 1, .refresh]
      let t := afterCalls .small server.environment calls
        { opened with wallet := ⟨SmallSuite.account, {}, {}⟩ }
      let t' := afterCalls .small server.environment calls
        { opened with wallet := ⟨SmallSuite.account.toViewOnly, {}, {}⟩ }
      t'.history.transfers = t.history.transfers.map (fun u =>
          { u with spent := false, keyImage := .null }) ∧
        t.wallet.balance ≤ t'.wallet.balance := by
  have serves := ChainServer.serves legible
  -- collisions are excluded by trying all pairs of the few transactions
  have no_collision : ∀ tx ∈ server.transactions .small, ∀ tx' ∈ server.transactions .small,
      tx.hash .small = tx'.hash .small → tx = tx' := by decide +kernel
  have distinct : ∀ tx ∈ server.transactions .small, ∀ tx' ∈ server.transactions .small,
      ∀ i ∈ owned .small SmallSuite.account tx, ∀ j ∈ owned .small SmallSuite.account tx',
        imageAt? .small SmallSuite.account tx i = imageAt? .small SmallSuite.account tx' j →
        tx = tx' ∧ i = j := by decide +kernel
  have verified : SmallSuite.account.verify .small = true := by decide +kernel
  obtain ⟨-, -, transfers, -, -, balance⟩ := watched_afterCalls .small server.environment _
    Suite.small_decode?_encode Suite.small_mulBase_add Suite.small_ofKeys_ne_null serves
    (fun tx tx' mem mem' => no_collision tx mem tx' mem') SmallSuite.account verified rfl
    (fun tx tx' mem mem' => distinct tx mem tx' mem') {} _ _ rfl rfl opened (fun _ _ _ => rfl)
    [.refresh, .detach 1, .refresh] (by simp)
  exact ⟨Suite.small_decode?_encode, Suite.small_mulBase_add, Suite.small_ofKeys_ne_null, serves,
    fun tx tx' mem mem' => no_collision tx mem tx' mem', verified, rfl,
    fun tx tx' mem mem' => distinct tx mem tx' mem', rfl, rfl, transfers, balance⟩

end RingWallet
