import RingWallet.Proofs.Wallet.Bounds
import RingWallet.Proofs.Wallet.Keeps
import RingWallet.Proofs.Wallet.Reading

/-!
# Scanning once more

What a scan adds to a history depends on the transactions, the account and the indices that the
daemon answers. It depends neither on the spent flags of the outputs that are there already nor on
the transactions that are waited for. So histories that are alike in everything else
(`History.Alike`) stay alike when both scan the same transactions with the same answers:
`Sync.alike_of_addBlocks` says what a run adds in terms of `Scan.reread`, which is a function of the
history.

A scan does not fail if the daemon answers (`Environment.Indexes`) and the account can look into the
transactions (`Scan.Scannable`): `Sync.succeeds_addBlocks`. A verified account can look into every
transaction (`Scan.scannable_of_verify`).
-/

set_option autoImplicit false

namespace RingWallet

open Scan WalletM

namespace History

/-! ### Histories that are alike -/

/-- The two histories have the same outputs, except for spent flags, the same index and the same
payments. -/
structure Alike (h h' : History) : Prop where
  transfers : h'.transfers.map Transfer.unspent = h.transfers.map Transfer.unspent
  keyImages : h'.keyImages = h.keyImages
  payments : h'.payments = h.payments

variable {h h' h'' : History}

/-- A history is like itself. -/
theorem Alike.refl (h : History) : Alike h h := ⟨rfl, rfl, rfl⟩

/-- Being alike goes both ways. -/
theorem Alike.symm (alike : Alike h h') : Alike h' h :=
  ⟨alike.transfers.symm, alike.keyImages.symm, alike.payments.symm⟩

/-- What is like a history that is like a third one is like the third one. -/
theorem Alike.trans (first : Alike h h') (second : Alike h' h'') : Alike h h'' :=
  ⟨second.transfers.trans first.transfers, second.keyImages.trans first.keyImages,
    second.payments.trans first.payments⟩

/-- An output that one of them has recorded is recorded in the other one. -/
theorem Alike.isRecorded_eq (alike : Alike h h') (image : Option KeyImage) (txHash : Hash)
    (index : Nat) : h'.isRecorded image txHash index = h.isRecorded image txHash index := by
  cases image with
  | some image => exact congrArg (·.contains image) alike.keyImages
  | none =>
    have blind := congrArg (·.any fun t => t.txHash = txHash && t.outputIndex = index)
      alike.transfers
    simp only [List.any_map, Function.comp_def] at blind
    exact blind

/-- A receipt is recorded in both histories or in neither. -/
theorem Alike.receive (alike : Alike h h') (r : Receipt) : Alike (h.receive r) (h'.receive r) := by
  unfold History.receive
  rw [alike.isRecorded_eq]
  split
  · exact alike
  · have length : h'.transfers.length = h.transfers.length := by
      simpa using congrArg List.length alike.transfers
    refine ⟨?_, ?_, alike.payments⟩
    · simp only [record, List.map_append, alike.transfers]
    · simp only [record, alike.keyImages, length]

/-- The same receipts leave histories that are alike. -/
theorem Alike.receiveAll (alike : Alike h h') (found : List Receipt) :
    Alike (found.foldl History.receive h) (found.foldl History.receive h') := by
  induction found generalizing h h' with
  | nil => exact alike
  | cons r rest ih => exact ih (alike.receive r)

/-- Inputs only mark outputs. -/
theorem alike_spendInputs (h : History) (inputs : List TxIn) :
    Alike h (inputs.foldl spendInput h) where
  transfers := (sameOutputs_spendInputs h inputs).transfers
  keyImages := (sameOutputs_spendInputs h inputs).keyImages
  payments := payments_spendInputs h inputs

/-- Inputs take the same amounts from both. -/
theorem Alike.spentAmount?_eq (alike : Alike h h') : h'.spentAmount? = h.spentAmount? := by
  -- the chains do not matter, and apart from them the outputs are the same
  have same : SameOutputs h { h' with chain := h.chain } :=
    ⟨rfl, alike.keyImages, alike.transfers⟩
  exact funext same.spentAmount?

/-- The same payment leaves histories that are alike. -/
theorem Alike.credit (alike : Alike h h') (tx : Transaction) (txHash : Hash) (height : Nat)
    (fields : List ExtraField) (received : UInt64) :
    Alike (h.credit tx txHash height fields received)
      (h'.credit tx txHash height fields received) := by
  unfold History.credit
  split
  · split
    · exact alike
    · unfold addPayment
      simp only [alike.payments]
      split
      · exact alike
      · exact ⟨alike.transfers, alike.keyImages, rfl⟩
  · exact alike

/-- The scan of a transaction adds the same to both. -/
theorem Alike.settled (alike : Alike h h') (S : Suite) (keys : AccountKeys) (d : KeyDerivation)
    (tx : Transaction) (txHash : Hash) (height : Nat) (indices : List UInt64) (own : List Nat) :
    Alike (Scan.settled S keys d tx txHash height indices own h)
      (Scan.settled S keys d tx txHash height indices own h') := by
  have forgets : Alike (h.forget txHash) (h'.forget txHash) :=
    ⟨alike.transfers, alike.keyImages, alike.payments⟩
  have takes := forgets.receiveAll (brought S keys d tx txHash height indices own)
  have marks := ((alike_spendInputs _ tx.inputs).symm.trans takes).trans
    (alike_spendInputs _ tx.inputs)
  unfold Scan.settled
  simp only [takes.spentAmount?_eq]
  exact marks.credit _ _ _ _ _

/-- A cut takes the same from both. -/
theorem Alike.detach (alike : Alike h h') (n : Nat) : Alike (h.detach n) (h'.detach n) := by
  have kept : (h'.detach n).transfers.map Transfer.unspent =
      (h.detach n).transfers.map Transfer.unspent := by
    have cut := congrArg (List.takeWhile fun t => decide (t.blockHeight < n)) alike.transfers
    simp only [List.takeWhile_map, Function.comp_def] at cut
    exact cut
  refine ⟨kept, ?_, ?_⟩
  · -- the index loses the key images of what is cut off
    have length : (h'.detach n).transfers.length = (h.detach n).transfers.length := by
      simpa using congrArg List.length kept
    have images := congrArg (List.map Transfer.keyImage) alike.transfers
    simp only [List.map_map, Function.comp_def, Transfer.keyImage_unspent] at images
    have dropped : (h'.transfers.drop (h'.detach n).transfers.length).map Transfer.keyImage =
        (h.transfers.drop (h.detach n).transfers.length).map Transfer.keyImage := by
      rw [length, List.map_drop, List.map_drop]
      exact congrArg (List.drop _) images
    have erase (ts : List Transfer) (index : Std.ExtTreeMap KeyImage Nat) :
        ts.foldl (fun index t => if t.keyImage.isNull then index else index.erase t.keyImage)
            index =
          (ts.map Transfer.keyImage).foldl
            (fun index image => if image.isNull then index else index.erase image) index := by
      rw [List.foldl_map]
    show List.foldl _ h'.keyImages (h'.transfers.drop (h'.detach n).transfers.length) =
      List.foldl _ h.keyImages (h.transfers.drop (h.detach n).transfers.length)
    rw [erase, erase, dropped, alike.keyImages]
  · show h'.payments.filterMap _ = h.payments.filterMap _
    rw [alike.payments]

end History

/-- The daemon tells the indices of the outputs of a transaction, one for each, in every state that
is good, and its state stays good. -/
structure Environment.Indexes {σ : Type} (env : Environment σ) (good : σ → Prop)
    (indices : Hash → List UInt64) (q : Hash × Transaction) : Prop where
  length_eq : (indices q.1).length = q.2.outputs.length
  answer : ∀ e, good e →
    ∃ e', good e' ∧ (env.getIndices q.1).run e = (.ok ⟨Daemon.okStatus, indices q.1⟩, e')

/-- A wallet of an account whose daemon is good, and which waits for no transaction. -/
structure Session.Ready {σ : Type} (good : σ → Prop) (account : Account) (config : Config)
    (s : Session σ) : Prop where
  good : good s.env
  own : s.wallet.account = account
  same : s.wallet.config = config
  open_end : s.summary.targetFound = false

namespace Scan

/-! ### What the scan of a transaction adds -/

variable (S : Suite) (account : Account) (indices : Hash → List UInt64)

/-- The history after the scan of one more transaction, when the daemon answers these indices. -/
def reread (h : History) (p : Placed) : History :=
  match derivation? S account.keys (Extra.parse p.tx.extra).1 with
  | none => h.forget p.txHash
  | some d => settled S account.keys d p.tx p.txHash p.height (indices p.txHash)
      ((ownOutputs S account.address d 0 p.tx.outputs).toOption.getD []) h

/-- An account can look into a transaction if it cannot use its key, or if it can tell which of the
outputs are its own and, where they are worth anything, compute their key images. -/
def Scannable (tx : Transaction) : Prop :=
  ∀ d, derivation? S account.keys (Extra.parse tx.extra).1 = some d →
    ∃ own, ownOutputs S account.address d 0 tx.outputs = .ok own ∧
      (Worth tx own → Derivable S account.keys d tx.outputs own)

variable {S account indices}

/-- The scan of a transaction leaves histories that are alike. -/
theorem alike_reread {h h' : History} (alike : h.Alike h') (p : Placed) :
    (reread S account indices h p).Alike (reread S account indices h' p) := by
  unfold reread
  split
  · exact ⟨alike.transfers, alike.keyImages, alike.payments⟩
  · exact alike.settled ..

/-- The scans of the same transactions leave histories that are alike. -/
theorem alike_rereads {h h' : History} (alike : h.Alike h') (ps : List Placed) :
    (ps.foldl (reread S account indices) h).Alike (ps.foldl (reread S account indices) h') := by
  induction ps generalizing h h' with
  | nil => exact alike
  | cons p rest ih => exact ih (alike_reread alike p)

/-- Only the answers for the scanned transactions matter. -/
theorem rereads_congr {indices' : Hash → List UInt64} {ps : List Placed}
    (agree : ∀ p ∈ ps, indices p.txHash = indices' p.txHash) (h : History) :
    ps.foldl (reread S account indices) h = ps.foldl (reread S account indices') h := by
  induction ps generalizing h with
  | nil => rfl
  | cons p rest ih =>
    rw [List.forall_mem_cons] at agree
    have first : reread S account indices h p = reread S account indices' h p := by
      unfold reread
      rw [agree.1]
    rw [List.foldl_cons, List.foldl_cons, first]
    exact ih agree.2 _

variable {σ : Type} {env : Environment σ} {good : σ → Prop}

/-- What a scan has found out on its way to its end are the answers of the daemon, as far as they
matter. -/
theorem settled_of_completed {p : Placed} {e e' : σ} {d : KeyDerivation} {own : List Nat}
    {answered : List UInt64}
    (completed : Completed S env account p.tx p.txHash e e' d own answered)
    (indexes : env.Indexes good indices (p.txHash, p.tx)) (hgood : good e) (h : History) :
    good e' ∧ settled S account.keys d p.tx p.txHash p.height answered own h =
      reread S account indices h p := by
  have same : reread S account indices h p =
      settled S account.keys d p.tx p.txHash p.height (indices p.txHash) own h := by
    unfold reread
    rw [completed.usable]
    simp only [completed.owned, Except.toOption, Option.getD_some]
  rw [same]
  by_cases worth : Worth p.tx own
  · obtain ⟨e'', later, answer⟩ := indexes.answer e hgood
    have asked := completed.asked worth
    rw [answer] at asked
    obtain ⟨reply, rfl⟩ := Prod.mk.inj asked
    have answers : indices p.txHash = answered :=
      congrArg Daemon.IndicesReply.indices (Except.ok.inj reply)
    exact ⟨later, by rw [answers]⟩
  · refine ⟨completed.idle worth ▸ hgood, ?_⟩
    unfold settled brought
    rw [if_neg worth, if_neg worth]

/-- A scan that came to its end could look into the transaction. -/
theorem scannable_of_completed {p : Placed} {e e' : σ} {d : KeyDerivation} {own : List Nat}
    {answered : List UInt64}
    (completed : Completed S env account p.tx p.txHash e e' d own answered) :
    Scannable S account p.tx := by
  intro d' usable
  obtain rfl : d = d' := Option.some.inj (completed.usable.symm.trans usable)
  exact ⟨own, completed.owned, completed.derivable⟩

/-! ### Scans that do not fail -/

variable {config : Config}

/-- The scan of a transaction that the account can look into does not fail. -/
theorem succeeds_transaction {tx : Transaction} {txHash : Hash}
    (scannable : Scannable S account tx) (indexes : env.Indexes good indices (txHash, tx))
    (height : Nat) :
    Succeeds (Session.Ready good account config) (transaction S env tx txHash height) := by
  intro s ready
  obtain ⟨e, -, answer⟩ := indexes.answer s.env ready.good
  obtain ⟨o, t, run⟩ := exists_of_transaction S env (by rw [ready.own]; exact scannable)
    ⟨_, e, indexes.length_eq, answer⟩ height
  refine ⟨o, t, run, ?_⟩
  -- a scan leaves alone what is not the history, and the daemon stays good
  have framed : Framed env fun u : Session σ => u.wallet.account = account ∧
      u.wallet.config = config ∧ u.summary.targetFound = false :=
    ⟨fun _ _ _ same => same, fun _ _ same => same, fun _ _ same => same⟩
  have kept := framed.transaction S env tx txHash height s ⟨ready.own, ready.same, ready.open_end⟩
  rw [run] at kept
  obtain ⟨r, u, run', ends⟩ := exec_transaction S env tx txHash height s
  rw [run] at run'
  obtain ⟨rfl, rfl⟩ := Prod.mk.inj run'
  refine ⟨?_, kept.1, kept.2.1, kept.2.2⟩
  cases ends with
  | passed unusable core => exact Session.env_of_core core ▸ ready.good
  | settled completed wallet =>
    rw [ready.own] at completed
    exact (settled_of_completed (p := ⟨height, txHash, tx⟩) completed indexes ready.good {}).1

/-! ### Accounts that can look into everything -/

/-- An address with a usable spend key can be tried on every output. -/
theorem exists_ownOutputs {address : Address} {P : S.Point}
    (point : address.spendKey.point S = .ok P) (d : KeyDerivation) (index : Nat)
    (outs : List TxOut) : ∃ own, ownOutputs S address d index outs = .ok own := by
  induction outs generalizing index with
  | nil => exact ⟨[], rfl⟩
  | cons out rest ih =>
    obtain ⟨others, later⟩ := ih (index + 1)
    unfold ownOutputs KeyDerivation.publicKey
    rw [point, later]
    exact ⟨_, rfl⟩

/-- The key image of an own output can be computed from the spend secret. -/
theorem exists_keyImageOf
    (mulBase_add : ∀ a b : Scalar, S.mulBase (a + b) = S.add (S.mulBase a) (S.mulBase b))
    {keys : AccountKeys} {spend : SecretKey} {b : Scalar} {d : KeyDerivation} {i : Nat}
    {key : PublicKey} (spendable : keys.spendSecret = some spend) (scalar : spend.scalar = .ok b)
    (paid : PublicKey.ofPoint S (S.add (S.mulBase (d.scalar S i)) (S.mulBase b)) = key) :
    ∃ image, keyImageOf S keys d i key = .ok image := by
  -- the secret of the one-time key is the sum of the two secrets
  have secret : d.secretKey S i spend = .ok (.ofScalar (d.scalar S i + b)) := by
    rw [KeyDerivation.secretKey, scalar]
    rfl
  have derived : (SecretKey.ofScalar (d.scalar S i + b)).publicKey S = .ok key := by
    rw [SecretKey.publicKey, SecretKey.scalar_ofScalar, ← paid, ← mulBase_add]
    rfl
  have image : KeyImage.ofKeys S key (.ofScalar (d.scalar S i + b)) =
      .ok ⟨S.encode (S.smul (d.scalar S i + b).val (hashToPoint S key))⟩ := by
    rw [KeyImage.ofKeys, SecretKey.scalar_ofScalar]
    rfl
  refine ⟨some ⟨S.encode (S.smul (d.scalar S i + b).val (hashToPoint S key))⟩, ?_⟩
  unfold keyImageOf
  simp [spendable, secret, derived, image, Except.mapError_ok, bind, Except.bind, pure,
    Except.pure]

/-- A verified account can look into every transaction. If it is view-only, its spend key has to be
the encoding of a point. -/
theorem scannable_of_verify
    (decode_encode : ∀ a : Scalar, S.decode? (S.encode (S.mulBase a)) = some (S.mulBase a))
    (mulBase_add : ∀ a b : Scalar, S.mulBase (a + b) = S.add (S.mulBase a) (S.mulBase b))
    (verified : account.verify S = true)
    (valid : account.isViewOnly = true → account.address.spendKey.isValid S = true)
    (tx : Transaction) : Scannable S account tx := by
  intro d usable
  rcases spendable : account.keys.spendSecret with - | spend
  · -- a view-only account computes no key images
    have known := valid (by rw [Account.isViewOnly, spendable]; rfl)
    obtain ⟨P, decoded⟩ := Option.isSome_iff_exists.mp known
    have point : account.address.spendKey.point S = .ok P := by
      rw [PublicKey.point, decoded]
      rfl
    obtain ⟨own, owned⟩ := exists_ownOutputs point d 0 tx.outputs
    refine ⟨own, owned, fun _ i _ out _ => ⟨none, ?_⟩⟩
    rw [keyImageOf, spendable]
    rfl
  · have genuine := (Bool.and_eq_true_iff.mp verified).2
    rw [spendable, Option.all_some] at genuine
    obtain ⟨b, scalar, key⟩ := Reading.exists_scalar_of_matches genuine
    have point : account.address.spendKey.point S = .ok (S.mulBase b) := by
      rw [PublicKey.point, key, PublicKey.ofPoint, decode_encode]
      rfl
    obtain ⟨own, owned⟩ := exists_ownOutputs point d 0 tx.outputs
    refine ⟨own, owned, fun _ i mem out here => ?_⟩
    -- an own output is one whose key is made of the derivation and the spend key
    obtain ⟨out', here', mine⟩ := (Reading.mem_ownOutputs owned).mp mem
    obtain rfl : out' = out := Option.some.inj (here'.symm.trans here)
    rw [KeyDerivation.publicKey, point] at mine
    exact exists_keyImageOf mulBase_add spendable scalar (Except.ok.inj mine)

end Scan

namespace Sync

variable {S : Suite} {account : Account} {config : Config} {indices : Hash → List UInt64}
  {σ : Type} {env : Environment σ} {good : σ → Prop}

/-! ### The transactions of blocks -/

/-- A placed transaction stands in one of the blocks, at its height. -/
theorem of_mem_placed {start : Nat} {blocks : List ParsedBlock} {p : Placed}
    (mem : p ∈ placed S account config start blocks) :
    p.height < start + blocks.length ∧ ∃ b ∈ blocks, (p.txHash, p.tx) ∈ allTransactions S b := by
  obtain ⟨⟨b, height⟩, numbered, mem⟩ := List.mem_flatMap.mp mem
  have here := List.snd_lt_add_of_mem_zipIdx numbered
  simp only [] at mem here
  split at mem
  · obtain ⟨q, hq, rfl⟩ := List.mem_map.mp mem
    refine ⟨by omega, b, List.fst_mem_of_mem_zipIdx numbered, hq⟩
  · cases mem

/-! ### What blocks add -/

/-- A scan adds to a history what a scan of the same transactions adds to another one. -/
theorem kept_alike (S : Suite) (env : Environment σ) (account : Account) (good : σ → Prop)
    (indices : Hash → List UInt64) (h₀ : History) :
    Kept S env account fun past e h =>
      (∀ p ∈ past, env.Indexes good indices (p.txHash, p.tx)) →
        good e ∧ (past.foldl (reread S account indices) h₀).Alike h where
  skip past e h p unreadable before answers := by
    obtain ⟨hgood, alike⟩ := before answers
    exact ⟨hgood, alike.transfers, alike.keyImages, alike.payments⟩
  append past e h id before answers := by
    obtain ⟨hgood, alike⟩ := before answers
    exact ⟨hgood, alike.transfers, alike.keyImages, alike.payments⟩
  scan past e e' h p d own answered completed _ before answers := by
    obtain ⟨hgood, alike⟩ := before fun q mem => answers q (List.mem_append_left _ mem)
    have indexes := answers p (List.mem_append_right _ (List.mem_singleton_self p))
    obtain ⟨later, eq⟩ := settled_of_completed completed indexes hgood h
    rw [List.foldl_append, List.foldl_cons, List.foldl_nil, eq]
    exact ⟨later, alike_reread alike p⟩

/-- Every transaction that was looked into could be looked into. -/
theorem kept_scannable (S : Suite) (env : Environment σ) (account : Account) :
    Kept S env account fun past _ _ => ∀ p ∈ past, Scannable S account p.tx where
  skip _ _ _ _ _ before := before
  append _ _ _ _ before := before
  scan past e e' h p d own answered completed _ before := by
    rw [List.forall_mem_append, List.forall_mem_singleton]
    exact ⟨before, scannable_of_completed completed⟩

/-- As long as all blocks are below a height, so is what they add. -/
theorem kept_within (derivable : ∀ key secret, KeyImage.ofKeys S key secret ≠ .ok .null)
    (env : Environment σ) (account : Account) (n : Nat) :
    Kept S env account fun past _ h =>
      (∀ p ∈ past, p.height < n) → h.Indexed (· ≠ .null) ∧ h.Within n where
  skip past e h p _ before below := by
    obtain ⟨indexed, within⟩ := before below
    have same := History.sameOutputs_forget h p.txHash
    exact ⟨indexed.congr same.keyImages same.images, within.sameOutputs same rfl⟩
  append past e h id before below := by
    obtain ⟨indexed, within⟩ := before below
    exact ⟨indexed, within.transfers, within.payments, within.payments_ne_nil⟩
  scan past e e' h p d own answered _ _ before below := by
    rw [List.forall_mem_append, List.forall_mem_singleton] at below
    obtain ⟨indexed, within⟩ := before below.1
    have changes : Changes S [(p.txHash, p.tx)] p.height h
        (settled S account.keys d p.tx p.txHash p.height answered own h) :=
      changes_settled (List.mem_singleton_self _) h
    exact ⟨changes.indexed derivable indexed, changes.within below.2 within⟩

/-- A run changes the history alone, and adds the ids of the blocks. -/
theorem wallet_of_addBlocks {target : Option Hash} {blocks : List ParsedBlock} {s t : Session σ}
    (run : exec (addBlocks S env target blocks) s = (.ok (), t)) :
    t.wallet = s.wallet.withHistory t.history ∧
      t.history.chain = s.history.chain ++ blocks.map ParsedBlock.id := by
  have start : ∀ p ∈ ([] : List Placed), Scannable S s.wallet.account p.tx := by simp
  obtain ⟨h, wallet, chain⟩ := (addBlocks_induction (kept_scannable S env s.wallet.account) run
    rfl rfl start).1
  have eq : t.history = h := congrArg Wallet.history wallet
  rw [eq]
  exact ⟨wallet, chain⟩

section

variable {target : Option Hash} {blocks : List ParsedBlock} {s t : Session σ}
  (run : exec (addBlocks S env target blocks) s = (.ok (), t)) (own : s.wallet.account = account)
  (same : s.wallet.config = config)

include run own same

/-- A run adds to the history what its transactions add, in the order of the chain. -/
theorem alike_of_addBlocks
    (indexes : ∀ b ∈ blocks, ∀ q ∈ allTransactions S b, env.Indexes good indices q)
    (hgood : good s.env) :
    good t.env ∧ ((scanned S account config s.history.height blocks).foldl
      (reread S account indices) s.history).Alike t.history := by
  have kept := (addBlocks_induction (kept_alike S env account good indices s.history) run own same
    fun _ : ∀ p ∈ ([] : List Placed), _ => ⟨hgood, .refl _⟩).2
  refine kept fun p mem => ?_
  obtain ⟨-, b, hb, hq⟩ := of_mem_placed (List.mem_filter.mp mem).1
  exact indexes b hb _ hq

/-- A run that succeeds could look into every transaction. -/
theorem scannable_of_addBlocks :
    ∀ p ∈ placed S account config s.history.height blocks, Scannable S account p.tx := by
  intro p mem
  rcases readable : isReadable S account p with - | -
  · intro d usable
    rw [isReadable, usable] at readable
    cases readable
  · have start : ∀ p ∈ ([] : List Placed), Scannable S account p.tx := by simp
    have kept := (addBlocks_induction (kept_scannable S env account) run own same start).2
    exact kept p (List.mem_filter.mpr ⟨mem, readable⟩)

/-- What a run adds is below the end of the chain. -/
theorem within_of_addBlocks
    (derivable : ∀ key secret, KeyImage.ofKeys S key secret ≠ .ok .null)
    (indexed : s.history.Indexed (· ≠ .null)) (within : s.history.Within s.history.height) :
    t.history.Indexed (· ≠ .null) ∧ t.history.Within t.history.height := by
  have kept := (addBlocks_induction
    (kept_within derivable env account (s.history.height + blocks.length)) run own same
    fun _ : ∀ p ∈ ([] : List Placed), _ => ⟨indexed, within.mono (Nat.le_add_right _ _)⟩).2
  have height : t.history.height = s.history.height + blocks.length := by
    rw [History.height, (wallet_of_addBlocks run).2, List.length_append, List.length_map]
    rfl
  rw [height]
  exact kept fun p mem => (of_mem_placed (List.mem_filter.mp mem).1).1

end

/-! ### Runs that do not fail -/

/-- The scans of transactions that the account can look into do not fail. -/
theorem succeeds_scanAll {height : Nat} {txs : List (Hash × Transaction)}
    (known : ∀ q ∈ txs, Scannable S account q.2 ∧ env.Indexes good indices q) :
    Succeeds (Session.Ready good account config) (scanAll S env height txs) := by
  induction txs with
  | nil => exact succeeds_pure ()
  | cons q rest ih =>
    obtain ⟨txHash, tx⟩ := q
    rw [List.forall_mem_cons] at known
    obtain ⟨⟨scannable, indexes⟩, known⟩ := known
    unfold scanAll
    refine .then (succeeds_transaction scannable indexes height) fun outcome => ?_
    split
    · refine .then (fun s ready => ?_) fun _ => ih known
      exact ⟨(), _, rfl, ready.good, ready.own, ready.same, ready.open_end⟩
    · exact ih known

/-- A block is added if the account can look into those of its transactions that are scanned. -/
theorem succeeds_addBlock {b : ParsedBlock} {start : Nat}
    (known : ∀ p ∈ placed S account config start [b], Scannable S account p.tx)
    (indexes : ∀ q ∈ allTransactions S b, env.Indexes good indices q) (height : Nat) :
    Succeeds (Session.Ready good account config) (addBlock S env b height none) := by
  intro s ready
  have scan : ∃ t, scanBlock S env b height s = (.ok (), t) ∧ t.Ready good account config := by
    unfold scanBlock isRelevant
    rw [ready.own, ready.same]
    simp only [placed, List.zipIdx_singleton, List.flatMap_singleton] at known
    by_cases young : account.createTime < b.block.timestamp.addSat config.timestampTolerance
    · rw [if_pos young] at known
      rw [if_pos (decide_eq_true young)]
      have scans : Succeeds (Session.Ready good account config)
          (scanAll S env height (allTransactions S b)) :=
        succeeds_scanAll fun q mem => ⟨known _ (List.mem_map_of_mem mem), indexes q mem⟩
      obtain ⟨⟨⟩, t, run, later⟩ := scans s ready
      exact ⟨t, run, later⟩
    · rw [if_neg (by simpa using young)]
      exact ⟨s, rfl, ready⟩
  obtain ⟨t, run, later⟩ := scan
  rw [exec_addBlock, run]
  refine ⟨(), _, rfl, later.good, later.own, later.same, ?_⟩
  show (((allTransactions S b).any fun q => some q.1 = none) ||
    t.summary.targetFound) = false
  rw [later.open_end, Bool.or_false, List.any_eq_false]
  simp

/-- Blocks are added if the account can look into those of their transactions that are scanned. -/
theorem succeeds_addBlocks {blocks : List ParsedBlock}
    (indexes : ∀ b ∈ blocks, ∀ q ∈ allTransactions S b, env.Indexes good indices q)
    {s : Session σ} (ready : s.Ready good account config)
    (known : ∀ p ∈ placed S account config s.history.height blocks, Scannable S account p.tx) :
    ∃ t, exec (addBlocks S env none blocks) s = (.ok (), t) ∧ t.Ready good account config := by
  induction blocks generalizing s with
  | nil => exact ⟨s, rfl, ready⟩
  | cons b rest ih =>
    rw [List.forall_mem_cons] at indexes
    rw [placed_cons, List.forall_mem_append] at known
    obtain ⟨⟨⟩, u, run, later⟩ := succeeds_addBlock known.1 indexes.1 s.history.height s ready
    rw [addBlocks, exec_bind_ok _ (exec_history s), exec_bind_ok _ run]
    exact ih indexes.2 later (height_of_addBlock run ▸ known.2)

/-- Some blocks, and then some more. -/
theorem exec_addBlocks_append {target : Option Hash} {blocks more : List ParsedBlock}
    {s t : Session σ} :
    exec (addBlocks S env target (blocks ++ more)) s = (.ok (), t) ↔
      ∃ u, exec (addBlocks S env target blocks) s = (.ok (), u) ∧
        exec (addBlocks S env target more) u = (.ok (), t) := by
  induction blocks generalizing s with
  | nil => simp [addBlocks]
  | cons b rest ih =>
    rw [List.cons_append, addBlocks, addBlocks, exec_bind_ok _ (exec_history s),
      exec_bind_ok _ (exec_history s)]
    simp only [exec_bind_eq_ok]
    constructor
    · rintro ⟨a, u, first, run⟩
      obtain ⟨v, run, last⟩ := ih.mp run
      exact ⟨v, ⟨a, u, first, run⟩, last⟩
    · rintro ⟨v, ⟨a, u, first, run⟩, last⟩
      exact ⟨a, u, first, ih.mpr ⟨v, run, last⟩⟩

end Sync

end RingWallet
