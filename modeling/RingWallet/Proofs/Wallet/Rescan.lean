import RingWallet.Proofs.Support.ChainServer
import RingWallet.Proofs.Wallet.Remembers

/-!
# Scanning what was scanned before

The scans of some transactions, one after the other, lead from one history to another
(`Scan.Trail`), with whatever indices the daemon answers. If none of the transactions spends an own
output before one that creates it (`SpendsInOrder`), the history at the end remembers all of them
(`Scan.Trail.remembers`): a later transaction brings no output that an earlier one has spent.

Therefore the scan of a chain can be repeated from any height on. It reports nothing the second time
and leaves the wallet as it is, also if the daemon answers other indices then:
`rescan_of_addBlocks`.
-/

set_option autoImplicit false

namespace RingWallet

open Reading Scan WalletM

namespace Reading

variable (S : Suite) (account : Account)

/-- The key images of the own outputs of a transaction that pays the account something. -/
def images (tx : Transaction) : List KeyImage :=
  if ownedSum S account tx = 0 then [] else (owned S account tx).filterMap (imageAt? S account tx)

/-- The key images of the own outputs of some transactions. -/
def created (txs : List Placed) : List KeyImage := txs.flatMap fun p => images S account p.tx

end Reading

/-- None of the transactions spends an own output of them before the first one that creates it,
unless the history has known the output before. -/
def SpendsInOrder (S : Suite) (account : Account) (h : History) (txs : List Placed) : Prop :=
  ∀ q ∈ txs.zipIdx, ∀ image ∈ q.1.tx.inputs.filterMap TxIn.keyImage?,
    image ∈ created S account txs →
      h.keyImages.contains image = true ∨ image ∈ created S account (txs.take (q.2 + 1))

/-- The first ones of some transactions that spend in order do so as well. -/
theorem SpendsInOrder.of_append {S : Suite} {account : Account} {h : History}
    {past more : List Placed} (order : SpendsInOrder S account h (past ++ more)) :
    SpendsInOrder S account h past := by
  -- only earlier places are looked at, which are the same in the longer list
  intro q mem image input is_created
  have inside : q.2 < past.length := by
    have := List.snd_lt_of_mem_zipIdx mem
    omega
  have numbered : q ∈ (past ++ more).zipIdx := by
    rw [List.zipIdx_append]
    exact List.mem_append_left _ mem
  have among : image ∈ created S account (past ++ more) := by
    unfold created
    rw [List.flatMap_append]
    exact List.mem_append_left _ is_created
  have later := order q numbered image input among
  rwa [List.take_append_of_le_length inside] at later

/-- The daemon tells an index for each output of a transaction, in every state that is good, and its
state stays good. It may tell other ones each time. -/
def Environment.Responds {σ : Type} (env : Environment σ) (good : σ → Prop)
    (q : Hash × Transaction) : Prop :=
  ∀ e, good e → ∃ indices e', good e' ∧ indices.length = q.2.outputs.length ∧
    (env.getIndices q.1).run e = (.ok ⟨Daemon.okStatus, indices⟩, e')

namespace Scan

/-- The scans of some transactions lead from one history to another, and blocks may be added in
between. -/
inductive Trail (S : Suite) (account : Account) : List Placed → History → History → Prop
  | refl (h : History) : Trail S account [] h h
  | scan {past : List Placed} {h h' : History} {p : Placed} (indices : List UInt64)
    (scannable : Scannable S account p.tx)
    (length : ∀ d own, Finds S account p.tx d own → Worth p.tx own →
      indices.length = p.tx.outputs.length)
    (trail : Trail S account past h h') :
    Trail S account (past ++ [p]) h (reread S account (fun _ => indices) h' p)
  | append {past : List Placed} {h h' : History} (id : Hash) (trail : Trail S account past h h') :
    Trail S account past h { h' with chain := h'.chain ++ [id] }

variable {S : Suite} {account : Account} {h h' : History} {p : Placed}

/-! ### One scan -/

/-- An index that points at its outputs still does after some changes. -/
theorem points_of_changes {txs : List (Hash × Transaction)} {height : Nat}
    (changes : Changes S txs height h h') (points : h.Points) : h'.Points := by
  have stays {h h' : History} (same : History.SameOutputs h h') (points : h.Points) :
      h'.Points := by
    intro image i found
    rw [same.keyImages] at found
    rw [same.images]
    exact points image i found
  -- only recording moves the index
  induction changes with
  | refl => exact points
  | tail _ change ih =>
    cases change with
    | forget mem => exact ih
    | spend mem input => exact stays (History.sameOutputs_spend _ _) ih
    | pay id mem at_height => exact stays (History.sameOutputs_addPayment _ id _) ih
    | record found new => exact ih.record found.keyImage_eq

/-- A scan that comes to its end is made of changes. -/
theorem changes_reread (indices : Hash → List UInt64) (h : History) (p : Placed) :
    Changes S [(p.txHash, p.tx)] p.height h (reread S account indices h p) := by
  unfold reread
  split
  · exact .single (.forget h (List.mem_singleton_self _))
  · exact changes_settled (List.mem_singleton_self _) h

/-- A scan that comes to its end leaves a history that remembers the transaction. -/
theorem remembers_reread (scannable : Scannable S account p.tx) {indices : Hash → List UInt64}
    (length : ∀ d own, Finds S account p.tx d own → Worth p.tx own →
      (indices p.txHash).length = p.tx.outputs.length) (h : History) :
    (reread S account indices h p).Remembers S account p := by
  unfold reread
  rcases usable : derivation? S account.keys (Extra.parse p.tx.extra).1 with - | d
  · exact History.remembers_forget usable h
  · obtain ⟨own, owned, -⟩ := scannable d usable
    simp only [owned, Except.toOption, Option.getD_some]
    exact History.remembers_settled ⟨usable, owned⟩ (length d own ⟨usable, owned⟩) h

/-- The positions that are found are those of the own outputs. -/
theorem Finds.owned_eq {d : KeyDerivation} {own : List Nat} (finds : Finds S account p.tx d own) :
    own = Reading.owned S account p.tx := by
  unfold Reading.owned
  rw [finds.usable]
  exact ownOutputs_eq finds.owned

/-- The key images of a remembered transaction are known. -/
theorem contains_of_remembers (remembers : h.Remembers S account p)
    (scannable : Scannable S account p.tx) {image : KeyImage}
    (mem : image ∈ images S account p.tx) : h.keyImages.contains image = true := by
  unfold images at mem
  split at mem
  · cases mem
  next some_sum =>
  obtain ⟨i, is_owned, at_i⟩ := List.mem_filterMap.mp mem
  obtain ⟨d, usable, known⟩ := Option.bind_eq_some_iff.mp at_i
  obtain ⟨out, here, known⟩ := Option.bind_eq_some_iff.mp known
  obtain ⟨spend, spendable, -⟩ := Option.bind_eq_some_iff.mp known
  obtain ⟨own, is_own, derivable⟩ := scannable d usable
  have finds : Finds S account p.tx d own := ⟨usable, is_own⟩
  have worth : Worth p.tx own := by
    rw [finds.owned_eq]
    exact (worth_iff p.tx).mpr some_sum
  rw [← finds.owned_eq] at is_owned
  obtain ⟨found, computed⟩ := derivable worth i is_owned out here
  -- the account is a full one, and computes this very image
  have same : found = some image := by
    rcases keyImageOf_cases S computed with ⟨none, -⟩ | ⟨_, _, k, -, -, -, -, rfl⟩
    · cases none.symm.trans spendable
    · rw [← at_i, imageAt?_of_keyImageOf usable here computed]
  have recorded := remembers.recorded d own finds worth i is_owned out here found computed
  rw [same] at recorded
  exact recorded

/-- Taking in own outputs adds their key images to the index. -/
theorem keyImages_receiveAll {found : List Receipt} {k : KeyImage} {i : Nat}
    (known : (found.foldl History.receive h).keyImages[k]? = some i) :
    h.keyImages[k]? = some i ∨ ∃ r ∈ found, r.image = some k := by
  induction found generalizing h with
  | nil => exact .inl known
  | cons first rest ih =>
    rw [List.foldl_cons] at known
    -- the rest brought it, the first output did, or it was there
    rcases ih known with now | ⟨r, mem, is_image⟩
    · by_cases recorded : h.isRecorded first.image first.transfer.txHash
          first.transfer.outputIndex = true
      · rw [History.receive_of_recorded recorded] at now
        exact .inl now
      · rw [History.receive_of_new recorded] at now
        rcases own : first.image with - | image
        · rw [own] at now
          exact .inl now
        · rw [own] at now
          have inserted : (h.keyImages.insert image h.transfers.length)[k]? = some i := now
          rw [Std.ExtTreeMap.getElem?_insert] at inserted
          split at inserted
          · next same =>
            refine .inr ⟨first, List.mem_cons_self, ?_⟩
            rw [own, Std.LawfulEqOrd.compare_eq_iff_eq.mp same]
          · exact .inl inserted
    · exact .inr ⟨r, List.mem_cons_of_mem first mem, is_image⟩

/-- A scan adds the key images of the transaction to the index. -/
theorem keyImages_reread (scannable : Scannable S account p.tx) {indices : Hash → List UInt64}
    {image : KeyImage} {i : Nat}
    (known : (reread S account indices h p).keyImages[image]? = some i) :
    h.keyImages[image]? = some i ∨ image ∈ images S account p.tx := by
  unfold reread at known
  rcases usable : derivation? S account.keys (Extra.parse p.tx.extra).1 with - | d <;>
    rw [usable] at known
  · exact .inl known
  -- only the outputs that are taken in bring an image
  obtain ⟨own, is_own, -⟩ := scannable d usable
  have finds : Finds S account p.tx d own := ⟨usable, is_own⟩
  simp only [is_own, Except.toOption, Option.getD_some] at known
  rw [keyImages_settled] at known
  rcases keyImages_receiveAll known with before | ⟨r, mem, is_image⟩
  · exact .inl before
  · unfold brought at mem
    split at mem
    · next worth =>
      obtain ⟨j, is_owned, found⟩ := List.mem_filterMap.mp mem
      obtain ⟨⟨out, g⟩, zip, found⟩ := Option.bind_eq_some_iff.mp found
      obtain ⟨computed?, computed, rfl⟩ := Option.map_eq_some_iff.mp found
      obtain rfl : computed? = some image := is_image
      have here : p.tx.outputs[j]? = some out := (List.getElem?_zip_eq_some.mp zip).1
      rw [finds.owned_eq] at worth is_owned
      refine .inr ?_
      unfold images
      rw [if_neg ((worth_iff p.tx).mp worth)]
      exact List.mem_filterMap.mpr ⟨j, is_owned,
        imageAt?_of_keyImageOf usable here (Except.toOption_eq_some.mp computed)⟩
    · cases mem

/-! ### A run of scans -/

/-- An output that an earlier transaction spends was known before the scan that brings it again. -/
theorem contains_of_spendsInOrder {past : List Placed}
    (order : SpendsInOrder S account h (past ++ [p]))
    (kept : ∀ (image : KeyImage) (i : Nat), h.keyImages[image]? = some i →
      h'.keyImages[image]? = some i)
    (remembered : ∀ q ∈ past, Scannable S account q.tx ∧ h'.Remembers S account q) {q : Placed}
    (mem : q ∈ past) {image : KeyImage} (input : image ∈ q.tx.inputs.filterMap TxIn.keyImage?)
    (brought : image ∈ images S account p.tx) : h'.keyImages.contains image = true := by
  -- the place of the transaction that spends, by which the order is told
  obtain ⟨n, at_n⟩ := List.mem_iff_getElem?.mp mem
  have inside := (List.getElem?_eq_some_iff.mp at_n).1
  have numbered : (q, n) ∈ (past ++ [p]).zipIdx := by
    rw [List.mem_zipIdx_iff_getElem?, List.getElem?_append_left inside, at_n]
  have is_created : image ∈ created S account (past ++ [p]) :=
    List.mem_flatMap.mpr ⟨p, List.mem_append_right _ (List.mem_singleton_self p), brought⟩
  rcases order (q, n) numbered image input is_created with known | earlier
  · rw [Std.ExtTreeMap.contains_eq_isSome_getElem?, Option.isSome_iff_exists] at known ⊢
    obtain ⟨j, at_j⟩ := known
    exact ⟨j, kept image j at_j⟩
  · -- it was created before it was spent, by a transaction that is remembered
    rw [List.take_append_of_le_length inside] at earlier
    obtain ⟨r, first, creates⟩ := List.mem_flatMap.mp earlier
    obtain ⟨scannable, remembers⟩ := remembered r (List.mem_of_mem_take first)
    exact contains_of_remembers remembers scannable creates

/-- What the scans of some transactions leave. The index keeps pointing at its outputs, its entries
stay, and all transactions are remembered if none spends an output before it is created. -/
theorem Trail.remembers {txs : List Placed} (trail : Trail S account txs h h')
    (points : h.Points) (order : SpendsInOrder S account h txs) :
    h'.Points ∧
      (∀ (image : KeyImage) (i : Nat), h.keyImages[image]? = some i →
        h'.keyImages[image]? = some i) ∧
      ∀ p ∈ txs, Scannable S account p.tx ∧ h'.Remembers S account p := by
  induction trail with
  | refl h => exact ⟨points, fun _ _ known => known, by simp⟩
  | append id trail ih =>
    obtain ⟨points, kept, remembered⟩ := ih points order
    exact ⟨points, kept, fun p mem => (remembered p mem).imp_right fun r => r.withChain _⟩
  | @scan past h h' p indices scannable length trail ih =>
    obtain ⟨points', kept, remembered⟩ := ih points order.of_append
    have changes : Changes S [(p.txHash, p.tx)] p.height h'
        (reread S account (fun _ => indices) h' p) := changes_reread _ h' p
    have grows := changes.grows
    -- the transaction itself is remembered by scanning it, the earlier ones by what they keep
    refine ⟨points_of_changes changes points',
      fun image i known => grows.keyImages image i (kept image i known), ?_⟩
    rw [List.forall_mem_append, List.forall_mem_singleton]
    refine ⟨fun q mem => ?_, scannable, remembers_reread scannable length h'⟩
    obtain ⟨scannable_q, remembers⟩ := remembered q mem
    refine ⟨scannable_q, remembers.grows grows points' fun image input i at_image => ?_⟩
    rcases keyImages_reread scannable at_image with before | brought
    · exact before
    · have there := contains_of_spendsInOrder order kept remembered mem input brought
      rw [Std.ExtTreeMap.contains_eq_isSome_getElem?, Option.isSome_iff_exists] at there
      obtain ⟨j, at_j⟩ := there
      rw [← at_image, grows.keyImages image j at_j, at_j]

/-! ### The second time -/

variable {σ : Type} {env : Environment σ} {good : σ → Prop}

/-- The scan of a remembered transaction goes through, reports nothing, and leaves the wallet as it
is. -/
theorem exec_transaction_of_remembers {s : Session σ} (hgood : good s.env)
    (scannable : Scannable S s.wallet.account p.tx)
    (remembers : s.history.Remembers S s.wallet.account p)
    (responds : env.Responds good (p.txHash, p.tx)) :
    ∃ o t, exec (transaction S env p.tx p.txHash p.height) s = (.ok o, t) ∧ o.received = 0 ∧
      t.wallet = s.wallet ∧ good t.env := by
  obtain ⟨indices, e, later, length, answer⟩ := responds s.env hgood
  obtain ⟨o, t, run⟩ := exists_of_transaction S env scannable ⟨indices, e, length, answer⟩ p.height
  obtain ⟨wallet, received⟩ := wallet_of_remembers run scannable remembers
  refine ⟨o, t, run, received, wallet, ?_⟩
  -- the daemon was asked once at most
  obtain ⟨r, u, run', ends⟩ := exec_transaction S env p.tx p.txHash p.height s
  obtain ⟨rfl, rfl⟩ := Prod.mk.inj (run'.symm.trans run)
  cases ends with
  | passed unusable core => exact Session.env_of_core core ▸ hgood
  | @settled _ _ d own answered completed _ =>
    by_cases worth : Worth p.tx own
    · have asked := completed.asked worth
      rw [answer] at asked
      rw [← (Prod.mk.inj asked).2]
      exact later
    · rw [completed.idle worth]
      exact hgood

/-- The scans of remembered transactions go through, report nothing, and leave the wallet as it is.
-/
theorem exec_transactions_of_remembers {again : List Placed} {s : Session σ} (hgood : good s.env)
    (remembered : ∀ p ∈ again, Scannable S s.wallet.account p.tx ∧
      s.history.Remembers S s.wallet.account p)
    (responds : ∀ p ∈ again, env.Responds good (p.txHash, p.tx)) :
    ∃ outcomes t, exec (again.mapM fun p => transaction S env p.tx p.txHash p.height) s =
        (.ok outcomes, t) ∧ (∀ o ∈ outcomes, o.received = 0) ∧ t.wallet = s.wallet := by
  induction again generalizing s with
  | nil => exact ⟨[], s, rfl, by simp, rfl⟩
  | cons p rest ih =>
    rw [List.forall_mem_cons] at remembered responds
    -- the first transaction changes nothing, so the rest meets the same wallet
    obtain ⟨o, t, run, received, wallet, later⟩ := exec_transaction_of_remembers hgood
      remembered.1.1 remembered.1.2 responds.1
    have history : t.history = s.history := congrArg Wallet.history wallet
    obtain ⟨outcomes, u, runs, nothing, same⟩ := ih later
      (by rw [history, wallet]; exact remembered.2) responds.2
    refine ⟨o :: outcomes, u, ?_, ?_, same.trans wallet⟩
    · rw [List.mapM_cons, exec_bind_ok _ run, exec_bind_ok _ runs]
      rfl
    · rw [List.forall_mem_cons]
      exact ⟨received, nothing⟩

end Scan

namespace Sync

variable {S : Suite} {σ : Type} {env : Environment σ}

/-- The scans of a run leave a trail. -/
theorem tracked_trail (S : Suite) (env : Environment σ) (account : Account) (h₀ : History) :
    Tracked S env account fun past _ h => Trail S account past h₀ h where
  skip past e h p unreadable trail := by
    -- a transaction without a usable key is one that reads as forgotten
    have unusable : derivation? S account.keys (Extra.parse p.tx.extra).1 = none := by
      rwa [isReadable, Option.isSome_eq_false_iff, Option.isNone_iff_eq_none] at unreadable
    have skipped : reread S account (fun _ => []) h p = h.forget p.txHash := by
      unfold reread
      rw [unusable]
    rw [← skipped]
    refine .scan [] (fun d usable => ?_) (fun d own finds => ?_) trail
    · cases unusable.symm.trans usable
    · cases unusable.symm.trans finds.usable
  scan past e e' h p d own answered completed _ trail := by
    -- the indices of the completed scan are those the reading needs
    have told : reread S account (fun _ => answered) h p =
        settled S account.keys d p.tx p.txHash p.height answered own h := by
      unfold reread
      rw [completed.usable]
      simp only [completed.owned, Except.toOption, Option.getD_some]
    rw [← told]
    refine .scan answered (scannable_of_completed completed) (fun d' own' finds worth => ?_) trail
    obtain rfl := Option.some.inj (finds.usable.symm.trans completed.usable)
    obtain rfl := Except.ok.inj (finds.owned.symm.trans completed.owned)
    exact completed.length_eq worth
  append past e h id trail := .append id trail

end Sync

/-- A wallet scans the blocks of a chain in which no transaction spends an own output before it is
created. Then, from any height of it on, the transactions that it has scanned are scanned again, in
the same order and at the same heights, in any environment whose daemon tells an index for each of
their outputs. All scans go through and receive nothing, and the wallet is the same afterwards. -/
theorem rescan_of_addBlocks (S : Suite) {σ σ' : Type} (env : Environment σ) (env' : Environment σ')
    (good : σ' → Prop) (target : Option Hash) (blocks : List ParsedBlock) (s t : Session σ)
    (points : s.history.Points)
    (order : SpendsInOrder S s.wallet.account s.history
      (Sync.placed S s.wallet.account s.wallet.config s.history.height blocks))
    (run : exec (Sync.addBlocks S env target blocks) s = (.ok (), t)) (n : Nat)
    (responds : ∀ p ∈ Sync.placed S s.wallet.account s.wallet.config (s.history.height + n)
      (blocks.drop n), env'.Responds good (p.txHash, p.tx))
    (u : Session σ') (same : u.wallet = t.wallet) (hgood : good u.env) :
    ∃ outcomes v, exec ((Sync.placed S s.wallet.account s.wallet.config (s.history.height + n)
        (blocks.drop n)).mapM fun p => transaction S env' p.tx p.txHash p.height) u =
          (.ok outcomes, v) ∧
      (∀ o ∈ outcomes, o.received = 0) ∧ v.wallet = t.wallet := by
  obtain ⟨⟨h, wallet, -⟩, trail⟩ := Sync.addBlocks_tracked
    (Sync.tracked_trail S env s.wallet.account s.history) run rfl rfl (.refl s.history)
  obtain ⟨-, -, remembered⟩ := trail.remembers points order
  have account : u.wallet.account = s.wallet.account := by
    rw [same, wallet, Wallet.account_withHistory]
  have history : u.history = t.history := congrArg Wallet.history same
  rw [← same]
  refine exec_transactions_of_remembers hgood (fun p mem => ?_) responds
  rw [account, history]
  exact remembered p (Sync.mem_placed_of_mem_drop S mem)

namespace Rescanned

open SmallSuite

/-- A daemon that knows a chain in which the account receives a reward and spends it. -/
def server : ChainServer where
  blocks := [funding, spending]
  indices txHash := if txHash = (coinbase 1).hash .small then [] else [0]

/-- The daemon, after the outputs have got other indices. -/
def renumbered : ChainServer where
  blocks := server.blocks
  indices txHash := (server.indices txHash).map (· + 7)

/-- A new wallet. -/
def unread : Session Unit := { env := (), wallet := ⟨account, {}, {}⟩ }

/-- The wallet after it has scanned the chain. -/
def synced : Session Unit :=
  (exec (Sync.addBlocks .small server.environment none server.blocks) unread).2

end Rescanned

open Rescanned in
/-- The block in which the reward is spent is scanned again, and then the whole chain is. -/
theorem rescan_of_addBlocks_spending :
    unread.history.Points ∧
      SpendsInOrder .small SmallSuite.account unread.history
        (Sync.placed .small SmallSuite.account {} 0 server.blocks) ∧
      exec (Sync.addBlocks .small server.environment none server.blocks) unread = (.ok (), synced) ∧
      synced.history.transfers.map Transfer.spent = [true, false] ∧
      ∀ n, ∃ outcomes v, exec ((Sync.placed .small SmallSuite.account {} (0 + n)
          (server.blocks.drop n)).mapM fun p =>
            transaction .small renumbered.environment p.tx p.txHash p.height) synced =
          (.ok outcomes, v) ∧
        (∀ o ∈ outcomes, o.received = 0) ∧ v.wallet = synced.wallet := by
  have points : unread.history.Points := by
    intro image i found
    cases Std.ExtTreeMap.getElem?_empty.symm.trans found
  have order : SpendsInOrder .small SmallSuite.account unread.history
      (Sync.placed .small SmallSuite.account {} 0 server.blocks) := by
    unfold SpendsInOrder
    decide +kernel
  have run : exec (Sync.addBlocks .small server.environment none server.blocks) unread =
      (.ok (), synced) := exec_eq_ok (by decide +kernel)
  have lengths : ∀ p ∈ Sync.placed .small SmallSuite.account {} 0 server.blocks,
      (renumbered.indices p.txHash).length = p.tx.outputs.length := by decide +kernel
  refine ⟨points, order, run, by decide +kernel, fun n => ?_⟩
  refine rescan_of_addBlocks .small server.environment renumbered.environment (fun _ => True) none
    server.blocks unread synced points order run n (fun p mem e _ => ?_) synced rfl trivial
  exact ⟨_, e, trivial, lengths p (Sync.mem_placed_of_mem_drop .small mem), rfl⟩

end RingWallet
