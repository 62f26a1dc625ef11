import RingWallet.Proofs.Support.ChainServer
import RingWallet.Proofs.Wallet.Detach
import RingWallet.Proofs.Wallet.Replay

/-!
# Following the daemon to another branch

A wallet has taken in one branch of the chain, and the daemon now serves another one. The
fingerprint of the wallet names a block below the fork, so that the answer starts with blocks that
the wallet knows, and the first block of the other branch is not the first one of the batch. So the
wallet is cut back to the fork and scans the other branch; the next batch brings nothing new.

After the cut the wallet is like a new one that has scanned the common blocks
(`Sync.alike_detach_of_addBlocks`), and so it ends up like a new one that has scanned the other
branch: `refresh_of_synced`.
-/

set_option autoImplicit false

namespace RingWallet

open History Scan WalletM

/-! ### Fingerprints -/

namespace History

variable {h : History}

/-- A fingerprint is made of ids of the chain. -/
theorem mem_chain_of_mem_fingerprint {id : Hash} (mem : id ∈ h.fingerprint) : id ∈ h.chain := by
  rcases List.mem_append.mp (List.mem_filter.mp mem).1 with known | first
  · obtain ⟨distance, -, here⟩ := List.mem_filterMap.mp known
    exact List.mem_of_getElem? here
  · exact List.mem_of_mem_take first

/-- The first id of the chain is in its fingerprint. -/
theorem head_mem_fingerprint {genesis : Hash} (first : h.chain.head? = some genesis)
    (known : genesis ≠ .null) : genesis ∈ h.fingerprint := by
  refine List.mem_filter.mpr ⟨List.mem_append_right _ ?_, by simpa [Hash.isNull] using known⟩
  obtain ⟨rest, chain⟩ := List.head?_eq_some_iff.mp first
  rw [chain]
  exact List.mem_cons_self

/-- Nothing is assumed to be scanned below height zero. -/
theorem assumeScanned_zero (h : History) : h.assumeScanned 0 = h := by
  unfold assumeScanned
  rw [Nat.zero_sub, List.replicate_zero, List.append_nil]

end History

/-! ### Branches -/

/-- Two branches of a chain. They begin with the same block, and an id that stands in both stands
for the same block, at the same height and above the same ids. The null id names no block. -/
structure Branches (old new : List ParsedBlock) : Prop where
  genesis : ∃ b, old.head? = some b ∧ new.head? = some b
  ne_null : ∀ b ∈ old, b.id ≠ .null
  eq_of_id_eq : ∀ b ∈ old, ∀ b' ∈ new, b.id = b'.id → b = b'
  place_eq : ∀ i j b b', old[i]? = some b → new[j]? = some b' → b.id = b'.id →
    i = j ∧ (old.take i).map ParsedBlock.id = (new.take j).map ParsedBlock.id

/-- Two chains share their first blocks, up to the fork. -/
theorem exists_fork (old new : List ParsedBlock)
    (same : ∀ b ∈ old, ∀ b' ∈ new, b.id = b'.id → b = b') :
    ∃ common dropped added, old = common ++ dropped ∧ new = common ++ added ∧
      ∀ b b', dropped.head? = some b → added.head? = some b' → b.id ≠ b'.id := by
  induction old generalizing new with
  | nil => exact ⟨[], [], new, rfl, rfl, by simp⟩
  | cons b old ih =>
    cases new with
    | nil => exact ⟨[], b :: old, [], rfl, rfl, by simp⟩
    | cons b' new =>
      -- the branches have a block in common as long as their ids agree
      by_cases agree : b.id = b'.id
      · obtain rfl := same b List.mem_cons_self b' List.mem_cons_self agree
        obtain ⟨common, dropped, added, rfl, rfl, differ⟩ := ih new fun x hx y hy =>
          same x (List.mem_cons_of_mem _ hx) y (List.mem_cons_of_mem _ hy)
        exact ⟨b :: common, dropped, added, rfl, rfl, differ⟩
      · refine ⟨[], b :: old, b' :: new, rfl, rfl, ?_⟩
        rintro x y ⟨⟩ ⟨⟩
        exact agree

/-- An id of the old branch that the new one has as well names a block below the fork. -/
theorem lt_fork_of_mem {common dropped added : List ParsedBlock}
    (branches : Branches (common ++ dropped) (common ++ added))
    (differ : ∀ b b', dropped.head? = some b → added.head? = some b' → b.id ≠ b'.id)
    {id : Hash} {height : Nat} (own : id ∈ (common ++ dropped).map ParsedBlock.id)
    (known : (common ++ added).findIdx? (·.id = id) = some height) : height < common.length := by
  obtain ⟨b', at_height, same⟩ : ∃ b', (common ++ added)[height]? = some b' ∧ b'.id = id := by
    obtain ⟨bound, here, -⟩ := List.findIdx?_eq_some_iff_getElem.mp known
    exact ⟨_, List.getElem?_eq_getElem bound, of_decide_eq_true here⟩
  obtain ⟨b, mem, own⟩ := List.mem_map.mp own
  obtain ⟨i, at_i⟩ := List.mem_iff_getElem?.mp mem
  obtain ⟨rfl, below⟩ := branches.place_eq i height b b' at_i at_height (own.trans same.symm)
  by_contra beyond
  -- otherwise the two blocks at the fork have the same id
  have agree : (common ++ dropped)[common.length]?.map ParsedBlock.id =
      (common ++ added)[common.length]?.map ParsedBlock.id := by
    rcases Nat.eq_or_lt_of_le (Nat.not_lt.mp beyond) with here | above
    · rw [here, at_i, at_height, Option.map_some, Option.map_some, own, same]
    · have ids := congrArg (fun ids => ids[common.length]?) below
      simpa only [List.getElem?_map, List.getElem?_take_of_lt above] using ids
  have bound : common.length < (common ++ dropped).length :=
    Nat.lt_of_le_of_lt (Nat.not_lt.mp beyond) (List.getElem?_eq_some_iff.mp at_i).1
  have bound' : common.length < (common ++ added).length :=
    Nat.lt_of_le_of_lt (Nat.not_lt.mp beyond) (List.getElem?_eq_some_iff.mp at_height).1
  rw [List.length_append] at bound bound'
  rw [List.getElem?_append_right (Nat.le_refl _), List.getElem?_append_right (Nat.le_refl _),
    Nat.sub_self] at agree
  cases dropped with
  | nil => simp at bound
  | cons x dropped =>
    cases added with
    | nil => simp at bound'
    | cons y added => exact differ x y rfl rfl (Option.some.inj agree)

/-- Ids of a chain, its first one among them, are found in a chain with the same first block. -/
theorem exists_firstKnown {chain : List ParsedBlock} {ids : List Hash} {genesis : ParsedBlock}
    (first : chain.head? = some genesis) (mem : genesis.id ∈ ids) :
    ∃ id ∈ ids, ∃ height, chain.findIdx? (·.id = id) = some height ∧
      firstKnown? chain ids = some height := by
  rcases found : firstKnown? chain ids with - | height
  · -- the first block is always known
    have unknown := List.findSome?_eq_none_iff.mp found genesis.id mem
    have missing := List.findIdx?_eq_none_iff.mp unknown genesis (List.mem_of_mem_head? first)
    simp at missing
  · obtain ⟨id, mem, known⟩ := List.exists_of_findSome?_eq_some found
    exact ⟨id, mem, height, known, rfl⟩

/-! ### Honest daemons -/

/-- A daemon that serves a chain and fails in no good state. It tells the indices of the outputs of
the chain. A request that leaves the start to it is answered with all blocks from the height of the
first id that it knows. Whether another task asks the wallet to stop makes no difference to it. -/
structure Environment.Honest (S : Suite) {σ : Type} (env : Environment σ) (good : σ → Prop)
    (chain : List ParsedBlock) (indices : Hash → List UInt64) : Prop where
  polled : ∀ e, good e → good (env.stopAsked.run e).2
  indexes : ∀ b ∈ chain, ∀ q ∈ Sync.allTransactions S b, env.Indexes good indices q
  blocks : ∀ e, good e → ∀ ids height, firstKnown? chain ids = some height →
    ∃ reply e', good e' ∧
      (env.getBlocks { blockIds := ids.map Hash.hex, startHeight := 0 }).run e = (.ok reply, e') ∧
      reply.status = Daemon.okStatus ∧ reply.startHeight = height ∧
      List.Forall₂ (fun entry b => Sync.parseEntry S entry = .ok b) reply.blocks
        (chain.drop height)

/-- The wallet has taken in a chain. It has the ids of the blocks, and it is like a new wallet that
has scanned those of them that it did not know from the start. -/
structure Wallet.Synced (S : Suite) (account : Account) (config : Config)
    (chain : List ParsedBlock) (indices : Hash → List UInt64) (w : Wallet) : Prop where
  own : w.account = account
  same : w.config = config
  chain_eq : w.history.chain = chain.map ParsedBlock.id
  scanned : ∃ (τ : Type) (env : Environment τ) (good : τ → Prop) (new read : Session τ),
    (∀ b ∈ chain, ∀ q ∈ Sync.allTransactions S b, env.Indexes good indices q) ∧ good new.env ∧
      Wallet.create account config = .ok new.wallet ∧
      exec (Sync.addBlocks S env none (chain.drop new.wallet.height)) new = (.ok (), read) ∧
      read.history.Alike w.history

namespace Sync

variable {S : Suite} {σ : Type} {env : Environment σ} {good : σ → Prop} {account : Account}
  {config : Config} {chain : List ParsedBlock} {indices : Hash → List UInt64}

/-! ### Batches of an honest daemon -/

/-- The answer of an honest daemon is placed. -/
theorem exec_pullBatch_of_honest (honest : env.Honest S good chain indices) {s : Session σ}
    (ready : s.Ready good account config) {height : Nat}
    (start : firstKnown? chain s.history.fingerprint = some height) :
    ∃ e, good e ∧ exec (pullBatch S env 0 none) s =
      exec (placeAll S env none height true (chain.drop height)) { s with env := e } := by
  obtain ⟨reply, e, later, answer, accepted, rfl, parsed⟩ :=
    honest.blocks s.env ready.good s.history.fingerprint height start
  exact ⟨e, later, exec_pullBatch_of_reply reply answer accepted parsed⟩

/-- A look at the flag leaves the wallet ready. -/
theorem ready_polled (honest : env.Honest S good chain indices) {s : Session σ}
    (ready : s.Ready good account config) : (polled env s).Ready good account config :=
  ⟨honest.polled s.env ready.good, ready.own, ready.same, ready.open_end⟩

/-- Blocks at the end of the chain are added, and counted. -/
theorem succeeds_placeAll {blocks : List ParsedBlock}
    (indexes : ∀ b ∈ blocks, ∀ q ∈ allTransactions S b, env.Indexes good indices q)
    (known : ∀ b ∈ blocks, ∀ q ∈ allTransactions S b, Scannable S account q.2)
    {s : Session σ} (ready : s.Ready good account config) (first : Bool) :
    ∃ t, exec (placeAll S env none s.history.height first blocks) s = (.ok blocks.length, t) ∧
      exec (addBlocks S env none blocks) s = (.ok (), t) ∧ t.Ready good account config := by
  have scannable : ∀ p ∈ placed S account config s.history.height blocks,
      Scannable S account p.tx := by
    intro p mem
    obtain ⟨-, b, hb, hq⟩ := of_mem_placed mem
    exact known b hb _ hq
  obtain ⟨t, adds, last⟩ := succeeds_addBlocks indexes ready scannable
  refine ⟨t, ?_, adds, last⟩
  rw [exec_placeAll_on_top blocks first ready.open_end, adds]

/-- Blocks that the wallet knows are passed over. -/
theorem exec_placeAll_drop {known rest : List ParsedBlock} {s : Session σ} {above : List Hash}
    (ready : s.Ready good account config)
    (chain : s.history.chain = known.map ParsedBlock.id ++ above) {height : Nat}
    (bound : height ≤ known.length) :
    exec (placeAll S env none height true (known.drop height ++ rest)) s =
      exec (placeAll S env none known.length (known.drop height).isEmpty rest) s := by
  have parts : s.history.chain = (known.take height).map ParsedBlock.id ++
      ((known.drop height).map ParsedBlock.id ++ above) := by
    rw [chain, ← List.append_assoc, ← List.map_append, List.take_append_drop]
  have passed : exec (placeAll S env none ((known.take height).map ParsedBlock.id).length true
      (known.drop height ++ rest)) s = _ := exec_placeAll_known parts ready.open_end
  rwa [List.length_map, List.length_take_of_le bound, List.length_drop,
    Nat.add_sub_cancel' bound, Bool.true_and] at passed

/-- The blocks below the fork are passed over, and where the chains split the wallet is cut back. -/
theorem exec_placeAll_of_fork {common dropped added : List ParsedBlock} (longer : added ≠ [])
    (ne_null : ∀ b ∈ dropped, b.id ≠ .null)
    (differ : ∀ b b', dropped.head? = some b → added.head? = some b' → b.id ≠ b'.id)
    {s : Session σ} (ready : s.Ready good account config)
    (chain : s.history.chain = (common ++ dropped).map ParsedBlock.id)
    {height : Nat} (below : height < common.length) :
    ∃ base : Session σ, base.Ready good account config ∧
      base.history.chain = common.map ParsedBlock.id ∧
      (dropped = [] ∧ base.history = s.history ∨
        base.history = s.history.detach common.length) ∧
      exec (placeAll S env none height true ((common ++ added).drop height)) s =
        exec (placeAll S env none base.history.height false added) base := by
  have skip : exec (placeAll S env none height true ((common ++ added).drop height)) s =
      exec (placeAll S env none common.length false added) s := by
    have more : (common.drop height).isEmpty = false := by simpa using below
    rw [List.drop_append_of_le_length below.le,
      exec_placeAll_drop ready (chain.trans List.map_append) below.le, more]
  rw [skip]
  cases dropped with
  | nil =>
    -- the old chain ends at the fork
    have length : s.history.height = common.length := by
      rw [History.height, chain, List.append_nil, List.length_map]
    refine ⟨s, ready, ?_, .inl ⟨rfl, rfl⟩, by rw [length]⟩
    rw [chain, List.append_nil]
  | cons a dropped =>
    -- the wallet has another block at the height of the fork
    obtain ⟨b, added, rfl⟩ := List.exists_cons_of_ne_nil longer
    have other : s.history.chain[common.length]? = some a.id := by
      rw [chain, List.map_append, ← List.length_map ParsedBlock.id,
        List.getElem?_append_right (Nat.le_refl _), Nat.sub_self]
      rfl
    have short : (cut common.length s).history.chain = common.map ParsedBlock.id := by
      show s.history.chain.take common.length = _
      rw [chain, List.map_append]
      exact List.take_left' (List.length_map _)
    have length : (cut common.length s).history.height = common.length := by
      rw [History.height, short, List.length_map]
    refine ⟨cut common.length s, ?_, short, .inr rfl, ?_⟩
    · exact ⟨ready.good, ready.own, ready.same, ready.open_end⟩
    · rw [length]
      exact exec_placeAll_split other (differ a b rfl rfl) (ne_null a List.mem_cons_self)

/-- A batch of blocks that the wallet knows adds nothing. -/
theorem exec_placeAll_of_known {s : Session σ} (ready : s.Ready good account config)
    (known : s.history.chain = chain.map ParsedBlock.id) {height : Nat}
    (bound : height ≤ chain.length) :
    exec (placeAll S env none height true (chain.drop height)) s = (.ok 0, s) := by
  rw [← List.append_nil (chain.drop height),
    exec_placeAll_drop ready (known.trans (List.append_nil _).symm) bound]
  rfl

/-- The ids of the wallet tell an honest daemon where the two branches have come apart, so that a
refresh that nobody stops before its first batch goes over to the other branch in one batch. -/
theorem exec_refresh_of_fork {common dropped added : List ParsedBlock} (longer : added ≠ [])
    (branches : Branches (common ++ dropped) (common ++ added))
    (differ : ∀ b b', dropped.head? = some b → added.head? = some b' → b.id ≠ b'.id)
    (honest : env.Honest S good (common ++ added) indices)
    (scannable : ∀ b ∈ added, ∀ q ∈ allTransactions S b, Scannable S account q.2)
    (rounds : 2 ≤ env.maxRounds) {s : Session σ} (unstopped : (env.stopAsked.run s.env).1 = false)
    (ready : (started (.fixed 0) s).Ready good account config)
    (chain : s.history.chain = (common ++ dropped).map ParsedBlock.id) :
    ∃ (summary : RefreshSummary) (t base u : Session σ),
      exec (refresh S env) s = (.ok summary, t) ∧
      t.history.chain = (common ++ added).map ParsedBlock.id ∧
      base.Ready good account config ∧ base.history.height = common.length ∧
      (dropped = [] ∧ base.history = s.history ∨
        base.history = s.history.detach common.length) ∧
      exec (addBlocks S env none added) base = (.ok (), u) ∧ t.history = u.history := by
  obtain ⟨genesis, first_old, first_new⟩ := branches.genesis
  let first := polled env (started (.fixed 0) s)
  have begun : first.history = s.history := assumeScanned_zero s.history
  have not_null := branches.ne_null genesis (List.mem_of_mem_head? first_old)
  -- the first batch starts below the fork
  obtain ⟨e₁, good₁, height, below, batch⟩ : ∃ e, good e ∧ ∃ height, height < common.length ∧
      exec (pullBatch S env 0 none) first =
        exec (placeAll S env none height true ((common ++ added).drop height))
          { first with env := e } := by
    have head : first.history.chain.head? = some genesis.id := by
      rw [begun, chain, List.head?_map, first_old]
      rfl
    obtain ⟨id, mem, height, found, start⟩ :=
      exists_firstKnown first_new (head_mem_fingerprint head not_null)
    have own := mem_chain_of_mem_fingerprint mem
    rw [begun, chain] at own
    obtain ⟨e, later, batch⟩ := exec_pullBatch_of_honest honest (ready_polled honest ready) start
    exact ⟨e, later, height, lt_fork_of_mem branches differ own found, batch⟩
  have ready₁ : ({ first with env := e₁ } : Session σ).Ready good account config :=
    ⟨good₁, ready.own, ready.same, ready.open_end⟩
  obtain ⟨base, base_ready, base_chain, cut, places⟩ := exec_placeAll_of_fork longer
    (fun b mem => branches.ne_null b (List.mem_append_right _ mem)) differ ready₁
    ((congrArg History.chain begun).trans chain) below
  obtain ⟨u, placed, adds, ready₂⟩ := succeeds_placeAll
    (fun b mem => honest.indexes b (List.mem_append_right _ mem)) scannable base_ready false
  have taken : u.history.chain = (common ++ added).map ParsedBlock.id := by
    rw [(wallet_of_addBlocks adds).2, base_chain, List.map_append]
  -- the second batch brings nothing new
  obtain ⟨e₂, again⟩ : ∃ e, exec (pullBatch S env 0 none) (polled env u) =
      (.ok 0, { polled env u with env := e }) := by
    have head : u.history.chain.head? = some genesis.id := by
      rw [taken, List.head?_map, first_new]
      rfl
    obtain ⟨id, -, height, found, start⟩ :=
      exists_firstKnown first_new (head_mem_fingerprint head not_null)
    obtain ⟨bound, -⟩ := List.findIdx?_eq_some_iff_getElem.mp found
    obtain ⟨e, later, batch⟩ := exec_pullBatch_of_honest honest (ready_polled honest ready₂) start
    have ready₃ : ({ polled env u with env := e } : Session σ).Ready good account config :=
      ⟨later, ready₂.own, ready₂.same, ready₂.open_end⟩
    exact ⟨e, batch.trans (exec_placeAll_of_known ready₃ taken bound.le)⟩
  -- if the wallet is stopped before the second batch it has the other branch already
  have ended : (if (polled env u).stop then polled env u
      else { polled env u with env := e₂ }).history = u.history := by
    split
    · rfl
    · rfl
  have running : (polled env (started (.fixed 0) s)).stop = false := by
    show ((env.stopAsked.run s.env).1 || false) = false
    rw [unstopped, Bool.or_false]
  have run := exec_refresh_of_batches running (batch.trans (places.trans placed))
    (mt List.length_eq_zero_iff.mp longer) ready₂.open_end again rounds
  refine ⟨_, _, base, u, run, ?_, base_ready, ?_, ?_, adds, ended⟩
  · exact (congrArg History.chain ended).trans taken
  · rw [History.height, base_chain, List.length_map]
  · rwa [← begun]

/-! ### Cutting back, and scanning again -/

/-- A scan on top of a chain that is cut back to it leaves the wallet as it was, up to spent flags
and unconfirmed transactions. -/
theorem alike_detach_of_addBlocks
    (derivable : ∀ key secret, KeyImage.ofKeys S key secret ≠ .ok .null) {target : Option Hash}
    {blocks : List ParsedBlock} {s t : Session σ} (indexed : s.history.Indexed (· ≠ .null))
    (within : s.history.Within s.history.height)
    (run : exec (addBlocks S env target blocks) s = (.ok (), t)) :
    s.history.Alike (t.history.detach s.history.height) := by
  have start : Stacked s.history.height s.history [] s.history := by
    refine ⟨Nat.le_refl _, indexed, .refl _, ?_⟩
    intro i u here
    rw [here]
    exact congrArg some (Transfer.markIn_nil u).symm
  have stacked :=
    (addBlocks_induction (kept_stacked derivable s.wallet.account) run rfl rfl start).2
  refine ⟨?_, stacked.keyImages_detach within indexed, stacked.payments_detach within⟩
  rw [stacked.transfers_detach within, List.map_map]
  rfl

end Sync

variable {S : Suite} {account : Account} {config : Config}

/-- A new wallet knows nothing but the first block, at most. -/
theorem new_of_create {w : Wallet} (created : Wallet.create account config = .ok w) :
    w.account = account ∧ w.config = config ∧ w.height ≤ 1 := by
  obtain ⟨chain, low, rfl⟩ := eq_of_create created
  exact ⟨rfl, rfl, low⟩

/-- A new wallet that scans a branch scans its first blocks, and then the others from there on. -/
theorem Sync.split_addBlocks {σ : Type} {env : Environment σ} {good : σ → Prop}
    {common added : List ParsedBlock} {indices : Hash → List UInt64} {s t : Session σ}
    (created : Wallet.create account config = .ok s.wallet) (begins : 0 < common.length)
    (indexes : ∀ b ∈ common, ∀ q ∈ Sync.allTransactions S b, env.Indexes good indices q)
    (hgood : good s.env)
    (run : exec (Sync.addBlocks S env none ((common ++ added).drop s.wallet.height)) s =
      (.ok (), t)) :
    ∃ mid, exec (Sync.addBlocks S env none (common.drop s.wallet.height)) s = (.ok (), mid) ∧
      exec (Sync.addBlocks S env none added) mid = (.ok (), t) ∧
      mid.wallet.account = account ∧ mid.wallet.config = config ∧ good mid.env ∧
      mid.history.height = common.length ∧
      ((Sync.scanned S account config s.wallet.height (common.drop s.wallet.height)).foldl
        (reread S account indices) s.history).Alike mid.history := by
  obtain ⟨own, same, low⟩ := new_of_create created
  rw [List.drop_append_of_le_length (low.trans begins), Sync.exec_addBlocks_append] at run
  obtain ⟨mid, first, rest⟩ := run
  obtain ⟨wallet, chain⟩ := Sync.wallet_of_addBlocks first
  obtain ⟨later, alike⟩ := Sync.alike_of_addBlocks first own same
    (fun b mem => indexes b (List.mem_of_mem_drop mem)) hgood
  refine ⟨mid, first, rest, (congrArg Wallet.account wallet).trans own,
    (congrArg Wallet.config wallet).trans same, later, ?_, alike⟩
  rw [History.height, chain, List.length_append, List.length_map, List.length_drop]
  exact Nat.add_sub_cancel' (low.trans begins)

/-- A wallet that has taken in a branch, cut back to the fork, is like a new one that has scanned
the blocks below the fork. -/
theorem Wallet.Synced.alike_fork {common dropped : List ParsedBlock} {indices : Hash → List UInt64}
    {w new : Wallet} (synced : w.Synced S account config (common ++ dropped) indices)
    (derivable : ∀ key secret, KeyImage.ofKeys S key secret ≠ .ok .null)
    (begins : 0 < common.length) (created : Wallet.create account config = .ok new)
    {base : History}
    (cut : dropped = [] ∧ base = w.history ∨ base = w.history.detach common.length) :
    ((Sync.scanned S account config new.height (common.drop new.height)).foldl
      (reread S account indices) new.history).Alike base := by
  obtain ⟨τ, env, good, start, read, indexes, hgood, created', run, alike⟩ := synced.scanned
  obtain rfl : new = start.wallet := Except.ok.inj (created.symm.trans created')
  obtain ⟨own, same, -⟩ := new_of_create created
  obtain ⟨mid, first, rest, -, -, -, height, scans⟩ := Sync.split_addBlocks created begins
    (fun b mem => indexes b (List.mem_append_left _ mem)) hgood run
  refine scans.trans ?_
  rcases cut with ⟨rfl, rfl⟩ | rfl
  · -- the branch ends at the fork
    obtain rfl : mid = read := (Prod.mk.inj rest).2
    exact alike
  · -- what was scanned beyond the fork is taken back by the cut
    have new : start.wallet.history.Consistent S := consistent_create created
    obtain ⟨indexed, within⟩ := Sync.within_of_addBlocks first own same derivable new.indexed
      (within_create created _)
    have back := Sync.alike_detach_of_addBlocks derivable indexed within rest
    rw [height] at back
    exact back.trans (alike.detach common.length)

/-- A wallet has taken in one branch of the chain, and an honest daemon serves another one, which
does not end within the first one. Then a refresh that nobody stops before its first batch succeeds,
and the wallet has exactly the blocks of the other branch. Up to spent flags it has the outputs, and
it has the index and the payments, that a new wallet of the account finds when it scans that branch,
and this scan succeeds as well.

The indices of the outputs may be others in the new branch, except for those of the common blocks.
An account that cannot look into a transaction, because its keys do not belong together, cannot scan
it with a new wallet either (`Sync.scannable_of_addBlocks`). A verified account can look into all of
them (`Scan.scannable_of_verify`). -/
theorem refresh_of_synced (S : Suite) {σ : Type} (env : Environment σ) (good : σ → Prop)
    (derivable : ∀ key secret, KeyImage.ofKeys S key secret ≠ .ok .null)
    (account : Account) (config : Config) (old new : List ParsedBlock)
    (indices indices' : Hash → List UInt64) (branches : Branches old new)
    (grown : ¬ new.map ParsedBlock.id <+: old.map ParsedBlock.id)
    (honest : env.Honest S good new indices')
    (unchanged : ∀ b ∈ old, b ∈ new → ∀ q ∈ Sync.allTransactions S b, indices q.1 = indices' q.1)
    (scannable : ∀ b ∈ new, ∀ q ∈ Sync.allTransactions S b, Scannable S account q.2)
    (rounds : 2 ≤ env.maxRounds) (s : Session σ) (hgood : good s.env)
    (unstopped : (env.stopAsked.run s.env).1 = false)
    (synced : s.wallet.Synced S account config old indices) :
    ∃ summary t, exec (Sync.refresh S env) s = (.ok summary, t) ∧
      t.history.chain = new.map ParsedBlock.id ∧
      ∀ w e, good e → Wallet.create account config = .ok w → ∃ read : Session σ,
        exec (Sync.addBlocks S env none (new.drop w.height)) { env := e, wallet := w } =
            (.ok (), read) ∧
          t.history.transfers.map Transfer.unspent =
            read.history.transfers.map Transfer.unspent ∧
          t.history.keyImages = read.history.keyImages ∧
          t.history.payments = read.history.payments := by
  obtain ⟨common, dropped, added, rfl, rfl, differ⟩ :=
    exists_fork old new branches.eq_of_id_eq
  have longer : added ≠ [] := by
    rintro rfl
    refine grown ?_
    rw [List.append_nil, List.map_append]
    exact List.prefix_append _ _
  -- the chains have the first block in common
  obtain ⟨genesis, first_old, first_new⟩ := branches.genesis
  have begins : 0 < common.length := by
    by_contra none
    rw [List.length_pos_iff, not_not] at none
    rw [none] at first_old first_new
    exact differ genesis genesis first_old first_new rfl
  obtain ⟨summary, t, base, u, run, chain, ready, base_height, cut, adds, ended⟩ :=
    Sync.exec_refresh_of_fork longer branches differ honest
      (fun b mem => scannable b (List.mem_append_right _ mem)) rounds unstopped
      ⟨hgood, synced.own, synced.same, rfl⟩ synced.chain_eq
  refine ⟨summary, t, run, chain, ?_⟩
  -- a new wallet scans the branch without an error
  intro w e good_e created
  obtain ⟨own, same, -⟩ := new_of_create created
  have fresh : ({ env := e, wallet := w } : Session σ).Ready good account config :=
    ⟨good_e, own, same, rfl⟩
  have indexed := honest.indexes
  obtain ⟨read, scan, -⟩ : ∃ read, exec (Sync.addBlocks S env none
      ((common ++ added).drop w.height)) { env := e, wallet := w } = (.ok (), read) ∧
      read.Ready good account config := by
    refine Sync.succeeds_addBlocks (fun b mem => indexed b (List.mem_of_mem_drop mem)) fresh ?_
    intro p mem
    obtain ⟨-, b, hb, hq⟩ := Sync.of_mem_placed mem
    exact scannable b (List.mem_of_mem_drop hb) _ hq
  suffices alike : read.history.Alike t.history from
    ⟨read, scan, alike.transfers, alike.keyImages, alike.payments⟩
  -- the new wallet first scans the common blocks, and is then like the one that was cut back
  obtain ⟨mid, first, rest, mid_own, mid_same, good_mid, mid_height, common_scan⟩ :=
    Sync.split_addBlocks (s := { env := e, wallet := w }) created begins
      (fun b mem => indexed b (List.mem_append_left _ mem)) good_e scan
  have cut_back : mid.history.Alike base.history := by
    have agree : ∀ p ∈ Sync.scanned S account config w.height (common.drop w.height),
        indices p.txHash = indices' p.txHash := by
      intro p mem
      obtain ⟨-, b, hb, hq⟩ := Sync.of_mem_placed (List.mem_filter.mp mem).1
      have both := List.mem_of_mem_drop hb
      exact unchanged b (List.mem_append_left _ both) (List.mem_append_left _ both) _ hq
    have old_scan := synced.alike_fork derivable begins created cut
    rw [rereads_congr agree] at old_scan
    exact common_scan.symm.trans old_scan
  -- both scan the blocks after the fork
  have new_blocks : ∀ b ∈ added, ∀ q ∈ Sync.allTransactions S b, env.Indexes good indices' q :=
    fun b mem => indexed b (List.mem_append_right _ mem)
  have fresh_scan := (Sync.alike_of_addBlocks rest mid_own mid_same new_blocks good_mid).2
  have again := (Sync.alike_of_addBlocks adds ready.own ready.same new_blocks ready.good).2
  rw [mid_height, ← base_height] at fresh_scan
  rw [ended]
  exact fresh_scan.symm.trans ((alike_rereads cut_back _).trans again)

/-! ### A payment that moves to another block

A new wallet has scanned a chain of two blocks, the second of which pays it. The daemon goes over to
a chain in which that payment comes one block later. -/

/-- Chains whose ids are all different, apart from the common blocks, are branches. -/
theorem branches_of_nodup {common dropped added : List ParsedBlock} (begins : common ≠ [])
    (nodup : ((common ++ dropped ++ added).map ParsedBlock.id).Nodup)
    (ne_null : ∀ b ∈ common ++ dropped, b.id ≠ .null) :
    Branches (common ++ dropped) (common ++ added) := by
  -- an id of both branches stands below the fork, at the same height
  have place (i j : Nat) (b b' : ParsedBlock) (at_i : (common ++ dropped)[i]? = some b)
      (at_j : (common ++ added)[j]? = some b') (same : b.id = b'.id) :
      i = j ∧ i < common.length := by
    have bound : i < (common ++ dropped).length := (List.getElem?_eq_some_iff.mp at_i).1
    have left : ((common ++ dropped ++ added).map ParsedBlock.id)[i]? = some b.id := by
      rw [List.getElem?_map, List.getElem?_append_left bound, at_i]
      rfl
    have inside : i < ((common ++ dropped ++ added).map ParsedBlock.id).length :=
      (List.getElem?_eq_some_iff.mp left).1
    rcases Nat.lt_or_ge j common.length with below | above
    · have right : ((common ++ dropped ++ added).map ParsedBlock.id)[j]? = some b'.id := by
        rw [List.getElem?_append_left below] at at_j
        rw [List.getElem?_map, List.append_assoc, List.getElem?_append_left below, at_j]
        rfl
      obtain rfl := (List.getElem?_inj inside nodup).mp (left.trans (same ▸ right.symm))
      exact ⟨rfl, below⟩
    · have right : ((common ++ dropped ++ added).map ParsedBlock.id)[dropped.length + j]? =
          some b'.id := by
        rw [List.getElem?_append_right above] at at_j
        rw [List.getElem?_map, List.getElem?_append_right (by simp; omega), List.length_append,
          show dropped.length + j - (common.length + dropped.length) = j - common.length by omega,
          at_j]
        rfl
      have here := (List.getElem?_inj inside nodup).mp (left.trans (same ▸ right.symm))
      rw [List.length_append] at bound
      omega
  refine ⟨?_, ne_null, ?_, ?_⟩
  · obtain ⟨b, rest, rfl⟩ := List.exists_cons_of_ne_nil begins
    exact ⟨b, rfl, rfl⟩
  · intro b mem b' mem' same
    obtain ⟨i, at_i⟩ := List.mem_iff_getElem?.mp mem
    obtain ⟨j, at_j⟩ := List.mem_iff_getElem?.mp mem'
    obtain ⟨rfl, below⟩ := place i j b b' at_i at_j same
    rw [List.getElem?_append_left below] at at_i at_j
    exact Option.some.inj (at_i.symm.trans at_j)
  · intro i j b b' at_i at_j same
    obtain ⟨rfl, below⟩ := place i j b b' at_i at_j same
    rw [List.take_append_of_le_length below.le, List.take_append_of_le_length below.le]
    exact ⟨rfl, rfl⟩

/-- The daemon that knows a chain is honest. -/
theorem ChainServer.honest {S : Suite} {n : ChainServer}
    (legible : ∀ b ∈ n.blocks, Script.Legible S b)
    (lengths : ∀ b ∈ n.blocks, ∀ q ∈ Sync.allTransactions S b,
      (n.indices q.1).length = q.2.outputs.length) :
    n.environment.Honest S (fun _ => True) n.blocks n.indices where
  polled _ _ := trivial
  indexes b mem q hq := ⟨lengths b mem q hq, fun e _ => ⟨e, trivial, rfl⟩⟩
  blocks e _ ids height known := by
    have start : n.startOf { blockIds := ids.map Hash.hex, startHeight := 0 } = height := by
      simp only [startOf, if_true, heightOf?_map_hex, known, Option.getD_some]
    refine ⟨n.reply { blockIds := ids.map Hash.hex, startHeight := 0 }, e, trivial, rfl, rfl, start,
      ?_⟩
    show List.Forall₂ _ ((n.blocks.drop (n.startOf _)).map Script.entry) _
    rw [start]
    exact parsed_blocks legible height

namespace Moved

open SmallSuite

def first : ParsedBlock := SmallSuite.block (coinbase 0) []

def reward : Transaction := payment 3 10 [.generated 1]

def old : List ParsedBlock := [first, SmallSuite.block reward []]

/-- A chain in which the payment comes later. -/
def server : ChainServer where
  blocks := [first, SmallSuite.block (coinbase 1) [coinbase 2],
    SmallSuite.block (coinbase 3) [reward, coinbase 4]]
  indices txHash := if txHash = reward.hash .small then [0] else []

/-- A new wallet. -/
def unread : Session Unit := { env := (), wallet := ⟨SmallSuite.account, {}, {}⟩ }

/-- The wallet after it has scanned the first chain. -/
def synced : Session Unit := (exec (Sync.addBlocks .small server.environment none old) unread).2

end Moved

open Moved in
/-- After a refresh the wallet has the payment at its new height. -/
theorem refresh_of_synced_moved :
    (∀ key secret, KeyImage.ofKeys .small key secret ≠ .ok .null) ∧
      Branches old server.blocks ∧
      ¬ server.blocks.map ParsedBlock.id <+: old.map ParsedBlock.id ∧
      server.environment.Honest .small (fun _ => True) server.blocks server.indices ∧
      (∀ b ∈ server.blocks, ∀ q ∈ Sync.allTransactions .small b,
        Scannable .small SmallSuite.account q.2) ∧
      2 ≤ server.environment.maxRounds ∧
      (server.environment.stopAsked.run synced.env).1 = false ∧
      synced.wallet.Synced .small SmallSuite.account {} old server.indices ∧
      ∃ summary t, exec (Sync.refresh .small server.environment) synced = (.ok summary, t) ∧
        t.history.chain = server.blocks.map ParsedBlock.id ∧
        ∃ read, exec (Sync.addBlocks .small server.environment none server.blocks) unread =
            (.ok (), read) ∧
          t.history.transfers.map Transfer.unspent = read.history.transfers.map Transfer.unspent ∧
          t.history.keyImages = read.history.keyImages ∧
          t.history.payments = read.history.payments := by
  have legible : ∀ b ∈ server.blocks, Script.Legible .small b := by
    have readable : ∀ tx ∈ [reward, SmallSuite.coinbase 2, SmallSuite.coinbase 4],
        (Transaction.ofBlob tx.toBlob).toOption = some tx := by decide +kernel
    simp only [server, List.forall_mem_cons]
    refine ⟨Script.legible_block (by decide +kernel) (by simp),
      Script.legible_block (by decide +kernel) ?_, Script.legible_block (by decide +kernel) ?_,
      by simp⟩
    · exact fun tx mem => readable tx (by grind)
    · exact fun tx mem => readable tx (by grind)
  -- every transaction of both branches has as many indices as outputs
  have lengths : ∀ b ∈ old ++ server.blocks, ∀ q ∈ Sync.allTransactions .small b,
      (server.indices q.1).length = q.2.outputs.length := by
    decide +kernel
  have honest := ChainServer.honest legible fun b mem => lengths b (List.mem_append_right _ mem)
  have branches : Branches old server.blocks :=
    branches_of_nodup (List.cons_ne_nil first []) (by decide +kernel) (by decide +kernel)
  have grown : ¬ server.blocks.map ParsedBlock.id <+: old.map ParsedBlock.id :=
    fun part => absurd part.length_le (by decide)
  have run : exec (Sync.addBlocks .small server.environment none old) unread = (.ok (), synced) :=
    exec_eq_ok (by decide +kernel)
  -- the wallet has read the old branch, of which it was told the same indices
  have reads : synced.wallet.Synced .small SmallSuite.account {} old server.indices := by
    obtain ⟨wallet, chain⟩ := Sync.wallet_of_addBlocks run
    refine ⟨congrArg Wallet.account wallet, congrArg Wallet.config wallet, chain, Unit,
      server.environment, fun _ => True, unread, synced, ?_, trivial, rfl, run, .refl _⟩
    exact fun b mem q hq =>
      ⟨lengths b (List.mem_append_left _ mem) q hq, fun e _ => ⟨e, trivial, rfl⟩⟩
  have scannable (tx : Transaction) : Scannable .small SmallSuite.account tx :=
    scannable_of_verify Suite.small_decode?_encode Suite.small_mulBase_add (by decide +kernel)
      (by decide) tx
  have rounds : 2 ≤ server.environment.maxRounds := show 2 ≤ UInt64.size by decide
  obtain ⟨summary, t, refreshes, chain, same⟩ := refresh_of_synced .small server.environment
    (fun _ => True) Suite.small_ofKeys_ne_null SmallSuite.account {} old server.blocks
    server.indices server.indices branches grown honest (fun _ _ _ _ _ => rfl)
    (fun _ _ q _ => scannable q.2) rounds synced trivial rfl reads
  exact ⟨Suite.small_ofKeys_ne_null, branches, grown, honest, fun _ _ q _ => scannable q.2, rounds,
    rfl, reads, summary, t, refreshes, chain, same unread.wallet () trivial rfl⟩

end RingWallet
