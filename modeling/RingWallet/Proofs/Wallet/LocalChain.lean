import RingWallet.Proofs.Support.ChainServer

/-!
# Going on from the end of the chain

A refresh can ask the daemon for what comes after the wallet's own chain, at whatever height that
ends. The ids that the wallet knows are then never compared with those of the daemon: the chain
grows by the next blocks of the daemon (`History.Continued`), also when the two have split below its
end.

`Sync.continued_placeAll` says this of the blocks of one batch, `Sync.continued_pullBatch` of a
batch however it ends, and `Sync.continued_pullLoop` of a whole refresh. Therefore the known ids
agree with the chain of the daemon after such a refresh exactly if they did so before it
(`agreesWith_of_refreshFromLocalChain`). They do in a wallet that knows the first id at most, which
is how a wallet is rebuilt from a height (`History.agreesWith_assumeScanned`).
-/

set_option autoImplicit false

namespace RingWallet

open WalletM

/-- A daemon that is asked for blocks from a height on, other than the first, answers with the next
blocks of a chain, if it answers at all. It may send some of them only, but not none if there are
any. -/
def Environment.ServesFrom (S : Suite) {σ : Type} (env : Environment σ) (chain : List ParsedBlock) :
    Prop :=
  ∀ request e reply, 0 < request.startHeight →
    ((env.getBlocks request).run e).1 = .ok reply → reply.status = Daemon.okStatus →
    reply.startHeight = request.startHeight ∧ ∃ sent, sent <+: chain.drop request.startHeight ∧
      List.Forall₂ (fun entry b => Sync.parseEntry S entry = .ok b) reply.blocks sent ∧
      (sent = [] → chain.length ≤ request.startHeight)

namespace History

/-- Every id that is known is the one that a chain has at its height. -/
def AgreesWith (h : History) (chain : List ParsedBlock) : Prop :=
  ∀ (i : Nat) (id : Hash), h.chain[i]? = some id → id ≠ .null →
    (chain[i]?).map ParsedBlock.id = some id

/-- The chain has grown by the next blocks of another one. -/
def Continued (chain : List ParsedBlock) (h h' : History) : Prop :=
  ∃ added, added <+: chain.drop h.height ∧ h'.chain = h.chain ++ added.map ParsedBlock.id

variable {chain : List ParsedBlock} {h h' h'' : History}

/-- The first ids of a chain agree with it. -/
theorem agreesWith_of_prefix (part : h.chain <+: chain.map ParsedBlock.id) :
    h.AgreesWith chain := by
  intro i id at_i _
  obtain ⟨rest, eq⟩ := part
  rw [← List.getElem?_map, ← eq,
    List.getElem?_append_left (List.getElem?_eq_some_iff.mp at_i).1, at_i]

/-- Heights that count as scanned have no known ids. -/
theorem AgreesWith.assumeScanned (agrees : h.AgreesWith chain) (n : Nat) :
    (h.assumeScanned n).AgreesWith chain := by
  intro i id at_i known
  refine agrees i id ?_ known
  rw [History.assumeScanned] at at_i
  rcases Nat.lt_or_ge i h.chain.length with old | new
  · rwa [List.getElem?_append_left old] at at_i
  · rw [List.getElem?_append_right new] at at_i
    exact absurd (List.eq_of_mem_replicate (List.mem_of_getElem? at_i)) known

/-- The same chain is continued by nothing. -/
theorem Continued.of_chain_eq (same : h'.chain = h.chain) : h.Continued chain h' :=
  ⟨[], List.nil_prefix, by rw [same, List.map_nil, List.append_nil]⟩

/-- A chain that is continued is not shorter. -/
theorem Continued.height_le (continued : Continued chain h h') : h.height ≤ h'.height := by
  obtain ⟨added, -, eq⟩ := continued
  simp [History.height, eq]

/-- A chain that is continued twice is continued by both parts. -/
theorem Continued.trans (first : Continued chain h h') (second : Continued chain h' h'') :
    Continued chain h h'' := by
  obtain ⟨added, ⟨rest, eq⟩, grown⟩ := first
  obtain ⟨more, part, grown'⟩ := second
  refine ⟨added ++ more, ?_, by rw [grown', grown, List.map_append, List.append_assoc]⟩
  -- what comes after the first blocks is what the second ones are taken from
  have left : chain.drop h'.height = rest := by
    rw [History.height, grown, List.length_append, List.length_map, ← List.drop_drop,
      show h.chain.length = h.height from rfl, ← eq, List.drop_left]
  rw [left] at part
  rw [← eq]
  exact (List.prefix_append_right_inj added).mpr part

/-- New ids are those of the other chain, so agreement is up to the old ones. -/
theorem Continued.agreesWith_iff (continued : Continued chain h h') :
    h'.AgreesWith chain ↔ h.AgreesWith chain := by
  obtain ⟨added, ⟨rest, eq⟩, grown⟩ := continued
  constructor
  · intro agrees i id at_i
    refine agrees i id ?_
    rw [grown, List.getElem?_append_left (List.getElem?_eq_some_iff.mp at_i).1, at_i]
  · -- blocks that were known agree by assumption, the new ones are the chain's own blocks
    intro agrees i id at_i known
    rw [grown] at at_i
    rcases Nat.lt_or_ge i h.chain.length with old | new
    · rw [List.getElem?_append_left old] at at_i
      exact agrees i id at_i known
    · rw [List.getElem?_append_right new, List.getElem?_map] at at_i
      obtain ⟨b, here, rfl⟩ := Option.map_eq_some_iff.mp at_i
      have inside := (List.getElem?_eq_some_iff.mp here).1
      have there : (chain.drop h.height)[i - h.chain.length]? = some b := by
        rw [← eq, List.getElem?_append_left inside, here]
      rw [List.getElem?_drop, History.height, Nat.add_sub_cancel' new] at there
      rw [there, Option.map_some]

end History

namespace Sync

open Scan

/-- The next elements of a list: the first one, and the others after it. -/
theorem next_of_prefix_drop {α : Type} {all rest : List α} {a : α} {n : Nat}
    (part : a :: rest <+: all.drop n) : all[n]? = some a ∧ rest <+: all.drop (n + 1) := by
  obtain ⟨after, eq⟩ := part
  constructor
  · rw [← Nat.add_zero n, ← List.getElem?_drop, ← eq]
    rfl
  · rw [← List.drop_drop, ← eq]
    exact List.prefix_append rest after

variable {S : Suite} {σ : Type} {env : Environment σ} {chain : List ParsedBlock}

/-! ### Blocks at the end of the chain -/

/-- The next blocks of a chain are added one after the other, up to one that fails. -/
theorem continued_addBlocks {blocks : List ParsedBlock} {s t : Session σ}
    {r : Except WalletError Unit} (run : exec (addBlocks S env none blocks) s = (r, t))
    (part : blocks <+: chain.drop s.history.height) : s.history.Continued chain t.history := by
  induction blocks generalizing s with
  | nil =>
    obtain ⟨rfl, rfl⟩ := Prod.mk.inj run
    exact .of_chain_eq rfl
  | cons b rest ih =>
    rw [addBlocks, exec_bind_ok _ (exec_history s), exec_bind] at run
    rcases added : exec (addBlock S env b s.history.height none) s with ⟨e | ⟨⟩, u⟩
    · rw [added] at run
      obtain ⟨rfl, rfl⟩ := Prod.mk.inj run
      obtain ⟨h', changes, wallet⟩ := changes_of_addBlock_error added
      refine .of_chain_eq ?_
      rw [Session.history, wallet]
      exact changes.chain_eq
    · rw [added] at run
      obtain ⟨h', changes, wallet⟩ := changes_of_addBlock_ok added
      have grown : u.history.chain = s.history.chain ++ [b.id] := by
        rw [Session.history, wallet, ← changes.chain_eq]
        rfl
      -- the block is the next one, and the others are those after it
      have others : rest <+: chain.drop u.history.height := by
        rw [height_of_addBlock added]
        exact (next_of_prefix_drop part).2
      obtain ⟨after, eq⟩ := part
      have one : s.history.Continued chain u.history := ⟨[b], ⟨rest ++ after, eq⟩, grown⟩
      exact one.trans (ih run others)

/-- The next blocks of a chain, placed on top, continue it, however they end. All of them count. -/
theorem continued_placeAll {blocks : List ParsedBlock} {first : Bool} {s t : Session σ}
    {r : Except WalletError Nat}
    (run : exec (placeAll S env none s.history.height first blocks) s = (r, t))
    (part : blocks <+: chain.drop s.history.height) (open_end : s.summary.targetFound = false) :
    s.history.Continued chain t.history ∧ t.summary.targetFound = false ∧
      ∀ added, r = .ok added → added = blocks.length := by
  replace run := (exec_placeAll_on_top blocks first open_end).symm.trans run
  have still := keeps_open_end_addBlocks S env blocks s open_end
  rcases adds : exec (addBlocks S env none blocks) s with ⟨e | ⟨⟩, u⟩
  all_goals
    rw [adds] at run still
    obtain ⟨rfl, rfl⟩ := Prod.mk.inj run
    refine ⟨continued_addBlocks adds part, still, fun added eq => ?_⟩
  · cases eq
  · exact (Except.ok.inj eq).symm

/-- A batch from the end of the chain continues it, however it ends. It brings nothing only if there
is nothing left. -/
theorem continued_pullBatch (serves : env.ServesFrom S chain) {s t : Session σ}
    {r : Except WalletError Nat}
    (run : exec (pullBatch S env s.history.height none) s = (r, t))
    (above : 0 < s.history.height) (open_end : s.summary.targetFound = false) :
    s.history.Continued chain t.history ∧ t.summary.targetFound = false ∧
      (r = .ok 0 → chain.length ≤ t.history.height) := by
  rcases exec_pullBatch_cases S env none s.history.height s with
    ⟨error, e, failed⟩ | ⟨reply, e, answer, accepted⟩
  · -- a batch that failed changed nothing
    obtain ⟨rfl, rfl⟩ := Prod.mk.inj (failed.symm.trans run)
    exact ⟨.of_chain_eq rfl, open_end, by simp⟩
  · obtain ⟨start, sent, part, parsed, all⟩ :=
      serves _ s.env reply above (congrArg Prod.fst answer) accepted
    rw [exec_pullBatch_of_reply reply answer accepted parsed, start] at run
    obtain ⟨continued, still, counted⟩ :=
      continued_placeAll (s := { s with env := e }) run part open_end
    -- an empty answer means that the chain ends where the wallet does
    refine ⟨continued, still, fun none => ?_⟩
    have empty : sent = [] := List.length_eq_zero_iff.mp (counted 0 none).symm
    exact (all empty).trans continued.height_le

/-! ### Refreshes -/

/-- However the batches of a refresh from the end of the chain end, they continue it. If they
succeed nothing is left, or the wallet was asked to stop. -/
theorem continued_pullLoop (serves : env.ServesFrom S chain) {rounds : Nat} {first : Bool}
    {tries : Nat} {delay : Delay} {s t : Session σ} {r : Except WalletError Unit}
    (run : exec (pullLoop S env .localChain none rounds first tries delay) s = (r, t))
    (above : 0 < s.history.height) (open_end : s.summary.targetFound = false) :
    s.history.Continued chain t.history ∧
      (r = .ok () → t.stop = true ∨ chain.length ≤ t.history.height) := by
  induction rounds generalizing first tries delay s with
  | zero =>
    obtain ⟨rfl, rfl⟩ := Prod.mk.inj run
    exact ⟨.of_chain_eq rfl, by simp⟩
  | succ rounds ih =>
    rw [exec_pullLoop_succ] at run
    by_cases stop : (polled env s).stop = true
    · rw [if_pos stop] at run
      obtain ⟨rfl, rfl⟩ := Prod.mk.inj run
      exact ⟨.of_chain_eq rfl, fun _ => .inl stop⟩
    rw [if_neg stop] at run
    rcases batch : exec (pullBatch S env (polled env s).history.height none) (polled env s)
      with ⟨e | added, u⟩
    all_goals
      obtain ⟨continued, still, done⟩ := continued_pullBatch serves batch above open_end
      have higher : 0 < u.history.height := Nat.lt_of_lt_of_le above continued.height_le
      rw [show exec (pullBatch S env (batchStart .localChain first s) none) (polled env s) = _
        from batch] at run
      simp only [afterBatch] at run
      split at run
    -- the batch failed, and is tried again or not
    · obtain ⟨later, ended⟩ := ih run higher still
      exact ⟨continued.trans later, ended⟩
    · obtain ⟨rfl, rfl⟩ := Prod.mk.inj run
      exact ⟨continued, by simp⟩
    -- the batch was the last one, or not
    · next last =>
      obtain ⟨rfl, rfl⟩ := Prod.mk.inj run
      refine ⟨continued, fun _ => .inr (done ?_)⟩
      rw [still] at last
      rw [last.resolve_right Bool.false_ne_true]
    · obtain ⟨later, ended⟩ := ih run higher still
      exact ⟨continued.trans later, ended⟩

end Sync

open Sync

/-- A refresh from the end of the chain, of a wallet with any history that has a first id, succeeds
with a daemon that may fail in between but serves the blocks of a chain otherwise. The wallet keeps
its ids and has got the next ones of that chain, up to its end unless the wallet was asked to stop
before its batches ended. So the ids that it knows agree with that chain exactly if they did so
before: a split below the end of the wallet's chain is not noticed. -/
theorem agreesWith_of_refreshFromLocalChain (S : Suite) {σ : Type} (env : Environment σ)
    (chain : List ParsedBlock) (serves : env.ServesFrom S chain) (s t : Session σ)
    (summary : RefreshSummary) (known : 0 < s.history.height)
    (run : exec (refreshFromLocalChain S env) s = (.ok summary, t)) :
    s.history.Continued chain t.history ∧
      ((afterBatches S env none .localChain s).stop = true ∨ chain.length ≤ t.history.height) ∧
      (t.history.AgreesWith chain ↔ s.history.AgreesWith chain) := by
  obtain ⟨loop, -, rfl⟩ := eq_told_of_exec_pull S env none run
  obtain ⟨continued, ended⟩ := continued_pullLoop serves loop known rfl
  exact ⟨continued, ended rfl, continued.agreesWith_iff⟩

/-- The daemon that knows a chain serves its blocks from every height. -/
theorem ChainServer.servesFrom {S : Suite} {n : ChainServer}
    (legible : ∀ b ∈ n.blocks, Script.Legible S b) : n.environment.ServesFrom S n.blocks := by
  intro request e reply above answer _
  obtain rfl := Except.ok.inj answer
  have start : n.startOf request = request.startHeight := if_neg (Nat.ne_of_gt above)
  refine ⟨start, n.blocks.drop request.startHeight, List.prefix_rfl, ?_, List.drop_eq_nil_iff.mp⟩
  rw [← start]
  exact parsed_blocks legible _

/-! ### Two branches

The chain of the daemon splits after the first block from a shorter one. -/

namespace Branched

open SmallSuite

/-- A block with some transactions that pay nobody. Their number decides about its id. -/
def blockOf (txs : Nat) : ParsedBlock := block (coinbase 0) (.replicate txs (coinbase 1))

/-- The shorter branch, which the daemon has left. -/
def shorter : List ParsedBlock := [blockOf 0, blockOf 1]

def server : ChainServer where
  blocks := [blockOf 0, blockOf 2, blockOf 3]

/-- Every block of the daemon can be read. -/
theorem legible : ∀ b ∈ server.blocks, Script.Legible .small b := by
  have readable : (Transaction.ofBlob (coinbase 1).toBlob).toOption = some (coinbase 1) := by
    decide +kernel
  have all (n : Nat) (tx : Transaction) (mem : tx ∈ List.replicate n (coinbase 1)) :
      (Transaction.ofBlob tx.toBlob).toOption = some tx := by
    rw [List.eq_of_mem_replicate mem, readable]
  simp only [server, List.forall_mem_cons]
  exact ⟨Script.legible_block (by decide +kernel) (all 0),
    Script.legible_block (by decide +kernel) (all 2),
    Script.legible_block (by decide +kernel) (all 3), by simp⟩

/-- A wallet with some ids. -/
def knowing (ids : List Hash) : Session Unit where
  env := ()
  wallet := ⟨account, {}, { chain := ids }⟩

/-- The wallet after it has added what the daemon has beyond height 2. -/
def grown (ids : List Hash) : Session Unit :=
  (exec (placeAll .small server.environment none 2 true (server.blocks.drop 2))
    (started .localChain (knowing ids))).2

/-- A wallet with two ids gets the last block of the daemon. -/
theorem exec_refreshFromLocalChain_knowing (ids : List Hash) (two : ids.length = 2)
    (added : (exec (placeAll .small server.environment none 2 true (server.blocks.drop 2))
      (started .localChain (knowing ids))).1.toOption = some 1)
    (three : (grown ids).history.height = 3)
    (running : (grown ids).stop = false ∧ (grown ids).summary.targetFound = false) :
    exec (refreshFromLocalChain .small server.environment) (knowing ids) =
      (.ok (grown ids).summary, (grown ids).told
        (.refreshCompleted (grown ids).summary.blocksFetched (grown ids).wallet.height)) := by
  have height : (knowing ids).history.height = 2 := two
  refine ChainServer.exec_refreshFromLocalChain (fun _ => legible) (by omega) ?_ Nat.one_ne_zero
    running (by omega) (by rw [three]; exact Nat.le_refl 3)
  rw [height]
  exact exec_eq_ok added

end Branched

open Branched in
/-- A wallet that knows the first id and counts one more block as scanned. Afterwards it also knows
the third one. -/
theorem agreesWith_of_refreshFromLocalChain_padded :
    server.environment.ServesFrom .small server.blocks ∧
      0 < (knowing [(blockOf 0).id, .null]).history.height ∧
      ∃ summary t, exec (refreshFromLocalChain .small server.environment)
          (knowing [(blockOf 0).id, .null]) = (.ok summary, t) ∧
        t.history.chain.length = 3 ∧ t.history.AgreesWith server.blocks := by
  have run := exec_refreshFromLocalChain_knowing [(blockOf 0).id, .null] rfl (by decide +kernel)
    (by decide +kernel) (by decide +kernel)
  have serves := ChainServer.servesFrom legible
  obtain ⟨-, -, agrees⟩ := agreesWith_of_refreshFromLocalChain .small server.environment
    server.blocks serves _ _ _ (by decide) run
  refine ⟨serves, by decide, _, _, run, by decide +kernel, agrees.mpr ?_⟩
  have one : ({ chain := [(blockOf 0).id] } : History).AgreesWith server.blocks :=
    History.agreesWith_of_prefix (List.prefix_append [(blockOf 0).id] _)
  exact one.assumeScanned 2

open Branched in
/-- The wallet has taken in the shorter branch. Its last id stays, and the last id of the other
branch comes on top of it. -/
theorem mixed_of_refreshFromLocalChain :
    server.environment.ServesFrom .small server.blocks ∧
      shorter.head? = server.blocks.head? ∧ shorter.length < server.blocks.length ∧
      (knowing (shorter.map ParsedBlock.id)).history.AgreesWith shorter ∧
      ∃ summary t, exec (refreshFromLocalChain .small server.environment)
          (knowing (shorter.map ParsedBlock.id)) = (.ok summary, t) ∧
        t.history.chain = shorter.map ParsedBlock.id ++
          (server.blocks.drop 2).map ParsedBlock.id ∧
        ¬ t.history.AgreesWith server.blocks := by
  have run := exec_refreshFromLocalChain_knowing (shorter.map ParsedBlock.id) rfl
    (by decide +kernel) (by decide +kernel) (by decide +kernel)
  have chain : (grown (shorter.map ParsedBlock.id)).history.chain =
      shorter.map ParsedBlock.id ++ (server.blocks.drop 2).map ParsedBlock.id := by decide +kernel
  refine ⟨ChainServer.servesFrom legible, rfl, by decide,
    History.agreesWith_of_prefix List.prefix_rfl, _, _, run, chain, fun agrees => ?_⟩
  -- the branches have different blocks at height 1
  have known : ((grown (shorter.map ParsedBlock.id)).history.chain)[1]? = some (blockOf 1).id := by
    rw [chain]
    rfl
  have same : some (blockOf 2).id = some (blockOf 1).id := agrees 1 _ known (by decide +kernel)
  exact absurd same (by decide +kernel)

end RingWallet
