import RingWallet.Proofs.Wallet.Chain
import RingWallet.Proofs.Wallet.Keeps

/-!
# Batches of decoded blocks

`Sync.placeAll` places blocks that are decoded already. `Sync.placeBlocks_eq` says that a batch
whose entries can all be decoded is placed in this way, and `Sync.exec_pullBatch_of_reply` that a
batch that the daemon sends is, so that no entry has to be looked at after that.

The blocks of a batch that starts at the end of the chain are added one after the other, if there is
no transaction to wait for (`Sync.exec_placeAll_on_top`).
-/

set_option autoImplicit false

namespace RingWallet

/-- The height of the first of some ids that stands in a chain. -/
def firstKnown? (chain : List ParsedBlock) (ids : List Hash) : Option Nat :=
  ids.findSome? fun id => chain.findIdx? (·.id = id)

namespace Sync

open Scan WalletM

variable (S : Suite) {σ : Type} (env : Environment σ) (target : Option Hash)

/-- Places decoded blocks, and counts those that were added. It ends early once the target was
seen. -/
def placeAll : (height : Nat) → (first : Bool) → List ParsedBlock → WalletM σ Nat
  | _, _, [] => return 0
  | height, first, b :: rest => do
    let added ← placeBlock S env b height first target
    let more ← if (← get).summary.targetFound then pure 0 else placeAll (height + 1) false rest
    return more + if added then 1 else 0

variable {S env target}

/-- Entries are placed as the blocks that they stand for. -/
theorem placeBlocks_eq {entries : List Daemon.BlockEntry} {blocks : List ParsedBlock}
    (parsed : List.Forall₂ (fun entry b => parseEntry S entry = .ok b) entries blocks)
    (height : Nat) (first : Bool) :
    placeBlocks S env target height first entries = placeAll S env target height first blocks := by
  induction parsed generalizing height first with
  | nil => rfl
  | cons known _ ih =>
    rw [placeBlocks, placeAll, known, ← ih]
    rfl

/-- The daemon answers a request for blocks, and they are placed. -/
theorem exec_pullBatch_of_reply {startHeight : Nat} {s : Session σ} (reply : Daemon.BlocksReply)
    {e : σ} {blocks : List ParsedBlock}
    (answer : (env.getBlocks
      { blockIds := s.history.fingerprint.map Hash.hex, startHeight }).run s.env = (.ok reply, e))
    (accepted : reply.status = Daemon.okStatus)
    (parsed : List.Forall₂ (fun entry b => parseEntry S entry = .ok b) reply.blocks blocks) :
    exec (pullBatch S env startHeight target) s =
      exec (placeAll S env target reply.startHeight true blocks) { s with env := e } := by
  unfold pullBatch
  rw [exec_bind_ok _ (exec_history s)]
  -- what comes before the blocks changes the environment alone
  have asked : exec (ask (env.getBlocks
      { blockIds := s.history.fingerprint.map Hash.hex, startHeight })) s =
      (.ok reply, { s with env := e }) := by
    rw [exec_ask, answer]
    rfl
  have checked : exec (checkStatus .blocks reply.status) { s with env := e } =
      (.ok (), { s with env := e }) := by
    rw [exec_checkStatus, statusResult_eq_ok.mpr accepted]
  rw [exec_bind_ok _ asked, exec_bind_ok _ checked, placeBlocks_eq parsed]

/-- A batch fails without a trace in the wallet, or the daemon has accepted the request. -/
theorem exec_pullBatch_cases (S : Suite) (env : Environment σ) (target : Option Hash)
    (startHeight : Nat) (s : Session σ) :
    (∃ error e, exec (pullBatch S env startHeight target) s = (.error error, { s with env := e })) ∨
      ∃ reply e, (env.getBlocks
          { blockIds := s.history.fingerprint.map Hash.hex, startHeight }).run s.env =
          (.ok reply, e) ∧ reply.status = Daemon.okStatus := by
  -- the daemon may not answer at all, or with a status that is not good
  rcases answer : (env.getBlocks
    { blockIds := s.history.fingerprint.map Hash.hex, startHeight }).run s.env
    with ⟨error | reply, e⟩
  · left
    have asked : exec (ask (env.getBlocks
        { blockIds := s.history.fingerprint.map Hash.hex, startHeight })) s =
        (.error (.ledger error), { s with env := e }) := by
      rw [exec_ask, answer]
      rfl
    refine ⟨.ledger error, e, ?_⟩
    unfold pullBatch
    rw [exec_bind_ok _ (exec_history s), exec_bind_error _ asked]
  · have asked : exec (ask (env.getBlocks
        { blockIds := s.history.fingerprint.map Hash.hex, startHeight })) s =
        (.ok reply, { s with env := e }) := by
      rw [exec_ask, answer]
      rfl
    rcases status : statusResult .blocks reply.status with error | ⟨⟩
    · have refused : exec (checkStatus .blocks reply.status) { s with env := e } =
          (.error error, { s with env := e }) := by
        rw [exec_checkStatus, status]
      refine .inl ⟨error, e, ?_⟩
      unfold pullBatch
      rw [exec_bind_ok _ (exec_history s), exec_bind_ok _ asked, exec_bind_error _ refused]
    · exact .inr ⟨reply, e, rfl, statusResult_eq_ok.mp status⟩

/-- The first block that is placed, and the others if the target was not seen. -/
theorem exec_placeAll_cons {height : Nat} {first added : Bool} {b : ParsedBlock}
    {rest : List ParsedBlock} {s t : Session σ}
    (run : exec (placeBlock S env b height first target) s = (.ok added, t))
    (open_end : t.summary.targetFound = false) :
    exec (placeAll S env target height first (b :: rest)) s =
      exec (do return (← placeAll S env target (height + 1) false rest) +
        if added then 1 else 0) t := by
  rw [placeAll, exec_bind_ok _ run, exec_bind_ok _ (exec_get t)]
  simp only [open_end, Bool.false_eq_true, if_false]

/-- A first block that brings nothing is passed over. -/
theorem exec_placeAll_passed {height : Nat} {first : Bool} {b : ParsedBlock}
    {rest : List ParsedBlock} {s t : Session σ}
    (run : exec (placeBlock S env b height first target) s = (.ok false, t))
    (open_end : t.summary.targetFound = false) :
    exec (placeAll S env target height first (b :: rest)) s =
      exec (placeAll S env target (height + 1) false rest) t := by
  rw [exec_placeAll_cons run open_end]
  simp only [Bool.false_eq_true, if_false, Nat.add_zero, bind_pure]

/-- A block that the wallet knows is passed over. -/
theorem exec_placeBlock_known {b : ParsedBlock} {height : Nat} {first : Bool} {s : Session σ}
    (known : s.history.chain[height]? = some b.id) :
    exec (placeBlock S env b height first target) s = (.ok false, s) := by
  unfold placeBlock
  rw [exec_bind_ok _ (exec_history s)]
  simp only [known, if_true]
  rfl

/-- A block whose id the wallet does not know gives it its id. -/
theorem exec_placeBlock_unknown {b : ParsedBlock} {height : Nat} {first : Bool} {s : Session σ}
    (unknown : s.history.chain[height]? = some .null) (named : b.id ≠ .null) :
    exec (placeBlock S env b height first target) s =
      (.ok false, s.withHistory { s.history with chain := s.history.chain.set height b.id }) := by
  unfold placeBlock
  rw [exec_bind_ok _ (exec_history s)]
  simp only [unknown, Ne.symm named, if_false]
  rfl

/-- Blocks that the wallet knows are passed over; what comes after them is not first. -/
theorem exec_placeAll_known {below above : List Hash} {blocks rest : List ParsedBlock}
    {first : Bool} {s : Session σ}
    (chain : s.history.chain = below ++ (blocks.map ParsedBlock.id ++ above))
    (open_end : s.summary.targetFound = false) :
    exec (placeAll S env target below.length first (blocks ++ rest)) s =
      exec (placeAll S env target (below.length + blocks.length) (first && blocks.isEmpty) rest)
        s := by
  induction blocks generalizing below first with
  | nil => simp
  | cons b blocks ih =>
    have known : s.history.chain[below.length]? = some b.id := by
      rw [chain, List.getElem?_append_right (Nat.le_refl _), Nat.sub_self]
      rfl
    have later := @ih (below ++ [b.id]) false (by simpa using chain)
    rw [List.length_append, List.length_singleton] at later
    rw [List.cons_append, exec_placeAll_passed (exec_placeBlock_known known) open_end, later]
    -- of the known blocks only the first one of all can be the first of the batch
    rw [List.length_cons, List.isEmpty_cons, Bool.and_false, Bool.false_and, Nat.add_assoc,
      Nat.add_comm 1]

/-- A session whose chain was cut back, which was told. -/
def cut (n : Nat) (s : Session σ) : Session σ :=
  (s.withHistory (s.history.detach n)).told (.reorg n (s.history.height - n))

/-- Where the chains split the chain is cut back, and the block is added to the end of the rest. -/
theorem exec_placeAll_split {b : ParsedBlock} {rest : List ParsedBlock} {height : Nat} {id : Hash}
    {s : Session σ} (other : s.history.chain[height]? = some id) (differ : id ≠ b.id)
    (known : id ≠ .null) :
    exec (placeAll S env target height false (b :: rest)) s =
      exec (placeAll S env target height false (b :: rest)) (cut height s) := by
  have below : height < s.history.height := (List.getElem?_eq_some_iff.mp other).1
  have on_top : height = (cut height s).history.height := by
    show height = (s.history.chain.take height).length
    rw [List.length_take]
    unfold History.height at below
    omega
  -- after the cut the block is the next one, so that it is added there
  have split : exec (placeBlock S env b height false target) s =
      exec (placeBlock S env b height false target) (cut height s) := by
    have added := exec_placeBlock_on_top S env target b false (cut height s)
    rw [← on_top] at added
    rw [added]
    unfold placeBlock
    rw [exec_bind_ok _ (exec_history s)]
    simp only [other]
    rw [if_neg differ, if_neg (by simpa [Hash.isNull] using known)]
    rfl
  rw [placeAll, exec_bind, exec_bind, split]

/-! ### Batches at the end of the chain -/

/-- The scan of a block writes into the summary what it received, and nothing else. -/
theorem summary_scanBlock (S : Suite) (env : Environment σ) (b : ParsedBlock) (height : Nat)
    (s : Session σ) :
    (scanBlock S env b height s).2.summary.targetFound = s.summary.targetFound ∧
      (scanBlock S env b height s).2.summary.blocksFetched = s.summary.blocksFetched := by
  let P (t : Session σ) : Prop := t.summary.targetFound = s.summary.targetFound ∧
    t.summary.blocksFetched = s.summary.blocksFetched
  have framed : Framed env P :=
    ⟨fun _ _ _ same => same, fun _ _ same => same, fun _ _ same => same⟩
  have noted (t : Session σ) (summary : RefreshSummary)
      (found : summary.targetFound = t.summary.targetFound)
      (fetched : summary.blocksFetched = t.summary.blocksFetched) (same : P t) :
      P { t with summary } := ⟨found.trans same.1, fetched.trans same.2⟩
  exact keeps_scanBlock (fun txHash tx => framed.transaction S env tx txHash height) noted b
    ⟨rfl, rfl⟩

/-- A block that fails finds nothing and is not counted. -/
theorem summary_of_addBlock_error {b : ParsedBlock} {height : Nat} {s t : Session σ}
    {e : WalletError} (run : exec (addBlock S env b height target) s = (.error e, t)) :
    t.summary.targetFound = s.summary.targetFound ∧
      t.summary.blocksFetched = s.summary.blocksFetched := by
  have same := summary_scanBlock S env b height s
  rw [exec_addBlock] at run
  rcases scanned : scanBlock S env b height s with ⟨e' | ⟨⟩, u⟩
  · rw [scanned] at run same
    obtain rfl := (Prod.mk.inj run).2
    exact same
  · rw [scanned] at run
    cases run

/-- A block does not end a refresh that has no target. -/
theorem open_end_addBlock {b : ParsedBlock} {height : Nat} {s t : Session σ}
    {r : Except WalletError Unit} (run : exec (addBlock S env b height none) s = (r, t))
    (open_end : s.summary.targetFound = false) : t.summary.targetFound = false := by
  have scan := (summary_scanBlock S env b height s).1.trans open_end
  rw [exec_addBlock] at run
  rcases scanned : scanBlock S env b height s with ⟨e | ⟨⟩, u⟩
  · rw [scanned] at run scan
    obtain rfl := (Prod.mk.inj run).2
    exact scan
  · rw [scanned] at run scan
    obtain rfl := (Prod.mk.inj run).2
    rw [summary_appended_none]
    exact scan

/-- Blocks that are added with no target in sight find none. -/
theorem keeps_open_end_addBlocks (S : Suite) (env : Environment σ) (blocks : List ParsedBlock) :
    Keeps (fun s : Session σ => s.summary.targetFound = false) (addBlocks S env none blocks) := by
  induction blocks with
  | nil => exact fun s open_end => open_end
  | cons b rest ih =>
    rw [addBlocks]
    refine .then (fun s open_end => open_end) fun h => ?_
    exact .then (fun s open_end => open_end_addBlock rfl open_end) fun _ => ih

/-- If no target ends the batch early, the blocks of one that starts at the end of the chain are
added one after the other. -/
theorem exec_placeAll_on_top (blocks : List ParsedBlock) (first : Bool) {s : Session σ}
    (open_end : s.summary.targetFound = false) :
    exec (placeAll S env none s.history.height first blocks) s =
      match exec (addBlocks S env none blocks) s with
      | (.ok _, t) => (.ok blocks.length, t)
      | (.error e, t) => (.error e, t) := by
  induction blocks generalizing s first with
  | nil => rfl
  | cons b rest ih =>
    rw [addBlocks, exec_bind_ok _ (exec_history s), exec_bind]
    have on_top := exec_placeBlock_on_top S env none b first s
    rcases added : exec (addBlock S env b s.history.height none) s with ⟨e | ⟨⟩, t⟩
    · -- a block that fails ends both loops
      rw [exec_bind_error _ added] at on_top
      rw [placeAll, exec_bind_error _ on_top]
    · have still := open_end_addBlock added open_end
      rw [exec_bind_ok _ added] at on_top
      rw [exec_placeAll_cons on_top still, ← height_of_addBlock added, exec_bind, ih false still]
      simp only []
      rcases exec (addBlocks S env none rest) t with ⟨e | ⟨⟩, u⟩
      · rfl
      · rfl

/-! ### A refresh in two batches -/

/-- A refresh that has its new blocks in one batch, from any start. The second batch is not fetched
if the wallet was asked to stop meanwhile. -/
theorem exec_pull_of_batches {start : RefreshStart} {s t u : Session σ} {added : Nat}
    (begun : (polled env (started start s)).stop = false)
    (first : exec (pullBatch S env (batchStart start true (started start s)) target)
      (polled env (started start s)) = (.ok added, t))
    (some : added ≠ 0) (open_end : t.summary.targetFound = false)
    (second : exec (pullBatch S env (batchStart start false t) target) (polled env t) = (.ok 0, u))
    (rounds : 2 ≤ env.maxRounds) :
    let last := if (polled env t).stop then polled env t else u
    exec (pull S env start target) s = (.ok last.summary,
      last.told (.refreshCompleted last.summary.blocksFetched last.wallet.height)) := by
  obtain ⟨more, rounds⟩ : ∃ more, env.maxRounds = more + 1 + 1 :=
    ⟨env.maxRounds - 2, by omega⟩
  intro last
  -- the second batch adds nothing and ends the loop, if it is asked for at all
  have loop (delay : Delay) : exec (pullLoop S env start target env.maxRounds true 0 delay)
      (started start s) = (.ok (), last) := by
    rw [rounds, exec_pullLoop_succ, begun, first]
    simp only [afterBatch, some, open_end, Bool.false_eq_true, or_self, if_false]
    rw [exec_pullLoop_succ]
    by_cases stop : (polled env t).stop = true
    · rw [if_pos stop]
      exact congrArg _ (if_pos stop).symm
    · rw [if_neg stop, second]
      simp [afterBatch, last, stop]
  rw [exec_pull, loop]

/-- Such a refresh that leaves its start to the daemon. -/
theorem exec_refresh_of_batches {s t u : Session σ} {added : Nat}
    (begun : (polled env (started (.fixed 0) s)).stop = false)
    (first : exec (pullBatch S env 0 none) (polled env (started (.fixed 0) s)) = (.ok added, t))
    (some : added ≠ 0) (open_end : t.summary.targetFound = false)
    (second : exec (pullBatch S env 0 none) (polled env t) = (.ok 0, u))
    (rounds : 2 ≤ env.maxRounds) :
    let last := if (polled env t).stop then polled env t else u
    exec (refresh S env) s = (.ok last.summary,
      last.told (.refreshCompleted last.summary.blocksFetched last.wallet.height)) := by
  unfold refresh
  exact exec_pull_of_batches begun first some open_end second rounds

end Sync

end RingWallet
