import RingWallet.Proofs.Wallet.Keeps

/-!
# What a daemon cannot rewrite

A block can do three things to the chain (`Sync.ChainMove`): it takes the place of an unknown id, it
goes on top, or it cuts the chain back to its height, and the last only if it is not the first of
its batch. So the known ids stay up to the height at which the blocks of a reply start, and what
stands above it is what stood there before or comes from that reply (`Sync.Pinned`).

`Sync.pinned_pullBatch` says so of every batch, however it ends. A property of chains that such
replies keep is kept by every refresh (`Sync.Rooted.pull`), and `pinned_of_refreshes` draws the
conclusion that a known first id stays, whatever the daemon sends.
-/

set_option autoImplicit false

namespace RingWallet

open Relation WalletM

namespace Sync

/-! ### Chains -/

/-- What a block with some id does to the chain when it is placed at a height. -/
inductive ChainMove (height : Nat) (first : Bool) (id : Hash) : List Hash → List Hash → Prop
  | adopt {chain : List Hash} (unknown : chain[height]? = some .null) :
    ChainMove height first id chain (chain.set height id)
  | add {chain : List Hash} (on_top : chain.length = height) :
    ChainMove height first id chain (chain ++ [id])
  | cut {chain : List Hash} (later : first = false) (below : height < chain.length) :
    ChainMove height first id chain (chain.take height)

/-- What the blocks of a reply may do to the chain, from the height on at which they start. -/
structure Pinned (S : Suite) (start : Nat) (entries : List Daemon.BlockEntry)
    (chain chain' : List Hash) : Prop where
  below : ∀ n < start, chain'[n]? = chain[n]?
  at_start : ∀ id, id ≠ .null → chain[start]? = some id → chain'[start]? = some id
  length : start < chain.length → start < chain'.length
  /-- Every id is the old one at its height or that of the block of the reply there. -/
  source : ∀ n id, chain'[n]? = some id → chain[n]? = some id ∨
    start ≤ n ∧ ∃ entry b, entries[n - start]? = some entry ∧ parseEntry S entry = .ok b ∧ b.id = id

section

variable {S : Suite} {start : Nat} {entries : List Daemon.BlockEntry}
  {chain chain' chain'' : List Hash}

/-- A chain that stays as it is respects every reply. -/
theorem Pinned.refl : Pinned S start entries chain chain where
  below _ _ := rfl
  at_start _ _ known := known
  length := id
  source _ _ known := .inl known

/-- Known ids stay up to the start. -/
theorem Pinned.known (pinned : Pinned S start entries chain chain') {n : Nat} {id : Hash}
    (up_to : n ≤ start) (known : id ≠ .null) (here : chain[n]? = some id) :
    chain'[n]? = some id := by
  rcases Nat.eq_or_lt_of_le up_to with rfl | below
  · exact pinned.at_start id known here
  · rw [pinned.below n below]
    exact here

/-- A block of the reply, at its own height. -/
theorem Pinned.move (pinned : Pinned S start entries chain chain') {k : Nat} {first : Bool}
    {entry : Daemon.BlockEntry} {b : ParsedBlock} (here : entries[k]? = some entry)
    (parsed : parseEntry S entry = .ok b) (later : first = false → 0 < k)
    (move : ChainMove (start + k) first b.id chain' chain'') :
    Pinned S start entries chain chain'' := by
  have placed : start ≤ start + k ∧ ∃ entry b', entries[start + k - start]? = some entry ∧
      parseEntry S entry = .ok b' ∧ b'.id = b.id :=
    ⟨Nat.le_add_right start k, entry, b, by rwa [Nat.add_sub_cancel_left], parsed, rfl⟩
  cases move with
  | adopt unknown =>
    constructor
    · intro n below
      rw [List.getElem?_set_ne (by omega)]
      exact pinned.below n below
    · intro id known was
      have stays := pinned.at_start id known was
      -- the known id at the start is not the unknown one that is replaced
      have apart : start + k ≠ start := by
        intro same
        rw [same, stays] at unknown
        exact known (Option.some.inj unknown)
      rwa [List.getElem?_set_ne apart]
    · rw [List.length_set]
      exact pinned.length
    · intro n id now
      by_cases same : start + k = n
      · subst same
        rw [List.getElem?_set_self (List.getElem?_eq_some_iff.mp unknown).1] at now
        obtain rfl := Option.some.inj now
        exact .inr placed
      · rw [List.getElem?_set_ne same] at now
        exact pinned.source n id now
  | add on_top =>
    constructor
    · intro n below
      rw [List.getElem?_append_left (by omega)]
      exact pinned.below n below
    · intro id known was
      have stays := pinned.at_start id known was
      rwa [List.getElem?_append_left (List.getElem?_eq_some_iff.mp stays).1]
    · intro inside
      have := pinned.length inside
      rw [List.length_append]
      omega
    · intro n id now
      rcases History.getElem?_concat_eq_some.mp now with was | ⟨rfl, rfl⟩
      · exact pinned.source n id was
      · rw [on_top]
        exact .inr placed
  | cut other below =>
    -- only a later block cuts, and it stands above the start
    have above := later other
    constructor
    · intro n low
      rw [List.getElem?_take_of_lt (by omega)]
      exact pinned.below n low
    · intro id known was
      rw [List.getElem?_take_of_lt (by omega)]
      exact pinned.at_start id known was
    · intro inside
      have := pinned.length inside
      rw [List.length_take]
      omega
    · intro n id now
      rw [List.getElem?_take] at now
      split at now
      · exact pinned.source n id now
      · cases now

/-- What a block of the reply does to the chain respects the reply. -/
theorem Pinned.moves (pinned : Pinned S start entries chain chain') {k : Nat} {first : Bool}
    {entry : Daemon.BlockEntry} {b : ParsedBlock} (here : entries[k]? = some entry)
    (parsed : parseEntry S entry = .ok b) (later : first = false → 0 < k)
    (moves : ReflTransGen (ChainMove (start + k) first b.id) chain' chain'') :
    Pinned S start entries chain chain'' := by
  induction moves with
  | refl => exact pinned
  | tail _ move ih => exact ih.move here parsed later move

end

/-! ### Blocks -/

variable (S : Suite) {σ : Type} (env : Environment σ) (target : Option Hash)

/-- A block that is scanned at the end of the chain is added to it, unless its scan fails. -/
theorem chainMoves_addBlock (b : ParsedBlock) (first : Bool) (s : Session σ) :
    ReflTransGen (ChainMove s.history.height first b.id) s.history.chain
      (exec (addBlock S env b s.history.height target) s).2.history.chain := by
  rcases run : exec (addBlock S env b s.history.height target) s with ⟨e | ⟨⟩, t⟩
  · obtain ⟨h', changes, wallet⟩ := changes_of_addBlock_error run
    rw [show t.history = h' from congrArg Wallet.history wallet, changes.chain_eq]
  · obtain ⟨h', changes, wallet⟩ := changes_of_addBlock_ok run
    have chain : t.history.chain = s.history.chain ++ [b.id] := by
      rw [← changes.chain_eq]
      exact congrArg (fun w => w.history.chain) wallet
    rw [chain]
    exact .single (.add rfl)

/-- However a block ends, what it did to the chain is made of moves. -/
theorem chainMoves_placeBlock (b : ParsedBlock) (height : Nat) (first : Bool) (s : Session σ) :
    ReflTransGen (ChainMove height first b.id) s.history.chain
      (exec (placeBlock S env b height first target) s).2.history.chain := by
  rcases exec_placeBlock_cases S env target b height first s with
    ⟨r, run, -⟩ | ⟨unknown, run⟩ | ⟨u, on_top, origin, run⟩
  · rw [run]
  · rw [run]
    exact .single (.adopt unknown)
  · have added := chainMoves_addBlock S env target b first u
    rw [← on_top] at added
    rw [run, snd_exec_bind_pure]
    -- a cut is a move of its own, which comes before the appended block
    rcases origin with rfl | ⟨later, below, rfl⟩
    · exact added
    · exact .head (.cut later below) added

/-! ### Replies -/

section

variable {S}

/-- The blocks of a reply, however they end. -/
theorem pinned_placeBlocks (start : Nat) (entries : List Daemon.BlockEntry) (chain : List Hash) :
    Keeps (fun t : Session σ => Pinned S start entries chain t.history.chain)
      (placeBlocks S env target start true entries) := by
  refine keeps_placeBlocks fun k entry b here parsed s hs => ?_
  have later (other : (true && decide (k = 0)) = false) : 0 < k := by
    simpa [Nat.pos_iff_ne_zero] using other
  exact hs.moves here parsed later (chainMoves_placeBlock S env target b _ _ s)

/-- A reply that starts beyond the end of the chain changes nothing. -/
theorem keeps_wallet_beyond {start : Nat} (w : Wallet) (beyond : w.height < start)
    (entries : List Daemon.BlockEntry) :
    Keeps (fun t : Session σ => t.wallet = w) (placeBlocks S env target start true entries) := by
  refine keeps_placeBlocks fun k entry b _ _ s hs => ?_
  -- no reply that starts beyond the wallet can name a block that it has
  have outside : s.history.height < start + k := by
    rw [show s.history.height = w.height from congrArg Wallet.height hs]
    omega
  rcases exec_placeBlock_cases S env target b (start + k) (true && k = 0) s with
    ⟨r, run, -⟩ | ⟨unknown, -⟩ | ⟨u, on_top, rfl | ⟨-, below, -⟩, -⟩
  · rw [run]
    exact hs
  · have inside := (List.getElem?_eq_some_iff.mp unknown).1
    unfold History.height at outside
    omega
  · omega
  · omega

end

section

variable {S env target}

/-- A property of the wallet that the blocks of the answer keep. -/
theorem of_pullBatch {P : Wallet → Prop} {startHeight : Nat} {s : Session σ} (hs : P s.wallet)
    (blocks : ∀ reply,
      ((env.getBlocks ⟨s.history.fingerprint.map Hash.hex, startHeight⟩).run s.env).1 = .ok reply →
      Keeps (fun t : Session σ => P t.wallet)
        (placeBlocks S env target reply.startHeight true reply.blocks)) :
    P (exec (pullBatch S env startHeight target) s).2.wallet := by
  unfold pullBatch
  rw [exec_bind_ok _ (exec_history s), exec_bind]
  rcases asked : exec (ask (env.getBlocks ⟨s.history.fingerprint.map Hash.hex, startHeight⟩)) s
    with ⟨e | reply, t⟩
  · -- the daemon gave no answer
    have same : t.wallet = s.wallet := by
      rw [exec_ask] at asked
      rw [← (Prod.mk.inj asked).2]
    exact same ▸ hs
  · obtain ⟨answer, rfl⟩ := exec_ask_eq_ok.mp asked
    have checked : Keeps (fun t : Session σ => P t.wallet) (checkStatus .blocks reply.status) :=
      fun t ht => by rwa [exec_checkStatus]
    exact checked.then (fun _ => blocks reply answer) _ hs

end

/-- What a batch does to the chain, however it ends. -/
theorem pinned_pullBatch (startHeight : Nat) (s : Session σ) :
    let t := (exec (pullBatch S env startHeight target) s).2
    match ((env.getBlocks ⟨s.history.fingerprint.map Hash.hex, startHeight⟩).run s.env).1 with
    | .ok reply => Pinned S reply.startHeight reply.blocks s.history.chain t.history.chain ∧
        (s.history.height < reply.startHeight → t.wallet = s.wallet)
    | .error _ => t.wallet = s.wallet := by
  intro t
  rcases answer :
    ((env.getBlocks ⟨s.history.fingerprint.map Hash.hex, startHeight⟩).run s.env).1 with e | reply
  · refine of_pullBatch (P := fun w => w = s.wallet) rfl fun reply ok => ?_
    rw [answer] at ok
    cases ok
  · constructor
    · refine of_pullBatch (P := fun w => Pinned S reply.startHeight reply.blocks s.history.chain
        w.history.chain) .refl fun reply' ok => ?_
      obtain rfl := Except.ok.inj (answer.symm.trans ok)
      exact pinned_placeBlocks env target reply.startHeight reply.blocks s.history.chain
    · intro beyond
      refine of_pullBatch (P := fun w => w = s.wallet) rfl fun reply' ok => ?_
      obtain rfl := Except.ok.inj (answer.symm.trans ok)
      exact keeps_wallet_beyond env target s.wallet beyond reply.blocks

/-! ### Calls -/

/-- A property of chains that replies, longer chains and cuts above the first id keep. -/
structure Rooted (P : List Hash → Prop) : Prop where
  pinned : ∀ {start : Nat} {entries : List Daemon.BlockEntry} {chain chain' : List Hash},
    Pinned S start entries chain chain' → P chain → P chain'
  append : ∀ {chain : List Hash} (ids : List Hash), P chain → P (chain ++ ids)
  take : ∀ {chain : List Hash} {n : Nat}, 0 < n → P chain → P (chain.take n)

/-- A known first id stays. -/
theorem rooted_head {id : Hash} (known : id ≠ .null) :
    Rooted S fun chain => chain[0]? = some id where
  pinned pinned here := pinned.known (Nat.zero_le _) known here
  append ids here := by rwa [List.getElem?_append_left (List.getElem?_eq_some_iff.mp here).1]
  take above here := by rwa [List.getElem?_take_of_lt above]

/-- A chain does not become empty. -/
theorem rooted_length : Rooted S fun chain => 0 < chain.length where
  pinned := by
    intro start entries chain chain' pinned some
    -- the blocks start at the first id, which only a later block could cut off, or above it
    rcases Nat.eq_zero_or_pos start with rfl | above
    · exact pinned.length some
    · have here := pinned.below 0 above
      rw [List.getElem?_eq_getElem some] at here
      exact (List.getElem?_eq_some_iff.mp here).1
  append ids some := by
    rw [List.length_append]
    omega
  take above some := by
    rw [List.length_take]
    omega

variable {S} {P : List Hash → Prop}

/-- However a refresh ends, it keeps such a property. -/
theorem Rooted.pull (rooted : Rooted S P) (start : RefreshStart) :
    Keeps (fun t : Session σ => P t.history.chain) (pull S env start target) := by
  have idle (s t : Session σ) (wallet : t.wallet = s.wallet) (hs : P s.history.chain) :
      P t.history.chain := by
    rwa [show t.history = s.history from congrArg Wallet.history wallet]
  refine keeps_pull (fun s t wallet _ _ => idle s t wallet) (fun startHeight s hs => ?_) ?_ start
  · have batch := pinned_pullBatch S env target startHeight s
    simp only [] at batch
    split at batch
    · exact rooted.pinned batch.1 hs
    · exact idle s _ batch hs
  · exact fun s height hs => rooted.append _ hs

/-- However a call ends that is not a cut at the bottom, it keeps such a property. -/
theorem Rooted.call (rooted : Rooted S P) {call : Call} (uncut : call ≠ .detach 0)
    {s : Session σ} (hs : P s.history.chain) :
    P (exec (call.run S env) s).2.history.chain := by
  refine call.holds (P := fun h => P h.chain) hs ?_ ?_ (fun n => rooted.append _ hs) ?_
  · exact fun start target => rooted.pull env target start s hs
  · rintro n rfl
    exact rooted.take (Nat.pos_of_ne_zero fun zero => uncut (congrArg Call.detach zero)) hs
  · intro pending now _
    rwa [(History.sameOutputs_markSent s.history pending now).1.chain]

/-- Calls keep such a property of the chain, if none of them cuts it at the bottom. -/
theorem Rooted.afterCalls (rooted : Rooted S P) {calls : List Call} (uncut : .detach 0 ∉ calls)
    {s : Session σ} (hs : P s.history.chain) : P (afterCalls S env calls s).history.chain := by
  refine afterCalls_holds (P := fun s : Session σ => P s.history.chain) (fun call mem s hs => ?_) hs
  exact rooted.call env (fun bottom => uncut (bottom ▸ mem)) hs

end Sync

open Sync

variable (S : Suite) {σ : Type} (env : Environment σ)

/-- Whatever the daemon answers, its reply leaves the ids below its start and a known id there, adds
nothing but its own blocks at their heights, and nothing at all beyond the end of the chain. After
any calls that do not cut the chain at the bottom themselves, among them all refreshes, a first id
that was known is the same, and a chain that was not empty is not. -/
theorem pinned_of_refreshes :
    (∀ (target : Option Hash) (startHeight : Nat) (s : Session σ),
      let t := (exec (pullBatch S env startHeight target) s).2
      match ((env.getBlocks ⟨s.history.fingerprint.map Hash.hex, startHeight⟩).run s.env).1 with
      | .ok reply =>
        (∀ n id, n ≤ reply.startHeight → id ≠ .null → s.history.chain[n]? = some id →
          t.history.chain[n]? = some id) ∧
        Pinned S reply.startHeight reply.blocks s.history.chain t.history.chain ∧
        (s.history.height < reply.startHeight → t.wallet = s.wallet)
      | .error _ => t.wallet = s.wallet) ∧
    ∀ (calls : List Call) (s : Session σ), .detach 0 ∉ calls →
      (∀ id, id ≠ .null → s.history.chain[0]? = some id →
        (afterCalls S env calls s).history.chain[0]? = some id) ∧
      (0 < s.history.height → 0 < (afterCalls S env calls s).history.height) := by
  constructor
  · intro target startHeight s t
    -- one batch pins what its reply leaves out, and a run of calls is a run of batches
    have batch := pinned_pullBatch S env target startHeight s
    simp only [] at batch
    split at batch
    · obtain ⟨pinned, beyond⟩ := batch
      exact ⟨fun n id up_to known here => pinned.known up_to known here, pinned, beyond⟩
    · exact batch
  · intro calls s uncut
    constructor
    · exact fun id known here => (rooted_head S known).afterCalls env uncut here
    · exact fun some => (rooted_length S).afterCalls env uncut some

namespace SmallSuite

/-- A wallet that knows the first block, whose daemon first answers with a block beyond the end of
its chain, and then with another first block. -/
def misled : Session Script where
  env := { batches := [Script.batch 5 spending, Script.batch 0 spending] }
  wallet := { account, config := {}, history := { chain := [funding.id] } }

end SmallSuite

open SmallSuite in
/-- The first answer changes nothing, and the first block stays. -/
theorem pinned_of_refreshes_misled :
    funding.id ≠ .null ∧ misled.history.chain[0]? = some funding.id ∧
      (exec (pullBatch .small Script.environment 0 none) misled).2.wallet = misled.wallet ∧
      (afterCalls .small Script.environment [.refreshFrom 3, .refreshFromLocalChain, .refresh,
        .detach 1] misled).history.chain[0]? = some funding.id := by
  obtain ⟨batches, runs⟩ := pinned_of_refreshes .small Script.environment
  have known : funding.id ≠ .null := by decide +kernel
  have beyond : misled.history.height < 5 := by decide
  refine ⟨known, rfl, (batches none 0 misled).2.2 beyond, (runs _ misled ?_).1 _ known rfl⟩
  simp

end RingWallet
