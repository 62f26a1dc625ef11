import RingWallet.Proofs.Wallet.Converge
import RingWallet.Proofs.Wallet.LocalChain

/-!
# How far a refresh gets

A daemon serves a chain in batches: it answers with so many blocks of it, from the first one on
whose id the wallet tells it. A refresh asks for batches until one brings nothing new. That is at
the tip of the chain, or before: the ids that the wallet tells stand further and further apart, and
unknown ids are left out, so that a batch may consist of blocks that the wallet has, or whose ids it
only did not know. Then the wallet stalls (`History.Stalls`): the next answer would be the same.

Once a block was added the wallet ends with a block of the chain (`Sync.Atop`), and tells its id
first, so that every further batch reaches beyond it. Therefore `tip_or_nothing_of_refresh` can say
that a refresh that is not stopped either gets to the tip or brings no block at all, because the
wallet stalled before. `exec_refresh_of_stalls` says that a wallet that stalls gets nothing, and
`short_of_refresh` is such a wallet.
-/

set_option autoImplicit false

namespace RingWallet

open History WalletM

/-- A daemon that serves a chain and answers every request that leaves the start to it, with the
next blocks from the height of the first id that it knows, `most` of them if there are so many. -/
def Environment.ServesBatches (S : Suite) {σ : Type} (env : Environment σ)
    (chain : List ParsedBlock) (most : Nat) : Prop :=
  ∀ e ids height, firstKnown? chain ids = some height →
    ∃ reply e', (env.getBlocks { blockIds := ids.map Hash.hex, startHeight := 0 }).run e =
        (.ok reply, e') ∧
      reply.status = Daemon.okStatus ∧ reply.startHeight = height ∧
      List.Forall₂ (fun entry b => Sync.parseEntry S entry = .ok b) reply.blocks
        ((chain.drop height).take most)

namespace History

/-- The id at a height is that of a block, or unknown. -/
def HasSeen (h : History) (height : Nat) (b : ParsedBlock) : Prop :=
  h.chain[height]? = some b.id ∨ h.chain[height]? = some .null

/-- The next batch does not reach the end of the chain, and has no block that the wallet would add.
-/
def Stalls (chain : List ParsedBlock) (most : Nat) (h : History) : Prop :=
  ∃ start, firstKnown? chain h.fingerprint = some start ∧ start + most < chain.length ∧
    ∀ k b, ((chain.drop start).take most)[k]? = some b → h.HasSeen (start + k) b

end History

namespace Sync

variable {S : Suite} {σ : Type} {env : Environment σ} {chain : List ParsedBlock} {most : Nat}

/-! ### The end of the wallet's chain -/

/-- The wallet ends with a block of the chain, at its height. -/
def Atop (chain : List ParsedBlock) (h : History) : Prop :=
  ∃ n b, h.height = n + 1 ∧ chain[n]? = some b ∧ h.chain[n]? = some b.id

/-- A wallet that ends in a block of the chain is not longer than the chain. -/
theorem Atop.height_le {h : History} (atop : Atop chain h) : h.height ≤ chain.length := by
  obtain ⟨n, b, height, at_n, -⟩ := atop
  rw [height]
  exact (List.getElem?_eq_some_iff.mp at_n).1

/-- The next blocks of the chain go on top. -/
theorem Atop.continued {h h' : History} (atop : Atop chain h)
    (continued : Continued chain h h') : Atop chain h' := by
  obtain ⟨added, ⟨rest, next⟩, grown⟩ := continued
  -- the last of the added blocks is on top, or the old one when none was added
  rcases List.eq_nil_or_concat added with rfl | ⟨before, b, rfl⟩
  · obtain ⟨n, b, height, at_n, here⟩ := atop
    rw [List.map_nil, List.append_nil] at grown
    exact ⟨n, b, by rw [History.height, grown]; exact height, at_n, by rw [grown]; exact here⟩
  · refine ⟨h.height + before.length, b, ?_, ?_, ?_⟩
    · simp [History.height, grown, Nat.add_assoc]
    · rw [← List.getElem?_drop, ← next]
      simp
    · rw [grown, History.height, List.getElem?_append_right (Nat.le_add_right _ _)]
      simp

/-- A known last id is the first one that the daemon is told. -/
theorem exists_fingerprint_eq {h : History} {n : Nat} {id : Hash} (height : h.height = n + 1)
    (here : h.chain[n]? = some id) (known : id ≠ .null) : ∃ rest, h.fingerprint = id :: rest := by
  have length : h.chain.length = n + 1 := height
  have kept : (!id.isNull) = true := by simpa [Hash.isNull] using known
  have first : ∃ rest, ((fingerprintDistances h.chain.length 0 1 1).filterMap fun distance =>
      h.chain[h.chain.length - distance]?) ++ h.chain.take 1 = id :: rest := by
    rw [length]
    cases n with
    | zero =>
      -- the only id is told as the first one of the chain
      obtain ⟨only, chain⟩ := List.length_eq_one_iff.mp length
      rw [chain] at here ⊢
      rw [fingerprintDistances, if_neg (by omega)]
      exact ⟨[], congrArg (· :: []) (Option.some.inj here)⟩
    | succ n =>
      rw [fingerprintDistances, if_pos (by omega), List.filterMap_cons, Nat.add_sub_cancel, here]
      exact ⟨_, rfl⟩
  obtain ⟨rest, told⟩ := first
  exact ⟨_, (congrArg (List.filter _) told).trans (List.filter_cons_of_pos kept)⟩

/-- The answer starts with the block with which the wallet ends. -/
theorem firstKnown?_of_atop (distinct : (chain.map ParsedBlock.id).Nodup) {h : History} {n : Nat}
    {b : ParsedBlock} (height : h.height = n + 1) (at_n : chain[n]? = some b)
    (here : h.chain[n]? = some b.id) (known : b.id ≠ .null) :
    firstKnown? chain h.fingerprint = some n := by
  obtain ⟨rest, told⟩ := exists_fingerprint_eq height here known
  have found : chain.findIdx? (·.id = b.id) = some n := by
    obtain ⟨inside, rfl⟩ := List.getElem?_eq_some_iff.mp at_n
    refine List.findIdx?_eq_some_iff_getElem.mpr ⟨inside, by simp, fun i before => ?_⟩
    -- no other block of the chain has the same id
    have apart := List.pairwise_iff_getElem.mp distinct i n (by simp; omega) (by simpa) before
    simpa using apart
  rw [told, firstKnown?, List.findSome?_cons, found]

/-! ### Batches of blocks on top -/

/-- The answer of the daemon is placed. -/
theorem exec_pullBatch_of_batches (serves : env.ServesBatches S chain most) {s : Session σ}
    {start : Nat} (told : firstKnown? chain s.history.fingerprint = some start) :
    ∃ e, exec (pullBatch S env 0 none) s =
      exec (placeAll S env none start true ((chain.drop start).take most)) { s with env := e } := by
  obtain ⟨reply, e, answer, accepted, rfl, parsed⟩ := serves s.env _ start told
  exact ⟨e, exec_pullBatch_of_reply reply answer accepted parsed⟩

/-- A batch of a wallet that ends with a block of the chain brings nothing only at the tip. -/
theorem atop_pullBatch (serves : env.ServesBatches S chain most) (two : 2 ≤ most)
    (distinct : (chain.map ParsedBlock.id).Nodup) (known : ∀ b ∈ chain, b.id ≠ .null)
    {s t : Session σ} {r : Except WalletError Nat}
    (run : exec (pullBatch S env 0 none) s = (r, t)) (atop : Atop chain s.history)
    (open_end : s.summary.targetFound = false) :
    t.summary.targetFound = false ∧ Atop chain t.history ∧
      (r = .ok 0 → chain.length ≤ t.history.height) := by
  obtain ⟨n, b, height, at_n, here⟩ := id atop
  have named := known b (List.mem_of_getElem? at_n)
  obtain ⟨e, batch⟩ := exec_pullBatch_of_batches serves
    (firstKnown?_of_atop distinct height at_n here named)
  -- the first block is the last one of the wallet, and the others come after it
  obtain ⟨inside, rfl⟩ := List.getElem?_eq_some_iff.mp at_n
  obtain ⟨more, rfl⟩ : ∃ more, most = more + 1 := ⟨most - 1, by omega⟩
  rw [batch, List.drop_eq_getElem_cons inside, List.take_succ_cons,
    exec_placeAll_passed (exec_placeBlock_known (s := { s with env := e }) here) open_end,
    ← height] at run
  obtain ⟨continued, still, counted⟩ :=
    continued_placeAll (s := { s with env := e }) run (List.take_prefix _ _) open_end
  refine ⟨still, atop.continued continued, fun nothing => ?_⟩
  have none := (counted 0 nothing).symm
  rw [List.length_take, List.length_drop] at none
  have grown : s.history.height ≤ t.history.height := continued.height_le
  have end_reached : min more (chain.length - s.history.height) = 0 := none
  omega

/-! ### Batches that may bring nothing -/

/-- The refresh has added no block so far, and only unknown ids have become known. -/
structure Untouched (begun : History) (s : Session σ) : Prop where
  learned : Learned begun.chain s.history.chain
  fetched : s.summary.blocksFetched = 0

/-- How the blocks of a batch end, in a refresh that has added none before it: it has added none
still, or ends with a block of the chain. If the batch adds none either, the wallet has seen all of
them. -/
structure BatchEnds (chain : List ParsedBlock) (begun : History) (blocks : List ParsedBlock)
    (n : Nat) (s : Session σ) (r : Except WalletError Nat) (t : Session σ) : Prop where
  open_end : t.summary.targetFound = false
  untouched_or_atop : Untouched begun t ∨ Atop chain t.history
  seen : r = .ok 0 → Untouched begun t ∧ Learned s.history.chain t.history.chain ∧
    ∀ k b, blocks[k]? = some b → s.history.HasSeen (n + k) b

/-- A block that brings nothing but its id, and the blocks after it. -/
theorem BatchEnds.cons {begun : History} {b : ParsedBlock} {rest : List ParsedBlock} {n : Nat}
    {s t u : Session σ} {r : Except WalletError Nat}
    (ends : BatchEnds chain begun rest (n + 1) u r t) (seen : s.history.HasSeen n b)
    (learned : Learned s.history.chain u.history.chain)
    (others : ∀ m, m ≠ n → u.history.chain[m]? = s.history.chain[m]?) :
    BatchEnds chain begun (b :: rest) n s r t := by
  refine ⟨ends.open_end, ends.untouched_or_atop, fun nothing => ?_⟩
  obtain ⟨unmoved, learned', all⟩ := ends.seen nothing
  refine ⟨unmoved, learned.trans learned', fun k b' at_k => ?_⟩
  cases k with
  | zero => exact Option.some.inj at_k ▸ seen
  | succ k =>
    have there := all k b' at_k
    rw [HasSeen, others _ (by omega), Nat.add_right_comm, Nat.add_assoc] at there
    exact there

/-- A block that goes on top, and those that come after it in the batch. Either it fails, or the
wallet ends with a block of the chain from then on. -/
theorem atop_or_failed {b : ParsedBlock} {rest : List ParsedBlock} {n : Nat} {first : Bool}
    {s t u : Session σ} {r : Except WalletError Nat}
    (run : exec (placeAll S env none n first (b :: rest)) s = (r, t))
    (place : exec (placeBlock S env b n first none) s =
      exec (do addBlock S env b n none; return true) u) (on_top : n = u.history.height)
    (part : b :: rest <+: chain.drop n) (open_end : u.summary.targetFound = false) :
    t.summary.targetFound = false ∧ r ≠ .ok 0 ∧
      (t.history.chain = u.history.chain ∧ t.summary.blocksFetched = u.summary.blocksFetched ∨
        Atop chain t.history) := by
  obtain ⟨at_n, others⟩ := next_of_prefix_drop part
  rcases adds : exec (addBlock S env b n none) u with ⟨e | ⟨⟩, v⟩
  · rw [exec_bind_error _ adds] at place
    rw [placeAll, exec_bind_error _ place] at run
    obtain ⟨rfl, rfl⟩ := Prod.mk.inj run
    obtain ⟨h, changes, wallet⟩ := changes_of_addBlock_error adds
    have chain : v.history.chain = u.history.chain := by
      rw [Session.history, wallet]
      exact changes.chain_eq
    have fetched := (summary_of_addBlock_error adds).2
    exact ⟨open_end_addBlock adds open_end, by simp, .inl ⟨chain, fetched⟩⟩
  · have still := open_end_addBlock adds open_end
    rw [exec_bind_ok _ adds] at place
    replace run := (exec_placeAll_cons place still).symm.trans run
    -- the block is the last one of the wallet, and the others come after it
    have last : Atop chain v.history := by
      obtain ⟨h, changes, wallet⟩ := changes_of_addBlock_ok adds
      have grown : v.history.chain = u.history.chain ++ [b.id] := by
        rw [Session.history, wallet, ← changes.chain_eq]
        rfl
      refine ⟨n, b, by rw [height_of_addBlock adds, on_top], at_n, ?_⟩
      rw [grown, on_top, History.height, List.getElem?_append_right (Nat.le_refl _), Nat.sub_self]
      rfl
    have height : n + 1 = v.history.height := by rw [height_of_addBlock adds, on_top]
    have later : rest <+: chain.drop v.history.height := height ▸ others
    rw [height] at run
    rcases more : exec (placeAll S env none v.history.height false rest) v with ⟨e | count, w⟩
    all_goals
      obtain ⟨continued, open_end, -⟩ := continued_placeAll more later still
    · rw [exec_bind_error _ more] at run
      obtain ⟨rfl, rfl⟩ := Prod.mk.inj run
      exact ⟨open_end, by simp, .inr (last.continued continued)⟩
    · rw [exec_bind_ok _ more] at run
      obtain ⟨rfl, rfl⟩ := Prod.mk.inj run
      exact ⟨open_end, by simp, .inr (last.continued continued)⟩

/-- The blocks of a batch of a refresh that has added none so far. -/
theorem batchEnds_placeAll {begun : History} {blocks : List ParsedBlock} {n : Nat} {first : Bool}
    {s t : Session σ} {r : Except WalletError Nat}
    (run : exec (placeAll S env none n first blocks) s = (r, t)) (part : blocks <+: chain.drop n)
    (before : first = false →
      ∃ m b, n = m + 1 ∧ chain[m]? = some b ∧ s.history.chain[m]? = some b.id)
    (untouched : Untouched begun s) (open_end : s.summary.targetFound = false) :
    BatchEnds chain begun blocks n s r t := by
  induction blocks generalizing n first s with
  | nil =>
    obtain ⟨rfl, rfl⟩ := Prod.mk.inj run
    exact ⟨open_end, .inl untouched, fun _ => ⟨untouched, .refl _, by simp⟩⟩
  | cons b rest ih =>
    obtain ⟨at_n, later⟩ := next_of_prefix_drop part
    -- a block that brings nothing, and those after it
    have go_on {u : Session σ} (place : exec (placeBlock S env b n first none) s = (.ok false, u))
        (seen : s.history.HasSeen n b) (learned : Learned s.history.chain u.history.chain)
        (now : u.history.chain[n]? = some b.id)
        (others : ∀ m, m ≠ n → u.history.chain[m]? = s.history.chain[m]?)
        (summary : u.summary = s.summary) : BatchEnds chain begun (b :: rest) n s r t := by
      have open_end' : u.summary.targetFound = false := summary ▸ open_end
      rw [exec_placeAll_passed place open_end'] at run
      have ends := ih run later (fun _ => ⟨n, b, rfl, at_n, now⟩)
        ⟨untouched.learned.trans learned, summary ▸ untouched.fetched⟩ open_end'
      exact ends.cons seen learned others
    rcases exec_placeBlock_cases S env none b n first s with
      ⟨r', place, known⟩ | ⟨unknown, place⟩ | ⟨u, on_top, origin, place⟩
    · rcases r' with e | added
      · rw [placeAll, exec_bind_error _ place] at run
        obtain ⟨rfl, rfl⟩ := Prod.mk.inj run
        exact ⟨open_end, .inl untouched, by simp⟩
      · obtain ⟨rfl, here⟩ := known added rfl
        exact go_on place (.inl here) (.refl _) here (fun _ _ => rfl) rfl
    · refine go_on place (.inr unknown) ((Learned.refl _).set unknown b.id) ?_
        (fun m other => ?_) rfl
      · exact List.getElem?_set_self (List.getElem?_eq_some_iff.mp unknown).1
      · exact List.getElem?_set_ne other.symm
    · have open_end' : u.summary.targetFound = false := by
        rcases origin with rfl | ⟨-, -, rfl⟩
        · exact open_end
        · exact open_end
      obtain ⟨still, some, ended⟩ := atop_or_failed run place on_top part open_end'
      refine ⟨still, ended.elim (fun same => ?_) .inr, fun nothing => absurd nothing some⟩
      obtain ⟨chain_eq, fetched⟩ := same
      rcases origin with rfl | ⟨later, below, rfl⟩
      · exact .inl ⟨chain_eq ▸ untouched.learned, fetched.trans untouched.fetched⟩
      · -- the wallet is cut back to the block before, which is one of the chain
        obtain ⟨m, b', rfl, at_m, here⟩ := before later
        refine .inr ⟨m, b', ?_, at_m, ?_⟩
        · rw [History.height, chain_eq]
          exact on_top.symm
        · rw [chain_eq]
          show (s.history.chain.take (m + 1))[m]? = _
          rw [List.getElem?_take_of_lt (Nat.lt_succ_self m), here]

/-- A batch of a refresh that has added none so far. If it adds none either, the wallet has the
whole chain, or it stalls. -/
theorem untouched_pullBatch (serves : env.ServesBatches S chain most) {genesis : ParsedBlock}
    (first : chain.head? = some genesis) (known : genesis.id ≠ .null) {begun : History}
    (root : begun.chain.head? = some genesis.id) {s t : Session σ} {r : Except WalletError Nat}
    (run : exec (pullBatch S env 0 none) s = (r, t)) (untouched : Untouched begun s)
    (open_end : s.summary.targetFound = false) :
    t.summary.targetFound = false ∧ (Untouched begun t ∨ Atop chain t.history) ∧
      (r = .ok 0 → chain.length ≤ t.history.height ∨
        Untouched begun t ∧ s.history.Stalls chain most ∧
          Learned s.history.chain t.history.chain) := by
  -- the daemon knows the first id at least
  have root' : s.history.chain.head? = some genesis.id := by
    rw [List.head?_eq_getElem?] at root ⊢
    exact untouched.learned.getElem?_eq root known
  obtain ⟨id, -, start, found, told⟩ := exists_firstKnown first (head_mem_fingerprint root' known)
  have inside : start < chain.length := (List.findIdx?_eq_some_iff_getElem.mp found).1
  obtain ⟨e, batch⟩ := exec_pullBatch_of_batches serves told
  rw [batch] at run
  have untouched' : Untouched begun { s with env := e } := ⟨untouched.learned, untouched.fetched⟩
  obtain ⟨still, kept, none⟩ :=
    batchEnds_placeAll run (List.take_prefix _ _) (by simp) untouched' open_end
  refine ⟨still, kept, fun nothing => ?_⟩
  obtain ⟨unmoved, learned, seen⟩ := none nothing
  by_cases within : start + most < chain.length
  · exact .inr ⟨unmoved, ⟨start, told, within, seen⟩, learned⟩
  · -- the answer reaches the last block of the chain, which the wallet has seen
    left
    have bound : chain.length - 1 - start < ((chain.drop start).take most).length := by
      rw [List.length_take, List.length_drop]
      omega
    have last := seen _ _ (List.getElem?_eq_getElem bound)
    have height : start + (chain.length - 1 - start) < s.history.chain.length := by
      rcases last with here | here
      · exact (List.getElem?_eq_some_iff.mp here).1
      · exact (List.getElem?_eq_some_iff.mp here).1
    have same : t.history.chain.length = s.history.chain.length := learned.length_eq
    unfold History.height
    omega

/-! ### Refreshes -/

/-- However often batches fail in between, a refresh that is not stopped gets to the end of the
chain, or brings nothing because the wallet stalls. -/
theorem tip_or_nothing_of_pullLoop (serves : env.ServesBatches S chain most) (two : 2 ≤ most)
    (distinct : (chain.map ParsedBlock.id).Nodup) (known : ∀ b ∈ chain, b.id ≠ .null)
    {genesis : ParsedBlock} (first : chain.head? = some genesis) {begun : History}
    (root : begun.chain.head? = some genesis.id) {rounds : Nat} {opening : Bool} {tries : Nat}
    {delay : Delay} {s t : Session σ}
    (run : exec (pullLoop S env (.fixed 0) none rounds opening tries delay) s = (.ok (), t))
    (state : Untouched begun s ∨ Atop chain s.history)
    (open_end : s.summary.targetFound = false) :
    t.stop = true ∨ chain.length ≤ t.history.height ∨
      Untouched begun t ∧ ∃ h : History, Learned begun.chain h.chain ∧ h.Stalls chain most ∧
        Learned h.chain t.history.chain := by
  induction rounds generalizing opening tries delay s with
  | zero => cases (Prod.mk.inj run).1
  | succ rounds ih =>
    rw [exec_pullLoop_succ] at run
    by_cases stop : (polled env s).stop = true
    · rw [if_pos stop] at run
      obtain rfl := (Prod.mk.inj run).2
      exact .inl stop
    have any_start : batchStart (.fixed 0) opening s = 0 := ite_self 0
    rw [if_neg stop, any_start] at run
    -- the look at the flag leaves the wallet and the summary as they are
    replace state : Untouched begun (polled env s) ∨ Atop chain (polled env s).history :=
      state.imp_left fun unmoved => ⟨unmoved.learned, unmoved.fetched⟩
    replace open_end : (polled env s).summary.targetFound = false := open_end
    rcases batch : exec (pullBatch S env 0 none) (polled env s) with ⟨r, u⟩
    rw [batch] at run
    obtain ⟨still, kept, ended⟩ : u.summary.targetFound = false ∧
        (Untouched begun u ∨ Atop chain u.history) ∧
        (r = .ok 0 → chain.length ≤ u.history.height ∨
          Untouched begun u ∧ ∃ h : History, Learned begun.chain h.chain ∧ h.Stalls chain most ∧
            Learned h.chain u.history.chain) := by
      rcases state with untouched | atop
      · obtain ⟨still, kept, ended⟩ := untouched_pullBatch serves first
          (known genesis (List.mem_of_mem_head? first)) root batch untouched open_end
        refine ⟨still, kept, fun none => (ended none).imp_right ?_⟩
        exact fun ⟨unmoved, stalls, learned⟩ => ⟨unmoved, _, untouched.learned, stalls, learned⟩
      · obtain ⟨still, atop', ended⟩ := atop_pullBatch serves two distinct known batch atop open_end
        exact ⟨still, .inr atop', fun none => .inl (ended none)⟩
    rcases r with e | added
    all_goals
      simp only [afterBatch] at run
      split at run
    -- the batch failed, and is tried again or not
    · refine ih run ?_ still
      exact kept.imp_left fun unmoved => ⟨unmoved.learned, unmoved.fetched⟩
    · cases (Prod.mk.inj run).1
    -- the batch was the last one, or not
    · next last =>
      obtain rfl := (Prod.mk.inj run).2
      rw [still] at last
      exact .inr (ended (congrArg Except.ok (last.resolve_right Bool.false_ne_true)))
    · exact ih run kept still

end Sync

open Sync

/-- A daemon serves a chain in batches of two blocks at least. A wallet with the same first id
refreshes. If it was not stopped when its batches end, then it gets to the end of the chain, or the
refresh has brought no block at all: only unknown ids have become known, and the wallet stalled,
which means that it had seen all blocks of the batch that the daemon sent, although the chain goes
on beyond that batch.

The ids of the chain are those of different blocks. -/
theorem tip_or_nothing_of_refresh (S : Suite) {σ : Type} (env : Environment σ)
    (chain : List ParsedBlock) (most : Nat) (two : 2 ≤ most)
    (serves : env.ServesBatches S chain most) (distinct : (chain.map ParsedBlock.id).Nodup)
    (known : ∀ b ∈ chain, b.id ≠ .null) (genesis : ParsedBlock)
    (first : chain.head? = some genesis) (s t : Session σ) (summary : RefreshSummary)
    (root : s.history.chain.head? = some genesis.id)
    (run : exec (refresh S env) s = (.ok summary, t)) :
    let ended := afterBatches S env none (.fixed 0) s
    t = ended.told (.refreshCompleted ended.summary.blocksFetched ended.history.height) ∧
      (ended.stop = true ∨ chain.length ≤ t.history.height ∨
        summary.blocksFetched = 0 ∧ ∃ h : History, Learned s.history.chain h.chain ∧
          h.Stalls chain most ∧ Learned h.chain t.history.chain) := by
  have begun : (started (.fixed 0) s).history = s.history := assumeScanned_zero s.history
  obtain ⟨loop, rfl, rfl⟩ := eq_told_of_exec_pull S env none run
  refine ⟨rfl, ?_⟩
  have untouched : Untouched s.history (started (.fixed 0) s) := ⟨begun ▸ .refl _, rfl⟩
  rcases tip_or_nothing_of_pullLoop serves two distinct known first root loop (.inl untouched) rfl
    with stop | tip | ⟨unmoved, stalled⟩
  · exact .inl stop
  · exact .inr (.inl tip)
  · exact .inr (.inr ⟨unmoved.fetched, stalled⟩)

namespace ChainServer

/-- The daemon with a bound on the number of blocks in an answer. -/
def inBatches (n : ChainServer) (most : Nat) : Environment Unit :=
  { n.environment with
    getBlocks := fun r e => (.ok { n.reply r with blocks := (n.reply r).blocks.take most }, e) }

/-- Whatever the bound on its answers is, the daemon serves its chain in batches. -/
theorem servesBatches {S : Suite} {n : ChainServer}
    (legible : ∀ b ∈ n.blocks, Script.Legible S b) (most : Nat) :
    (n.inBatches most).ServesBatches S n.blocks most := by
  intro e ids height told
  have start : n.startOf { blockIds := ids.map Hash.hex, startHeight := 0 } = height := by
    rw [startOf, if_pos rfl, heightOf?_map_hex, told]
    rfl
  refine ⟨_, e, rfl, rfl, start, ?_⟩
  rw [← start]
  exact List.forall₂_take most (parsed_blocks legible _)

end ChainServer

namespace Branched

/-- No two blocks of the daemon have one id. -/
theorem distinct : (server.blocks.map ParsedBlock.id).Nodup := by decide +kernel

/-- No block of the daemon has the null id. -/
theorem known : ∀ b ∈ server.blocks, b.id ≠ .null := by decide +kernel

/-- The wallet that knows the first id, after it has got the other two blocks. -/
def caughtUp : Session Unit :=
  (exec (placeAll .small (server.inBatches 3) none 0 true server.blocks)
    (started (.fixed 0) (knowing [(blockOf 0).id]))).2

/-- It gets both blocks at once, and then nothing. -/
theorem exec_refresh_inBatches :
    exec (refresh .small (server.inBatches 3)) (knowing [(blockOf 0).id]) =
      (.ok caughtUp.summary, caughtUp.told
        (.refreshCompleted caughtUp.summary.blocksFetched caughtUp.wallet.height)) := by
  have serves := ChainServer.servesBatches legible 3
  have first : exec (pullBatch .small (server.inBatches 3) 0 none)
      (started (.fixed 0) (knowing [(blockOf 0).id])) = (.ok 2, caughtUp) := by
    obtain ⟨⟨⟩, batch⟩ := exec_pullBatch_of_batches serves
      (show firstKnown? server.blocks
        (started (.fixed 0) (knowing [(blockOf 0).id])).history.fingerprint = some 0 by
          decide +kernel)
    exact batch.trans (exec_eq_ok (by decide +kernel))
  have second : exec (pullBatch .small (server.inBatches 3) 0 none) caughtUp =
      (.ok 0, caughtUp) := by
    obtain ⟨⟨⟩, batch⟩ := exec_pullBatch_of_batches serves
      (show firstKnown? server.blocks caughtUp.history.fingerprint = some 2 by decide +kernel)
    have last : caughtUp.history.chain[2]? = some (blockOf 3).id := by decide +kernel
    have still : caughtUp.summary.targetFound = false := by decide +kernel
    generalize caughtUp = s at batch last still ⊢
    exact batch.trans (exec_placeAll_cons (exec_placeBlock_known last) still)
  have running : caughtUp.stop = false ∧ caughtUp.summary.targetFound = false := by decide +kernel
  have rounds : 2 ≤ (server.inBatches 3).maxRounds := show 2 ≤ UInt64.size by decide
  -- the names keep the wallet from being computed again
  generalize caughtUp = s at first second running ⊢
  have run := exec_refresh_of_batches rfl first (by decide) running.2
    second rounds
  have unasked : polled (server.inBatches 3) s = s := polled_eq _ rfl
  simpa only [unasked, ite_self] using run

end Branched

open Branched in
/-- A wallet that knows the first id gets to the end of the chain. -/
theorem tip_of_refresh_inBatches :
    (server.inBatches 3).ServesBatches .small server.blocks 3 ∧
      exec (refresh .small (server.inBatches 3)) (knowing [(blockOf 0).id]) =
        (.ok caughtUp.summary, caughtUp.told
          (.refreshCompleted caughtUp.summary.blocksFetched caughtUp.wallet.height)) ∧
      let ended := afterBatches .small (server.inBatches 3) none (.fixed 0)
        (knowing [(blockOf 0).id])
      caughtUp.told
            (.refreshCompleted caughtUp.summary.blocksFetched caughtUp.wallet.height) =
          ended.told (.refreshCompleted ended.summary.blocksFetched ended.history.height) ∧
        (ended.stop = true ∨ server.blocks.length ≤ (caughtUp.told (.refreshCompleted
            caughtUp.summary.blocksFetched caughtUp.wallet.height)).history.height ∨
          caughtUp.summary.blocksFetched = 0 ∧ ∃ h : History,
            Learned (knowing [(blockOf 0).id]).history.chain h.chain ∧ h.Stalls server.blocks 3 ∧
            Learned h.chain (caughtUp.told (.refreshCompleted caughtUp.summary.blocksFetched
              caughtUp.wallet.height)).history.chain) := by
  have serves := ChainServer.servesBatches legible 3
  refine ⟨serves, exec_refresh_inBatches, ?_⟩
  exact tip_or_nothing_of_refresh .small (server.inBatches 3) server.blocks 3 (by decide) serves
    distinct known (blockOf 0) rfl _ _ _ rfl exec_refresh_inBatches

/-! ### Wallets that stall -/

namespace Sync

variable {S : Suite} {σ : Type} {env : Environment σ} {chain : List ParsedBlock} {most : Nat}

/-- Blocks that the wallet has seen bring nothing but their ids. -/
theorem exec_placeAll_of_seen {blocks : List ParsedBlock} {n : Nat} (first : Bool) {s : Session σ}
    (seen : ∀ k b, blocks[k]? = some b → s.history.HasSeen (n + k) b)
    (open_end : s.summary.targetFound = false) :
    ∃ h, Learned s.history.chain h.chain ∧
      exec (placeAll S env none n first blocks) s = (.ok 0, s.withHistory h) := by
  induction blocks generalizing n first s with
  | nil => exact ⟨s.history, .refl _, rfl⟩
  | cons b rest ih =>
    have others (k : Nat) (b' : ParsedBlock) (at_k : rest[k]? = some b') :
        s.history.HasSeen (n + 1 + k) b' := by
      rw [Nat.add_right_comm]
      exact seen (k + 1) b' at_k
    -- a known block is passed over; a placeholder takes the id, which adds no block either
    by_cases here : s.history.chain[n]? = some b.id
    · rw [exec_placeAll_passed (exec_placeBlock_known here) open_end]
      exact ih false others open_end
    · have unknown : s.history.chain[n]? = some .null := (seen 0 b rfl).resolve_left here
      have named : b.id ≠ .null := fun null => here (null ▸ unknown)
      rw [exec_placeAll_passed (exec_placeBlock_unknown unknown named) open_end]
      let now := s.withHistory { s.history with chain := s.history.chain.set n b.id }
      have others' (k : Nat) (b' : ParsedBlock) (at_k : rest[k]? = some b') :
          now.history.HasSeen (n + 1 + k) b' := by
        have untouched : (s.history.chain.set n b.id)[n + 1 + k]? = s.history.chain[n + 1 + k]? :=
          List.getElem?_set_ne (by omega)
        exact (others k b' at_k).imp untouched.trans untouched.trans
      have run := @ih (n + 1) false now others' open_end
      obtain ⟨h, learned, run⟩ := run
      exact ⟨h, ((Learned.refl _).set unknown b.id).trans learned, run⟩

end Sync

/-- A wallet that stalls gets no block, and its refresh succeeds after the first batch. -/
theorem exec_refresh_of_stalls {S : Suite} {σ : Type} {env : Environment σ}
    {chain : List ParsedBlock} {most : Nat} (serves : env.ServesBatches S chain most)
    (rounds : 0 < env.maxRounds) {s : Session σ} (unstopped : (env.stopAsked.run s.env).1 = false)
    (stalls : s.history.Stalls chain most) :
    let ended := afterBatches S env none (.fixed 0) s
    ended.stop = false ∧ ended.summary.blocksFetched = 0 ∧
      ended.history.height = s.history.height ∧ exec (refresh S env) s = (.ok ended.summary,
        ended.told (.refreshCompleted ended.summary.blocksFetched ended.wallet.height)) := by
  intro ended
  -- the first batch adds nothing, which is where the loop ends
  obtain ⟨start, told, -, seen⟩ := stalls
  let first := polled env (started (.fixed 0) s)
  have begun : first.history = s.history := assumeScanned_zero s.history
  have running : first.stop = false := by
    show ((env.stopAsked.run s.env).1 || false) = false
    rw [unstopped, Bool.or_false]
  rw [← begun] at told seen
  obtain ⟨e, batch⟩ := exec_pullBatch_of_batches serves told
  let asked : Session σ := { first with env := e }
  obtain ⟨h, learned, placed⟩ := @exec_placeAll_of_seen S σ env _ start true asked seen rfl
  obtain ⟨more, rounds⟩ : ∃ more, env.maxRounds = more + 1 := ⟨env.maxRounds - 1, by omega⟩
  have loop (delay : Delay) : exec (pullLoop S env (.fixed 0) none env.maxRounds true 0 delay)
      (started (.fixed 0) s) = (.ok (), asked.withHistory h) := by
    have any_start : batchStart (.fixed 0) true (started (.fixed 0) s) = 0 := rfl
    rw [rounds, exec_pullLoop_succ, running, any_start, batch.trans placed]
    simp [afterBatch]
  have last : ended = asked.withHistory h := by
    show afterBatches S env none (.fixed 0) s = _
    rw [afterBatches, loop]
  rw [refresh, exec_pull, loop, last]
  refine ⟨running, rfl, ?_, rfl⟩
  rw [← begun]
  exact learned.length_eq

open Branched in
/-- A wallet that counts one more block as scanned than it knows ids. The daemon sends two blocks at
once, the wallet adds neither of them, and the third one is missing, although nobody has stopped the
refresh. -/
theorem short_of_refresh :
    (server.inBatches 2).ServesBatches .small server.blocks 2 ∧
      (knowing [(blockOf 0).id, .null]).history.chain.head? = some (blockOf 0).id ∧
      let ended := afterBatches .small (server.inBatches 2) none (.fixed 0)
        (knowing [(blockOf 0).id, .null])
      exec (refresh .small (server.inBatches 2)) (knowing [(blockOf 0).id, .null]) =
          (.ok ended.summary,
            ended.told (.refreshCompleted ended.summary.blocksFetched ended.wallet.height)) ∧
        ended.stop = false ∧ ended.summary.blocksFetched = 0 ∧
        ended.history.height < server.blocks.length := by
  have serves := ChainServer.servesBatches legible 2
  -- both blocks of the batch are known, one of them as a placeholder
  have stalls : (knowing [(blockOf 0).id, .null]).history.Stalls server.blocks 2 := by
    refine ⟨0, by decide +kernel, by decide, fun k b at_k => ?_⟩
    match k, at_k with
    | 0, at_k => exact .inl (congrArg (Option.map ParsedBlock.id) at_k)
    | 1, _ => exact .inr rfl
  obtain ⟨running, nothing, height, run⟩ :=
    exec_refresh_of_stalls serves (show 0 < UInt64.size by decide) rfl stalls
  refine ⟨serves, rfl, run, running, nothing, ?_⟩
  rw [height]
  decide

end RingWallet
