import RingWallet.Proofs.Wallet.Trace

/-!
# A refresh that waits for a transaction

`Sync.addedBlocks` are the blocks that a refresh adds according to its trace (`Sync.traceOfPull`),
also those that a split of the chain takes away again later. `Sync.Reports` compares the summary and
the events of two sessions with such a list: the target was found if one of the blocks contains it,
and each of them is counted and told of. One move after the other, a trace reports the blocks that
it adds (`Sync.Follows.reports`).

Nothing happens any more once the target was found (`Sync.Follows.ends`), so that
`stopsAtTarget_of_refreshUntil` can say where a refresh ends.
-/

set_option autoImplicit false

namespace RingWallet

namespace Sync

open Scan WalletM

variable (S : Suite) {σ : Type} (env : Environment σ)

/-- Whether a block contains a transaction, as its reward or as one of those that came with it. -/
def holds (txHash : Hash) (b : ParsedBlock) : Bool :=
  (allTransactions S b).any fun q => q.1 = txHash

/-- The ids of the blocks of which some events tell. -/
def toldBlocks (events : List Event) : List Hash :=
  events.filterMap fun
    | .newBlock _ id => some id
    | _ => none

/-- The blocks that are added in a trace. -/
def addedBlocks (trace : List (Move σ)) : List ParsedBlock :=
  (trace.filter Move.isAdded).map Move.block

/-- What is reported from one session to another if some blocks are added in between. -/
structure Reports (txHash : Hash) (blocks : List ParsedBlock) (s t : Session σ) : Prop where
  found : t.summary.targetFound = (s.summary.targetFound || blocks.any (holds S txHash))
  fetched : t.summary.blocksFetched = s.summary.blocksFetched + blocks.length
  told : toldBlocks t.events = toldBlocks s.events ++ blocks.map ParsedBlock.id

variable {S env} {txHash : Hash} {s t u : Session σ} {b : ParsedBlock} {height : Nat}
  {blocks : List ParsedBlock}

/-! ### What is told of the blocks -/

/-- Events tell of the blocks of which their parts tell. -/
theorem toldBlocks_append (before after : List Event) :
    toldBlocks (before ++ after) = toldBlocks before ++ toldBlocks after :=
  List.filterMap_append

/-- The scan of a block tells of no block. -/
theorem toldBlocks_scanBlock (S : Suite) (env : Environment σ) (b : ParsedBlock) (height : Nat)
    (s : Session σ) : toldBlocks (scanBlock S env b height s).2.events = toldBlocks s.events := by
  let P : Session σ → Prop := fun t => toldBlocks t.events = toldBlocks s.events
  -- scanning tells of outputs and spends, never of a block
  have other (t : Session σ) (e : Event) (none : toldBlocks [e] = []) (same : P t) :
      P (t.told e) := by
    show toldBlocks (t.events ++ [e]) = _
    rw [toldBlocks_append, none, List.append_nil]
    exact same
  have stepwise : Stepwise env height P :=
    { env := fun _ _ _ same => same
      forget := fun _ _ same => same
      skipped := fun t _ same => other t _ rfl same
      record := fun t _ _ _ same => other (t.withHistory _) _ rfl same
      spend := fun t _ _ _ same => other (t.withHistory _) _ rfl same
      pay := fun _ _ _ same => same }
  exact keeps_scanBlock (fun txHash tx => stepwise.transaction S env tx txHash)
    (fun _ _ _ _ same => same) b rfl

/-- A block that failed is not told of, not counted, and finds nothing. -/
theorem reports_of_addBlock_error {target : Option Hash} {e : WalletError}
    (run : exec (addBlock S env b height target) s = (.error e, t)) :
    t.summary.targetFound = s.summary.targetFound ∧
      t.summary.blocksFetched = s.summary.blocksFetched ∧
      toldBlocks t.events = toldBlocks s.events := by
  obtain ⟨found, fetched⟩ := summary_of_addBlock_error run
  have told := toldBlocks_scanBlock S env b height s
  rw [exec_addBlock] at run
  rcases scanned : scanBlock S env b height s with ⟨e' | ⟨⟩, u⟩
  · rw [scanned] at run told
    obtain rfl := (Prod.mk.inj run).2
    exact ⟨found, fetched, told⟩
  · rw [scanned] at run
    cases run

/-- A block that was added is told of and counted. The target is found if it is in the block. -/
theorem reports_of_addBlock_ok
    (run : exec (addBlock S env b height (some txHash)) s = (.ok (), t)) :
    t.summary.targetFound = (s.summary.targetFound || holds S txHash b) ∧
      t.summary.blocksFetched = s.summary.blocksFetched + 1 ∧
      toldBlocks t.events = toldBlocks s.events ++ [b.id] := by
  obtain ⟨found, fetched⟩ := summary_scanBlock S env b height s
  have told := toldBlocks_scanBlock S env b height s
  rw [exec_addBlock] at run
  rcases scanned : scanBlock S env b height s with ⟨e' | ⟨⟩, u⟩
  · rw [scanned] at run
    cases run
  · rw [scanned] at run found fetched told
    obtain rfl : appended S b height (some txHash) u = t := (Prod.mk.inj run).2
    -- the block is looked through whether or not its transactions were scanned
    have found_here : (appended S b height (some txHash) u).summary.targetFound =
        (holds S txHash b || u.summary.targetFound) := by
      simp [appended, holds, Session.told]
    refine ⟨?_, congrArg (· + 1) fetched, ?_⟩
    · rw [found_here, found, Bool.or_comm]
    · show toldBlocks (u.events ++ [.newBlock height b.id]) = _
      rw [toldBlocks_append, told]
      rfl

/-- A block that was added is at the end of the chain. -/
theorem getLast?_of_addBlock_ok {target : Option Hash}
    (run : exec (addBlock S env b height target) s = (.ok (), t)) :
    t.history.chain.getLast? = some b.id := by
  obtain ⟨h', -, wallet⟩ := changes_of_addBlock_ok run
  rw [Session.history, wallet]
  exact List.getLast?_concat

/-! ### What a trace reports -/

/-- Nothing is reported while nothing happens. -/
theorem Reports.of_idle (idle : Idle s t) : Reports S txHash [] s t where
  found := by rw [idle.summary, List.any_nil, Bool.or_false]
  fetched := congrArg RefreshSummary.blocksFetched idle.summary
  told := by rw [idle.events, List.map_nil, List.append_nil]

/-- Two stretches of a run report their blocks one after the other. -/
theorem Reports.trans {later : List ParsedBlock} (first : Reports S txHash blocks s t)
    (second : Reports S txHash later t u) : Reports S txHash (blocks ++ later) s u where
  found := by rw [second.found, first.found, List.any_append, Bool.or_assoc]
  fetched := by rw [second.fetched, first.fetched, List.length_append, Nat.add_assoc]
  told := by rw [second.told, first.told, List.map_append, List.append_assoc]

/-- Two traces in a row add the blocks of both. -/
theorem addedBlocks_append (before after : List (Move σ)) :
    addedBlocks (before ++ after) = addedBlocks before ++ addedBlocks after := by
  unfold addedBlocks
  rw [List.filter_append, List.map_append]

/-- A move reports its block if it adds it. -/
theorem Move.Sound.reports {m : Move σ} (sound : m.Sound S env (some txHash)) :
    Reports S txHash (addedBlocks [m]) m.before m.after := by
  obtain ⟨kind, b, before, after⟩ := m
  cases kind with
  | added =>
    obtain ⟨found, fetched, told⟩ := reports_of_addBlock_ok sound
    refine ⟨?_, fetched, told⟩
    have only : addedBlocks [(⟨.added, b, before, after⟩ : Move σ)] = [b] := rfl
    rw [found, only, List.any_cons, List.any_nil, Bool.or_false]
  | adopted =>
    obtain ⟨height, -, same⟩ := sound
    obtain rfl : after = before.withHistory
      { before.history with chain := before.history.chain.set height b.id } := same
    exact ⟨(Bool.or_false _).symm, rfl, (List.append_nil _).symm⟩
  | detached =>
    -- a cut takes blocks away, but not what was found in them
    obtain ⟨height, id, -, -, -, same⟩ := sound
    obtain rfl : after = cut height before := same
    exact ⟨(Bool.or_false _).symm, rfl, toldBlocks_append _ _⟩
  | failed =>
    obtain ⟨e, run⟩ := sound
    obtain ⟨found, fetched, told⟩ := reports_of_addBlock_error run
    exact ⟨found.trans (Bool.or_false _).symm, fetched, told.trans (List.append_nil _).symm⟩

/-- A trace reports the blocks that it adds. -/
theorem Follows.reports {trace : List (Move σ)} (follows : Follows S env (some txHash) s trace t) :
    Reports S txHash (addedBlocks trace) s t := by
  induction trace generalizing s with
  | nil => exact .of_idle follows.1
  | cons m rest ih =>
    obtain ⟨-, idle, sound, later⟩ := follows
    have here := (Reports.of_idle idle).trans sound.reports
    have all := here.trans (ih later)
    rwa [List.nil_append, ← addedBlocks_append] at all

/-- As long as the target was not found, none of the blocks contains it. -/
theorem Reports.holds_eq_false (reports : Reports S txHash blocks s t)
    (missing : t.summary.targetFound = false) : ∀ b ∈ blocks, holds S txHash b = false := by
  have none := (Bool.or_eq_false_iff.mp (reports.found.symm.trans missing)).2
  intro b hb
  exact Bool.eq_false_iff.mpr (List.any_eq_false.mp none b hb)

/-- Only a block that is added finds the target, and it contains it. -/
theorem Move.Sound.finds {m : Move σ} (sound : m.Sound S env (some txHash))
    (open_end : m.before.summary.targetFound = false)
    (found : m.after.summary.targetFound = true) :
    m.isAdded = true ∧ holds S txHash m.block = true ∧
      m.after.history.chain.getLast? = some m.block.id := by
  have here := sound.reports.found
  rw [found, open_end, Bool.false_or] at here
  obtain ⟨kind, b, before, after⟩ := m
  cases kind with
  | adopted | detached | failed => cases here
  | added =>
    have contains : (holds S txHash b || false) = true := here.symm
    rw [Bool.or_false] at contains
    exact ⟨rfl, contains, getLast?_of_addBlock_ok sound⟩

end Sync

open Sync WalletM

/-- The trace of a refresh that waits for a transaction goes from the session in which its batches
start to the one in which they end. Each block that it adds is told of and counted, also those that
are taken away again. Either the transaction was found: then the last move adds a block that
contains it, none of the blocks before contains it, and the block is the last thing that happens and
ends the chain. Or none of the blocks contains it. -/
theorem stopsAtTarget_of_refreshUntil (S : Suite) {σ : Type} (env : Environment σ) (height : Nat)
    (txHash : Hash) {s t : Session σ} {summary : RefreshSummary}
    (run : exec (refreshUntil S env height txHash) s = (.ok summary, t)) :
    let trace := traceOfPull S env (some txHash) (.fixed height) s
    let last := afterBatches S env (some txHash) (.fixed height) s
    Follows S env (some txHash) (started (.fixed height) s) trace last ∧
      t = last.told (.refreshCompleted summary.blocksFetched last.wallet.height) ∧
      toldBlocks t.events = toldBlocks s.events ++ (addedBlocks trace).map ParsedBlock.id ∧
      summary.blocksFetched = (addedBlocks trace).length ∧
      (summary.targetFound = true → ∃ before m, trace = before ++ [m] ∧ m.isAdded = true ∧
        m.after = last ∧ holds S txHash m.block = true ∧
        (∀ b ∈ addedBlocks before, holds S txHash b = false) ∧
        t.history.chain.getLast? = some m.block.id) ∧
      (summary.targetFound = false → ∀ b ∈ addedBlocks trace, holds S txHash b = false) := by
  intro trace last
  obtain ⟨-, rfl, rfl⟩ := eq_told_of_exec_pull S env (some txHash) run
  have follows := follows_pull S env (some txHash) (.fixed height) s
  have reports := follows.reports
  refine ⟨follows, rfl, ?_, reports.fetched.trans (Nat.zero_add _), fun found => ?_,
    fun missing => reports.holds_eq_false missing⟩
  · -- completing the refresh tells of no block
    show toldBlocks (last.events ++ [_]) = _
    rw [toldBlocks_append, reports.told]
    exact List.append_nil _
  · -- the last move is the only one that can have found the target
    obtain ⟨before, m, split, ended, sound, earlier, still⟩ := follows.ends rfl found
    rw [← ended] at found
    obtain ⟨added, contains, ends⟩ := sound.finds still found
    refine ⟨before, m, split, added, ended, contains, earlier.reports.holds_eq_false still, ?_⟩
    rwa [ended] at ends

/-! ### A transaction that is waited for

The blocks are older than the account, so that they are not scanned. The transaction is in the
second one, which the daemon sends in its second batch, and the third batch is not fetched. -/

namespace Awaiting

open SmallSuite Script

/-- The transaction of the second block. -/
def awaited : Hash := (payment 4 6 [.toKey 10 [0] (image 3)]).hash .small

/-- A new wallet of a young account, whose daemon has three batches of one block. -/
def waiting : Session Script where
  env := ⟨[batch 0 funding, batch 1 spending, batch 2 (block (coinbase 2) [])], []⟩
  wallet := ⟨{ account with createTime := 1000000 }, {}, {}⟩

/-- The session after the first batch. -/
def half : Session Script :=
  appended .small funding 0 (some awaited) (fetched (started (.fixed 0) waiting))

/-- The session after the second batch. -/
def found : Session Script := appended .small spending 1 (some awaited) (fetched half)

section

variable {S : Suite} {height : Nat} {txHash : Hash} {s t u : Session Script}

/-- An old block is added without a scan. -/
theorem exec_addBlock_old {b : ParsedBlock} (old : isRelevant s.wallet b.block = false)
    (height : Nat) (target : Option Hash) :
    exec (addBlock S environment b height target) s = (.ok (), appended S b height target s) := by
  rw [exec_addBlock, scanBlock, old]
  rfl

/-- A refresh whose second batch brings the target. -/
theorem exec_refreshUntil_second
    (first : exec (pullBatch S environment height (some txHash)) (started (.fixed height) s) =
      (.ok 1, t))
    (running : t.stop = false) (open_end : t.summary.targetFound = false)
    (second : exec (pullBatch S environment 0 (some txHash)) t = (.ok 1, u))
    (closed : u.summary.targetFound = true) :
    exec (refreshUntil S environment height txHash) s =
      (.ok u.summary, u.told (.refreshCompleted u.summary.blocksFetched u.wallet.height)) := by
  -- the second batch finds the target, which ends the loop
  have last (delay : Delay) :
      exec (pullLoop S environment (.fixed height) (some txHash) 1 false 0 delay) t =
        (.ok (), u) := by
    rw [exec_pullLoop_succ, polled_environment]
    simp only [batchStart, second, afterBatch, running, closed, or_true, if_true,
      Bool.false_eq_true, if_false]
  have loop (delay : Delay) : exec (pullLoop S environment (.fixed height) (some txHash)
      environment.maxRounds true 0 delay) (started (.fixed height) s) = (.ok (), u) := by
    have begun : (started (.fixed height) s).stop = false := rfl
    show exec (pullLoop S environment (.fixed height) (some txHash) (1 + 1) true 0 delay) _ = _
    rw [exec_pullLoop_succ, polled_environment]
    simp only [batchStart, first, afterBatch, begun, open_end, last, Nat.one_ne_zero,
      Bool.false_eq_true, or_false, if_true, if_false]
  rw [refreshUntil, exec_pull, loop]

end

/-- The first batch adds a block without the target. -/
theorem first_waiting :
    exec (pullBatch .small environment 0 (some awaited)) (started (.fixed 0) waiting) =
      (.ok 1, half) := by
  have legible : Legible .small funding := legible_block (by decide +kernel) (by simp)
  have add : exec (addBlock .small environment funding 0 (some awaited))
      (fetched (started (.fixed 0) waiting)) = (.ok (), half) :=
    exec_addBlock_old (by decide +kernel) 0 (some awaited)
  exact (exec_pullBatch_one legible (s := started (.fixed 0) waiting) rfl).trans
    (exec_bind_ok _ add)

/-- The second batch adds the block that holds the target. -/
theorem second_waiting :
    exec (pullBatch .small environment 0 (some awaited)) half = (.ok 1, found) := by
  have legible : Legible .small spending := legible_block (by decide +kernel) (by decide +kernel)
  have add : exec (addBlock .small environment spending 1 (some awaited)) (fetched half) =
      (.ok (), found) := exec_addBlock_old (by decide +kernel) 1 (some awaited)
  exact (exec_pullBatch_one legible (s := half) rfl).trans (exec_bind_ok _ add)

/-- The refresh ends with the second batch. -/
theorem refreshUntil_waiting :
    exec (refreshUntil .small environment 0 awaited) waiting =
      (.ok found.summary,
        found.told (.refreshCompleted found.summary.blocksFetched found.wallet.height)) :=
  exec_refreshUntil_second first_waiting rfl (by decide +kernel) second_waiting (by decide +kernel)

end Awaiting

open Awaiting in
/-- The transaction is found in the second block, which ends the chain. -/
theorem stopsAtTarget_of_refreshUntil_awaited :
    exec (refreshUntil .small Script.environment 0 awaited) waiting =
      (.ok found.summary,
        found.told (.refreshCompleted found.summary.blocksFetched found.wallet.height)) ∧
      ∃ before m,
        traceOfPull .small Script.environment (some awaited) (.fixed 0) waiting = before ++ [m] ∧
        m.isAdded = true ∧ holds .small awaited m.block = true ∧
        (∀ b ∈ addedBlocks before, holds .small awaited b = false) ∧
        found.history.chain = (addedBlocks (before ++ [m])).map ParsedBlock.id := by
  obtain ⟨-, -, told, -, target, -⟩ :=
    stopsAtTarget_of_refreshUntil .small Script.environment 0 awaited refreshUntil_waiting
  obtain ⟨before, m, trace, added, -, here, none, -⟩ := target (by decide +kernel)
  rw [trace] at told
  refine ⟨refreshUntil_waiting, before, m, trace, added, here, none, Eq.trans ?_ told⟩
  decide +kernel

end RingWallet
