import Mathlib.Data.List.DropRight
import RingWallet.Proofs.Wallet.Retries

/-!
# The trace of a refresh

`Sync.traceOfPull` is what a refresh does to the wallet, as a function of its run: for each batch
that it asks for (`Sync.attemptsOfPull`), and each block of the answer to it in turn, whether the
block was added, gave a height its id, or failed, and where the chain was cut back before. A move
(`Sync.Move`) holds the block, and the sessions right before and right after it.

The trace is made of the answers of the daemon and of the runs of `addBlock` alone.
`Sync.follows_pull` says that it tells the whole story: the moves follow one another from the
session in which the batches start to the one in which they end, nothing else happens to the wallet
on the way, and nothing at all once the transaction that is waited for was found. Each level of the
refresh, from one block to all batches, has its own lemma, of which `Sync.Explains` is the form.
-/

set_option autoImplicit false

namespace RingWallet

namespace Sync

open Scan WalletM

/-- What a refresh does with a block of an answer. -/
inductive MoveKind where
  /-- The block was scanned and added to the end of the chain. -/
  | added
  /-- The block gave its id to a height whose id was not known. -/
  | adopted
  /-- The chain was cut back to the height of the block, where it had another id. -/
  | detached
  /-- The block was scanned to be added to the end of the chain, and failed. -/
  | failed
deriving DecidableEq

/-- A move of a refresh: the block of the answer that it is about, and the sessions right before and
right after it. -/
structure Move (σ : Type) where
  kind : MoveKind
  block : ParsedBlock
  before : Session σ
  after : Session σ

namespace Move

variable {σ : Type}

/-- Whether the move is a failed block, and not a completed step. -/
def isFailed (m : Move σ) : Bool := m.kind = .failed

/-- Whether the move is a block that was added. -/
def isAdded (m : Move σ) : Bool := m.kind = .added

end Move

section

variable (S : Suite) {σ : Type} (env : Environment σ) (target : Option Hash)

/-! ### Traces -/

/-- A block is scanned to be added to the end of the chain. -/
def moveOfAdd (b : ParsedBlock) (s : Session σ) : Move σ :=
  match exec (addBlock S env b s.history.height target) s with
  | (.ok _, t) => ⟨.added, b, s, t⟩
  | (.error _, t) => ⟨.failed, b, s, t⟩

/-- What is done with a block for a height. -/
def traceOfBlock (b : ParsedBlock) (height : Nat) (first : Bool) (s : Session σ) : List (Move σ) :=
  match s.history.chain[height]? with
  | none => if s.history.height < height then [] else [moveOfAdd S env target b s]
  | some id =>
    if id = b.id then []
    else if id = .null then
      [⟨.adopted, b, s,
        s.withHistory { s.history with chain := s.history.chain.set height b.id }⟩]
    else if first then []
    else [⟨.detached, b, s, cut height s⟩, moveOfAdd S env target b (cut height s)]

/-- What is done with the blocks of an answer, up to one that fails, cannot be read, or contains the
target. -/
def traceOfBlocks (height : Nat) (first : Bool) :
    List Daemon.BlockEntry → Session σ → List (Move σ)
  | [], _ => []
  | entry :: rest, s =>
    match parseEntry S entry with
    | .error _ => []
    | .ok b =>
      traceOfBlock S env target b height first s ++
        match exec (placeBlock S env b height first target) s with
        | (.error _, _) => []
        | (.ok _, t) =>
          if t.summary.targetFound then [] else traceOfBlocks (height + 1) false rest t

/-- What is done with the answer to a request for blocks from a height. -/
def traceOfBatch (startHeight : Nat) (s : Session σ) : List (Move σ) :=
  match (env.getBlocks
      { blockIds := s.history.fingerprint.map Hash.hex, startHeight }).run s.env with
  | (.error _, _) => []
  | (.ok reply, e) =>
    if reply.status = Daemon.okStatus then
      traceOfBlocks S env target reply.startHeight true reply.blocks { s with env := e }
    else []

variable (start : RefreshStart)

/-- What is done with the answer to a request of a refresh. -/
def traceOfAttempt (a : Attempt σ) : List (Move σ) :=
  traceOfBatch S env target (batchStart start a.first a.before) a.before

/-- What a refresh does to the wallet, from its first batch to its last one. -/
def traceOfPull (s : Session σ) : List (Move σ) :=
  (attemptsOfPull env S target start s).flatMap (traceOfAttempt S env target start)

/-- The session right after the last move, or the one in which they start if there is none. -/
def sessionAfter : Session σ → List (Move σ) → Session σ
  | s, [] => s
  | _, m :: rest => sessionAfter m.after rest

/-! ### Following a trace -/

/-- Nothing happens to the wallet, and nothing is told: the environment goes on, or another task
asks the wallet to stop. -/
structure Idle (s t : Session σ) : Prop where
  wallet : t.wallet = s.wallet
  events : t.events = s.events
  summary : t.summary = s.summary

/-- The move is what it is said to be. -/
def Move.Sound (m : Move σ) : Prop :=
  match m.kind with
  | .added =>
    exec (addBlock S env m.block m.before.history.height target) m.before = (.ok (), m.after)
  | .adopted => ∃ height, m.before.history.chain[height]? = some .null ∧
    m.after = m.before.withHistory
      { m.before.history with chain := m.before.history.chain.set height m.block.id }
  | .detached => ∃ height id, m.before.history.chain[height]? = some id ∧ id ≠ .null ∧
    id ≠ m.block.id ∧ m.after = cut height m.before
  | .failed => ∃ e,
    exec (addBlock S env m.block m.before.history.height target) m.before = (.error e, m.after)

/-- The moves follow one another from one session to another, and nothing else happens to the wallet
on the way. Once the target was found nothing happens at all. -/
def Follows : Session σ → List (Move σ) → Session σ → Prop
  | s, [], t => Idle s t ∧ (s.summary.targetFound = true → t = s)
  | s, m :: rest, t => s.summary.targetFound = false ∧ Idle s m.before ∧
    m.Sound S env target ∧ Follows m.after rest t

/-- A trace that belongs to a run, which has not found the target if it fails. -/
structure Explains {α : Type} (s : Session σ) (trace : List (Move σ))
    (p : Except WalletError α × Session σ) : Prop where
  follows : Follows S env target s trace p.2
  open_end : ∀ e, p.1 = .error e → p.2.summary.targetFound = false

variable {S env target start} {α : Type} {s t u : Session σ} {trace : List (Move σ)}

/-- Nothing happens between a session and itself. -/
theorem Idle.refl (s : Session σ) : Idle s s := ⟨rfl, rfl, rfl⟩

/-- If nothing happens twice, nothing happens. -/
theorem Idle.trans (first : Idle s t) (second : Idle t u) : Idle s u :=
  ⟨second.wallet.trans first.wallet, second.events.trans first.events,
    second.summary.trans first.summary⟩

/-- The history does not change while nothing happens. -/
theorem Idle.history (idle : Idle s t) : t.history = s.history :=
  congrArg Wallet.history idle.wallet

/-- The target is not found while nothing happens. -/
theorem Idle.targetFound (idle : Idle s t) :
    t.summary.targetFound = s.summary.targetFound :=
  congrArg RefreshSummary.targetFound idle.summary

/-- Nothing follows from no move. -/
theorem Follows.refl (s : Session σ) : Follows S env target s [] s := ⟨.refl s, fun _ => rfl⟩

/-- What happens to the environment before the first move does not matter, unless the target was
found. -/
theorem Follows.after_idle (idle : Idle s u) (open_end : s.summary.targetFound = false)
    (follows : Follows S env target u trace t) : Follows S env target s trace t := by
  cases trace with
  | nil =>
    refine ⟨idle.trans follows.1, fun found => ?_⟩
    rw [open_end] at found
    cases found
  | cons m rest =>
    obtain ⟨-, at_move, sound, later⟩ := follows
    exact ⟨open_end, idle.trans at_move, sound, later⟩

/-- The environment may have gone on before. -/
theorem Follows.asked {e : σ} (open_end : s.summary.targetFound = false)
    (follows : Follows S env target { s with env := e } trace t) :
    Follows S env target s trace t := by
  have idle : Idle s { s with env := e } := ⟨rfl, rfl, rfl⟩
  exact follows.after_idle idle open_end

/-- Two traces in a row. -/
theorem Follows.append {later : List (Move σ)} (first : Follows S env target s trace u)
    (second : Follows S env target u later t) : Follows S env target s (trace ++ later) t := by
  induction trace generalizing s with
  | nil =>
    obtain ⟨idle, stays⟩ := first
    rcases found : s.summary.targetFound
    · exact second.after_idle idle found
    · rwa [stays found] at second
  | cons m rest ih =>
    obtain ⟨open_end, idle, sound, more⟩ := first
    exact ⟨open_end, idle, sound, ih more⟩

/-- The rest of a trace follows from the session right after its first part. -/
theorem Follows.rest {later : List (Move σ)} (follows : Follows S env target s (trace ++ later) t) :
    Follows S env target (sessionAfter s trace) later t := by
  induction trace generalizing s with
  | nil => exact follows
  | cons m rest ih => exact ih follows.2.2.2

/-- The target ends the trace: it was found by the last move. -/
theorem Follows.ends (follows : Follows S env target s trace t)
    (open_end : s.summary.targetFound = false) (found : t.summary.targetFound = true) :
    ∃ before m, trace = before ++ [m] ∧ m.after = t ∧ m.Sound S env target ∧
      Follows S env target s before m.before ∧ m.before.summary.targetFound = false := by
  induction trace generalizing s with
  | nil =>
    rw [follows.1.targetFound, open_end] at found
    cases found
  | cons m rest ih =>
    obtain ⟨-, idle, sound, later⟩ := follows
    -- the target is found by the first move or by a later one
    rcases here : m.after.summary.targetFound
    · obtain ⟨before, last, rfl, ended, sound', earlier, still⟩ := ih later here
      exact ⟨m :: before, last, rfl, ended, sound', ⟨open_end, idle, sound, earlier⟩, still⟩
    · -- no move can come after the one that found it
      cases rest with
      | nil =>
        refine ⟨[], m, rfl, (later.2 here).symm, sound, ⟨idle, fun found => ?_⟩, ?_⟩
        · rw [open_end] at found
          cases found
        · exact idle.targetFound.trans open_end
      | cons next rest =>
        have not_here := later.1
        rw [here] at not_here
        cases not_here

/-! ### Blocks -/

/-- Adding a block is one move, which fails if the scan does. -/
theorem explains_moveOfAdd (S : Suite) (env : Environment σ) (target : Option Hash)
    (b : ParsedBlock) (s : Session σ) (open_end : s.summary.targetFound = false) :
    Explains S env target s [moveOfAdd S env target b s]
      (exec (addBlock S env b s.history.height target) s) := by
  unfold moveOfAdd
  rcases run : exec (addBlock S env b s.history.height target) s with ⟨e | ⟨⟩, t⟩
  · refine ⟨⟨open_end, .refl s, ⟨e, run⟩, .refl t⟩, fun _ _ => ?_⟩
    exact (summary_of_addBlock_error run).1.trans open_end
  · exact ⟨⟨open_end, .refl s, run, .refl t⟩, fun _ error => by cases error⟩

/-- Nothing is done before a block fails for another reason than its scan. -/
theorem Explains.error (e : WalletError) (open_end : s.summary.targetFound = false) :
    Explains S env target s [] ((.error e, s) : Except WalletError α × Session σ) :=
  ⟨.refl s, fun _ _ => open_end⟩

/-- A run that succeeds is explained by the moves that lead to its end. -/
theorem Explains.ok {a : α} (follows : Follows S env target s trace t) :
    Explains S env target s trace (.ok a, t) :=
  ⟨follows, fun _ error => by cases error⟩

/-- A program and what comes after it, which is nothing if the program fails. -/
theorem Explains.then {β : Type} {x : WalletM σ α} {f : α → WalletM σ β} {later : List (Move σ)}
    (first : Explains S env target s trace (exec x s))
    (stops : ∀ e t, exec x s = (.error e, t) → later = [])
    (rest : ∀ a t, exec x s = (.ok a, t) → Explains S env target t later (exec (f a) t)) :
    Explains S env target s (trace ++ later) (exec (x >>= f) s) := by
  rcases run : exec x s with ⟨e | a, t⟩
  · rw [run] at first
    rw [exec_bind_error _ run, stops e t run, List.append_nil]
    exact ⟨first.follows, fun _ _ => first.open_end e rfl⟩
  · rw [run] at first
    have more := rest a t run
    rw [exec_bind_ok _ run]
    exact ⟨first.follows.append more.follows, more.open_end⟩

/-- What is done with the result of a program, without another move, leaves the trace as it is. -/
theorem Explains.map {β : Type} {x : WalletM σ α} (f : α → β)
    (first : Explains S env target s trace (exec x s)) :
    Explains S env target s trace (exec (x >>= fun a => pure (f a)) s) := by
  rw [← List.append_nil trace]
  exact first.then (fun _ _ _ => rfl) fun _ t _ => .ok (.refl t)

/-- The block at the end of the chain, after which the batch counts it. -/
theorem explains_addBlock_then (S : Suite) (env : Environment σ) (target : Option Hash)
    (b : ParsedBlock) {s : Session σ} {height : Nat} (on_top : height = s.history.height)
    (open_end : s.summary.targetFound = false) :
    Explains S env target s [moveOfAdd S env target b s]
      (exec (do addBlock S env b height target; return true) s) := by
  subst on_top
  exact (explains_moveOfAdd S env target b s open_end).map fun _ => true

/-- What is done with one block of a batch is its trace. -/
theorem explains_placeBlock (S : Suite) (env : Environment σ) (target : Option Hash)
    (b : ParsedBlock) (height : Nat) (first : Bool) {s : Session σ}
    (open_end : s.summary.targetFound = false) :
    Explains S env target s (traceOfBlock S env target b height first s)
      (exec (placeBlock S env b height first target) s) := by
  unfold placeBlock traceOfBlock
  rw [exec_bind_ok _ (exec_history s)]
  rcases known : s.history.chain[height]? with - | id
  · have beyond : s.history.height ≤ height := List.getElem?_eq_none_iff.mp known
    simp only []
    split
    · exact .error _ open_end
    · next inside =>
      exact explains_addBlock_then S env target b (Nat.le_antisymm (Nat.not_lt.mp inside) beyond)
        open_end
  · have below : height < s.history.height := (List.getElem?_eq_some_iff.mp known).1
    simp only [Hash.isNull, decide_eq_true_eq]
    -- a block that is known, one whose id was not known, and a split of the chain
    split
    · exact .ok (.refl s)
    · next other =>
      split
      · next unknown =>
        subst unknown
        exact .ok ⟨open_end, .refl s, ⟨height, known, rfl⟩, .refl _⟩
      · next named =>
        cases first with
        | true => exact .error _ open_end
        | false =>
          have on_top : height = (cut height s).history.height := by
            show height = (s.history.chain.take height).length
            rw [List.length_take]
            unfold History.height at below
            omega
          have added := explains_addBlock_then S env target b on_top open_end
          exact ⟨⟨open_end, .refl s, ⟨height, id, known, named, other, rfl⟩, added.follows⟩,
            added.open_end⟩

/-! ### Batches -/

/-- What is done with the blocks of a batch is their trace, up to the first one that cannot be
placed. -/
theorem explains_placeBlocks (S : Suite) (env : Environment σ) (target : Option Hash)
    (entries : List Daemon.BlockEntry) (height : Nat) (first : Bool) {s : Session σ}
    (open_end : s.summary.targetFound = false) :
    Explains S env target s (traceOfBlocks S env target height first entries s)
      (exec (placeBlocks S env target height first entries) s) := by
  induction entries generalizing height first s with
  | nil => exact .ok (.refl s)
  | cons entry rest ih =>
    rw [placeBlocks, exec_bind, exec_orFail, traceOfBlocks]
    rcases parsed : parseEntry S entry with e | b
    · exact .error _ open_end
    · simp only [Except.mapError_ok]
      have block := explains_placeBlock S env target b height first open_end
      refine block.then (fun e t run => by rw [run]) fun added t run => ?_
      rw [run, exec_bind_ok _ (exec_get t)]
      -- the flag decides whether there is another block
      rcases found : t.summary.targetFound
      · simp only [found, Bool.false_eq_true, if_false]
        exact (ih (height + 1) false found).map _
      · simp only [found, if_true]
        exact .ok (.refl t)

/-- What a batch does is its trace, which is empty if the daemon does not answer. -/
theorem explains_pullBatch (S : Suite) (env : Environment σ) (target : Option Hash)
    (startHeight : Nat) {s : Session σ} (open_end : s.summary.targetFound = false) :
    Explains S env target s (traceOfBatch S env target startHeight s)
      (exec (pullBatch S env startHeight target) s) := by
  unfold pullBatch traceOfBatch
  rw [exec_bind_ok _ (exec_history s), exec_bind, exec_ask]
  rcases (env.getBlocks
    { blockIds := s.history.fingerprint.map Hash.hex, startHeight }).run s.env with
    ⟨e | reply, env'⟩
  -- the question changes no wallet, so its trace is that of the blocks that are placed
  all_goals
    have asked : Follows S env target s [] { s with env := env' } :=
      .asked open_end (.refl _)
  · exact ⟨asked, fun _ _ => open_end⟩
  · simp only [Except.mapError_ok]
    rw [exec_bind, exec_checkStatus]
    rcases status : statusResult .blocks reply.status with e | ⟨⟩
    · have refused : ¬ reply.status = Daemon.okStatus := fun accepted => by
        rw [statusResult_eq_ok.mpr accepted] at status
        cases status
      rw [if_neg refused]
      exact ⟨asked, fun _ _ => open_end⟩
    · rw [if_pos (statusResult_eq_ok.mp status)]
      have blocks := explains_placeBlocks S env target reply.blocks reply.startHeight true
        (s := { s with env := env' }) open_end
      exact ⟨asked.append blocks.follows, blocks.open_end⟩

/-! ### Refreshes -/

/-- The attempts of a loop, one after the other. -/
theorem Attempted.follows {tries : Nat} {tried : List (Attempt σ)}
    {p : Except WalletError Unit × Session σ}
    (attempted : Attempted env S target start tries s tried p)
    (open_end : s.summary.targetFound = false) :
    Follows S env target s (tried.flatMap (traceOfAttempt S env target start)) p.2 := by
  have polled_idle (s : Session σ) : Idle s (polled env s) := ⟨rfl, rfl, rfl⟩
  -- each attempt starts with a look at the flag
  have attempt {first : Bool} {s t : Session σ} {r : Except WalletError Nat}
      (open_end : s.summary.targetFound = false)
      (run : exec (pullBatch S env (batchStart start first s) target) (polled env s) = (r, t)) :
      Follows S env target s (traceOfAttempt S env target start ⟨first, polled env s, r, t⟩) t ∧
        ∀ e, r = .error e → t.summary.targetFound = false := by
    have batch := explains_pullBatch S env target (batchStart start first s)
      (s := polled env s) open_end
    rw [run] at batch
    exact ⟨.after_idle (polled_idle s) open_end batch.follows, batch.open_end⟩
  induction attempted with
  | unfinished => exact .refl _
  | stopped stop => exact .after_idle (polled_idle _) open_end (.refl _)
  | completed run last =>
    rw [List.flatMap_singleton]
    exact (attempt open_end run).1
  | failed run exhausted =>
    rw [List.flatMap_singleton]
    exact (attempt open_end run).1
  | next run more rest ih =>
    have still := Bool.eq_false_iff.mpr fun found => more (.inr found)
    exact (attempt open_end run).1.append (ih still)
  | retried run retryable left rest ih =>
    -- what fails has not found the target, so it may be tried again after a while
    obtain ⟨batch, still⟩ := attempt open_end run
    exact batch.append ((ih (still _ rfl)).asked (still _ rfl))

/-- The trace of a refresh leads from the session in which its batches start to the one in which
they end, whether they succeed or fail. -/
theorem follows_pull (S : Suite) (env : Environment σ) (target : Option Hash) (start : RefreshStart)
    (s : Session σ) :
    Follows S env target (started start s) (traceOfPull S env target start s)
      (afterBatches S env target start s) :=
  (attempted_pullLoop env.maxRounds true 0 s.wallet.config.retry.firstDelay
    (started start s)).follows rfl

end

end Sync

end RingWallet
