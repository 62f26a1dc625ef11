import RingWallet.Proofs.Support.FlakyServer
import RingWallet.Proofs.Wallet.Journal

/-!
# Attempts to fetch a batch

A refresh asks for one batch after the other. A batch that fails because of the daemon is asked for
again, as long as the failures of the refresh so far are no more than the wallet retries. The count
runs over the whole refresh: a batch that succeeds does not set it back.

`Sync.attempts` are the batches that a refresh asks for, and `attempts_of_pull` says how it depends
on them whether the refresh fails: it fails with the error of its last attempt and in the session
after it; a failure that is not due to the daemon is always the last attempt; and a failure that is
due to it ends the refresh exactly if it is the one after as many as the wallet retries, whatever
succeeded in between. What the wallet had after an attempt is kept by all that follow it, but for
what the chain was cut back to (`History.KeptBelow`). `error_of_attempts_apart` is a refresh that
fails although the attempt before its last one has succeeded.
-/

set_option autoImplicit false

namespace RingWallet

open WalletM

/-! ### What further steps leave as it is -/

namespace History

/-- Nothing below a height is lost from a history: the ids that are known there stand where they
stood, and the outputs from there come first, in their order, although they may be spent by now. -/
structure KeptBelow (n : Nat) (h h' : History) : Prop where
  chain : ∀ i id, i < n → h.chain[i]? = some id → id ≠ .null → h'.chain[i]? = some id
  transfers : (h.transfers.filter fun t => t.blockHeight < n).map Transfer.unspent <+:
    h'.transfers.map Transfer.unspent

variable {n : Nat} {h h' h'' : History}

/-- A history with ordered outputs keeps all that it has below a height. -/
theorem KeptBelow.refl (ordered : h.Ordered) (n : Nat) : h.KeptBelow n h where
  chain _ _ _ here _ := here
  transfers := by
    -- the outputs from below stand first, because the list is ordered
    rw [← transfers_detach_eq_filter ordered.sorted n, transfers_detach]
    exact (List.takeWhile_prefix _).map _

/-- Marks lose nothing. -/
theorem KeptBelow.sameOutputs (kept : h.KeptBelow n h') (same : SameOutputs h' h'') :
    h.KeptBelow n h'' where
  chain i id below here known := by
    rw [same.chain]
    exact kept.chain i id below here known
  transfers := by
    rw [same.transfers]
    exact kept.transfers

/-- A recorded output goes to the end, behind those that are kept. -/
theorem KeptBelow.record (kept : h.KeptBelow n h') (t : Transfer) (image : Option KeyImage) :
    h.KeptBelow n (h'.record t image) where
  chain := kept.chain
  transfers := kept.transfers.trans ((List.prefix_append _ _).map _)

/-- An appended block goes on top of what is kept. -/
theorem KeptBelow.append (kept : h.KeptBelow n h') (id : Hash) :
    h.KeptBelow n { h' with chain := h'.chain ++ [id] } where
  chain i id below here known := by
    have there := kept.chain i id below here known
    exact (List.getElem?_append_left (List.getElem?_eq_some_iff.mp there).1).trans there
  transfers := kept.transfers

/-- A known id is not replaced. -/
theorem KeptBelow.setId (kept : h.KeptBelow n h') {m : Nat} (unknown : h'.chain[m]? = some .null)
    (id : Hash) : h.KeptBelow n { h' with chain := h'.chain.set m id } where
  chain i id below here known := by
    have there := kept.chain i id below here known
    refine (List.getElem?_set_ne ?_).trans there
    -- at height `m` the id is not known
    rintro rfl
    exact known (Option.some.inj (there.symm.trans unknown))
  transfers := kept.transfers

/-- A cut at the height or above it. -/
theorem KeptBelow.detach (kept : h.KeptBelow n h') (ordered : h'.Ordered) {m : Nat}
    (above : n ≤ m) : h.KeptBelow n (h'.detach m) where
  chain i id below here known := by
    have there := kept.chain i id below here known
    exact (List.getElem?_take_of_lt (Nat.lt_of_lt_of_le below above)).trans there
  transfers := by
    -- the outputs from below `n` are below the cut as well
    have lower : ((h.transfers.filter fun t => t.blockHeight < n).map Transfer.unspent).filter
        (fun t => decide (t.blockHeight < m)) =
          (h.transfers.filter fun t => t.blockHeight < n).map Transfer.unspent := by
      refine List.filter_eq_self.mpr fun t mem => ?_
      obtain ⟨u, hu, rfl⟩ := List.mem_map.mp mem
      have low : u.blockHeight < n := of_decide_eq_true (List.mem_filter.mp hu).2
      exact decide_eq_true (Nat.lt_of_lt_of_le low above)
    have cut := kept.transfers.filter fun t => decide (t.blockHeight < m)
    rw [lower, List.filter_map] at cut
    rw [transfers_detach_eq_filter ordered.sorted]
    exact cut

/-- The heights to which the events say that the chain was cut are no lower. -/
def NotCutBelow (n : Nat) (told : List Event) : Prop :=
  ∀ height detached, Event.reorg height detached ∈ told → n ≤ height

/-- The history and what was told since `before`: it has kept what a former one had below all
heights to which the chain was cut back. -/
structure Outlasts (begun : History) (before : List Event) (h : History) (es : List Event) :
    Prop where
  ordered : h.Ordered
  kept : ∃ told, es = before ++ told ∧
    ∀ n, NotCutBelow n told → begun.KeptBelow n h

/-- A step with the events that tell it. -/
theorem Outlasts.step {begun : History} {before es more : List Event}
    (outlasts : begun.Outlasts before h es) (ordered : h'.Ordered)
    (keeps : ∀ n, NotCutBelow n more → begun.KeptBelow n h → begun.KeptBelow n h') :
    begun.Outlasts before h' (es ++ more) := by
  obtain ⟨told, rfl, kept⟩ := outlasts.kept
  refine ⟨ordered, told ++ more, List.append_assoc _ _ _, fun n low => keeps n ?_ (kept n ?_)⟩
  · exact fun height detached mem => low height detached (List.mem_append_right _ mem)
  · exact fun height detached mem => low height detached (List.mem_append_left _ mem)

/-- Before anything is told nothing is lost. -/
theorem Outlasts.refl (ordered : h.Ordered) (es : List Event) : h.Outlasts es h es :=
  ⟨ordered, [], (List.append_nil es).symm, fun n _ => .refl ordered n⟩

/-- A step that is not told must keep what lies below every height. -/
theorem Outlasts.untold {begun : History} {before es : List Event}
    (outlasts : begun.Outlasts before h es) (ordered : h'.Ordered)
    (keeps : ∀ n, begun.KeptBelow n h → begun.KeptBelow n h') : begun.Outlasts before h' es := by
  rw [← List.append_nil es]
  exact outlasts.step ordered fun n _ => keeps n

end History

namespace Sync

/-- The single steps of a refresh take away nothing but what they cut. -/
theorem narrated_outlasts (begun : History) (before : List Event) :
    Narrated (begun.Outlasts before) where
  forget txHash outlasts :=
    -- forgetting a transaction cuts nothing, and tells of nothing
    have same := History.sameOutputs_forget _ txHash
    outlasts.untold (outlasts.ordered.sameOutputs same) fun _ kept => kept.sameOutputs same
  skipped _ outlasts := outlasts.step outlasts.ordered fun _ _ kept => kept
  record t image at_end outlasts :=
    outlasts.step (outlasts.ordered.record image at_end) fun _ _ kept => kept.record t image
  spend image _ _ outlasts :=
    have same := History.sameOutputs_spend _ image
    outlasts.step (outlasts.ordered.sameOutputs same) fun _ _ kept => kept.sameOutputs same
  pay id payment outlasts :=
    have same := History.sameOutputs_addPayment _ id payment
    outlasts.untold (outlasts.ordered.sameOutputs same) fun _ kept => kept.sameOutputs same
  append id outlasts := outlasts.step (outlasts.ordered.append id) fun _ _ kept => kept.append id
  adopt id unknown outlasts :=
    outlasts.untold (outlasts.ordered.setId _ id) fun _ kept => kept.setId unknown id
  cut _ outlasts :=
    -- no cut is told of below the height, so this one is not below it
    outlasts.step (outlasts.ordered.detach _) fun _ low kept =>
      kept.detach outlasts.ordered (low _ _ (List.mem_singleton_self _))
  completed _ outlasts := outlasts.step outlasts.ordered fun _ _ kept => kept

end Sync

/-! ### The attempts of a refresh -/

namespace Sync

/-- A request for a batch: whether no batch has succeeded before it, the session in which it is
made, how it ends, and the session after it. -/
structure Attempt (σ : Type) where
  first : Bool
  before : Session σ
  result : Except WalletError Nat
  after : Session σ

def Attempt.failed {σ : Type} (a : Attempt σ) : Bool := !a.result.isOk

section

variable {σ : Type} (env : Environment σ)

/-- The attempts of a loop that gets its batches in some way, one after the other. -/
def attempts (batch : (first : Bool) → Session σ → Except WalletError Nat × Session σ) :
    (rounds : Nat) → (first : Bool) → (tries : Nat) → (delay : Delay) → Session σ → List (Attempt σ)
  | 0, _, _, _, _ => []
  | rounds + 1, first, tries, delay, s =>
    if (polled env s).stop then []
    else match batch first (polled env s) with
      | (.ok added, t) =>
        ⟨first, polled env s, .ok added, t⟩ :: if added = 0 ∨ t.summary.targetFound then []
          else attempts batch rounds false tries delay t
      | (.error e, t) =>
        let retry := s.wallet.config.retry
        ⟨first, polled env s, .error e, t⟩ :: if e.isRetryable ∧ tries < retry.maxRetries then
            attempts batch rounds first (tries + 1) (retry.nextDelay delay)
              { t with env := ((env.sleep delay.waited).run t.env).2 }
          else []

variable (S : Suite) (target : Option Hash) (start : RefreshStart)

/-- The batches that a refresh asks for. -/
def attemptsOfPull (s : Session σ) : List (Attempt σ) :=
  attempts env (fun first s => exec (pullBatch S env (batchStart start first s) target) s)
    env.maxRounds true 0 s.wallet.config.retry.firstDelay (started start s)

/-- The way from one attempt to the next: from a session in which `tries` failures were retried so
far, these attempts are made, with this outcome of the whole. -/
inductive Attempted : (tries : Nat) → Session σ → List (Attempt σ) →
    Except WalletError Unit × Session σ → Prop
  | unfinished {tries : Nat} {s : Session σ} : Attempted tries s [] (.error .unfinished, s)
  | stopped {tries : Nat} {s : Session σ} (stop : (polled env s).stop = true) :
    Attempted tries s [] (.ok (), polled env s)
  | completed {tries added : Nat} {first : Bool} {s t : Session σ}
    (run : exec (pullBatch S env (batchStart start first s) target) (polled env s) = (.ok added, t))
    (last : added = 0 ∨ t.summary.targetFound = true) :
    Attempted tries s [⟨first, polled env s, .ok added, t⟩] (.ok (), t)
  | next {tries added : Nat} {first : Bool} {s t : Session σ} {later : List (Attempt σ)}
    {p : Except WalletError Unit × Session σ}
    (run : exec (pullBatch S env (batchStart start first s) target) (polled env s) = (.ok added, t))
    (more : ¬ (added = 0 ∨ t.summary.targetFound = true)) (rest : Attempted tries t later p) :
    Attempted tries s (⟨first, polled env s, .ok added, t⟩ :: later) p
  | retried {tries : Nat} {first : Bool} {s t : Session σ} {e : WalletError} {slept : σ}
    {later : List (Attempt σ)} {p : Except WalletError Unit × Session σ}
    (run : exec (pullBatch S env (batchStart start first s) target) (polled env s) = (.error e, t))
    (retryable : e.isRetryable = true) (left : tries < s.wallet.config.retry.maxRetries)
    (rest : Attempted (tries + 1) { t with env := slept } later p) :
    Attempted tries s (⟨first, polled env s, .error e, t⟩ :: later) p
  | failed {tries : Nat} {first : Bool} {s t : Session σ} {e : WalletError}
    (run : exec (pullBatch S env (batchStart start first s) target) (polled env s) = (.error e, t))
    (exhausted : e.isRetryable = true → s.wallet.config.retry.maxRetries ≤ tries) :
    Attempted tries s [⟨first, polled env s, .error e, t⟩] (.error e, t)

variable {S env target start}

/-- The attempts of a loop are those that `attempts` lists. -/
theorem attempted_pullLoop (rounds : Nat) (first : Bool) (tries : Nat) (delay : Delay)
    (s : Session σ) :
    Attempted env S target start tries s
      (attempts env (fun first s => exec (pullBatch S env (batchStart start first s) target) s)
        rounds first tries delay s)
      (exec (pullLoop S env start target rounds first tries delay) s) := by
  -- the list and the loop go on in the same way after each batch
  induction rounds generalizing first tries delay s with
  | zero => exact .unfinished
  | succ rounds ih =>
    rw [exec_pullLoop_succ, attempts]
    by_cases stop : (polled env s).stop = true
    · rw [if_pos stop, if_pos stop]
      exact .stopped stop
    rw [if_neg stop, if_neg stop]
    have from_same : batchStart start first (polled env s) = batchStart start first s := rfl
    rw [from_same]
    rcases run : exec (pullBatch S env (batchStart start first s) target) (polled env s) with
      ⟨e | added, t⟩
    all_goals simp only [afterBatch]
    · by_cases again : e.isRetryable = true ∧ tries < s.wallet.config.retry.maxRetries
      · rw [if_pos again, if_pos again]
        exact .retried run again.1 again.2 (ih first (tries + 1) _ _)
      · rw [if_neg again, if_neg again]
        exact .failed run fun retryable => Nat.not_lt.mp fun left => again ⟨retryable, left⟩
    · by_cases last : added = 0 ∨ t.summary.targetFound = true
      · rw [if_pos last, if_pos last]
        exact .completed run last
      · rw [if_neg last, if_neg last]
        exact .next run last (ih false tries delay t)

/-- The last one of a list is its head if nothing follows, and otherwise the last one of what
follows. -/
theorem getLast?_cons_eq_some {a last : Attempt σ} {rest : List (Attempt σ)} :
    (a :: rest).getLast? = some last ↔ rest = [] ∧ a = last ∨ rest.getLast? = some last := by
  cases rest with
  | nil => simp
  | cons b rest => simp [List.getLast?_cons_cons]

/-- All but the last one of a list are its head, if something follows, and all but the last one that
follow. -/
theorem mem_dropLast_cons {a b : Attempt σ} {rest : List (Attempt σ)}
    (mem : a ∈ (b :: rest).dropLast) : a = b ∨ a ∈ rest.dropLast := by
  cases rest with
  | nil => cases mem
  | cons c rest => exact List.mem_cons.mp mem

/-- A batch changes nothing of a wallet but its history. -/
theorem config_pullBatch {startHeight : Nat} {s t : Session σ} {r : Except WalletError Nat}
    (run : exec (pullBatch S env startHeight target) s = (r, t)) :
    t.wallet.config = s.wallet.config := by
  have path := (runs_pullBatch S env target startHeight s).path
  rw [run] at path
  obtain ⟨h, wallet⟩ := path.withHistory
  replace wallet : t.wallet = s.wallet.withHistory h := wallet
  rw [wallet]
  rfl

/-- A batch keeps what its single steps keep. -/
theorem Narrated.of_pullBatch {P : History → List Event → Prop} (narrated : Narrated P)
    {startHeight : Nat} {s t : Session σ} {r : Except WalletError Nat}
    (run : exec (Sync.pullBatch S env startHeight target) s = (r, t))
    (begun : P s.history s.events) :
    P t.history t.events := by
  have kept : Keeps (fun s : Session σ => P s.history s.events)
    (Sync.pullBatch S env startHeight target) := narrated.pullBatch target startHeight
  have after := kept s begun
  rwa [run] at after

namespace Attempted

variable {tries : Nat} {s : Session σ} {tried : List (Attempt σ)}
  {p : Except WalletError Unit × Session σ}

/-- A failure that is followed by another attempt is due to the daemon. -/
theorem retryable (attempted : Attempted env S target start tries s tried p) {a : Attempt σ}
    (mem : a ∈ tried.dropLast) {e : WalletError} (failed : a.result = .error e) :
    e.isRetryable = true := by
  -- the last attempt is left out, so every attempt that counts was followed by another
  induction attempted with
  | unfinished => cases mem
  | stopped _ => cases mem
  | completed _ _ => cases mem
  | failed _ _ => cases mem
  | next run more rest ih =>
    rcases mem_dropLast_cons mem with rfl | mem
    · cases failed
    · exact ih mem
  | retried run retryable left rest ih =>
    rcases mem_dropLast_cons mem with rfl | mem
    · cases failed
      exact retryable
    · exact ih mem

/-- The attempts fail with an error exactly if the last one of them does, and if its failure is not
retried: it is not due to the daemon, or it is one more than those that are retried. -/
theorem error_iff (attempted : Attempted env S target start tries s tried p) {e : WalletError}
    (finished : e ≠ .unfinished) (u : Session σ)
    (budget : tries ≤ s.wallet.config.retry.maxRetries) :
    p = (.error e, u) ↔ ∃ last, tried.getLast? = some last ∧ last.result = .error e ∧
      last.after = u ∧ (e.isRetryable = true →
        tries + tried.countP Attempt.failed = s.wallet.config.retry.maxRetries + 1) := by
  induction attempted with
  | unfinished => simp [finished.symm]
  | stopped _ => simp
  | completed _ _ => simp
  | @failed tries first s t e' run exhausted =>
    -- the only attempt from here, and the first failure that is not retried
    constructor
    · intro ended
      obtain ⟨same, rfl⟩ := Prod.mk.inj ended
      obtain rfl := Except.error.inj same
      refine ⟨_, rfl, rfl, rfl, fun retryable => ?_⟩
      have := exhausted retryable
      have one : [(⟨first, polled env s, .error e', t⟩ : Attempt σ)].countP Attempt.failed = 1 :=
        rfl
      omega
    · rintro ⟨last, only, result, rfl, -⟩
      obtain rfl := Option.some.inj only
      exact congrArg (·, t) (congrArg _ (Except.error.inj result))
  | next run more rest ih =>
    -- a success is not counted, but it does not set the count back either
    have same := config_pullBatch run
    rw [ih (same ▸ budget), same]
    refine exists_congr fun last => ⟨?_, ?_⟩
    · rintro ⟨found, ended⟩
      exact ⟨getLast?_cons_eq_some.mpr (.inr found), ended⟩
    · rintro ⟨found, result, ended⟩
      rcases getLast?_cons_eq_some.mp found with ⟨-, rfl⟩ | found
      · cases result
      · exact ⟨found, result, ended⟩
  | @retried tries first s t e' slept later p run retryable left rest ih =>
    have same := config_pullBatch run
    have one : ((⟨first, polled env s, .error e', t⟩ : Attempt σ) :: later).countP Attempt.failed =
        later.countP Attempt.failed + 1 := List.countP_cons_of_pos rfl
    have counted : tries + 1 + later.countP Attempt.failed = tries +
        ((⟨first, polled env s, .error e', t⟩ : Attempt σ) :: later).countP Attempt.failed := by
      omega
    have budget' :
        tries + 1 ≤ ({ t with env := slept } : Session σ).wallet.config.retry.maxRetries := by
      show tries + 1 ≤ t.wallet.config.retry.maxRetries
      rw [same]
      exact left
    rw [ih budget', counted]
    refine exists_congr fun last => ⟨?_, ?_⟩
    · rintro ⟨found, result, after, count⟩
      exact ⟨getLast?_cons_eq_some.mpr (.inr found), result, after, same ▸ count⟩
    · rintro ⟨found, result, after, count⟩
      rcases getLast?_cons_eq_some.mp found with ⟨rfl, rfl⟩ | found
      · -- a refresh that is stopped before the next attempt does not fail
        obtain rfl := Except.error.inj result
        have := count retryable
        rw [one, List.countP_nil] at this
        omega
      · exact ⟨found, result, after, same.symm ▸ count⟩

/-- What the single steps of a refresh keep is kept by its attempts. -/
theorem narrated {P : History → List Event → Prop} (narrated : Narrated P)
    (attempted : Attempted env S target start tries s tried p) (begun : P s.history s.events) :
    P p.2.history p.2.events := by
  induction attempted with
  | unfinished => exact begun
  | stopped _ => exact begun
  | completed run _ => exact narrated.of_pullBatch run begun
  | failed run _ => exact narrated.of_pullBatch run begun
  | next run _ _ ih => exact ih (narrated.of_pullBatch run begun)
  | retried run _ _ _ ih =>
    have after := narrated.of_pullBatch run begun
    exact ih after

/-- What the wallet has after an attempt lasts, but for what is cut later. -/
theorem outlasts (attempted : Attempted env S target start tries s tried p)
    (ordered : s.history.Ordered) {a : Attempt σ} (mem : a ∈ tried) :
    a.after.history.Outlasts a.after.events p.2.history p.2.events := by
  -- the invariant is carried from the attempt to the end of the run, by the attempts after it
  induction attempted with
  | unfinished => cases mem
  | stopped _ => cases mem
  | completed run _ =>
    obtain rfl := List.mem_singleton.mp mem
    exact .refl (History.narrated_ordered.of_pullBatch run ordered) _
  | failed run _ =>
    obtain rfl := List.mem_singleton.mp mem
    exact .refl (History.narrated_ordered.of_pullBatch run ordered) _
  | next run _ rest ih =>
    have after := History.narrated_ordered.of_pullBatch run ordered
    rcases List.mem_cons.mp mem with rfl | mem
    · exact rest.narrated (narrated_outlasts _ _) (.refl after _)
    · exact ih after mem
  | retried run _ _ rest ih =>
    have after := History.narrated_ordered.of_pullBatch run ordered
    rcases List.mem_cons.mp mem with rfl | mem
    · exact rest.narrated (narrated_outlasts _ _) (.refl after _)
    · exact ih after mem

end Attempted

end

end Sync

open Sync

/-- How a refresh of any wallet depends on the batches that it asks for. A failure that is followed
by another attempt is due to the daemon. The refresh fails exactly if its last attempt fails and is
not retried, with the error of that attempt and in the session after it; and a failure that is due
to the daemon is not retried exactly if it is one more, of the whole refresh, than the wallet
retries. What the wallet had after an attempt it still has at the end, up to the lowest height to
which it was told since then that the chain was cut. -/
theorem attempts_of_pull (S : Suite) {σ : Type} (env : Environment σ) (start : RefreshStart)
    (target : Option Hash) {account : Account} {s : Session σ} (reached : s.Reached S account) :
    let tried := attemptsOfPull env S target start s
    let ended := (exec (pull S env start target) s).2
    (∀ a ∈ tried.dropLast, ∀ e, a.result = .error e → e.isRetryable = true) ∧
      (∀ e t, e ≠ .unfinished → (exec (pull S env start target) s = (.error e, t) ↔
        ∃ last, tried.getLast? = some last ∧ last.result = .error e ∧ last.after = t ∧
          (e.isRetryable = true →
            tried.countP Attempt.failed = s.wallet.config.retry.maxRetries + 1))) ∧
      ∀ a ∈ tried, ∃ told, ended.events = a.after.events ++ told ∧
        ∀ n, History.NotCutBelow n told → a.after.history.KeptBelow n ended.history := by
  intro tried ended
  have attempted : Attempted env S target start 0 (started start s) tried _ :=
    attempted_pullLoop env.maxRounds true 0 s.wallet.config.retry.firstDelay (started start s)
  have ordered := ordered_started start (ordered_of_reached reached)
  have config : (started start s).wallet.config = s.wallet.config := by
    cases start with
    | fixed height => rfl
    | localChain => rfl
  refine ⟨fun a mem e failed => attempted.retryable mem failed, fun e t finished => ?_,
    fun a mem => ?_⟩
  · -- the counter starts at nothing, so the failures that count are all of them
    have errors := attempted.error_iff finished t (Nat.zero_le _)
    rw [Nat.zero_add, config] at errors
    rw [← errors, exec_pull]
    rcases exec (pullLoop S env start target env.maxRounds true 0
      s.wallet.config.retry.firstDelay) (started start s) with ⟨e' | ⟨⟩, u⟩
    · simp only [Prod.mk.injEq, Except.error.injEq]
    · simp
  · exact ((narrated_outlasts _ _).ofBatches target rfl (attempted.outlasts ordered mem)).kept

namespace Busy

open ChainServer SmallSuite

/-- A new wallet that retries once. The flags tell when the daemon is busy. -/
def unread (busy : List Bool) : Session (List Bool) where
  env := busy
  wallet := ⟨account, { retry := { maxRetries := 1 } }, {}⟩

/-- The new wallet is a wallet of the account. -/
theorem reached (busy : List Bool) : (unread busy).Reached .small account := by
  have created : Wallet.create account { retry := { maxRetries := 1 } } =
    .ok (unread busy).wallet := rfl
  exact .new created

/-- The attempts of a refresh from the end of the chain, without the forms in which the blocks
travel. -/
theorem attemptsOfPull_flaky (busy : List Bool) :
    attemptsOfPull (small.flaky 1) .small none .localChain (unread busy) =
      attempts (small.flaky 1) (fun _ s => small.attempt .small 1 s) 8 true 0
        (unread busy).wallet.config.retry.firstDelay (unread busy) := by
  have batch (first : Bool) (s : Session (List Bool)) : exec
      (pullBatch .small (small.flaky 1) (batchStart .localChain first s) none) s =
        small.attempt .small 1 s := exec_pullBatch_flaky legible_small s
  unfold attemptsOfPull
  simp only [batch]
  rfl

end Busy

open ChainServer Busy in
/-- The daemon is busy once, and then sends the blocks. -/
theorem attempts_of_pull_busy :
    (unread [true]).Reached .small SmallSuite.account ∧
      let tried := attemptsOfPull (small.flaky 1) .small none .localChain (unread [true])
      let ended := (exec (pull .small (small.flaky 1) .localChain none) (unread [true])).2
      (∀ a ∈ tried.dropLast, ∀ e, a.result = .error e → e.isRetryable = true) ∧
        (∀ e t, e ≠ .unfinished →
          (exec (pull .small (small.flaky 1) .localChain none) (unread [true]) = (.error e, t) ↔
            ∃ last, tried.getLast? = some last ∧ last.result = .error e ∧ last.after = t ∧
              (e.isRetryable = true → tried.countP Attempt.failed = 1 + 1))) ∧
        ∀ a ∈ tried, ∃ told, ended.events = a.after.events ++ told ∧
          ∀ n, History.NotCutBelow n told → a.after.history.KeptBelow n ended.history :=
  ⟨reached [true], attempts_of_pull .small (small.flaky 1) .localChain none (reached [true])⟩

open ChainServer Busy in
/-- The daemon is busy, sends the first block, and is busy again. The wallet retries once, but the
refresh fails at the second failure, although it is the first attempt at the second batch. -/
theorem error_of_attempts_apart :
    (unread [true, false, false, true]).wallet.config.retry.maxRetries = 1 ∧
      (attemptsOfPull (small.flaky 1) .small none .localChain
        (unread [true, false, false, true])).map Attempt.failed = [true, false, true] ∧
      ∃ t, exec (refreshFromLocalChain .small (small.flaky 1)) (unread [true, false, false, true]) =
        (.error (.daemonBusy .blocks), t) := by
  refine ⟨rfl, ?_, (small.refreshed .small 1 (unread [true, false, false, true])).2, ?_⟩
  · rw [attemptsOfPull_flaky]
    decide +kernel
  · rw [exec_refresh_flaky legible_small]
    exact Prod.ext (by decide +kernel) rfl

end RingWallet
