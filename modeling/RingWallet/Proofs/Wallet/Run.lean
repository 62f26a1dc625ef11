import Mathlib.Logic.Relation
import RingWallet.Proofs.Support.Except
import RingWallet.Wallet.Session

/-!
# Running the programs of a wallet

`WalletM.exec` runs a program from a session and gives its result together with the session after
it, which is the session at the failure when the program fails. The equations below say what each
building block of a program does:

* `exec_bind`, `exec_bind_ok` and `exec_bind_error` for two steps in a row, and `exec_bind_eq_ok`,
  which takes a successful run of two steps apart;
* `exec_modifyHistory`, `exec_tell`, `exec_outside` and the like for the single steps, and
  `exec_outside_eq_ok` and the like for those that succeed;
* `Quiet` for the programs that change the environment alone, and send nothing
  (`Environment.Silent`).

`Session.core` is what a later step can depend on: the state of the environment and the wallet. The
events told so far, the handlers, the request to stop and the summary are left out, since no step
that changes the history reads them.
-/

set_option autoImplicit false

namespace RingWallet

namespace Environment

variable {σ : Type} {env : Environment σ}

/-- What an environment may be asked for, other than to send a transaction. -/
inductive SilentStep (env : Environment σ) : σ → σ → Prop
  | getBlocks (request : Daemon.BlocksRequest) (e : σ) :
    SilentStep env e ((env.getBlocks request).run e).2
  | getIndices (txHash : Hash) (e : σ) : SilentStep env e ((env.getIndices txHash).run e).2
  | getDecoys (request : Daemon.DecoysRequest) (e : σ) :
    SilentStep env e ((env.getDecoys request).run e).2
  | getHeight (e : σ) : SilentStep env e (env.getHeight.run e).2
  | random (e : σ) : SilentStep env e (env.random e).2
  | now (e : σ) : SilentStep env e (env.now.run e).2
  | sleep (delay : Delay) (e : σ) : SilentStep env e ((env.sleep delay).run e).2
  | stopAsked (e : σ) : SilentStep env e (env.stopAsked.run e).2

/-- The environment gets from one state to the other without sending. -/
def Silent (env : Environment σ) : σ → σ → Prop := Relation.ReflTransGen env.SilentStep

/-- An environment that is asked for nothing sends nothing. -/
theorem Silent.refl (e : σ) : env.Silent e e := Relation.ReflTransGen.refl

/-- Two silent ways in a row are silent. -/
theorem Silent.trans {e e' e'' : σ} (first : env.Silent e e') (second : env.Silent e' e'') :
    env.Silent e e'' := Relation.ReflTransGen.trans first second

/-- Wherever it starts, a program of an environment sends nothing. -/
def Mute (env : Environment σ) {α : Type} (x : StateM σ α) : Prop := ∀ e, env.Silent e (x.run e).2

section

variable {α β ε : Type}

/-- A program that makes one silent step sends nothing. -/
theorem Mute.of_step {x : StateM σ α} (step : ∀ e, env.SilentStep e (x.run e).2) : env.Mute x :=
  fun e => Relation.ReflTransGen.single (step e)

/-- A value sends nothing. -/
theorem mute_pure (a : α) : env.Mute (pure a) := fun e => .refl e

/-- Two programs in a row send nothing if neither does. -/
theorem Mute.bind {x : StateM σ α} {f : α → StateM σ β} (first : env.Mute x)
    (second : ∀ a, env.Mute (f a)) : env.Mute (x >>= f) :=
  fun e => (first e).trans (second _ _)

/-- A step that cannot fail, among others that may. -/
theorem Mute.lift {x : StateM σ α} (mute : env.Mute x) :
    env.Mute (x : ExceptT ε (StateM σ) α).run :=
  mute.bind fun _ => mute_pure _

/-- Two steps that may fail. -/
theorem Mute.run_bind {x : ExceptT ε (StateM σ) α} {f : α → ExceptT ε (StateM σ) β}
    (first : env.Mute x.run) (second : ∀ a, env.Mute (f a).run) : env.Mute (x >>= f).run := by
  show env.Mute (x.run >>= ExceptT.bindCont f)
  refine first.bind fun result => ?_
  cases result with
  | error e => exact mute_pure _
  | ok a => exact second a

end

end Environment

namespace Wallet

/-- The wallet with another history. -/
def withHistory (w : Wallet) (h : History) : Wallet := { w with history := h }

/-- The history is the one that was put in. -/
@[simp] theorem history_withHistory (w : Wallet) (h : History) :
    (w.withHistory h).history = h := rfl

/-- The history can be replaced without the account. -/
@[simp] theorem account_withHistory (w : Wallet) (h : History) :
    (w.withHistory h).account = w.account := rfl

/-- The history can be replaced without the configuration. -/
@[simp] theorem config_withHistory (w : Wallet) (h : History) :
    (w.withHistory h).config = w.config := rfl

/-- Only the last history that was put in stays. -/
@[simp] theorem withHistory_withHistory (w : Wallet) (h h' : History) :
    (w.withHistory h).withHistory h' = w.withHistory h' := rfl

end Wallet

namespace Session

variable {σ : Type}

/-- The history of the open wallet. -/
def history (s : Session σ) : History := s.wallet.history

/-- The session with another history. -/
def withHistory (s : Session σ) (h : History) : Session σ :=
  { s with wallet := s.wallet.withHistory h }

/-- The session after an event was told. -/
def told (s : Session σ) (e : Event) : Session σ :=
  { s with events := s.events ++ [e], stop := s.stop || EventHandler.anyStops s.handlers e }

/-- The environment and the wallet, without what the session keeps for its caller. -/
def core (s : Session σ) : σ × Wallet := (s.env, s.wallet)

/-- The history of a session is the one that was put in. -/
@[simp] theorem history_withHistory (s : Session σ) (h : History) :
    (s.withHistory h).history = h := rfl

/-- The history of a session is that of its wallet. -/
@[simp] theorem wallet_withHistory (s : Session σ) (h : History) :
    (s.withHistory h).wallet = s.wallet.withHistory h := rfl

/-- The environment stays when the history is replaced. -/
@[simp] theorem core_withHistory (s : Session σ) (h : History) :
    (s.withHistory h).core = (s.env, s.wallet.withHistory h) := rfl

/-- An event changes neither the environment nor the wallet. -/
@[simp] theorem core_told (s : Session σ) (e : Event) : (s.told e).core = s.core := rfl

/-- An event leaves the wallet as it is. -/
@[simp] theorem wallet_told (s : Session σ) (e : Event) : (s.told e).wallet = s.wallet := rfl

/-- An event leaves the history as it is. -/
@[simp] theorem history_told (s : Session σ) (e : Event) : (s.told e).history = s.history := rfl

/-- The wallet after a step whose effect on the core is known. -/
theorem wallet_of_core {s : Session σ} {e : σ} {w : Wallet} (h : s.core = (e, w)) :
    s.wallet = w := congrArg Prod.snd h

/-- The environment after a step whose effect on the core is known. -/
theorem env_of_core {s : Session σ} {e : σ} {w : Wallet} (h : s.core = (e, w)) : s.env = e :=
  congrArg Prod.fst h

end Session

namespace WalletM

variable {σ α β : Type}

/-- The result of a program run from a session, and the session after it. -/
def exec (x : WalletM σ α) (s : Session σ) : Except WalletError α × Session σ :=
  (ExceptT.run x).run s

/-- A value is returned in the same session. -/
@[simp] theorem exec_pure (a : α) (s : Session σ) : exec (pure a) s = (.ok a, s) := rfl

/-- Two steps: the second one runs from where the first one succeeded. -/
theorem exec_bind (x : WalletM σ α) (f : α → WalletM σ β) (s : Session σ) :
    exec (x >>= f) s = match exec x s with
      | (.ok a, t) => exec (f a) t
      | (.error e, t) => (.error e, t) := by
  show ((ExceptT.run x).run s >>= fun p => (ExceptT.bindCont f p.1).run p.2 :
    Id (Except WalletError β × Session σ)) = _
  rcases h : exec x s with ⟨_ | a, t⟩
  · show (ExceptT.bindCont f (exec x s).1).run (exec x s).2 = _
    rw [h]
    rfl
  · show (ExceptT.bindCont f (exec x s).1).run (exec x s).2 = _
    rw [h]
    rfl

/-- After a step that succeeds the rest goes on from its session. -/
theorem exec_bind_ok {x : WalletM σ α} {s t : Session σ} {a : α} (f : α → WalletM σ β)
    (h : exec x s = (.ok a, t)) : exec (x >>= f) s = exec (f a) t := by
  rw [exec_bind, h]

/-- After a step that fails nothing else is run. -/
theorem exec_bind_error {x : WalletM σ α} {s t : Session σ} {e : WalletError}
    (f : α → WalletM σ β) (h : exec x s = (.error e, t)) :
    exec (x >>= f) s = (.error e, t) := by
  rw [exec_bind, h]

/-- A run of two steps succeeds when both succeed, one after the other. -/
theorem exec_bind_eq_ok {x : WalletM σ α} {f : α → WalletM σ β} {s u : Session σ} {b : β} :
    exec (x >>= f) s = (.ok b, u) ↔
      ∃ a t, exec x s = (.ok a, t) ∧ exec (f a) t = (.ok b, u) := by
  rw [exec_bind]
  rcases exec x s with ⟨_ | a, t⟩
  · simp
  · constructor
    · exact fun h => ⟨a, t, rfl, h⟩
    · rintro ⟨a', t', h, hf⟩
      obtain ⟨rfl, rfl⟩ : a = a' ∧ t = t' := by simpa using h
      exact hf

/-- A run whose result is known. -/
theorem exec_eq_ok {x : WalletM σ α} {s : Session σ} {a : α}
    (succeeds : (exec x s).1.toOption = some a) : exec x s = (.ok a, (exec x s).2) :=
  Prod.ext (Except.toOption_eq_some.mp succeeds) rfl

/-- A run that is known to fail. -/
theorem exec_eq_error {x : WalletM σ α} {s : Session σ} (fails : (exec x s).1.toOption = none) :
    ∃ e, exec x s = (.error e, (exec x s).2) := by
  rcases run : exec x s with ⟨e | a, t⟩
  · exact ⟨e, rfl⟩
  · rw [run] at fails
    cases fails

/-! ### The single steps -/

/-- The session is read without being changed. -/
@[simp] theorem exec_get (s : Session σ) : exec (get : WalletM σ (Session σ)) s = (.ok s, s) := rfl

/-- A change of the session succeeds. -/
@[simp] theorem exec_modify (f : Session σ → Session σ) (s : Session σ) :
    exec (modify f : WalletM σ Unit) s = (.ok (), f s) := rfl

/-- The wallet is read without being changed. -/
@[simp] theorem exec_wallet (s : Session σ) : exec WalletM.wallet s = (.ok s.wallet, s) := rfl

/-- The history is read without being changed. -/
@[simp] theorem exec_history (s : Session σ) : exec WalletM.history s = (.ok s.history, s) := rfl

/-- A change of the history touches nothing else. -/
@[simp] theorem exec_modifyHistory (f : History → History) (s : Session σ) :
    exec (modifyHistory f) s = (.ok (), s.withHistory (f s.history)) := rfl

/-- A change of the summary touches nothing else. -/
@[simp] theorem exec_modifySummary (f : RefreshSummary → RefreshSummary) (s : Session σ) :
    exec (modifySummary f) s = (.ok (), { s with summary := f s.summary }) := rfl

/-- An event is told, and the handlers hear of it. -/
@[simp] theorem exec_tell (e : Event) (s : Session σ) : exec (tell e) s = (.ok (), s.told e) := rfl

/-- A step of the environment changes the environment alone. -/
@[simp] theorem exec_outside (step : StateM σ α) (s : Session σ) :
    exec (outside step) s = (.ok (step.run s.env).1, { s with env := (step.run s.env).2 }) := rfl

/-- The outcome of a program is a value, and never a failure. -/
@[simp] theorem exec_outcome (x : WalletM σ α) (s : Session σ) :
    exec (outcome x) s = (.ok (exec x s).1, (exec x s).2) := rfl

/-- A step outside always succeeds, and changes the environment alone. -/
theorem exec_outside_eq_ok {step : StateM σ α} {s t : Session σ} {a : α} :
    exec (outside step) s = (.ok a, t) ↔
      (step.run s.env).1 = a ∧ { s with env := (step.run s.env).2 } = t := by
  rw [exec_outside, Prod.mk.injEq, Except.ok.injEq]

/-- A result is passed on without a change of the session, its error wrapped. -/
@[simp] theorem exec_orFail {ε : Type} (f : ε → WalletError) (r : Except ε α) (s : Session σ) :
    exec (orFail f r) s = (r.mapError f, s) := by
  cases r <;> rfl

/-- Only a value is passed on. -/
theorem exec_orFail_eq_ok {ε : Type} {f : ε → WalletError} {r : Except ε α} {s t : Session σ}
    {a : α} : exec (orFail f r) s = (.ok a, t) ↔ r = .ok a ∧ s = t := by
  rw [exec_orFail, Prod.mk.injEq, Except.mapError_eq_ok]

/-- A question to the daemon changes the environment alone, whatever the answer is. -/
@[simp] theorem exec_ask (step : StateM σ (Except LedgerError α)) (s : Session σ) :
    exec (ask step) s =
      ((step.run s.env).1.mapError .ledger, { s with env := (step.run s.env).2 }) := by
  rw [ask, exec_bind_ok _ (exec_outside step s), exec_orFail]

/-- A question is answered if the environment does not fail. -/
theorem exec_ask_eq_ok {step : StateM σ (Except LedgerError α)} {s t : Session σ} {a : α} :
    exec (ask step) s = (.ok a, t) ↔
      (step.run s.env).1 = .ok a ∧ { s with env := (step.run s.env).2 } = t := by
  rw [exec_ask, Prod.mk.injEq, Except.mapError_eq_ok]

/-- The error that a status stands for. -/
def statusResult (call : DaemonCall) (status : String) : Except WalletError Unit :=
  if status = Daemon.busyStatus then .error (.daemonBusy call)
  else if status ≠ Daemon.okStatus then .error (.protocol (.status call status))
  else .ok ()

/-- Looking at a status changes nothing. -/
@[simp] theorem exec_checkStatus (call : DaemonCall) (status : String) (s : Session σ) :
    exec (checkStatus call status) s = (statusResult call status, s) := by
  unfold checkStatus statusResult
  split
  · rfl
  · split <;> rfl

/-- Only one status is good. -/
theorem statusResult_eq_ok {call : DaemonCall} {status : String} :
    statusResult call status = .ok () ↔ status = Daemon.okStatus := by
  unfold statusResult
  split
  · next h =>
    subst h
    simp [Daemon.busyStatus, Daemon.okStatus]
  · split
    · next h => simp [h]
    · next h => simpa using h

/-- A status that is looked at successfully is the good one. -/
theorem exec_checkStatus_eq_ok {call : DaemonCall} {status : String} {s t : Session σ} {a : Unit} :
    exec (checkStatus call status) s = (.ok a, t) ↔ status = Daemon.okStatus ∧ s = t := by
  rw [exec_checkStatus, Prod.mk.injEq]
  exact and_congr_left fun _ => statusResult_eq_ok

/-! ### Programs that only talk to the environment -/

variable {env : Environment σ}

/-- However the program ends, it has changed the environment alone, and has sent nothing. -/
def Quiet (env : Environment σ) (x : WalletM σ α) : Prop :=
  ∀ s, env.Silent s.env (exec x s).2.env ∧ (exec x s).2 = { s with env := (exec x s).2.env }

/-- Two quiet programs in a row are quiet. -/
theorem Quiet.bind {x : WalletM σ α} {f : α → WalletM σ β} (first : Quiet env x)
    (second : ∀ a, Quiet env (f a)) : Quiet env (x >>= f) := by
  intro s
  obtain ⟨silent, apart⟩ := first s
  rw [exec_bind]
  rcases run : exec x s with ⟨e | a, t⟩
  · rw [run] at silent apart
    exact ⟨silent, apart⟩
  · rw [run] at silent apart
    obtain ⟨silent', apart'⟩ := second a t
    simp only [] at apart ⊢
    refine ⟨silent.trans silent', ?_⟩
    rw [apart', apart]

/-- A program that leaves the session as it is. -/
theorem Quiet.of_eq {x : WalletM σ α} (same : ∀ s, (exec x s).2 = s) : Quiet env x :=
  fun s => by rw [same s]; exact ⟨.refl _, rfl⟩

/-- A value is quiet. -/
theorem quiet_pure (a : α) : Quiet env (pure a) := .of_eq fun _ => rfl

/-- An error is quiet. -/
theorem quiet_throw (e : WalletError) : Quiet env (throw e : WalletM σ α) := .of_eq fun _ => rfl

/-- Reading the wallet is quiet. -/
theorem quiet_wallet : Quiet env WalletM.wallet := .of_eq fun _ => rfl

/-- A step outside is quiet if it sends nothing. -/
theorem quiet_outside {step : StateM σ α} (mute : env.Mute step) : Quiet env (outside step) :=
  fun s => ⟨mute s.env, rfl⟩

/-- Passing a result on is quiet. -/
theorem quiet_orFail {ε : Type} (f : ε → WalletError) (r : Except ε α) :
    Quiet env (orFail f r) := .of_eq fun s => by rw [exec_orFail]

/-- A question is quiet if it sends nothing. -/
theorem quiet_ask {step : StateM σ (Except LedgerError α)} (mute : env.Mute step) :
    Quiet env (ask step) :=
  .bind (quiet_outside mute) fun _ => quiet_orFail _ _

/-- Looking at a status is quiet. -/
theorem quiet_checkStatus (call : DaemonCall) (status : String) :
    Quiet env (checkStatus call status) := .of_eq fun s => by rw [exec_checkStatus]

/-- The outcome of a quiet program. -/
theorem Quiet.outcome {x : WalletM σ α} (quiet : Quiet env x) : Quiet env (outcome x) :=
  fun s => quiet s

/-! ### Programs that succeed -/

variable {P : Session σ → Prop}

/-- From every session with a property the program succeeds, and the property holds again. -/
def Succeeds (P : Session σ → Prop) (x : WalletM σ α) : Prop :=
  ∀ s, P s → ∃ a t, exec x s = (.ok a, t) ∧ P t

/-- Two programs in a row succeed if each of them does. -/
theorem Succeeds.then {x : WalletM σ α} {f : α → WalletM σ β} (first : Succeeds P x)
    (second : ∀ a, Succeeds P (f a)) : Succeeds P (x >>= f) := by
  intro s hs
  obtain ⟨a, t, run, ht⟩ := first s hs
  rw [exec_bind_ok f run]
  exact second a t ht

/-- A value succeeds. -/
theorem succeeds_pure (a : α) : Succeeds P (pure a) := fun s hs => ⟨a, s, rfl, hs⟩

/-! ### The errors of the single steps -/

open ExceptT

variable {ε : Type} {E : WalletError → Prop} {s : Session σ}

/-- A result that is passed on raises its wrapped error. -/
theorem raises_orFail {f : ε → WalletError} {r : Except ε α} (each : ∀ e, r = .error e → E (f e)) :
    Raises E (orFail f r : WalletM σ α) s := by
  cases r with
  | error e => exact raises_throw (each e rfl)
  | ok a => exact raises_pure a

/-- A step outside raises nothing. -/
theorem raises_outside (step : StateM σ α) : Raises E (outside step) s :=
  fun _ _ run => nomatch (Prod.mk.inj run).1

/-- A question raises only what the environment may answer. -/
theorem raises_ask {step : StateM σ (Except LedgerError α)} (each : ∀ e, E (.ledger e)) :
    Raises E (ask step) s :=
  .bind (raises_outside _) fun _ _ _ => raises_orFail fun e _ => each e

/-- A status that is looked at is refused as busy or as unexpected. -/
theorem raises_checkStatus {call : DaemonCall} {status : String} (busy : E (.daemonBusy call))
    (other : E (.protocol (.status call status))) : Raises E (checkStatus call status) s := by
  unfold checkStatus
  split
  · exact raises_throw busy
  · split
    · exact raises_throw other
    · exact raises_pure ()

end WalletM

end RingWallet
