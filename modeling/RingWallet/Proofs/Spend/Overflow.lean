import RingWallet.Proofs.Spend.Attempts
import RingWallet.Proofs.Spend.PaymentId
import RingWallet.Proofs.Spend.Refusal
import RingWallet.Proofs.Spend.Words

/-!
# Building transactions in words

`Words.build` and `Words.buildSplit` are the programs that make transactions, with every sum,
difference and product of theirs taken in 64-bit words (`Words.spreadOver` and `Words.split` for the
amounts). A result that is out of range ends such a program with `Fault.outOfRange`.

The wallet itself looks at one of these results only: the number of decoys to ask for, one more than
a ring needs, whose overflow is an error of its own (`WalletError.overflow`). A program in words
that `Agrees` with a program of the wallet ends like it, in the same session, and is out of range
exactly where the wallet overflows. Programs that agree are put together from steps that do
(`Agrees.bind`), so there is one lemma for each function. `Words.Short` says when a build comes to
the one step that can leave the words, with the largest word as its number of decoys.
-/

set_option autoImplicit false

namespace RingWallet

open WalletM ExceptT

/-- What ends a program in words. -/
inductive Fault where
  /-- The wallet refuses to go on. -/
  | refused (cause : WalletError)
  /-- A sum, a difference or a product is none of the words. -/
  | outOfRange

/-- How an error of the wallet ends a program in words. -/
def Fault.of : WalletError → Fault
  | .overflow => outOfRange
  | e => refused e

/-- Only the overflow of the wallet leaves the words. -/
theorem Fault.of_eq_outOfRange {e : WalletError} : of e = .outOfRange ↔ e = .overflow := by
  cases e <;> simp [of]

/-- Every other error of the wallet is a refusal. -/
theorem Fault.of_eq_refused {e : WalletError} (other : e ≠ .overflow) : of e = .refused e := by
  cases e <;> first | rfl | exact absurd rfl other

/-- A program in words. -/
abbrev WordM (σ : Type) := ExceptT Fault (StateM (Session σ))

namespace Words

variable {σ α β : Type}

/-- A step without arithmetic. -/
def keep (x : WalletM σ α) : WordM σ α := x.adapt .of

def refuse (e : WalletError) : WordM σ α := throw (.of e)

/-- The result of an operation on words. -/
def inRange : Option α → WordM σ α
  | some a => pure a
  | none => throw .outOfRange

/-- The outcome of a program, unless it is out of range. -/
def outcome (x : WordM σ α) : WordM σ (Except WalletError α) := ExceptT.mk do
  match ← x.run with
  | .ok a => return .ok (.ok a)
  | .error (.refused e) => return .ok (.error e)
  | .error .outOfRange => return .error .outOfRange

/-! ### The programs -/

section

variable (S : Suite) (env : Environment σ)

/-- The decoys for some selected outputs. -/
def fetchDecoys (w : Wallet) (mixin : UInt64) (selected : List Handle) :
    WordM σ (List (List Daemon.Decoy)) := do
  if mixin = 0 then
    return selected.map fun _ => []
  let amounts := selected.map fun h => ((w.history.transfers[h.index]?).map Transfer.amount).getD 0
  let count ← inRange (mixin.addChecked 1)
  let reply ← keep (WalletM.ask (env.getDecoys { amounts, count }))
  keep (WalletM.checkStatus .decoys reply.status)
  if reply.amounts.length ≠ selected.length then
    refuse (.protocol (.amountCount reply.amounts.length selected.length))
  let scanty := reply.amounts.filter fun a => a.decoys.length < mixin.toNat
  if !scanty.isEmpty then
    refuse (.transaction (.notEnoughDecoys (scanty.map fun a => (a.amount, a.decoys.length)) mixin))
  return reply.amounts.map Daemon.DecoysOfAmount.decoys

/-- The rings for some selected outputs. Each has room for the decoys and the real member. -/
def sources (w : Wallet) (mixin : UInt64) :
    List (Handle × List Daemon.Decoy) → WordM σ (List Source)
  | [] => return []
  | (handle, decoys) :: rest => do
    let _room ← inRange (mixin.addChecked 1)
    let source ← keep (WalletM.orFail id (Build.sourceOf w mixin handle decoys))
    return source :: (← sources w mixin rest)

/-- Builds a signed transaction for a request. The extra bytes come after the 33 bytes of the
transaction key. -/
def build (r : TransferRequest) : WordM σ PendingTransaction := do
  let w ← keep WalletM.wallet
  let (money, needed) ← keep (WalletM.orFail .transaction (Build.neededMoney w.config r))
  let extra ← keep (WalletM.orFail .transaction (Build.extraBytes r))
  let now ← keep (WalletM.outside env.now)
  let (found, selected) ← keep (WalletM.outside
    (Balance.select env.random w now needed (r.mixin = 0) r.dustPolicy.threshold r.excluded))
  if found < needed then
    refuse (.transaction (.notEnoughMoney found money r.fee))
  let decoys ← fetchDecoys env w r.mixin selected
  let sources ← sources w r.mixin (selected.zip decoys)
  let own := w.account.address
  let change : Destination := ⟨← inRange (found.subChecked needed), own⟩
  let (paid, dust) ← inRange (split r.strategy r.destinations change r.dustPolicy.threshold)
  if r.dustPolicy.threshold < dust then
    refuse (.consistency (.invalidDust dust r.dustPolicy.threshold))
  let _room ← inRange ((33 : UInt64).addChecked (.ofNat extra.length))
  let result ← keep (WalletM.outside (construct S env.random w.account.keys sources
    (paid ++ Build.dustOutput r.dustPolicy own dust) extra r.unlockTime).run)
  let tx ← keep (WalletM.orFail .transaction result)
  let size := tx.toBlob.length
  if w.config.transactionSizeLimit ≤ size then
    refuse (.transaction (.tooBig size w.config.transactionSizeLimit))
  return { tx, hash := tx.hash S, fee := r.fee, dust, change, selected }

/-- Builds one transaction for each list of destinations. -/
def buildAll (request : List Destination → TransferRequest) :
    (excluded : List Nat) → List (List Destination) → WordM σ (List PendingTransaction)
  | _, [] => return []
  | excluded, destinations :: rest => do
    let p ← build S env { request destinations with excluded }
    let others ← buildAll request (excluded ++ p.selected.map Handle.index) rest
    return p :: others

/-- Tries to build `parts` transactions, then one more. -/
def buildSplitFrom (request : List Destination → TransferRequest)
    (destinations : List Destination) :
    (attempts : Nat) → (parts : UInt64) → (last : WalletError) →
      WordM σ (List PendingTransaction)
  | 0, _, last => refuse last
  | attempts + 1, parts, _ => do
    let spread ← inRange (spreadOver destinations parts)
    match ← outcome (buildAll S env request [] spread) with
    | .ok pending => return pending
    | .error e =>
      if e.isTooBig then
        buildSplitFrom request destinations attempts (← inRange (parts.addChecked 1)) e
      else refuse e

/-- Builds as few transactions as are needed to stay below the size limit. -/
def buildSplit (destinations : List Destination) (mixin unlockTime fee : UInt64) (extra : Blob) :
    WordM σ (List PendingTransaction) := do
  let config := (← keep WalletM.wallet).config
  buildSplitFrom S env (fun ds => .standard config ds mixin unlockTime fee extra) destinations
    config.maxSplitAttempts 1 (.transaction (.notConstructed .noSplitAttempts))

end

/-! ### Programs that agree -/

/-- From a session, a program in words does what a program of the wallet does, up to the point at
which either of them may leave the words. -/
def Agrees (x : WordM σ α) (y : WalletM σ α) (s : Session σ) : Prop :=
  x.run.run s = ((exec y s).1.mapError .of, (exec y s).2)

variable {s : Session σ}

/-- Two steps in a row; the second ones agree from where the first one of the wallet ends. -/
theorem Agrees.bind {x : WordM σ α} {y : WalletM σ α} {f : α → WordM σ β} {g : α → WalletM σ β}
    (first : Agrees x y s) (second : ∀ a t, exec y s = (.ok a, t) → Agrees (f a) (g a) t) :
    Agrees (x >>= f) (y >>= g) s := by
  unfold Agrees at first ⊢
  rw [run_bind_cases, first, exec_bind]
  rcases run : exec y s with ⟨e | a, t⟩
  · rfl
  · exact second a t run

/-- A step without arithmetic is the step of the wallet. -/
theorem agrees_keep (x : WalletM σ α) : Agrees (keep x) x s := rfl

/-- A value agrees with itself. -/
theorem agrees_pure (a : α) : Agrees (pure a) (pure a) s := rfl

/-- A refusal agrees with the error of the wallet. -/
theorem agrees_refuse (e : WalletError) : Agrees (refuse e : WordM σ α) (throw e) s := rfl

/-- An operation that does not leave the words is no step of its own. -/
theorem agrees_inRange {o : Option α} {a : α} (fits : o = some a) {f : α → WordM σ β}
    {y : WalletM σ β} (later : Agrees (f a) y s) : Agrees (inRange o >>= f) y s := by
  subst fits
  exact later

/-- A program is out of range where the program of the wallet overflows. -/
theorem Agrees.outOfRange_iff {x : WordM σ α} {y : WalletM σ α} (agrees : Agrees x y s) :
    (∃ t, x.run.run s = (.error .outOfRange, t)) ↔ (exec y s).1 = .error .overflow := by
  unfold Agrees at agrees
  rw [agrees]
  rcases (exec y s).1 with e | a
  -- an error of the one is the translated error of the other
  · constructor
    · rintro ⟨t, ended⟩
      exact congrArg _ (Fault.of_eq_outOfRange.mp (Except.error.inj (Prod.mk.inj ended).1))
    · intro overflows
      obtain rfl := Except.error.inj overflows
      exact ⟨_, rfl⟩
  · constructor
    · rintro ⟨t, ended⟩
      exact nomatch (Prod.mk.inj ended).1
    · exact nofun

/-- What follows the outcome of a program that agrees. An overflow is not an outcome of the program
in words but its end, so the wallet has to end with it as well. -/
theorem Agrees.outcome_bind {x : WordM σ α} {y : WalletM σ α} {f : Except WalletError α → WordM σ β}
    {g : Except WalletError α → WalletM σ β} (agrees : Agrees x y s)
    (ends : g (.error .overflow) = throw .overflow)
    (later : ∀ result t, Agrees (f result) (g result) t) :
    Agrees (outcome x >>= f) (WalletM.outcome y >>= g) s := by
  have goes_on : exec (WalletM.outcome y >>= g) s = exec (g (exec y s).1) (exec y s).2 :=
    exec_bind_ok g (exec_outcome y s)
  -- the outcome in words is the translated outcome, except that an overflow is not caught
  have outcome_eq : (outcome x).run.run s = ((exec y s).1.mapError Fault.of).casesOn
      (fun | .refused e => (.ok (.error e), (exec y s).2)
           | .outOfRange => (.error .outOfRange, (exec y s).2))
      (fun a => (.ok (.ok a), (exec y s).2)) := by
    unfold Agrees at agrees
    show (x.run >>= _ : StateM (Session σ) _).run s = _
    rw [StateT.run_bind, agrees]
    rcases (exec y s).1 with (_ | _) | a
    all_goals rfl
  unfold Agrees
  rw [run_bind_cases, outcome_eq, goes_on]
  rcases exec y s with ⟨e | a, t⟩
  · -- an overflow ends both runs, every other error is handed on
    by_cases over_range : e = .overflow
    · subst over_range
      simp only [ends]
      rfl
    · simp only [Except.mapError, Fault.of_eq_refused over_range]
      exact later (.error e) t
  · exact later (.ok a) t

/-! ### Builds that agree -/

section

variable {S : Suite} {env : Environment σ}

/-- Any number of decoys but the largest word has a successor. -/
theorem addChecked_one {mixin : UInt64} (below : mixin.toNat ≠ maxWord) :
    mixin.addChecked 1 = some (mixin + 1) := by
  have most := mixin.toNat_le_maxWord
  have one : (1 : UInt64).toNat = 1 := rfl
  unfold UInt64.addChecked
  rw [if_pos (by omega)]

/-- The number of decoys to ask for is the one sum of the wallet that may overflow. -/
theorem agrees_decoyCount (mixin : UInt64) :
    Agrees (inRange (mixin.addChecked 1)) (WalletM.orFail id (Build.decoyCount mixin)) s := by
  unfold Build.decoyCount
  rcases mixin.addChecked 1 with - | count
  · rfl
  · rfl

/-- Decoys are asked for in the same way, and the number that is asked for leaves the words in
both. -/
theorem agrees_fetchDecoys (w : Wallet) (mixin : UInt64) (selected : List Handle) :
    Agrees (fetchDecoys env w mixin selected) (Build.fetchDecoys env w mixin selected) s := by
  unfold fetchDecoys Build.fetchDecoys
  split
  · exact agrees_pure _
  refine .bind (agrees_decoyCount mixin) fun count t _ => ?_
  -- the count of decoys is the only checked sum here
  refine .bind (agrees_keep _) fun reply t _ => .bind (agrees_keep _) fun _ u _ => ?_
  split
  · exact agrees_refuse _
  simp only []
  split
  · exact agrees_refuse _
  · exact agrees_pure _

/-- Where decoys could be asked for, their number has not overflowed. -/
theorem below_of_fetchDecoys {w : Wallet} {mixin : UInt64} {selected : List Handle}
    {decoys : List (List Daemon.Decoy)} {t : Session σ}
    (run : exec (Build.fetchDecoys env w mixin selected) s = (.ok decoys, t)) :
    mixin.toNat ≠ maxWord := by
  by_cases none : mixin = 0
  · rw [none]
    decide
  · obtain ⟨-, -, offers⟩ := Build.of_fetchDecoys run
    obtain ⟨reply, offered, -⟩ := offers none
    have most := (Build.decoysRequest w mixin selected).count.toNat_le_maxWord
    have := offered.count
    omega

/-- The parts of a step that may fail are steps of their own. -/
theorem orFail_bind {ε : Type} (f : ε → WalletError) (x : Except ε α) (g : α → Except ε β) :
    (WalletM.orFail f (x >>= g) : WalletM σ β) =
      WalletM.orFail f x >>= fun a => WalletM.orFail f (g a) := by
  cases x <;> rfl

/-- The sources are made in the same way, if the number of members fits into a word. -/
theorem agrees_sources {mixin : UInt64} (below : mixin.toNat ≠ maxWord) (w : Wallet)
    (items : List (Handle × List Daemon.Decoy)) :
    Agrees (sources w mixin items)
      (WalletM.orFail id (items.mapM fun q => Build.sourceOf w mixin q.1 q.2)) s := by
  induction items generalizing s with
  | nil => exact agrees_pure []
  | cons q rest ih =>
    rw [List.mapM_cons, orFail_bind]
    simp only [orFail_bind]
    refine agrees_inRange (addChecked_one below) ?_
    exact .bind (agrees_keep _) fun source t _ => .bind ih fun others u _ => agrees_pure _

/-- A build comes to the step at which it asks for more decoys than there are words: the request can
be met, the wallet selects enough for it, and the number of decoys is the largest word. -/
structure Short (env : Environment σ) (s : Session σ) (r : TransferRequest) : Prop where
  mixin : r.mixin.toNat = maxWord
  extra : ∃ extra, Build.extraBytes r = .ok extra
  money : ∃ money needed, Build.neededMoney s.wallet.config r = .ok (money, needed) ∧
    needed ≤ ((Balance.select env.random s.wallet (env.now.run s.env).1 needed (r.mixin = 0)
      r.dustPolicy.threshold r.excluded).run (env.now.run s.env).2).1.1

/-- The extra bytes are put together without arithmetic. -/
theorem agrees_extra {r : TransferRequest} {f : Blob → WordM σ β} {g : Blob → WalletM σ β}
    (later : ∀ extra, Build.extraBytes r = .ok extra → Agrees (f extra) (g extra) s) :
    Agrees (keep (WalletM.orFail .transaction (Build.extraBytes r)) >>= f)
      (match r.paymentId with
      | some text => do
        let id ← WalletM.orFail .transaction (Extra.ofPaymentId text)
        let extra ← pure (r.extra ++ id)
        g extra
      | none => do
        let extra ← pure r.extra
        g extra) s := by
  unfold Build.extraBytes at later ⊢
  generalize r.paymentId = given at later ⊢
  rcases given with - | text
  · exact later r.extra rfl
  · simp only [] at later ⊢
    generalize Extra.ofPaymentId text = named at later ⊢
    rcases named with e | id
    · rfl
    · exact later (r.extra ++ id) rfl

/-- If they cannot be, the text is no payment id. -/
theorem raises_extra {E : WalletError → Prop} {r : TransferRequest} {g : Blob → WalletM σ β}
    (each : ∀ e, (∃ text, e = WalletError.transaction (.wrongPaymentId text)) → E e)
    (later : ∀ extra, Build.extraBytes r = .ok extra → Raises E (g extra) s) :
    Raises E (match r.paymentId with
      | some text => do
        let id ← WalletM.orFail .transaction (Extra.ofPaymentId text)
        let extra ← pure (r.extra ++ id)
        g extra
      | none => do
        let extra ← pure r.extra
        g extra) s := by
  unfold Build.extraBytes at later
  generalize r.paymentId = given at later ⊢
  rcases given with - | text
  · exact later r.extra rfl
  · simp only [] at later ⊢
    rcases named : Extra.ofPaymentId text with e | id
    · exact raises_throw (each _ ⟨text, congrArg _ (Extra.ofPaymentId_eq_error.mp named).2⟩)
    · rw [named] at later
      exact later (r.extra ++ id) rfl

/-- A build in words is the build of the wallet. -/
theorem agrees_build {r : TransferRequest}
    (room : ∀ extra, Build.extraBytes r = .ok extra → 33 + extra.length ≤ maxWord) :
    Agrees (build S env r) (RingWallet.build S env r) s := by
  unfold build RingWallet.build
  refine .bind (agrees_keep _) fun w t here => ?_
  refine .bind (agrees_keep _) fun ⟨money, needed⟩ t needs => ?_
  refine agrees_extra fun extra spelled => ?_
  refine .bind (agrees_keep _) fun now t clock => ?_
  refine .bind (agrees_keep _) fun ⟨found, selected⟩ t selection => ?_
  simp only []
  split
  · exact agrees_refuse _
  next enough =>
  refine .bind (agrees_fetchDecoys _ _ _) fun decoys u fetched => ?_
  -- from here on the number of decoys is known to have a successor
  refine .bind (agrees_sources (below_of_fetchDecoys fetched) _ _) fun sources u _ => ?_
  have change : found.subChecked needed = some (found - needed) := if_pos (UInt64.not_lt.mp enough)
  refine agrees_inRange change (agrees_inRange (split_eq _ _ _ _) ?_)
  split
  · exact agrees_refuse _
  -- the key goes in front of the extra bytes
  have fits := room extra spelled
  have length : (UInt64.ofNat extra.length).toNat = extra.length :=
    UInt64.toNat_ofNat_of_le_maxWord (by omega)
  have key : (33 : UInt64).addChecked (.ofNat extra.length) =
      some (33 + .ofNat extra.length) := by
    unfold UInt64.addChecked
    rw [length]
    exact if_pos fits
  refine agrees_inRange key ?_
  refine .bind (agrees_keep _) fun result t _ => .bind (agrees_keep _) fun tx u _ => ?_
  split
  · exact agrees_refuse _
  · exact agrees_pure _

/-! ### Builds that overflow -/

/-- A step without arithmetic that succeeds. -/
theorem run_keep {x : WalletM σ α} {t : Session σ} {a : α} (run : exec x s = (.ok a, t)) :
    (keep x).run.run s = (.ok a, t) := by
  have agrees : Agrees (keep x) x s := agrees_keep x
  unfold Agrees at agrees
  rw [agrees, run]
  rfl

/-- A build in words that asks for too many decoys is out of range. -/
theorem outOfRange_of_short {r : TransferRequest} (short : Short env s r) :
    ∃ t, (build S env r).run.run s = (.error .outOfRange, t) := by
  obtain ⟨extra, spelled⟩ := short.extra
  obtain ⟨money, needed, payable, covers⟩ := short.money
  have some : r.mixin ≠ 0 := by
    intro none
    have most := short.mixin
    rw [none] at most
    cases most
  have none : r.mixin.addChecked 1 = .none := by
    have one : (1 : UInt64).toNat = 1 := rfl
    unfold UInt64.addChecked
    rw [if_neg (by have := short.mixin; omega)]
  -- all that comes before the decoys succeeds
  unfold build
  rw [run_bind_ok (run_keep (exec_wallet s)),
    run_bind_ok (run_keep (exec_orFail_eq_ok.mpr ⟨payable, rfl⟩))]
  simp only []
  rw [run_bind_ok (run_keep (exec_orFail_eq_ok.mpr ⟨spelled, rfl⟩)),
    run_bind_ok (run_keep (exec_outside env.now s)), run_bind_ok (run_keep (exec_outside _ _))]
  simp only []
  rw [if_neg (UInt64.not_lt.mpr covers)]
  unfold fetchDecoys
  rw [if_neg some, none]
  exact ⟨_, rfl⟩

/-- A build that would ask for too many decoys, but does not come to that step, neither overflows
nor fails over the size of a transaction. -/
theorem raises_of_not_short {r : TransferRequest} (most : r.mixin.toNat = maxWord)
    (safe : ¬ Short env s r) :
    Raises (fun e => e.isTooBig = false ∧ e ≠ .overflow) (RingWallet.build S env r) s := by
  unfold RingWallet.build
  refine .after (exec_wallet s) ?_
  refine .bind (raises_orFail fun e fails => ?_) fun ⟨money, needed⟩ t₁ needs => ?_
  · rcases Build.cases_of_neededMoney_eq_error fails with ⟨rfl, -⟩ | rfl | rfl
    all_goals exact ⟨rfl, nofun⟩
  obtain ⟨payable, rfl⟩ := exec_orFail_eq_ok.mp needs
  refine raises_extra (fun e fails => ?_) fun extra spelled => ?_
  · obtain ⟨text, rfl⟩ := fails
    exact ⟨rfl, nofun⟩
  refine .bind (raises_outside _) fun now t₂ clock => ?_
  obtain ⟨rfl, rfl⟩ := exec_outside_eq_ok.mp clock
  refine .bind (raises_outside _) fun ⟨found, selected⟩ t₃ selection => ?_
  -- no step so far looks at the size, and the selection is the last one
  have poor : found < needed := by
    refine UInt64.not_le.mp fun covers => ?_
    refine safe ⟨most, ⟨extra, spelled⟩, money, needed, payable, ?_⟩
    rw [(exec_outside_eq_ok.mp selection).1]
    exact covers
  simp only []
  rw [if_pos poor]
  exact raises_throw ⟨rfl, nofun⟩

/-- A build overflows only if it asks for too many decoys. -/
theorem short_of_overflow {r : TransferRequest}
    (fails : (exec (RingWallet.build S env r) s).1 = .error .overflow) : Short env s r := by
  have run : exec (RingWallet.build S env r) s =
    (.error .overflow, (exec (RingWallet.build S env r) s).2) := Prod.ext fails rfl
  have most : r.mixin.toNat = maxWord := by
    -- the errors of a build are known, and only one of them is an overflow
    cases Build.refusal_of_build run with
    | overflow most => exact most
    | daemon blamed => cases blamed
    | source at_index fails =>
      rcases Build.cases_of_sourceOf_eq_error fails with missing | ⟨cause, blamed⟩ | ⟨hash, keyless⟩
      · cases missing
      · cases blamed
      · cases keyless
  by_contra safe
  exact (raises_of_not_short (S := S) most safe _ _ run).2 rfl

/-! ### Several builds -/

/-- The transactions of several parts are built in the same way, if there is room for their extra
bytes. -/
theorem agrees_buildAll {request : List Destination → TransferRequest}
    (room : ∀ ds extra, Build.extraBytes (request ds) = .ok extra → 33 + extra.length ≤ maxWord)
    (excluded : List Nat) (parts : List (List Destination)) :
    Agrees (buildAll S env request excluded parts)
      (RingWallet.buildAll S env request excluded parts) s := by
  induction parts generalizing excluded s with
  | nil => exact agrees_pure []
  | cons part rest ih =>
    unfold buildAll RingWallet.buildAll
    refine .bind (agrees_build (room part)) fun p t _ => ?_
    exact .bind (ih _) fun others u _ => agrees_pure _

/-- The attempts with more and more parts agree, if their number fits into a word. -/
theorem agrees_buildSplitFrom {request : List Destination → TransferRequest}
    (room : ∀ ds extra, Build.extraBytes (request ds) = .ok extra → 33 + extra.length ≤ maxWord)
    (destinations : List Destination) (attempts : Nat) (parts : UInt64) (last : WalletError)
    (few : parts.toNat + attempts ≤ maxWord) :
    Agrees (buildSplitFrom S env request destinations attempts parts last)
      (RingWallet.buildSplitFrom S env request destinations attempts parts.toNat last) s := by
  induction attempts generalizing parts last s with
  | zero => exact agrees_refuse last
  | succ attempts ih =>
    -- `few` says that the number of parts has a successor as long as there are attempts left
    have next : (parts + 1).toNat = parts.toNat + 1 :=
      UInt64.addChecked_eq_some.mp (addChecked_one (by omega))
    unfold buildSplitFrom RingWallet.buildSplitFrom
    refine agrees_inRange (spreadOver_eq destinations parts) ?_
    refine (agrees_buildAll room _ _).outcome_bind rfl fun result t => ?_
    rcases result with e | pending
    · simp only []
      split
      · refine agrees_inRange (addChecked_one (by omega)) ?_
        rw [← next]
        exact ih _ _ (by omega)
      · exact agrees_refuse e
    · exact agrees_pure pending

/-- The extra bytes have room for the transaction key, as a list in memory has at most half as many
elements as there are words. -/
theorem room_of_extraBytes {r : TransferRequest} (few : r.extra.length < 2 ^ 63) {extra : Blob}
    (spelled : Build.extraBytes r = .ok extra) : 33 + extra.length ≤ maxWord := by
  unfold Build.extraBytes at spelled
  unfold maxWord
  rcases given : r.paymentId with - | text
  · -- without a payment id there is nothing but the given bytes
    rw [given] at spelled
    obtain rfl := Except.ok.inj spelled
    omega
  · rw [given] at spelled
    rcases named : Extra.ofPaymentId text with e | field
    · simp only [named] at spelled
      cases spelled
    · simp only [named] at spelled
      obtain rfl := Except.ok.inj spelled
      obtain ⟨id, -, rfl⟩ := Extra.ofPaymentId_eq_ok.mp named
      -- a payment id takes 35 bytes
      have size : (Extra.idField id).length = 35 := congrArg (· + 3) id.bytes.length_eq
      rw [List.length_append, size]
      omega

/-- One part is the whole payment. -/
theorem spreadOver_one (destinations : List Destination) :
    RingWallet.spreadOver destinations 1 = [destinations] := by
  have whole (d : Destination) : RingWallet.partAmount d.amount 1 0 = d.amount := by
    simp [RingWallet.partAmount]
  show [destinations.map fun d => { d with amount := RingWallet.partAmount d.amount 1 0 }] = _
  simp only [whole, List.map_id']

/-- The first attempt is one build. -/
theorem raises_buildAll_one {request : List Destination → TransferRequest}
    {E : WalletError → Prop} {destinations : List Destination}
    (each : Raises E (RingWallet.build S env { request destinations with excluded := [] }) s) :
    Raises E (RingWallet.buildAll S env request [] [destinations]) s := by
  unfold RingWallet.buildAll
  exact .bind each fun p t _ => raises_pure [p]

/-- If no build overflows, the attempts with more and more parts do not either. -/
theorem not_overflow_of_buildSplitFrom {request : List Destination → TransferRequest}
    (each : ∀ ds excluded t,
      Raises (· ≠ .overflow) (RingWallet.build S env { request ds with excluded }) t)
    (destinations : List Destination) (attempts parts : Nat) {last : WalletError}
    (other : last ≠ .overflow) :
    Raises (· ≠ .overflow)
      (RingWallet.buildSplitFrom S env request destinations attempts parts last) s := by
  induction attempts generalizing parts last s with
  | zero => exact raises_throw other
  | succ attempts ih =>
    unfold RingWallet.buildSplitFrom
    refine .after (exec_outcome _ s) ?_
    have all : Raises (· ≠ .overflow)
        (RingWallet.buildAll S env request [] (RingWallet.spreadOver destinations parts)) s :=
      Build.raises_buildAll (fun ds _ => each ds) [] s
    rcases run : exec (RingWallet.buildAll S env request [] _) s with ⟨e | pending, t⟩
    -- what was tried last is the error that may come out
    · have other : e ≠ .overflow := all e t run
      simp only []
      split
      · exact ih _ other
      · exact raises_throw other
    · exact raises_pure pending

variable {destinations : List Destination} {mixin unlockTime fee : UInt64} {extra : Blob}

/-- A transfer in parts agrees with that of the wallet. -/
theorem agrees_buildSplit (few : extra.length < 2 ^ 63)
    (bounded : s.wallet.config.maxSplitAttempts < maxWord) :
    Agrees (buildSplit S env destinations mixin unlockTime fee extra)
      (RingWallet.buildSplit S env destinations mixin unlockTime fee extra) s := by
  unfold buildSplit RingWallet.buildSplit
  refine .bind (agrees_keep _) fun w t here => ?_
  obtain ⟨rfl, rfl⟩ : s.wallet = w ∧ s = t := by simpa using here
  have one : (1 : UInt64).toNat = 1 := rfl
  refine agrees_buildSplitFrom (fun ds bytes spelled => ?_) destinations _ 1 _ (by omega)
  exact room_of_extraBytes few spelled

/-- A request overflows only if its first attempt, which is one build, asks for too many decoys. -/
theorem short_of_buildSplit_overflow
    (fails : (exec (RingWallet.buildSplit S env destinations mixin unlockTime fee extra) s).1 =
      .error .overflow) : 0 < s.wallet.config.maxSplitAttempts ∧
      Short env s (.standard s.wallet.config destinations mixin unlockTime fee extra) := by
  by_contra safe
  suffices other : Raises (· ≠ .overflow)
      (RingWallet.buildSplit S env destinations mixin unlockTime fee extra) s from
    other .overflow _ (Prod.ext fails rfl) rfl
  unfold RingWallet.buildSplit
  refine .after (exec_wallet s) ?_
  simp only []
  -- only for the largest word it matters how the first attempt ends
  by_cases most : mixin.toNat = maxWord
  · rcases enough : s.wallet.config.maxSplitAttempts with - | attempts
    · exact raises_throw nofun
    have safe := fun short => safe ⟨by omega, short⟩
    unfold RingWallet.buildSplitFrom
    refine .after (exec_outcome _ s) ?_
    rw [spreadOver_one]
    rcases run : exec (RingWallet.buildAll S env _ [] [destinations]) s with ⟨e | pending, t⟩
    · -- the first attempt fails, but not since the transaction is too big
      obtain ⟨fits, other⟩ := raises_buildAll_one (raises_of_not_short (S := S) most safe) e t run
      simp only [fits]
      exact raises_throw other
    · exact raises_pure pending
  · refine not_overflow_of_buildSplitFrom (fun ds excluded u => ?_) destinations _ 1 nofun
    rintro e t run rfl
    exact most (short_of_overflow (congrArg Prod.fst run)).mixin

/-- What leaves the words is not followed by anything. -/
theorem run_bind_outOfRange {x : WordM σ α} {t : Session σ}
    (fails : x.run.run s = (.error .outOfRange, t)) (f : α → WordM σ β) :
    (x >>= f).run.run s = (.error .outOfRange, t) := by
  rw [run_bind_cases, fails]

/-- An attempt does not catch what leaves the words. -/
theorem run_outcome_outOfRange {x : WordM σ α} {t : Session σ}
    (fails : x.run.run s = (.error .outOfRange, t)) :
    (outcome x).run.run s = (.error .outOfRange, t) := by
  show (x.run >>= _ : StateM (Session σ) _).run s = _
  rw [StateT.run_bind, fails]
  rfl

/-- A request that comes to it in its first attempt is out of range. -/
theorem outOfRange_of_buildSplit (some : 0 < s.wallet.config.maxSplitAttempts)
    (short : Short env s (.standard s.wallet.config destinations mixin unlockTime fee extra)) :
    ∃ t, (buildSplit S env destinations mixin unlockTime fee extra).run.run s =
      (.error .outOfRange, t) := by
  obtain ⟨t, fails⟩ := outOfRange_of_short (S := S) short
  obtain ⟨attempts, enough⟩ := Nat.exists_eq_succ_of_ne_zero (Nat.ne_of_gt some)
  refine ⟨t, ?_⟩
  unfold buildSplit
  rw [run_bind_ok (run_keep (exec_wallet s))]
  simp only []
  rw [enough]
  unfold buildSplitFrom
  -- the first attempt has one share, which is the whole request
  rw [spreadOver_eq destinations 1, show (1 : UInt64).toNat = 1 from rfl, spreadOver_one]
  refine run_bind_outOfRange (run_outcome_outOfRange ?_) _
  unfold buildAll
  exact run_bind_outOfRange fails _

end

end Words

open Words in
/-- **The arithmetic of a transfer stays within the words, but for the number of decoys to ask
for.** From any session, with any daemon and any random numbers, the programs in words do what those
of the wallet do. They are out of range exactly if they come to the step that asks for one decoy
more than the largest word: the request can be met, the wallet selects enough for it, and the number
of decoys is the largest word. (No list in memory has `2 ^ 63` bytes, and the number of attempts has
a successor.) -/
theorem outOfRange_iff_short (S : Suite) {σ : Type} (env : Environment σ) (s : Session σ) :
    (∀ r : TransferRequest, r.extra.length < 2 ^ 63 →
      Agrees (Words.build S env r) (build S env r) s ∧
      ((∃ t, (Words.build S env r).run.run s = (.error .outOfRange, t)) ↔ Short env s r)) ∧
    ∀ (destinations : List Destination) (mixin unlockTime fee : UInt64) (extra : Blob),
      extra.length < 2 ^ 63 → s.wallet.config.maxSplitAttempts < maxWord →
      let words := Words.buildSplit S env destinations mixin unlockTime fee extra
      Agrees words (buildSplit S env destinations mixin unlockTime fee extra) s ∧
      ((∃ t, words.run.run s = (.error .outOfRange, t)) ↔ 0 < s.wallet.config.maxSplitAttempts ∧
        Short env s (.standard s.wallet.config destinations mixin unlockTime fee extra)) := by
  constructor
  · intro r few
    have agrees : Agrees (Words.build S env r) (build S env r) s :=
      agrees_build fun _ => room_of_extraBytes few
    exact ⟨agrees, fun fails => short_of_overflow (agrees.outOfRange_iff.mp fails),
      outOfRange_of_short⟩
  · intro destinations mixin unlockTime fee extra few bounded words
    have agrees : Agrees words (buildSplit S env destinations mixin unlockTime fee extra) s :=
      agrees_buildSplit few bounded
    exact ⟨agrees, fun fails => short_of_buildSplit_overflow (agrees.outOfRange_iff.mp fails),
      fun comes => outOfRange_of_buildSplit comes.1 comes.2⟩

namespace Conserved

/-- The same payment with as many decoys as a word can count. -/
def crowded : TransferRequest := { request with mixin := 18446744073709551615 }

end Conserved

open Words Conserved in
/-- A payment without decoys is made within the words, and the same payment with as many decoys as a
word can count is not, in one transaction or in several. -/
theorem outOfRange_iff_short_crowded :
    request.extra.length < 2 ^ 63 ∧ crowded.extra.length < 2 ^ 63 ∧
      wallet.wallet.config.maxSplitAttempts < maxWord ∧
      Agrees (Words.build .small Script.environment request)
        (build .small Script.environment request) wallet ∧
      (¬ ∃ t, (Words.build .small Script.environment request).run.run wallet =
        (.error .outOfRange, t)) ∧
      (∃ t, (Words.build .small Script.environment crowded).run.run wallet =
        (.error .outOfRange, t)) ∧
      (∃ t, (Words.buildSplit .small Script.environment crowded.destinations crowded.mixin 0 25
        []).run.run wallet = (.error .outOfRange, t)) := by
  have bounded : wallet.wallet.config.maxSplitAttempts < maxWord := by decide
  -- a request with few decoys is never short
  have safe : ¬ Short Script.environment wallet request := fun short => nomatch short.mixin
  have covers : (1025 : UInt64) ≤ ((Balance.select Script.environment.random wallet.wallet
      (Script.environment.now.run wallet.env).1 1025 (crowded.mixin = 0)
      crowded.dustPolicy.threshold crowded.excluded).run
        (Script.environment.now.run wallet.env).2).1.1 := by decide +kernel
  -- the other one asks for the largest number of decoys, and its amount is covered
  have short : Short Script.environment wallet crowded :=
    ⟨rfl, ⟨[], rfl⟩, 1000, 1025, rfl, covers⟩
  obtain ⟨once, several⟩ := outOfRange_iff_short .small Script.environment wallet
  obtain ⟨agrees, never⟩ := once request (by decide)
  exact ⟨by decide, by decide, bounded, agrees, mt never.mp safe,
    (once crowded (by decide)).2.mpr short,
    (several _ _ _ _ _ (by decide) bounded).2.mpr ⟨by decide, short⟩⟩

open Conserved in
/-- So there is a request whose arithmetic leaves the words: the wallet overflows. -/
theorem crowded_leaves_words :
    (exec (build .small Script.environment crowded) wallet).1 = .error .overflow := by
  have fails : (match (exec (build .small Script.environment crowded) wallet).1 with
      | .error e => some e
      | .ok _ => none) = some .overflow := by decide +kernel
  rcases run : (exec (build .small Script.environment crowded) wallet).1 with e | p
  · rw [run] at fails
    exact congrArg _ (Option.some.inj fails)
  · rw [run] at fails
    cases fails

end RingWallet
