import RingWallet.Proofs.Spend.Build

/-!
# Why a build fails

`Build.refusal_of_build` takes a build that fails apart: a `Build.Refusal` has one case for each
step that may end it, with what is known there. It is the counterpart of `Build.steps_of_build`, so
that what a build never fails with is shown by going through the cases.
-/

set_option autoImplicit false

namespace RingWallet

open WalletM ExceptT

namespace Build

variable {S : Suite} {σ : Type} {env : Environment σ} {w : Wallet} {r : TransferRequest}

/-- Why a build for a wallet and a request ends with an error. -/
inductive Refusal (S : Suite) (env : Environment σ) (w : Wallet) (r : TransferRequest) :
    WalletError → Prop
  /-- The request cannot be met, whatever the wallet holds. -/
  | request {e : TransactionError} (fails : neededMoney w.config r = .error e) :
    Refusal S env w r (.transaction e)
  | paymentId {text : String} {e : TransactionError} (given : r.paymentId = some text)
    (fails : Extra.ofPaymentId text = .error e) : Refusal S env w r (.transaction e)
  /-- The selection does not cover the request. -/
  | poor {found money needed : UInt64} (needs : neededMoney w.config r = .ok (money, needed))
    (short : found < needed) :
    Refusal S env w r (.transaction (.notEnoughMoney found money r.fee))
  /-- No word is as large as the number of decoys to ask for. -/
  | overflow (most : r.mixin.toNat = maxWord) : Refusal S env w r .overflow
  /-- The daemon does not answer, is busy, or gives an answer that makes no sense. -/
  | daemon {e : WalletError} (blamed : e.isRetryable = true) : Refusal S env w r e
  | scanty {offers : List (UInt64 × Nat)} (mixes : r.mixin ≠ 0) :
    Refusal S env w r (.transaction (.notEnoughDecoys offers r.mixin))
  /-- A selected output makes no source. -/
  | source {handle : Handle} {t : Transfer} {decoys : List Daemon.Decoy} {e : WalletError}
    (at_index : w.history.transfers[handle.index]? = some t)
    (fails : sourceOf w r.mixin handle decoys = .error e) : Refusal S env w r e
  /-- The change leaves more dust than the threshold. -/
  | dust {change : Destination} {outputs : List Destination} {dust : UInt64}
    (leaves : r.strategy.split r.destinations change r.dustPolicy.threshold = (outputs, dust))
    (beyond : r.dustPolicy.threshold < dust) :
    Refusal S env w r (.consistency (.invalidDust dust r.dustPolicy.threshold))
  | construction {items : List (Handle × List Daemon.Decoy)} {sources : List Source}
    {destinations : List Destination} {extra : Blob} {e : TransactionError} {s t : σ}
    (drawn : items.mapM (fun q => sourceOf w r.mixin q.1 q.2) = .ok sources)
    (fails : (construct S env.random w.account.keys sources destinations extra
      r.unlockTime).run.run s = (.error e, t)) : Refusal S env w r (.transaction e)
  | tooBig {tx : Transaction} (large : w.config.transactionSizeLimit ≤ tx.toBlob.length) :
    Refusal S env w r (.transaction (.tooBig tx.toBlob.length w.config.transactionSizeLimit))

/-- A sum of amounts fails only because it leaves the words. -/
theorem amountOverflow_of_sumAmounts {total : UInt64} {destinations : List Destination}
    {e : TransactionError} (fails : sumAmounts total destinations = .error e) :
    e = .amountOverflow := by
  induction destinations generalizing total with
  | nil => cases fails
  | cons d rest ih =>
    unfold sumAmounts at fails
    split at fails
    · exact ih fails
    · exact (Except.error.inj fails).symm

/-- The errors of a request. -/
theorem cases_of_neededMoney_eq_error {config : Config} {e : TransactionError}
    (fails : neededMoney config r = .error e) :
    (e = .zeroDestination ∧ (r.destinations = [] ∨ ∃ d ∈ r.destinations, d.amount = 0)) ∨
      e = .amountOverflow ∨ e = .feeTooLow r.fee config.minFee := by
  unfold neededMoney at fails
  simp only [] at fails
  split at fails
  · next none =>
    cases fails
    exact .inl ⟨rfl, by simpa using none⟩
  -- a sum of amounts, the sum with the fee, and the bound on the fee, in this order
  rcases Except.bind_eq_error.mp fails with fails | ⟨money, -, fails⟩
  · exact .inr (.inl (amountOverflow_of_sumAmounts fails))
  rcases total : money.addChecked r.fee with - | needed
  · rw [total] at fails
    cases fails
    exact .inr (.inl rfl)
  · rw [total] at fails
    simp only [] at fails
    split at fails
    · cases fails
      exact .inr (.inr rfl)
    · cases fails

/-- The errors of a source. -/
theorem cases_of_sourceOf_eq_error {mixin : UInt64} {handle : Handle} {decoys : List Daemon.Decoy}
    {e : WalletError} (fails : sourceOf w mixin handle decoys = .error e) :
    e = .consistency (.missingOutput handle.index) ∨ (∃ cause, e = .protocol cause) ∨
      ∃ hash, e = .transaction (.notConstructed (.missingTxKey hash)) := by
  unfold sourceOf at fails
  -- the transfer, its output, the decoys and the key, in this order
  rcases at_index : w.history.transfers[handle.index]? with - | t
  · rw [at_index] at fails
    cases fails
    exact .inl rfl
  rw [at_index] at fails
  simp only [] at fails
  rcases here : t.output? with - | out
  · rw [here] at fails
    cases fails
    exact .inl rfl
  rw [here] at fails
  rcases Except.bind_eq_error.mp fails with bad | ⟨chosen, -, fails⟩
  · obtain ⟨cause, -, rfl⟩ := Except.mapError_eq_error.mp bad
    exact .inr (.inl ⟨cause, rfl⟩)
  rcases key : Extra.publicKey? t.tx.extra with - | txKey
  · simp only [key] at fails
    cases fails
    exact .inr (.inr ⟨_, rfl⟩)
  · simp only [key] at fails
    cases fails

/-- Decoys are refused for one of the reasons. -/
theorem raises_refusal_of_fetchDecoys {selected : List Handle} {s : Session σ} :
    Raises (Refusal S env w r) (fetchDecoys env w r.mixin selected) s := by
  unfold fetchDecoys
  split
  · exact raises_pure _
  next mixes =>
  -- what comes before the answer is the counting, and all that comes after it blames the daemon
  refine .bind (raises_orFail fun e fails => ?_) fun count _ _ => ?_
  · obtain ⟨rfl, most⟩ := decoyCount_eq_error.mp fails
    exact .overflow most
  refine .bind (raises_ask fun _ => .daemon rfl) fun reply _ _ => ?_
  refine .bind (raises_checkStatus (.daemon rfl) (.daemon rfl)) fun _ _ _ => ?_
  split
  · exact raises_throw (.daemon rfl)
  simp only []
  split
  · exact raises_throw (.scanty mixes)
  · exact raises_pure _

/-- Some selected output makes no source, if not all of them do. -/
theorem refusal_of_sources {selected : List Handle} {decoys : List (List Daemon.Decoy)}
    (here : ∀ handle ∈ selected, ∃ t, w.history.transfers[handle.index]? = some t)
    {e : WalletError}
    (fails : (selected.zip decoys).mapM (fun q => sourceOf w r.mixin q.1 q.2) = .error e) :
    Refusal S env w r e := by
  obtain ⟨⟨handle, offered⟩, mem, fails⟩ := Except.exists_of_mapM_eq_error fails
  obtain ⟨t, at_index⟩ := here handle (List.of_mem_zip mem).1
  exact .source at_index fails

/-- However a build fails, it is for one of the reasons. -/
theorem raises_refusal_of_build {s : Session σ} :
    Raises (Refusal S env s.wallet r) (build S env r) s := by
  unfold build
  refine .after (exec_wallet s) ?_
  refine .bind (raises_orFail fun _ fails => .request fails) fun ⟨money, needed⟩ t₁ needs => ?_
  obtain ⟨payable, rfl⟩ := exec_orFail_eq_ok.mp needs
  simp only []
  rcases given : r.paymentId with - | text
  on_goal 2 =>
    refine .bind (raises_orFail fun _ fails => .paymentId given fails) fun id t₂ _ => ?_
  -- what follows does not depend on where the extra bytes come from
  all_goals
    refine .bind (raises_pure _) fun extra t₃ _ => ?_
    refine .bind (raises_outside _) fun now t₄ _ => ?_
    refine .bind (raises_outside _) fun ⟨found, selected⟩ t₅ selection => ?_
    have chosen := (exec_outside_eq_ok.mp selection).1
    split
    · next short => exact raises_throw (.poor payable short)
    refine .bind raises_refusal_of_fetchDecoys fun decoys t₆ _ => ?_
    refine .bind (raises_orFail ?_) fun sources t₇ drawn => ?_
    · intro e fails
      exact refusal_of_sources
        (fun handle mem => Balance.exists_transfer_of_select env.random chosen mem) fails
    have drawn := (exec_orFail_eq_ok.mp drawn).1
    split
    · next beyond => exact raises_throw (.dust rfl beyond)
    refine .bind (raises_outside _) fun result t₈ constructed => ?_
    refine .bind (raises_orFail ?_) fun tx t₉ _ => ?_
    · intro e fails
      have failed := (exec_outside_eq_ok.mp constructed).1
      rw [fails] at failed
      exact .construction drawn (Prod.ext failed rfl)
    split
    · next large => exact raises_throw (.tooBig large)
    · exact raises_pure _

/-- A build that fails has one of these reasons. -/
theorem refusal_of_build {s t : Session σ} {e : WalletError}
    (run : exec (build S env r) s = (.error e, t)) : Refusal S env s.wallet r e :=
  raises_refusal_of_build e t run

/-- What holds of the errors of each of several builds holds of the errors of all together. -/
theorem raises_buildAll {E : WalletError → Prop} {request : List Destination → TransferRequest}
    {parts : List (List Destination)}
    (each : ∀ part ∈ parts, ∀ excluded t, Raises E (build S env { request part with excluded }) t)
    (excluded : List Nat) (s : Session σ) :
    Raises E (buildAll S env request excluded parts) s := by
  induction parts generalizing excluded s with
  | nil => exact raises_pure []
  | cons part rest ih =>
    rw [List.forall_mem_cons] at each
    exact .bind (each.1 excluded s) fun p t _ => .bind (ih each.2 _ t) fun others u _ =>
      raises_pure _

end Build

end RingWallet
