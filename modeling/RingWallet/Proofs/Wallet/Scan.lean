import RingWallet.Proofs.Support.Except
import RingWallet.Proofs.Wallet.Consistent
import RingWallet.Proofs.Wallet.Run
import RingWallet.Wallet.Scan

/-!
# What scanning a transaction does

A scan reads the history, asks the daemon for the indices of the outputs, and writes the history in
several places. Here its effect is told apart from its run:

* `Scan.receipts` are the own outputs that a scan finds, and `History.receive` takes one in;
* `History.spendInput` marks what an input spends, `History.credit` notes the payment;
* `Scan.settled` is the history after a scan that came to its end.

`Scan.Ends` lists the ways in which a scan can end, and `Scan.exec_transaction` says that there are
no others: a scan passes the transaction over, or comes to its end, or fails after it has taken in a
first part of the own outputs, and then it has done nothing else.
-/

set_option autoImplicit false

namespace RingWallet

/-- An own output as a scan finds it, with its key image if the account can tell it. -/
structure Receipt where
  transfer : Transfer
  image : Option KeyImage

namespace History

/-- Takes in an own output, unless it is recorded already. -/
def receive (h : History) (r : Receipt) : History :=
  if h.isRecorded r.image r.transfer.txHash r.transfer.outputIndex then h
  else h.record r.transfer r.image

/-- Marks the output that an input spends as spent, if it is an own one. -/
def spendInput (h : History) (input : TxIn) : History := input.keyImage?.elim h h.spend

/-- The amount that an input takes away. -/
def spentAmount? (h : History) (input : TxIn) : Option UInt64 :=
  (input.keyImage?.bind h.transferOf?).map Transfer.amount

/-- Notes what a transaction brought under its payment id, if it has one. -/
def credit (h : History) (tx : Transaction) (txHash : Hash) (height : Nat)
    (fields : List ExtraField) (received : UInt64) : History :=
  match (Extra.paymentIdOf? fields).filter fun id => !id.isNull with
  | some id =>
    if received = 0 then h
    else h.addPayment id
      { txHash, amount := received, blockHeight := height, unlockTime := tx.unlockTime }
  | none => h

variable {h h' : History}

/-- An output that is recorded already is not recorded again. -/
theorem receive_of_recorded {r : Receipt}
    (recorded : h.isRecorded r.image r.transfer.txHash r.transfer.outputIndex = true) :
    h.receive r = h := if_pos recorded

/-- An output that is new is recorded. -/
theorem receive_of_new {r : Receipt}
    (new : ¬ h.isRecorded r.image r.transfer.txHash r.transfer.outputIndex = true) :
    h.receive r = h.record r.transfer r.image := if_neg new

/-- Which amounts inputs take away does not depend on spent flags. -/
theorem SameOutputs.spentAmount? (same : SameOutputs h h') (input : TxIn) :
    h'.spentAmount? input = h.spentAmount? input := by
  have amounts (i : Nat) :
      h'.transfers[i]?.map Transfer.amount = h.transfers[i]?.map Transfer.amount := by
    have := congrArg (fun ts => ts[i]?.map Transfer.amount) same.transfers
    simp only [List.getElem?_map, Option.map_map] at this
    exact this
  unfold History.spentAmount? History.transferOf?
  -- the same index leads to the same position, where the same amount stands
  rw [same.keyImages]
  rcases input.keyImage? with - | image
  · rfl
  · show (h.keyImages[image]?.bind _).map _ = (h.keyImages[image]?.bind _).map _
    rcases h.keyImages[image]? with - | i
    · rfl
    · exact amounts i

/-- What an input spends is marked, and the outputs are left alone. -/
theorem sameOutputs_spendInput (h : History) (input : TxIn) :
    SameOutputs h (h.spendInput input) := by
  unfold spendInput
  rcases input.keyImage? with - | image
  · exact .refl h
  · exact sameOutputs_spend h image

/-- An input without an own output spends nothing. -/
theorem spendInput_of_none {input : TxIn} (none : input.keyImage?.bind h.transferOf? = none) :
    h.spendInput input = h := by
  unfold spendInput
  rcases hk : input.keyImage? with - | image
  · rfl
  · rw [hk] at none
    show h.spend image = h
    unfold spend
    rcases hi : h.keyImages[image]? with - | i
    · rfl
    · -- the index may point beyond the list, and then there is nothing to mark
      have absent : h.transfers[i]? = Option.none := by simpa [transferOf?, hi] using none
      show h.spendAt i = h
      unfold spendAt
      rw [List.modify_eq_self]
      exact List.getElem?_eq_none_iff.mp absent

end History

namespace Scan

open WalletM

variable (S : Suite) {σ : Type} (env : Environment σ)

/-! ### Own outputs -/

/-- A view-only account computes no key image; a full one computes the image of the one-time key
pair of the output. -/
theorem keyImageOf_cases {keys : AccountKeys} {d : KeyDerivation} {index : Nat} {key : PublicKey}
    {image : Option KeyImage} (eq : keyImageOf S keys d index key = .ok image) :
    (keys.spendSecret = none ∧ image = none) ∨
      ∃ spend secret k, keys.spendSecret = some spend ∧ d.secretKey S index spend = .ok secret ∧
        secret.publicKey S = .ok key ∧ KeyImage.ofKeys S key secret = .ok k ∧ image = some k := by
  unfold keyImageOf at eq
  rcases spendable : keys.spendSecret with - | spend <;> rw [spendable] at eq
  · obtain rfl : none = image := Except.ok.inj eq
    exact .inl ⟨rfl, rfl⟩
  · simp only [Except.bind_eq_ok, Except.mapError_eq_ok] at eq
    obtain ⟨secret, hs, derived, hp, eq⟩ := eq
    -- the program insists that the key pair belongs to the output
    by_cases hk : derived = key
    · subst hk
      rw [if_neg (not_not_intro rfl)] at eq
      simp only [Except.bind_eq_ok, Except.mapError_eq_ok] at eq
      obtain ⟨k, hi, eq⟩ := eq
      exact .inr ⟨spend, secret, k, rfl, hs, hp, hi, (Except.ok.inj eq).symm⟩
    · rw [if_pos hk] at eq
      cases eq

/-- The own output at a position. There is none beyond the outputs that have an index, and the
scan fails where the key image cannot be computed. -/
def receipt? (keys : AccountKeys) (d : KeyDerivation) (tx : Transaction) (txHash : Hash)
    (height : Nat) (indices : List UInt64) (index : Nat) : Option Receipt :=
  (tx.outputs.zip indices)[index]?.bind fun (out, globalIndex) =>
    (keyImageOf S keys d index out.key).toOption.map fun image =>
      ⟨{ blockHeight := height, tx, txHash, outputIndex := index, globalIndex, spent := false
         keyImage := image.getD .null }, image⟩

/-- The own outputs at some positions. -/
def receipts (keys : AccountKeys) (d : KeyDerivation) (tx : Transaction) (txHash : Hash)
    (height : Nat) (indices : List UInt64) (positions : List Nat) : List Receipt :=
  positions.filterMap (receipt? S keys d tx txHash height indices)

/-- The key image of every own output at some positions can be computed. -/
def Derivable (keys : AccountKeys) (d : KeyDerivation) (outputs : List TxOut)
    (positions : List Nat) : Prop :=
  ∀ i ∈ positions, ∀ out, outputs[i]? = some out →
    ∃ image, keyImageOf S keys d i out.key = .ok image

/-! ### The runs of the parts -/

/-- The daemon is asked for the indices of the outputs, and nothing else happens. -/
theorem exec_fetchIndices (tx : Transaction) (txHash : Hash) (s : Session σ) :
    ∃ r, exec (fetchIndices env tx txHash) s =
        (r, { s with env := ((env.getIndices txHash).run s.env).2 }) ∧
      ∀ indices, r = .ok indices → indices.length = tx.outputs.length ∧
        ((env.getIndices txHash).run s.env).1 = .ok ⟨Daemon.okStatus, indices⟩ := by
  unfold fetchIndices
  rw [exec_bind, exec_ask]
  -- the daemon may give no answer, refuse, or send a list of another length
  rcases hr : ((env.getIndices txHash).run s.env).1 with e | reply
  · exact ⟨_, rfl, by simp⟩
  · simp only [Except.mapError_ok]
    rw [exec_bind, exec_checkStatus]
    rcases hs : statusResult .outputIndices reply.status with e | ⟨⟩
    · exact ⟨_, rfl, by simp⟩
    · simp only []
      by_cases hl : reply.indices.length = tx.outputs.length
      · rw [if_neg (not_not_intro hl)]
        refine ⟨.ok reply.indices, rfl, ?_⟩
        rintro indices ⟨⟩
        refine ⟨hl, ?_⟩
        rw [← statusResult_eq_ok.mp hs]
      · rw [if_pos hl]
        exact ⟨_, rfl, by simp⟩

/-- A run of `recordOutputs` takes in own outputs in order. It takes in all of them unless it
fails, and then their key images can all be computed. -/
theorem exec_recordOutputs (tx : Transaction) (txHash : Hash) (height : Nat) (d : KeyDerivation)
    (indices : List UInt64) (hl : indices.length = tx.outputs.length) (positions : List Nat)
    (received : UInt64) (s : Session σ) :
    ∃ r t done, exec (recordOutputs S tx txHash height d indices positions received) s = (r, t) ∧
      t.core = (s.env, s.wallet.withHistory (done.foldl History.receive s.history)) ∧
      done <+: receipts S s.wallet.account.keys d tx txHash height indices positions ∧
      ∀ v, r = .ok v →
        done = receipts S s.wallet.account.keys d tx txHash height indices positions ∧
        Derivable S s.wallet.account.keys d tx.outputs positions := by
  -- `done` grows by one with each position, until one fails
  induction positions generalizing received s with
  | nil =>
    refine ⟨.ok received, s, [], rfl, rfl, List.nil_prefix, fun _ _ => ⟨rfl, ?_⟩⟩
    simp [Derivable]
  | cons index rest ih =>
    rw [recordOutputs, receipts, List.filterMap_cons, receipt?]
    rcases hz : (tx.outputs.zip indices)[index]? with - | ⟨out, globalIndex⟩
    · obtain ⟨r, t, done, run, core, part, all⟩ := ih received s
      refine ⟨r, t, done, run, core, part, fun v hv => ⟨(all v hv).1, ?_⟩⟩
      -- there is no output at this position
      have absent : tx.outputs[index]? = none := by
        rw [List.getElem?_eq_none_iff, List.length_zip, hl, Nat.min_self] at hz
        exact List.getElem?_eq_none_iff.mpr hz
      simpa [Derivable, absent] using (all v hv).2
    · have here : tx.outputs[index]? = some out := (List.getElem?_zip_eq_some.mp hz).1
      simp only [Option.bind_some]
      rw [exec_bind_ok _ (exec_wallet s), exec_bind, exec_orFail]
      rcases hk : keyImageOf S s.wallet.account.keys d index out.key with e | image
      · exact ⟨.error e, s, [], rfl, rfl, List.nil_prefix, by simp⟩
      · simp only [Except.mapError_ok, Except.toOption, Option.map_some]
        have derivable (h : Derivable S s.wallet.account.keys d tx.outputs rest) :
            Derivable S s.wallet.account.keys d tx.outputs (index :: rest) := by
          simp only [Derivable, List.forall_mem_cons]
          refine ⟨?_, h⟩
          rw [here]
          rintro out' ⟨⟩
          exact ⟨image, hk⟩
        -- an output that is known already is taken in as well, but without an effect
        split
        · next recorded =>
          obtain ⟨r, t, done, run, core, part, all⟩ := ih received s
          refine ⟨r, t, _ :: done, run, ?_, List.cons_prefix_cons.mpr ⟨rfl, part⟩,
            fun v hv => ⟨congrArg _ (all v hv).1, derivable (all v hv).2⟩⟩
          rw [core, List.foldl_cons, History.receive_of_recorded recorded]
        · next new =>
          rw [exec_bind_ok _ (exec_modifyHistory _ s), exec_bind_ok _ (exec_tell _ _)]
          obtain ⟨r, t, done, run, core, part, all⟩ := ih (received.addSat out.amount) _
          refine ⟨r, t, _ :: done, run, ?_, List.cons_prefix_cons.mpr ⟨rfl, part⟩,
            fun v hv => ⟨congrArg _ (all v hv).1, derivable (all v hv).2⟩⟩
          rw [core, List.foldl_cons, History.receive_of_new new]
          rfl

/-- A run of `recordSpends` marks what the inputs spend, and sums up their amounts. -/
theorem exec_recordSpends (txHash : Hash) (height : Nat) (inputs : List TxIn) (spent : UInt64)
    (s : Session σ) :
    ∃ t, exec (recordSpends txHash height inputs spent) s =
        (.ok ((inputs.filterMap s.history.spentAmount?).foldl UInt64.addSat spent), t) ∧
      t.core = (s.env, s.wallet.withHistory (inputs.foldl History.spendInput s.history)) := by
  induction inputs generalizing spent s with
  | nil => exact ⟨s, rfl, rfl⟩
  | cons input rest ih =>
    rw [recordSpends, exec_bind_ok _ (exec_history s), List.filterMap_cons, List.foldl_cons]
    -- a mark does not change what the inputs after it take away
    have later : (s.history.spendInput input).spentAmount? = s.history.spentAmount? :=
      funext (History.sameOutputs_spendInput s.history input).spentAmount?
    rcases hf : input.keyImage?.bind s.history.transferOf? with - | t
    · rw [History.spendInput_of_none hf, History.spentAmount?, hf]
      have : (input.keyImage?.bind fun image =>
          (s.history.transferOf? image).map (image, ·)) = none := by
        rcases hi : input.keyImage? with - | image
        · rfl
        · rw [hi, Option.bind_some] at hf
          rw [Option.bind_some, hf, Option.map_none]
      rw [this]
      exact ih spent s
    · obtain ⟨image, hi, ht⟩ := Option.bind_eq_some_iff.mp hf
      have spend : s.history.spendInput input = s.history.spend image := by
        rw [History.spendInput, hi]
        rfl
      rw [History.spentAmount?, hf, hi]
      simp only [Option.bind_some, ht, Option.map_some]
      rw [exec_bind_ok _ (exec_modifyHistory _ s), exec_bind_ok _ (exec_tell _ _)]
      obtain ⟨u, run, core⟩ := ih (spent.addSat t.amount)
        ((s.withHistory (s.history.spend image)).told (.moneySpent height txHash t.amount))
      rw [spend] at later ⊢
      refine ⟨u, ?_, core⟩
      rw [run, Session.history_told, Session.history_withHistory, later]
      rfl

/-- A run of `recordPayment` notes the payment. -/
theorem exec_recordPayment (tx : Transaction) (txHash : Hash) (height : Nat)
    (fields : List ExtraField) (received : UInt64) (s : Session σ) :
    exec (recordPayment tx txHash height fields received) s =
      (.ok (), s.withHistory (s.history.credit tx txHash height fields received)) := by
  unfold recordPayment History.credit
  generalize (Extra.paymentIdOf? fields).filter (fun id => !id.isNull) = known
  cases known with
  | none => rfl
  | some id =>
    by_cases nothing : received = 0
    · simp only [nothing, if_true]
      rfl
    · simp only [nothing, if_false]
      rfl

/-! ### The run of a scan -/

/-- Whether the own outputs at some positions are worth anything. -/
def Worth (tx : Transaction) (own : List Nat) : Prop := own ≠ [] ∧ amountAt tx.outputs own ≠ 0

instance (tx : Transaction) (own : List Nat) : Decidable (Worth tx own) :=
  inferInstanceAs (Decidable (_ ∧ _))

/-- What the own outputs of a transaction bring: nothing, if they are worth nothing. -/
def brought (keys : AccountKeys) (d : KeyDerivation) (tx : Transaction) (txHash : Hash)
    (height : Nat) (indices : List UInt64) (own : List Nat) : List Receipt :=
  if Worth tx own then receipts S keys d tx txHash height indices own else []

/-- The history after a transaction was scanned to its end. -/
def settled (keys : AccountKeys) (d : KeyDerivation) (tx : Transaction) (txHash : Hash)
    (height : Nat) (indices : List UInt64) (own : List Nat) (h : History) : History :=
  let found := (brought S keys d tx txHash height indices own).foldl History.receive
    (h.forget txHash)
  let spent := (tx.inputs.filterMap found.spentAmount?).foldl UInt64.addSat 0
  (tx.inputs.foldl History.spendInput found).credit tx txHash height (Extra.parse tx.extra).1
    ((amountAt tx.outputs own).subSat spent)

/-- What a scan finds out on its way to its end: the secret shared with the sender, the positions of
the own outputs, and, if they are worth anything, the indices that the daemon answers when it goes
from the state `e` to the state `e'`, and the key images. -/
structure Completed (account : Account) (tx : Transaction) (txHash : Hash) (e e' : σ)
    (d : KeyDerivation) (own : List Nat) (indices : List UInt64) : Prop where
  usable : derivation? S account.keys (Extra.parse tx.extra).1 = some d
  owned : ownOutputs S account.address d 0 tx.outputs = .ok own
  idle : ¬ Worth tx own → e' = e
  length_eq : Worth tx own → indices.length = tx.outputs.length
  asked : Worth tx own →
    (env.getIndices txHash).run e = (.ok ⟨Daemon.okStatus, indices⟩, e')
  derivable : Worth tx own → Derivable S account.keys d tx.outputs own

/-- The ways in which the scan of a transaction can end. -/
inductive Ends (tx : Transaction) (txHash : Hash) (height : Nat) (s : Session σ) :
    Except WalletError ScanOutcome → Session σ → Prop
  /-- The transaction has no usable public key. -/
  | passed {o : ScanOutcome} {t : Session σ}
    (unusable : derivation? S s.wallet.account.keys (Extra.parse tx.extra).1 = none)
    (core : t.core = (s.env, s.wallet.withHistory (s.history.forget txHash))) :
    Ends tx txHash height s (.ok o) t
  /-- The transaction was scanned to its end. -/
  | settled {o : ScanOutcome} {t : Session σ} {d : KeyDerivation} {own : List Nat}
    {indices : List UInt64}
    (completed : Completed S env s.wallet.account tx txHash s.env t.env d own indices)
    (wallet : t.wallet = s.wallet.withHistory
      (settled S s.wallet.account.keys d tx txHash height indices own s.history)) :
    Ends tx txHash height s (.ok o) t
  /-- The scan failed before it recorded an output. -/
  | stopped {e : WalletError} {t : Session σ}
    (wallet : t.wallet = s.wallet.withHistory (s.history.forget txHash)) :
    Ends tx txHash height s (.error e) t
  /-- The scan failed after it recorded a first part of the own outputs. -/
  | broke {e : WalletError} {t : Session σ} {d : KeyDerivation} {own : List Nat}
    {indices : List UInt64} {done : List Receipt}
    (usable : derivation? S s.wallet.account.keys (Extra.parse tx.extra).1 = some d)
    (owned : ownOutputs S s.wallet.account.address d 0 tx.outputs = .ok own)
    (part : done <+: receipts S s.wallet.account.keys d tx txHash height indices own)
    (wallet : t.wallet = s.wallet.withHistory
      (done.foldl History.receive (s.history.forget txHash))) :
    Ends tx txHash height s (.error e) t

/-! ### The two parts of a scan -/

/-- Recording the own outputs of a transaction, if they are worth anything. -/
def takeIn (tx : Transaction) (txHash : Hash) (height : Nat) (d : KeyDerivation) (own : List Nat) :
    WalletM σ UInt64 :=
  if Worth tx own then do
    recordOutputs S tx txHash height d (← fetchIndices env tx txHash) own 0
  else pure 0

/-- Marking what the inputs spend and noting the payment, the end of every scan. -/
def close (tx : Transaction) (txHash : Hash) (height : Nat) (own : List Nat) (received : UInt64) :
    WalletM σ ScanOutcome := do
  let spent ← recordSpends txHash height tx.inputs 0
  recordPayment tx txHash height (Extra.parse tx.extra).1 ((amountAt tx.outputs own).subSat spent)
  return { received, spent }

/-- The end of a scan always succeeds, and does to the wallet what `spendInput` and `credit` do to
its history. -/
theorem exec_close (tx : Transaction) (txHash : Hash) (height : Nat) (own : List Nat)
    (received : UInt64) (s : Session σ) :
    ∃ o t, exec (close tx txHash height own received) s = (.ok o, t) ∧ o.received = received ∧
      t.core = (s.env, s.wallet.withHistory
        ((tx.inputs.foldl History.spendInput s.history).credit tx txHash height
          (Extra.parse tx.extra).1 ((amountAt tx.outputs own).subSat
            ((tx.inputs.filterMap s.history.spentAmount?).foldl UInt64.addSat 0)))) := by
  obtain ⟨t, run, core⟩ := exec_recordSpends txHash height tx.inputs 0 s
  rw [close, exec_bind_ok _ run, exec_bind_ok _ (exec_recordPayment _ _ _ _ _ _)]
  refine ⟨_, _, rfl, rfl, ?_⟩
  rw [Session.core_withHistory, Session.history, Session.env_of_core core,
    Session.wallet_of_core core]
  rfl

/-- Taking in the own outputs records a first part of them, and all of them if it succeeds. -/
theorem exec_takeIn (tx : Transaction) (txHash : Hash) (height : Nat) {d : KeyDerivation}
    {own : List Nat} (s : Session σ)
    (usable : derivation? S s.wallet.account.keys (Extra.parse tx.extra).1 = some d)
    (owned : ownOutputs S s.wallet.account.address d 0 tx.outputs = .ok own) :
    ∃ r t indices done, exec (takeIn S env tx txHash height d own) s = (r, t) ∧
      t.wallet = s.wallet.withHistory (done.foldl History.receive s.history) ∧
      done <+: receipts S s.wallet.account.keys d tx txHash height indices own ∧
      ∀ v, r = .ok v →
        done = brought S s.wallet.account.keys d tx txHash height indices own ∧
        Completed S env s.wallet.account tx txHash s.env t.env d own indices := by
  unfold takeIn
  -- indices are asked for only when an output is worth it
  by_cases worth : Worth tx own
  · rw [if_pos worth, exec_bind]
    obtain ⟨answer, asked, answered⟩ := exec_fetchIndices env tx txHash s
    rw [asked]
    rcases answer with e | indices
    · exact ⟨.error e, _, [], [], rfl, rfl, List.nil_prefix, by simp⟩
    · obtain ⟨length_eq, reply⟩ := answered indices rfl
      -- recording may break off, and then a beginning of the list is received
      obtain ⟨r, t, done, run, core, part, all⟩ := exec_recordOutputs S tx txHash height d indices
        length_eq own 0 { s with env := ((env.getIndices txHash).run s.env).2 }
      refine ⟨r, t, indices, done, run, Session.wallet_of_core core, part, ?_⟩
      intro v succeeds
      obtain ⟨eq, derivable⟩ := all v succeeds
      have answer : (env.getIndices txHash).run s.env =
          (.ok ⟨Daemon.okStatus, indices⟩, t.env) := by
        rw [Session.env_of_core core, ← reply]
        rfl
      exact ⟨eq.trans (if_pos worth).symm, usable, owned, absurd worth, fun _ => length_eq,
        fun _ => answer, fun _ => derivable⟩
  · rw [if_neg worth]
    refine ⟨.ok 0, s, [], [], rfl, rfl, List.nil_prefix, fun v _ => ⟨(if_neg worth).symm, ?_⟩⟩
    exact ⟨usable, owned, fun _ => rfl, fun h => absurd h worth, fun h => absurd h worth,
      fun h => absurd h worth⟩

/-- A scan takes in the own outputs, if there is a key to look for them, and closes. -/
theorem transaction_eq (tx : Transaction) (txHash : Hash) (height : Nat) :
    transaction S env tx txHash height = (do
      WalletM.modifyHistory fun h => h.forget txHash
      let account := (← WalletM.wallet).account
      match derivation? S account.keys (Extra.parse tx.extra).1 with
      | none =>
        WalletM.tell (.skipTransaction height txHash)
        return {}
      | some d =>
        let own ← WalletM.orFail .crypto (ownOutputs S account.address d 0 tx.outputs)
        takeIn S env tx txHash height d own >>= close tx txHash height own) := by
  unfold transaction
  refine bind_congr fun _ => bind_congr fun w => ?_
  dsimp only
  rcases derivation? S w.account.keys (Extra.parse tx.extra).1 with - | d
  · rfl
  · refine bind_congr fun own => ?_
    unfold takeIn
    -- the end of the scan is the same whether there is anything to take in
    by_cases worth : Worth tx own
    · rw [if_pos worth, if_pos (show own ≠ [] ∧ amountAt tx.outputs own ≠ 0 from worth),
        bind_assoc]
      rfl
    · rw [if_neg worth, if_neg (show ¬ (own ≠ [] ∧ amountAt tx.outputs own ≠ 0) from worth)]
      rfl

variable {tx : Transaction} {txHash : Hash} {height : Nat} {d : KeyDerivation} {own : List Nat}
  {s : Session σ}

/-- A transaction without a usable key is passed over. -/
theorem exec_transaction_of_unusable
    (unusable : derivation? S s.wallet.account.keys (Extra.parse tx.extra).1 = none) :
    exec (transaction S env tx txHash height) s =
      (.ok {},
        (s.withHistory (s.history.forget txHash)).told (.skipTransaction height txHash)) := by
  rw [transaction_eq, exec_bind_ok _ (exec_modifyHistory _ s), exec_bind_ok _ (exec_wallet _)]
  simp only [Session.wallet_withHistory, Wallet.account_withHistory, unusable]
  rfl

/-- Where the own outputs of a transaction are known, its scan is made of the two parts. -/
theorem exec_transaction_of_owned
    (usable : derivation? S s.wallet.account.keys (Extra.parse tx.extra).1 = some d)
    (owned : ownOutputs S s.wallet.account.address d 0 tx.outputs = .ok own) :
    exec (transaction S env tx txHash height) s =
      exec (takeIn S env tx txHash height d own >>= close tx txHash height own)
        (s.withHistory (s.history.forget txHash)) := by
  have found (t : Session σ) :
      exec (orFail .crypto (ownOutputs S s.wallet.account.address d 0 tx.outputs)) t =
        (.ok own, t) := by
    rw [exec_orFail, owned]
    rfl
  rw [transaction_eq, exec_bind_ok _ (exec_modifyHistory _ s), exec_bind_ok _ (exec_wallet _)]
  simp only [Session.wallet_withHistory, Wallet.account_withHistory, usable]
  exact exec_bind_ok _ (found _)

/-- Own outputs that cannot be told end the scan. -/
theorem exec_transaction_of_not_owned {e : CryptoError}
    (usable : derivation? S s.wallet.account.keys (Extra.parse tx.extra).1 = some d)
    (owned : ownOutputs S s.wallet.account.address d 0 tx.outputs = .error e) :
    exec (transaction S env tx txHash height) s =
      (.error (.crypto e), s.withHistory (s.history.forget txHash)) := by
  have failed (t : Session σ) :
      exec (orFail .crypto (ownOutputs S s.wallet.account.address d 0 tx.outputs)) t =
        (.error (.crypto e), t) := by
    rw [exec_orFail, owned]
    rfl
  rw [transaction_eq, exec_bind_ok _ (exec_modifyHistory _ s), exec_bind_ok _ (exec_wallet _)]
  simp only [Session.wallet_withHistory, Wallet.account_withHistory, usable]
  exact exec_bind_error _ (failed _)

/-- Every run of a scan ends in one of the four ways. -/
theorem exec_transaction (tx : Transaction) (txHash : Hash) (height : Nat) (s : Session σ) :
    ∃ r t, exec (transaction S env tx txHash height) s = (r, t) ∧
      Ends S env tx txHash height s r t := by
  -- no usable key, an output that cannot be tried, or an attempt that is settled or broken off
  rcases usable : derivation? S s.wallet.account.keys (Extra.parse tx.extra).1 with - | d
  · exact ⟨_, _, exec_transaction_of_unusable S env usable, .passed usable rfl⟩
  rcases owned : ownOutputs S s.wallet.account.address d 0 tx.outputs with e | own
  · exact ⟨_, _, exec_transaction_of_not_owned S env usable owned, .stopped rfl⟩
  · rw [exec_transaction_of_owned S env usable owned, exec_bind]
    obtain ⟨r, t, indices, done, run, wallet, part, all⟩ := exec_takeIn S env tx txHash height
      (s.withHistory (s.history.forget txHash)) usable owned
    rw [run]
    rcases r with e | received
    · exact ⟨_, _, rfl, .broke usable owned part wallet⟩
    · obtain ⟨rfl, completed⟩ := all received rfl
      obtain ⟨o, u, closed, -, core⟩ := exec_close tx txHash height own received t
      refine ⟨_, u, closed, .settled (Session.env_of_core core ▸ completed) ?_⟩
      rw [Session.wallet_of_core core, Session.history, wallet]
      rfl

/-! ### Scans that do not fail -/

/-- The indices are those that the daemon answers, if there is one for each output. -/
theorem exec_fetchIndices_of_answer {tx : Transaction} {txHash : Hash} {indices : List UInt64}
    {e e' : σ} (answer : (env.getIndices txHash).run e = (.ok ⟨Daemon.okStatus, indices⟩, e'))
    (length_eq : indices.length = tx.outputs.length) (s : Session σ) (asked : s.env = e) :
    exec (fetchIndices env tx txHash) s = (.ok indices, { s with env := e' }) := by
  have replied : exec (ask (env.getIndices txHash)) s =
      (.ok ⟨Daemon.okStatus, indices⟩, { s with env := e' }) := by
    rw [exec_ask, asked, answer]
    rfl
  have checked : exec (checkStatus .outputIndices Daemon.okStatus) { s with env := e' } =
      (.ok (), { s with env := e' }) := by
    rw [exec_checkStatus, statusResult_eq_ok.mpr rfl]
  unfold fetchIndices
  rw [exec_bind_ok _ replied, exec_bind_ok _ checked, if_neg (not_not_intro length_eq)]
  rfl

/-- Own outputs are recorded if their key images can be computed. -/
theorem exists_of_recordOutputs {tx : Transaction} {txHash : Hash} {height : Nat}
    {d : KeyDerivation} {indices : List UInt64} {positions : List Nat} {s : Session σ}
    (derivable : Derivable S s.wallet.account.keys d tx.outputs positions) (received : UInt64) :
    ∃ v t, exec (recordOutputs S tx txHash height d indices positions received) s = (.ok v, t) := by
  induction positions generalizing received s with
  | nil => exact ⟨received, s, rfl⟩
  | cons index rest ih =>
    have later : Derivable S s.wallet.account.keys d tx.outputs rest := fun i mem =>
      derivable i (List.mem_cons_of_mem index mem)
    rw [recordOutputs]
    split
    · next out g here =>
      -- the image can be computed, so the step does not fail
      obtain ⟨image, computed⟩ := derivable index List.mem_cons_self out
        (List.getElem?_zip_eq_some.mp here).1
      have known : exec (orFail id (keyImageOf S s.wallet.account.keys d index out.key)) s =
          (.ok image, s) := by
        rw [exec_orFail, computed]
        rfl
      rw [exec_bind_ok _ (exec_wallet s), exec_bind_ok _ known]
      split
      · exact ih later received
      · rw [exec_bind_ok _ (exec_modifyHistory _ s), exec_bind_ok _ (exec_tell _ _)]
        exact ih (by exact later) _
    · exact ih later received

/-- The scan of a transaction succeeds if its own outputs are known and, where they are worth
anything, the daemon answers an index for each output and their key images can be computed. -/
theorem exists_of_transaction {tx : Transaction} {txHash : Hash} {s : Session σ}
    (known : ∀ d, derivation? S s.wallet.account.keys (Extra.parse tx.extra).1 = some d →
      ∃ own, ownOutputs S s.wallet.account.address d 0 tx.outputs = .ok own ∧
        (Worth tx own → Derivable S s.wallet.account.keys d tx.outputs own))
    (answers : ∃ indices e, indices.length = tx.outputs.length ∧
      (env.getIndices txHash).run s.env = (.ok ⟨Daemon.okStatus, indices⟩, e)) (height : Nat) :
    ∃ o t, exec (transaction S env tx txHash height) s = (.ok o, t) := by
  rcases usable : derivation? S s.wallet.account.keys (Extra.parse tx.extra).1 with - | d
  · exact ⟨_, _, exec_transaction_of_unusable S env usable⟩
  obtain ⟨own, owned, derivable⟩ := known d usable
  rw [exec_transaction_of_owned S env usable owned]
  have close (received : UInt64) (t : Session σ) :
      ∃ o u, exec (close tx txHash height own received) t = (.ok o, u) := by
    obtain ⟨o, u, closed, -⟩ := exec_close tx txHash height own received t
    exact ⟨o, u, closed⟩
  -- taking in may ask the daemon, which answers by assumption
  unfold takeIn
  by_cases worth : Worth tx own
  · obtain ⟨indices, e, length, answer⟩ := answers
    have asked := exec_fetchIndices_of_answer env answer length
      (s.withHistory (s.history.forget txHash)) rfl
    obtain ⟨v, t, recorded⟩ : ∃ v t, exec (recordOutputs S tx txHash height d indices own 0)
        { s.withHistory (s.history.forget txHash) with env := e } = (.ok v, t) :=
      exists_of_recordOutputs S (by exact derivable worth) 0
    have took : exec (do
        recordOutputs S tx txHash height d (← fetchIndices env tx txHash) own 0)
          (s.withHistory (s.history.forget txHash)) = (.ok v, t) := by
      rw [exec_bind_ok _ asked]
      exact recorded
    rw [if_pos worth, exec_bind_ok _ took]
    exact close v t
  · rw [if_neg worth]
    exact close 0 _

end Scan

end RingWallet
