import RingWallet.Proofs.Wallet.Pending

/-!
# Sending is all or nothing

A pending transaction names the outputs that it spends by their positions. Between the time when it
is built and the time when it is sent, refreshes and cuts may take outputs away and put others at
their positions, so that the check before it is sent compares the key images as well.

`Act` adds to the deeds of a user the cuts that are made without a refresh; a desk stays sound
whatever acts it goes through (`sound_afterActs`). `markSent_eq_committed` says that a sending which
passes the check marks exactly the outputs with the key images of its inputs, and `held_afterActs`
that these marks stay until the chain is cut below the output. `all_or_nothing_of_send` puts this
together: a sending that fails leaves the wallet as it was, one that succeeds does nothing else, and
no other transaction with one of its inputs is sent after it.
-/

set_option autoImplicit false

namespace RingWallet

open WalletM

/-- What a user does with a wallet that may be cut back without a refresh. -/
inductive Act where
  | deed (d : Deed)
  | detach (height : Nat)
  | assumeScanned (height : Nat)

section

variable (S : Suite) {σ : Type} (env : Environment σ)

/-- The desk after an act, which may have failed. -/
def Act.run : Act → Desk σ → Desk σ
  | deed d, desk => d.run S env desk
  | detach height, desk => { desk with session := (exec (Sync.detach height) desk.session).2 }
  | assumeScanned height, desk =>
    { desk with
      session := (exec (modifyHistory fun h => h.assumeScanned height) desk.session).2 }

/-- The desk after some acts, each of which may have failed. -/
def afterActs (acts : List Act) (desk : Desk σ) : Desk σ :=
  acts.foldl (fun desk act => act.run S env desk) desk

end

variable {S : Suite} {account : Account} {σ : Type} {env : Environment σ}

/-- An act keeps a desk sound, however it ends. -/
theorem Desk.Sound.act (derivable : ∀ key secret, KeyImage.ofKeys S key secret ≠ .ok .null)
    (full : account.keys.spendSecret.isSome) {desk : Desk σ} (sound : desk.Sound S account)
    (act : Act) : (act.run S env desk).Sound S account := by
  cases act with
  | deed d => exact sound.run derivable full d
  | detach height => exact ⟨sound.derived.detach height, sound.spends⟩
  | assumeScanned height => exact ⟨sound.derived.assumeScanned height, sound.spends⟩

/-- What no act breaks holds after any acts. -/
theorem Desk.Sound.acts (derivable : ∀ key secret, KeyImage.ofKeys S key secret ≠ .ok .null)
    (full : account.keys.spendSecret.isSome) {desk : Desk σ} (sound : desk.Sound S account)
    (acts : List Act) : (afterActs S env acts desk).Sound S account := by
  unfold afterActs
  induction acts generalizing desk with
  | nil => exact sound
  | cons act rest ih => exact ih (sound.act derivable full act)

/-- A new wallet with nothing built is sound, and stays so whatever is done with it. -/
theorem sound_afterActs (derivable : ∀ key secret, KeyImage.ofKeys S key secret ≠ .ok .null)
    (full : account.keys.spendSecret.isSome) {config : Config} {s : Session σ}
    (created : Wallet.create account config = .ok s.wallet) (acts : List Act) :
    (afterActs S env acts ⟨s, []⟩).Sound S account :=
  (@sound_afterDeeds S account σ env derivable full config s created []).acts derivable full acts

/-! ### What a sending marks -/

attribute [ext] History

/-- The key images of the inputs. -/
def PendingTransaction.inputImages (p : PendingTransaction) : List KeyImage :=
  p.tx.inputs.filterMap TxIn.keyImage?

/-- The inputs of a transaction carry the key images of the outputs it was built from, in their
order. -/
theorem PendingTransaction.Spends.inputImages_eq {p : PendingTransaction} (spends : p.Spends S) :
    p.inputImages = p.selected.map Handle.keyImage := by
  have images := congrArg (List.filterMap id) spends.images_eq
  simpa [List.filterMap_map, inputImages, Function.comp_def] using images

/-- The history after a transaction was sent: it is waited for, and the outputs with the key images
of its inputs are spent. -/
def History.committed (h : History) (p : PendingTransaction) (time : UInt64) : History :=
  { h with
    unconfirmed := h.unconfirmed.insert p.hash ⟨p.tx, p.change.amount, time⟩
    transfers := h.transfers.map fun t =>
      { t with spent := t.spent || decide (t.keyImage ∈ p.inputImages) } }

/-- The selected outputs are found by their key images as well, and are unspent. -/
theorem selected_of_keyImage (derivable : ∀ key secret, KeyImage.ofKeys S key secret ≠ .ok .null)
    {s : Session σ} (derived : s.Derived S account) {handles : List Handle}
    (passes : checkSelection s.history.transfers handles = .ok ()) {handle : Handle}
    (mem : handle ∈ handles) {i : Nat} {t : Transfer} (at_i : s.history.transfers[i]? = some t)
    (image : t.keyImage = handle.keyImage) : handle.index = i ∧ t.spent = false := by
  obtain ⟨t', here, unspent, image'⟩ := forall_of_checkSelection passes handle mem
  have one : handle.index = i :=
    derived.consistent.indexed.unique
      (derived.keyImage_ne_null derivable t (List.mem_of_getElem? at_i))
      (by rw [History.images, List.getElem?_map, here, Option.map_some, image', image])
      (by rw [History.images, List.getElem?_map, at_i, Option.map_some])
  rw [one, at_i] at here
  rw [Option.some.inj here]
  exact ⟨one, unspent⟩

/-- A sending that passes the check marks exactly the outputs with the key images of its inputs. -/
theorem markSent_eq_committed (derivable : ∀ key secret, KeyImage.ofKeys S key secret ≠ .ok .null)
    {s : Session σ} (derived : s.Derived S account) {p : PendingTransaction} (spends : p.Spends S)
    (passes : checkSelection s.history.transfers p.selected = .ok ()) (time : UInt64) :
    s.history.markSent p time = s.history.committed p time := by
  obtain ⟨same, payments⟩ := History.sameOutputs_markSent s.history p time
  obtain ⟨unconfirmed, marks⟩ := History.markSent_fields s.history p time
  have transfers : (s.history.markSent p time).transfers =
      (s.history.committed p time).transfers := by
    refine List.ext_getElem? fun i => ?_
    rw [marks, History.committed, List.getElem?_map]
    rcases at_i : s.history.transfers[i]? with - | t
    · rfl
    -- a position is selected exactly if the output there has the key image of an input
    have chosen : i ∈ p.selected.map Handle.index ↔ t.keyImage ∈ p.inputImages := by
      rw [spends.inputImages_eq, List.mem_map, List.mem_map]
      refine exists_congr fun handle => and_congr_right fun mem => ?_
      constructor
      · rintro rfl
        obtain ⟨t', here, -, image⟩ := forall_of_checkSelection passes handle mem
        rw [at_i] at here
        rw [Option.some.inj here, image]
      · exact fun image => (selected_of_keyImage derivable derived passes mem at_i image.symm).1
    simp only [Option.map_some, chosen]
  exact History.ext same.chain transfers same.keyImages unconfirmed payments

/-! ### What comes after it -/

/-- Since a transaction was sent, the chain was cut at or below an output with a key image, which
the wallet had when it was sent: by a refresh, or by one of the acts. -/
def Removed (sent s : Session σ) (acts : List Act) (image : KeyImage) : Prop :=
  ∃ t ∈ sent.history.transfers, t.keyImage = image ∧
    (s.CutSince sent.events t.blockHeight ∨ ∃ n, Act.detach n ∈ acts ∧ n ≤ t.blockHeight)

/-- Acts keep the marks, unless one of them cuts the chain below the output. -/
theorem Session.Held.acts (derivable : ∀ key secret, KeyImage.ofKeys S key secret ≠ .ok .null)
    {told : List Event} {i : Nat} {t₀ : Transfer} {desk : Desk σ}
    (held : desk.session.Held S told i t₀) (acts : List Act) :
    (∃ n, Act.detach n ∈ acts ∧ n ≤ t₀.blockHeight) ∨
      (afterActs S env acts desk).session.Held S told i t₀ := by
  unfold afterActs
  induction acts generalizing desk with
  | nil => exact .inr held
  | cons act rest ih =>
    have go_on (held : (act.run S env desk).session.Held S told i t₀) := (ih held).imp_left
      (Exists.imp fun n cut => And.imp_left (List.mem_cons_of_mem act) cut)
    -- only a cut can take the transfer away, and only one that reaches down to it
    cases act with
    | deed d => exact go_on (held.run derivable d)
    | assumeScanned height =>
      exact go_on (held.of_transfers_eq List.prefix_rfl (held.consistent.assumeScanned height) rfl)
    | detach n =>
      rcases Nat.lt_or_ge t₀.blockHeight n with below | above
      · exact go_on (held.detach below)
      · exact .inl ⟨n, List.mem_cons_self, above⟩

/-- A selection that does not pass the check is not sent, and nothing happens. -/
theorem exec_send_stale (env : Environment σ) {p : PendingTransaction} {s : Session σ}
    {stale : StaleSelection}
    (fails : checkSelection s.history.transfers p.selected = .error stale) :
    exec (send env p) s = (.error (.transaction (.stale stale)), s) := by
  unfold send
  rw [exec_bind_ok _ (exec_history s), exec_bind, exec_orFail, fails]
  rfl

/-- After a transaction was sent, none that shares an input with it passes the check, unless the
chain was cut below the output that both of them spend. -/
theorem Desk.Sound.removed_or_stale
    (derivable : ∀ key secret, KeyImage.ofKeys S key secret ≠ .ok .null)
    (full : account.keys.spendSecret.isSome) {desk : Desk σ} (sound : desk.Sound S account)
    {p q : PendingTransaction} (built : p ∈ desk.built) {id : Hash} {sent : Session σ}
    (run : exec (send env p) desk.session = (.ok id, sent)) {later : List Act}
    (built' : q ∈ (afterActs S env later { desk with session := sent }).built) {image : KeyImage}
    (spent : image ∈ p.inputImages) (again : image ∈ q.inputImages) :
    let after := (afterActs S env later { desk with session := sent }).session
    Removed sent after later image ∨ ∃ stale, ∀ env' : Environment σ,
      exec (send env' q) after = (.error (.transaction (.stale stale)), after) := by
  intro after
  obtain ⟨index, here⟩ := List.mem_iff_getElem?.mp built
  have sending : (Deed.send index).run S env desk = { desk with session := sent } := by
    rw [Deed.run, here, Option.elim_some, run]
  have sound_sent : ({ desk with session := sent } : Desk σ).Sound S account :=
    sending ▸ sound.run derivable full (.send index)
  have sound_after : (afterActs S env later { desk with session := sent }).Sound S account :=
    sound_sent.acts derivable full later
  rcases passes : checkSelection after.history.transfers q.selected with stale | ⟨⟩
  · exact .inr ⟨stale, fun env' => exec_send_stale env' passes⟩
  left
  -- the output that both spend was marked when the first transaction was sent
  obtain ⟨handle, selected, image₁⟩ := (sound.spends p built).exists_selected spent
  obtain ⟨t₀, at_index, image₀, held⟩ := held_of_send run sound.derived.consistent selected
  refine ⟨t₀, List.mem_of_getElem? at_index, image₀.trans image₁, ?_⟩
  replace held : ({ desk with session := sent } : Desk σ).session.Held S sent.events
    handle.index t₀ := held
  rcases held.acts derivable later with cut | held
  · exact .inr cut
  left
  -- the second one finds it unspent
  obtain ⟨handle', selected', image₂⟩ := (sound_after.spends q built').exists_selected again
  obtain ⟨t, at_index', unspent, image'⟩ := forall_of_checkSelection passes handle' selected'
  have same : t₀.keyImage = t.keyImage := by rw [image₀, image₁, image', image₂]
  refine (held.spent_of_keyImage derivable sound_after.derived (List.mem_of_getElem? at_index')
    same).resolve_right ?_
  rw [unspent]
  exact Bool.false_ne_true

/-- A new wallet of a full account was refreshed, cut back, built transactions and sent them, in any
order and however each of it ended. When one of the transactions that it has built is sent now,
either this fails and changes the environment alone; or it succeeds, and then the transaction is
waited for under its hash, exactly the outputs with the key images of its inputs are marked, which
the wallet has and which were all unspent, and nothing else changes. Whatever is done after that, no
transaction of the wallet that has one of these key images among its inputs passes the check again,
so that it is not sent to any daemon, unless the chain was cut at or below that output. -/
theorem all_or_nothing_of_send (S : Suite) {σ : Type} (env : Environment σ)
    (derivable : ∀ key secret, KeyImage.ofKeys S key secret ≠ .ok .null)
    (account : Account) (full : account.keys.spendSecret.isSome) (config : Config) (s : Session σ)
    (created : Wallet.create account config = .ok s.wallet) (acts : List Act)
    (p : PendingTransaction) (built : p ∈ (afterActs S env acts ⟨s, []⟩).built) :
    let desk := afterActs S env acts ⟨s, []⟩
    let before := desk.session
    (∀ e t, exec (send env p) before = (.error e, t) → t = { before with env := t.env }) ∧
      ∀ id sent, exec (send env p) before = (.ok id, sent) →
        id = p.hash ∧ id = p.tx.hash S ∧
        (∃ time, sent =
          { before.withHistory (before.history.committed p time) with env := sent.env }) ∧
        (∀ image ∈ p.inputImages, ∃ t ∈ before.history.transfers, t.keyImage = image) ∧
        (∀ t ∈ before.history.transfers, t.keyImage ∈ p.inputImages → t.spent = false) ∧
        ∀ later, let after := afterActs S env later { desk with session := sent }
          ∀ q ∈ after.built, ∀ image ∈ p.inputImages, image ∈ q.inputImages →
            Removed sent after.session later image ∨ ∃ stale, ∀ env' : Environment σ,
              exec (send env' q) after.session =
                (.error (.transaction (.stale stale)), after.session) := by
  intro desk before
  have sound : desk.Sound S account := sound_afterActs derivable full created acts
  have spends := sound.spends p built
  -- either nothing was sent, or the whole selection was checked before the sending
  rcases exec_send_cases env p before with ⟨e, env', failed⟩ | ⟨time, env', passes, -, sends⟩
  · refine ⟨fun e t run => ?_, fun id sent run => nomatch failed.symm.trans run⟩
    rw [← (Prod.mk.inj (failed.symm.trans run)).2]
  refine ⟨fun e t run => (nomatch sends.symm.trans run), fun id sent run => ?_⟩
  obtain ⟨ok, rfl⟩ := Prod.mk.inj (sends.symm.trans run)
  obtain rfl := Except.ok.inj ok
  have marked := markSent_eq_committed derivable sound.derived spends passes time
  refine ⟨rfl, spends.hash_eq, ⟨time, by rw [marked]⟩, ?_, ?_, ?_⟩
  · intro image spent
    -- every input was selected, and its transfer was there
    obtain ⟨handle, selected, same⟩ := spends.exists_selected spent
    obtain ⟨t, here, -, image'⟩ := forall_of_checkSelection passes handle selected
    exact ⟨t, List.mem_of_getElem? here, image'.trans same⟩
  · intro t mem spent
    obtain ⟨i, at_i⟩ := List.mem_iff_getElem?.mp mem
    obtain ⟨handle, selected, same⟩ := spends.exists_selected spent
    exact (selected_of_keyImage derivable sound.derived passes selected at_i same.symm).2
  · exact fun later q built' image spent again =>
      sound.removed_or_stale derivable full built run built' spent again

namespace Reorganized

/-- The acts up to the sending. -/
def acts : List Act := [.deed (.refresh (.fixed 0) none), .deed (.build request)]

/-- The desk before the sending. -/
theorem afterActs_acts : afterActs .small environment acts ⟨new, []⟩ =
    ⟨(exec (build .small environment request) paid).2, pending.toList⟩ := by
  have received : (Deed.refresh (.fixed 0) none).run .small environment ⟨new, []⟩ =
      ⟨refreshed new, []⟩ :=
    run_refresh ⟨2, by decide +kernel⟩ (by decide +kernel) (by decide +kernel)
  show (Deed.build request).run .small environment
    ((Deed.refresh (.fixed 0) none).run .small environment ⟨new, []⟩) = _
  rw [received]
  rfl

end Reorganized

open Reorganized in
/-- The reward is marked when the transaction that spends it is sent. A cut above it does not take
the mark away, so that the same transaction cannot be sent once more. -/
theorem all_or_nothing_of_send_waiting :
    (∀ key secret, KeyImage.ofKeys .small key secret ≠ .ok .null) ∧
      SmallSuite.account.keys.spendSecret.isSome = true ∧
      Wallet.create SmallSuite.account config = .ok new.wallet ∧
      let desk := afterActs .small environment acts ⟨new, []⟩
      ∃ p ∈ desk.built, ∃ sent, exec (send environment p) desk.session = (.ok p.hash, sent) ∧
        sent.history.transfers.map Transfer.spent = [true] ∧
        let after :=
          (afterActs .small environment [.detach 2] { desk with session := sent }).session
        ∃ stale, ∀ env : Environment Bool,
          exec (send env p) after = (.error (.transaction (.stale stale)), after) := by
  refine ⟨Suite.small_ofKeys_ne_null, rfl, rfl, ?_⟩
  intro desk
  obtain ⟨p, found⟩ := exists_pending
  have built : p ∈ desk.built := by
    unfold desk
    rw [afterActs_acts, found]
    exact List.mem_singleton_self p
  have sends : exec (send environment p) desk.session = (.ok p.hash, waiting) := by
    have taken : pending.all (fun p => (exec (send environment p)
        (exec (build .small environment request) paid).2).1.toOption = some p.hash) = true := by
      decide +kernel
    unfold desk
    rw [found, Option.all_some] at taken
    rw [afterActs_acts, waiting, found, Option.elim_some]
    exact Prod.ext (Except.toOption_eq_some.mp (of_decide_eq_true taken)) rfl
  have image : SmallSuite.image 3 ∈ p.inputImages := by
    have images : pending.all (fun p => p.inputImages = [SmallSuite.image 3]) = true := by
      decide +kernel
    rw [found, Option.all_some] at images
    rw [of_decide_eq_true images]
    exact List.mem_singleton_self _
  refine ⟨p, built, waiting, sends, by decide +kernel, ?_⟩
  obtain ⟨-, whole⟩ := all_or_nothing_of_send .small environment Suite.small_ofKeys_ne_null
    SmallSuite.account rfl config new rfl acts p built
  obtain ⟨-, -, -, -, -, later⟩ := whole p.hash waiting sends
  have cut_back (desk : Desk Bool) : afterActs .small environment [.detach 2] desk =
      { desk with session := desk.session.withHistory (desk.session.history.detach 2) } := rfl
  have still : p ∈ (afterActs .small environment [.detach 2]
      { desk with session := waiting }).built := by
    rw [cut_back]
    exact built
  refine (later [.detach 2] p still _ image image).resolve_left ?_
  -- no refresh has cut the chain, and the other cut is above the reward
  rintro ⟨t, mem, -, ⟨n, m, told, -⟩ | ⟨n, cut, above⟩⟩
  · rw [cut_back] at told
    replace told : Event.reorg n m ∈ waiting.events.drop waiting.events.length := told
    rw [List.drop_length] at told
    cases told
  · have low : ∀ t ∈ waiting.history.transfers, t.blockHeight < 2 := by decide +kernel
    obtain rfl : n = 2 := by simpa using cut
    exact absurd above (Nat.not_le.mpr (low t mem))

end RingWallet
