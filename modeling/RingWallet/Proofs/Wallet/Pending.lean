import Mathlib.Data.List.Infix
import RingWallet.Proofs.Support.ChainServer
import RingWallet.Proofs.Wallet.Deeds

/-!
# Inputs of pending transactions

When a transaction was sent, the outputs that it spends are marked as spent. A later scan only adds
marks, and a cut of the chain takes away outputs from the end of the list, so that the mark stays as
long as the chain is not cut at or below the height of the output (`Session.Held`). When it is, the
output is forgotten together with its mark. The block that brings it back brings it as unspent,
although the transaction is still waited for.

`spent_of_unconfirmed` says so for every unconfirmed transaction after any refreshes, builds and
sendings. `unspent_of_unconfirmed` is an output that counts twice.
-/

set_option autoImplicit false

namespace RingWallet

open Reading Scan WalletM

section

variable {S : Suite} {account : Account} {σ : Type} {env : Environment σ}

/-! ### Sending -/

/-- A selection passes the check if its outputs are where they were selected, and unspent. -/
theorem forall_of_checkSelection {transfers : List Transfer} {handles : List Handle}
    (passes : checkSelection transfers handles = .ok ()) :
    ∀ handle ∈ handles, ∃ t, transfers[handle.index]? = some t ∧ t.spent = false ∧
      t.keyImage = handle.keyImage := by
  induction handles with
  | nil => simp
  -- the check runs over the handles in order and stops at the first that fails
  | cons first rest ih =>
    unfold checkSelection at passes
    rcases here : transfers[first.index]? with - | t
    · rw [here] at passes
      cases passes
    · rw [here] at passes
      simp only [] at passes
      split at passes
      · cases passes
      · next unspent =>
        split at passes
        · next same =>
          exact List.forall_mem_cons.mpr ⟨⟨t, here, Bool.eq_false_iff.mpr unspent, same⟩, ih passes⟩
        · cases passes

namespace History

/-- A transaction that was sent is waited for, and the selected outputs are marked. -/
theorem markSent_fields (h : History) (p : PendingTransaction) (now : UInt64) :
    (h.markSent p now).unconfirmed =
        h.unconfirmed.insert p.hash ⟨p.tx, p.change.amount, now⟩ ∧
      ∀ i : Nat, (h.markSent p now).transfers[i]? = (h.transfers[i]?).map fun t =>
        { t with spent := t.spent || decide (i ∈ p.selected.map Handle.index) } := by
  -- the marks are made after the transaction was noted, so the induction is over the handles alone
  have marks (handles : List Handle) (noted : History) :
      (handles.foldl (fun h handle => h.spendAt handle.index) noted).unconfirmed =
          noted.unconfirmed ∧
        ∀ i : Nat, (handles.foldl (fun h handle => h.spendAt handle.index) noted).transfers[i]? =
          (noted.transfers[i]?).map fun t =>
            { t with spent := t.spent || decide (i ∈ handles.map Handle.index) } := by
    induction handles generalizing noted with
    | nil =>
      refine ⟨rfl, fun i => ?_⟩
      simp only [List.map_nil, List.not_mem_nil, decide_false, Bool.or_false]
      exact (congrFun Option.map_id _).symm
    | cons handle rest ih =>
      obtain ⟨unconfirmed, marked⟩ := ih (noted.spendAt handle.index)
      refine ⟨unconfirmed, fun i => ?_⟩
      rw [List.foldl_cons, marked, spendAt, List.getElem?_modify]
      rcases noted.transfers[i]? with - | t
      · simp
      · -- a mark only shows at its own index
        by_cases here : handle.index = i
        · simp [here]
        · simp [here, Ne.symm here]
  exact marks p.selected _

end History

/-! ### Marks that stay -/

/-- Since some events were told, the chain was cut at a height or below it. -/
def Session.CutSince (s : Session σ) (told : List Event) (height : Nat) : Prop :=
  ∃ n m, Event.reorg n m ∈ s.events.drop told.length ∧ n ≤ height

/-- The output at a position is the one that stood there when some events were told, and is marked
as spent, unless the chain was cut below it since then. -/
structure Session.Held (S : Suite) (told : List Event) (i : Nat) (t₀ : Transfer) (s : Session σ) :
    Prop where
  since : told <+: s.events
  consistent : s.history.Consistent S
  held : s.CutSince told t₀.blockHeight ∨
    ∃ t, s.history.transfers[i]? = some t ∧ t.unspent = t₀.unspent ∧ t.spent = true

variable {told : List Event} {i : Nat} {t₀ : Transfer}

/-- A cut that was told stays told. -/
theorem Session.CutSince.mono {s t : Session σ} {height : Nat} (cut : s.CutSince told height)
    (events : s.events <+: t.events) : t.CutSince told height := by
  obtain ⟨n, m, mem, le⟩ := cut
  exact ⟨n, m, (List.IsPrefix.drop events _).subset mem, le⟩

/-- Nothing but the events and the outputs matters. -/
theorem Session.Held.of_transfers_eq {s t : Session σ} (held : s.Held S told i t₀)
    (events : s.events <+: t.events) (consistent : t.history.Consistent S)
    (transfers : t.history.transfers = s.history.transfers) : t.Held S told i t₀ where
  since := held.since.trans events
  consistent := consistent
  held := by
    rw [transfers]
    exact held.held.imp (fun cut => cut.mono events) id

/-- A cut above the output keeps the mark. -/
theorem Session.Held.detach {s : Session σ} (held : s.Held S told i t₀) {n : Nat}
    (below : t₀.blockHeight < n) : (s.withHistory (s.history.detach n)).Held S told i t₀ where
  since := held.since
  consistent := held.consistent.detach n
  held := by
    refine held.held.imp_right ?_
    rintro ⟨u, at_i, same, spent⟩
    have height : u.blockHeight = t₀.blockHeight := by
      rw [← Transfer.blockHeight_unspent u, same, Transfer.blockHeight_unspent]
    exact ⟨u, History.getElem?_transfers_detach held.consistent.sorted at_i (height ▸ below), same,
      spent⟩

/-- The steps of a refresh keep the marks, unless they cut the chain below the output. -/
theorem maintained_held (derivable : ∀ key secret, KeyImage.ofKeys S key secret ≠ .ok .null) :
    Sync.Maintained S env (fun _ => True) (Session.Held S told i t₀) where
  idle s t same events _ held := by
    have history : t.history = s.history := congrArg Wallet.history same
    exact held.of_transfers_eq events (history ▸ held.consistent) (by rw [history])
  scan {tx s t r} _ ends events _ held := by
    obtain ⟨h', wallet, changes⟩ := ends.changes (List.mem_singleton_self _)
    have history : t.history = h' := congrArg Wallet.history wallet
    refine ⟨held.since.trans events, ?_, ?_⟩
    · rw [history]
      exact changes.consistent_of_single derivable held.consistent
    · rcases held.held with cut | ⟨u, at_i, same, spent⟩
      · exact .inl (cut.mono events)
      · -- a scan may only mark the output once more
        obtain ⟨u', at_i', same', flag⟩ := changes.grows.kept i u at_i
        refine .inr ⟨u', by rw [history]; exact at_i', same'.trans same, ?_⟩
        rcases flag with flag | ⟨flag, -⟩
        · rw [flag, spent]
        · exact flag
  chain length held :=
    held.of_transfers_eq List.prefix_rfl (held.consistent.withChain length) rfl
  cut {s n} _ held := by
    have events := List.prefix_append s.events [Event.reorg n (s.history.height - n)]
    -- an output below the cut stays, any other is on record as cut off
    rcases Nat.lt_or_ge t₀.blockHeight n with below | above
    · exact (held.detach below).of_transfers_eq events (held.consistent.detach n) rfl
    · refine ⟨held.since.trans events, held.consistent.detach n, ?_⟩
      refine .inl ⟨n, s.history.height - n, ?_, above⟩
      show Event.reorg _ _ ∈ (s.events ++ [_]).drop told.length
      rw [List.drop_append_of_le_length held.since.length_le]
      exact List.mem_append_right _ (List.mem_singleton_self _)

/-- A deed keeps the marks, unless it cuts the chain below the output. -/
theorem Session.Held.run (derivable : ∀ key secret, KeyImage.ofKeys S key secret ≠ .ok .null)
    {desk : Desk σ} (held : desk.session.Held S told i t₀) (deed : Deed) :
    (deed.run S env desk).session.Held S told i t₀ := by
  rcases deed.run_cases S env desk with
    ⟨start, target, run⟩ | ⟨e, new, run, -⟩ | ⟨index, p, now, sent, -, -, -, wallet, events, run⟩
  · rw [run]
    exact (maintained_held derivable).pull target (serves_anything S env) start _ held
  · -- building and what the environment does in between change no wallet
    rw [run]
    exact held.of_transfers_eq List.prefix_rfl held.consistent rfl
  · have history : sent.history = desk.session.history.markSent p now :=
      congrArg Wallet.history wallet
    rw [run]
    refine ⟨events ▸ held.since, ?_, ?_⟩
    · rw [history]
      exact held.consistent.sameOutputs (History.sameOutputs_markSent _ p now).1
    · rcases held.held with cut | ⟨u, at_i, same, spent⟩
      · exact .inl (cut.mono (events ▸ List.prefix_rfl))
      · -- a sending may only mark the output once more
        have marked := (History.markSent_fields desk.session.history p now).2 i
        rw [at_i, Option.map_some, ← history] at marked
        exact .inr ⟨_, marked, same, by rw [spent, Bool.true_or]⟩

/-- The outputs of a transaction are marked when it is sent. -/
theorem held_of_send {p : PendingTransaction} {s sent : Session σ} {id : Hash}
    (run : exec (send env p) s = (.ok id, sent)) (consistent : s.history.Consistent S)
    {handle : Handle} (mem : handle ∈ p.selected) :
    ∃ t, sent.history.transfers[handle.index]? = some t ∧ t.keyImage = handle.keyImage ∧
      sent.Held S sent.events handle.index t := by
  rcases exec_send_cases env p s with ⟨e, env', failed⟩ | ⟨now, env', passes, -, sends⟩
  · rw [failed] at run
    cases run
  · rw [sends] at run
    obtain rfl := (Prod.mk.inj run).2
    -- the check has found every selected output, and the sending marks all of them
    obtain ⟨t, here, -, image⟩ := forall_of_checkSelection passes handle mem
    have marked := (History.markSent_fields s.history p now).2 handle.index
    rw [here, Option.map_some] at marked
    have chosen : handle.index ∈ p.selected.map Handle.index := List.mem_map_of_mem mem
    refine ⟨_, marked, image, List.prefix_rfl, ?_, .inr ⟨_, marked, rfl, by simp [chosen]⟩⟩
    exact consistent.sameOutputs (History.sameOutputs_markSent _ p now).1

/-- The transfer with the key image of an output is spent, unless the chain was cut below it. -/
theorem Session.Held.spent_of_keyImage
    (derivable : ∀ key secret, KeyImage.ofKeys S key secret ≠ .ok .null) {s : Session σ}
    (held : s.Held S told i t₀) (derived : s.Derived S account) {t : Transfer}
    (mem : t ∈ s.history.transfers) (image : t₀.keyImage = t.keyImage) :
    s.CutSince told t₀.blockHeight ∨ t.spent = true := by
  rcases held.held with cut | ⟨t', here, unspent, flag⟩
  · exact .inl cut
  · -- the output is still there, and no other transfer has its key image
    have image' : t'.keyImage = t.keyImage := by
      rw [← Transfer.keyImage_unspent t', unspent, Transfer.keyImage_unspent, image]
    obtain ⟨j, at_j⟩ := List.mem_iff_getElem?.mp mem
    have one := derived.consistent.indexed.unique
      (derived.keyImage_ne_null derivable t mem) (i := i) (j := j)
      (by rw [History.images, List.getElem?_map, here, Option.map_some, image'])
      (by rw [History.images, List.getElem?_map, at_j, Option.map_some])
    rw [one, at_j] at here
    rw [Option.some.inj here]
    exact .inr flag

/-! ### Where unconfirmed transactions come from -/

/-- A refresh adds no unconfirmed transaction. -/
theorem maintained_unconfirmed (known : Hash → Unconfirmed → Prop) :
    Sync.Maintained S env (fun _ => True) fun s : Session σ =>
      ∀ (id : Hash) (u : Unconfirmed), s.history.unconfirmed[id]? = some u → known id u where
  idle s t same _ _ all := by
    rw [Session.history, same]
    exact all
  scan {tx s t r} _ ends _ _ all := by
    -- a scan can only take away what is not confirmed yet
    obtain ⟨h', wallet, changes⟩ := ends.changes (List.mem_singleton_self _)
    rw [Session.history, wallet]
    intro id u found
    rcases changes.grows.unconfirmed id with same | ⟨-, gone⟩
    · exact all id u (same.symm.trans found)
    · cases gone.symm.trans found
  chain _ all := all
  cut _ all := all

/-- An unconfirmed transaction was one before the deed, or the deed has sent it. -/
theorem unconfirmed_of_run {desk : Desk σ} {deed : Deed} {id : Hash} {u : Unconfirmed}
    (known : (deed.run S env desk).session.history.unconfirmed[id]? = some u) :
    desk.session.history.unconfirmed[id]? = some u ∨
      ∃ index p sent, deed = .send index ∧ desk.built[index]? = some p ∧
        exec (send env p) desk.session = (.ok id, sent) ∧ u.tx = p.tx := by
  rcases deed.run_cases S env desk with
    ⟨start, target, run⟩ | ⟨e, new, run, -⟩ |
    ⟨index, p, now, sent, rfl, here, sends, wallet, -, run⟩
  · -- a refresh adds nothing to the unconfirmed transactions
    rw [run] at known
    have all := (maintained_unconfirmed fun id u => desk.session.history.unconfirmed[id]? =
      some u).pull target (serves_anything S env) start desk.session fun _ _ found => found
    exact .inl (all id u known)
  · rw [run] at known
    exact .inl known
  · have history : sent.history = desk.session.history.markSent p now :=
      congrArg Wallet.history wallet
    rw [run] at known
    replace known : sent.history.unconfirmed[id]? = some u := known
    rw [history, (History.markSent_fields desk.session.history p now).1,
      Std.ExtTreeMap.getElem?_insert] at known
    -- what is unconfirmed after a sending was so before, or is what was sent
    split at known
    · next same =>
      obtain rfl : p.hash = id := Std.LawfulEqOrd.eq_of_compare same
      exact .inr ⟨index, p, sent, rfl, here, sends,
        (congrArg Unconfirmed.tx (Option.some.inj known)).symm⟩
    · exact .inl known

/-- An unconfirmed transaction was built at some time, and then sent. -/
theorem sent_of_unconfirmed (S : Suite) (env : Environment σ) {s : Session σ}
    (none : s.history.unconfirmed = ∅) (deeds : List Deed) {id : Hash} {u : Unconfirmed}
    (known : (afterDeeds S env deeds ⟨s, []⟩).session.history.unconfirmed[id]? = some u) :
    ∃ before index after p sent, deeds = before ++ Deed.send index :: after ∧
      (afterDeeds S env before ⟨s, []⟩).built[index]? = some p ∧
      exec (send env p) (afterDeeds S env before ⟨s, []⟩).session = (.ok id, sent) ∧
      u.tx = p.tx := by
  -- the induction is on the last deed, since what was built before it must not change
  induction deeds using List.reverseRecOn with
  | nil => simp [afterDeeds, none] at known
  | append_singleton deeds deed ih =>
    have last : afterDeeds S env (deeds ++ [deed]) ⟨s, []⟩ =
        deed.run S env (afterDeeds S env deeds ⟨s, []⟩) := by simp [afterDeeds]
    rw [last] at known
    rcases unconfirmed_of_run known with old | ⟨index, p, sent, rfl, here, run, same⟩
    · obtain ⟨before, index, after, p, sent, split, rest⟩ := ih old
      exact ⟨before, index, after ++ [deed], p, sent, by simp [split], rest⟩
    · exact ⟨deeds, index, [], p, sent, rfl, here, run, same⟩

end

/-! ### After any deeds -/

/-- Since a transaction was sent, the chain was cut at or below an output with a key image, which
the wallet had when it was sent. -/
def Reopened {σ : Type} (sent s : Session σ) (image : KeyImage) : Prop :=
  ∃ t ∈ sent.history.transfers, t.keyImage = image ∧ s.CutSince sent.events t.blockHeight

/-- A new wallet was refreshed, built transactions and sent them, in any order and
however each of it ended. Every transaction that is still unconfirmed was built and then sent, and
since then every transfer with a key image of one of its inputs is spent, unless the chain was cut
at or below that output. So the balance does not count it, and no selection picks it. -/
theorem spent_of_unconfirmed (S : Suite) {σ : Type} (env : Environment σ)
    (derivable : ∀ key secret, KeyImage.ofKeys S key secret ≠ .ok .null)
    (account : Account) (config : Config) (s : Session σ)
    (created : Wallet.create account config = .ok s.wallet)
    (deeds : List Deed) (id : Hash) (u : Unconfirmed)
    (waiting : (afterDeeds S env deeds ⟨s, []⟩).session.history.unconfirmed[id]? = some u) :
    let now := (afterDeeds S env deeds ⟨s, []⟩).session
    let images := u.tx.inputs.filterMap TxIn.keyImage?
    ∃ before index after p sent, deeds = before ++ Deed.send index :: after ∧
      (afterDeeds S env before ⟨s, []⟩).built[index]? = some p ∧
      exec (send env p) (afterDeeds S env before ⟨s, []⟩).session = (.ok id, sent) ∧
      u.tx = p.tx ∧
      (∀ t ∈ now.history.transfers, t.keyImage ∈ images →
        t.spent = true ∨ Reopened sent now t.keyImage) ∧
      ∀ time needed addDust threshold excluded e, ∀ handle ∈ ((Balance.select env.random now.wallet
        time needed addDust threshold excluded).run e).1.2, handle.keyImage ∈ images →
          Reopened sent now handle.keyImage := by
  intro now images
  obtain ⟨none, own⟩ : s.history.unconfirmed = ∅ ∧ s.wallet.account = account := by
    obtain ⟨chain, -, new⟩ := eq_of_create created
    exact ⟨by rw [Session.history, new], by rw [new]⟩
  obtain ⟨before, index, after, p, sent, split, built, run, same⟩ :=
    sent_of_unconfirmed S env none deeds waiting
  have spendable := full_of_built own before (List.mem_of_getElem? built)
  have sound : (afterDeeds S env before ⟨s, []⟩).Sound S account :=
    sound_afterDeeds derivable spendable created before
  -- the deeds after the sending start from the session that it has left
  have reached : afterDeeds S env deeds ⟨s, []⟩ = afterDeeds S env after
      { afterDeeds S env before ⟨s, []⟩ with session := sent } := by
    rw [split, afterDeeds, List.foldl_append, List.foldl_cons]
    show afterDeeds S env after ((Deed.send index).run S env (afterDeeds S env before ⟨s, []⟩)) = _
    rw [Deed.run, built, Option.elim_some, run]
  have derived : now.Derived S account :=
    (sound_afterDeeds derivable spendable created deeds).derived
  have marked : ∀ t ∈ now.history.transfers, t.keyImage ∈ images →
      t.spent = true ∨ Reopened sent now t.keyImage := by
    intro t mem spent
    rw [show images = p.tx.inputs.filterMap TxIn.keyImage? by rw [← same]] at spent
    obtain ⟨handle, selected, image⟩ :=
      (sound.spends p (List.mem_of_getElem? built)).exists_selected spent
    obtain ⟨t₀, at_index, image₀, held⟩ := held_of_send run sound.derived.consistent selected
    have held_now : now.Held S sent.events handle.index t₀ := by
      unfold now
      rw [reached]
      exact afterDeeds_induction
        (P := fun desk => desk.session.Held S sent.events handle.index t₀)
        (fun deed _ held => held.run derivable deed) after held
    have image := image₀.trans image
    rcases held_now.spent_of_keyImage derivable derived mem image with cut | flag
    · exact .inr ⟨t₀, List.mem_of_getElem? at_index, image, cut⟩
    · exact .inl flag
  refine ⟨before, index, after, p, sent, split, built, run, same, marked, ?_⟩
  -- a selection picks unspent outputs only
  intro time needed addDust threshold excluded e handle mem spent
  obtain ⟨picked, part, result⟩ := Balance.run_select env.random now.wallet time needed addDust
    threshold excluded e
  rw [result] at mem
  obtain ⟨c, picks, rfl⟩ := List.mem_map.mp mem
  obtain ⟨here, unspent, -⟩ := Balance.mem_candidates.mp (part.subset picks)
  refine (marked c.transfer (List.mem_of_getElem? here) spent).resolve_left ?_
  rw [unspent]
  exact Bool.false_ne_true

/-! ### A reorganization while a transaction is waited for

A new wallet is refreshed, builds a transaction and sends it. The daemon goes over to a chain in
which the reward that the transaction spends stands in another block. -/

namespace Reorganized

open SmallSuite

/-- The block before the reward. -/
def first : ParsedBlock := SmallSuite.block (coinbase 0) []

def reward : Transaction := payment 3 1009 [.generated 1]

/-- The chain before and after the transaction was sent. -/
def server (sent : Bool) : ChainServer where
  blocks := [first, SmallSuite.block reward (if sent then [coinbase 2] else [])]

def environment : Environment Bool := ChainServer.following server fun _ => true

def config : Config := { spendableAge := 1, dustThreshold := 10 }

def new : Session Bool := { env := false, wallet := ⟨account, config, {}⟩ }

/-- A batch of the daemon. -/
def batch (s : Session Bool) : Except WalletError Nat × Session Bool :=
  ChainServer.batch .small server (fun _ => true) s

/-- The session after the two batches of a refresh. -/
def batches (s : Session Bool) : Session Bool := (batch (batch (Sync.started (.fixed 0) s)).2).2

/-- The wallet after a refresh. -/
def refreshed (s : Session Bool) : Session Bool :=
  (batches s).told (.refreshCompleted (batches s).summary.blocksFetched (batches s).wallet.height)

/-- 1000 for somebody else; the 9 that are left are to come back. -/
def request : TransferRequest :=
  .standard config [⟨1000, ⟨.ofPoint .small (11 : Nat), .ofPoint .small (13 : Nat)⟩⟩] 0 0 0 []

/-- The wallet with the reward. -/
def paid : Session Bool := refreshed new

/-- The transaction that spends it. -/
def pending : Option PendingTransaction := (exec (build .small environment request) paid).1.toOption

/-- The wallet after that transaction was sent. -/
def waiting : Session Bool :=
  pending.elim paid fun p =>
    (exec (send environment p) (exec (build .small environment request) paid).2).2

/-- The transaction can be built. -/
theorem exists_pending : ∃ p, pending = some p :=
  Option.isSome_iff_exists.mp (by decide +kernel)

/-- The deeds up to the sending. -/
def deeds : List Deed := [.refresh (.fixed 0) none, .build request, .send 0]

/-- Every block of the daemon can be read, before and after the sending. -/
theorem legible (sent : Bool) : ∀ b ∈ (server sent).blocks, Script.Legible .small b := by
  have readable : (Transaction.ofBlob (coinbase 2).toBlob).toOption = some (coinbase 2) := by
    decide +kernel
  have without : Script.Legible .small (SmallSuite.block reward []) :=
    Script.legible_block (by decide +kernel) (by simp)
  have other : Script.Legible .small (SmallSuite.block reward [coinbase 2]) :=
    Script.legible_block (by decide +kernel) (by simpa using readable)
  have start : Script.Legible .small first := Script.legible_block (by decide +kernel) (by simp)
  cases sent with
  | false => exact List.forall_mem_cons.mpr ⟨start, List.forall_mem_singleton.mpr without⟩
  | true => exact List.forall_mem_cons.mpr ⟨start, List.forall_mem_singleton.mpr other⟩

/-- A refresh with two batches, the second of which brings nothing. -/
theorem run_refresh {s : Session Bool} {built : List PendingTransaction}
    (first : ∃ added, (batch (Sync.started (.fixed 0) s)).1.toOption = some added ∧ added ≠ 0)
    (running : (batch (Sync.started (.fixed 0) s)).2.stop = false ∧
      (batch (Sync.started (.fixed 0) s)).2.summary.targetFound = false)
    (second : (batch (batch (Sync.started (.fixed 0) s)).2).1.toOption = some 0) :
    (Deed.refresh (.fixed 0) none).run .small environment ⟨s, built⟩ = ⟨refreshed s, built⟩ := by
  obtain ⟨added, first, some⟩ := first
  have run := ChainServer.exec_refresh legible
    (Prod.ext (Except.toOption_eq_some.mp first) rfl) some running
    (Prod.ext (Except.toOption_eq_some.mp second) rfl)
  show Desk.mk (exec (Sync.refresh .small environment) s).2 built = _
  rw [environment, run]
  rfl

/-- A transaction is built and sent at once. -/
theorem run_build_send {s : Session Bool} {r : TransferRequest} {p : PendingTransaction}
    (built : (exec (build .small environment r) s).1.toOption = some p) :
    (Deed.send 0).run .small environment ((Deed.build r).run .small environment ⟨s, []⟩) =
      ⟨(exec (send environment p) (exec (build .small environment r) s).2).2, [p]⟩ := by
  have desk : (Deed.build r).run .small environment ⟨s, []⟩ =
      ⟨(exec (build .small environment r) s).2, [p]⟩ := by
    rw [Deed.run, built]
    rfl
  rw [desk]
  rfl

/-- The desk after the transaction was sent. -/
theorem afterDeeds_deeds : afterDeeds .small environment deeds ⟨new, []⟩ =
    ⟨waiting, pending.toList⟩ := by
  have received : (Deed.refresh (.fixed 0) none).run .small environment ⟨new, []⟩ =
      ⟨refreshed new, []⟩ :=
    run_refresh ⟨2, by decide +kernel⟩ (by decide +kernel) (by decide +kernel)
  obtain ⟨p, built⟩ := exists_pending
  rw [deeds, afterDeeds, List.foldl_cons, received, List.foldl_cons, List.foldl_cons,
    List.foldl_nil, ← paid, run_build_send built, waiting, built, Option.elim_some,
    Option.toList_some]

/-- The desk after the daemon has gone over to the other chain. -/
theorem afterDeeds_deeds_refresh :
    afterDeeds .small environment (deeds ++ [.refresh (.fixed 0) none]) ⟨new, []⟩ =
      ⟨refreshed waiting, pending.toList⟩ := by
  rw [afterDeeds, List.foldl_append]
  show (Deed.refresh (.fixed 0) none).run .small environment
    (afterDeeds .small environment deeds ⟨new, []⟩) = _
  rw [afterDeeds_deeds]
  exact run_refresh ⟨1, by decide +kernel⟩ (by decide +kernel) (by decide +kernel)

end Reorganized

open Reorganized in
/-- Before the reorganization the reward is marked. -/
theorem spent_of_unconfirmed_waiting :
    (∀ key secret, KeyImage.ofKeys .small key secret ≠ .ok .null) ∧
      Wallet.create SmallSuite.account config = .ok new.wallet ∧
      ∃ (id : Hash) (u : Unconfirmed), waiting.history.unconfirmed[id]? = some u ∧
        ∃ sent, ∀ t ∈ waiting.history.transfers, t.keyImage ∈ u.tx.inputs.filterMap TxIn.keyImage? →
          t.spent = true ∨ Reopened sent waiting t.keyImage := by
  obtain ⟨p, built⟩ := exists_pending
  have known : (pending.bind fun p => waiting.history.unconfirmed[p.hash]?).isSome = true := by
    decide +kernel
  obtain ⟨u, known⟩ := Option.isSome_iff_exists.mp known
  rw [built, Option.bind_some] at known
  have found := spent_of_unconfirmed .small environment Suite.small_ofKeys_ne_null
    SmallSuite.account config new rfl deeds p.hash u (by rw [afterDeeds_deeds]; exact known)
  rw [afterDeeds_deeds] at found
  obtain ⟨before, index, after, q, sent, -, -, -, -, marked, -⟩ := found
  exact ⟨Suite.small_ofKeys_ne_null, rfl, p.hash, u, known, sent, marked⟩

open Reorganized in
/-- After the reorganization the reward is unspent, and the transaction that spends it is still
waited for. The balance counts both the reward and what is to come back of it. -/
theorem unspent_of_unconfirmed :
    Wallet.create SmallSuite.account config = .ok new.wallet ∧
      SmallSuite.account.verify .small = true ∧ SmallSuite.account.isViewOnly = false ∧
      let now := (afterDeeds .small environment (deeds ++ [.refresh (.fixed 0) none])
        ⟨new, []⟩).session
      (∃ (id : Hash) (u : Unconfirmed), now.history.unconfirmed[id]? = some u ∧ u.change = 9 ∧
        ∃ t ∈ now.history.transfers, t.keyImage ∈ u.tx.inputs.filterMap TxIn.keyImage? ∧
          t.amount = 1009 ∧ t.spent = false) ∧ now.wallet.balance = 1018 := by
  obtain ⟨p, built⟩ := exists_pending
  -- the scan and the search through its outcome are left to the kernel
  have known : ((pending.bind fun p =>
      (refreshed waiting).history.unconfirmed[p.hash]?).any fun u =>
        u.change = 9 ∧ ∃ t ∈ (refreshed waiting).history.transfers,
          t.keyImage ∈ u.tx.inputs.filterMap TxIn.keyImage? ∧ t.amount = 1009 ∧
            t.spent = false) = true := by decide +kernel
  rw [built, Option.bind_some, Option.any_eq_true] at known
  obtain ⟨u, known, counted⟩ := known
  rw [afterDeeds_deeds_refresh]
  refine ⟨rfl, by decide +kernel, rfl, ⟨p.hash, u, known, of_decide_eq_true counted⟩, ?_⟩
  decide +kernel

end RingWallet
