import RingWallet.Proofs.Spend.PaymentId
import RingWallet.Proofs.Spend.Refusal
import RingWallet.Proofs.Support.ChainServer
import RingWallet.Proofs.Support.CyclicSuite
import RingWallet.Proofs.Wallet.Recorded

/-!
# What is recorded can be spent

Scanning and spending derive the key of an output on separate paths. `Construct.spendable_of_draws`
is where they meet: the source that is made of a recorded transfer is prepared with the secret of
the very key that the output has, and with the recorded key image.

So a build cannot fail over a transfer of its own wallet (`Build.raises_build`). The errors by which
it would say so are `WalletError.disowns`. All others are possible; of the reasons why a build fails
(`Build.Refusal`), none comes with one of these.
-/

set_option autoImplicit false

namespace RingWallet

open WalletM ExceptT

/-- Whether an error says that an output which the wallet has recorded is not there, or is not its
own. -/
def WalletError.disowns : WalletError → Bool
  | consistency (.missingOutput _) => true
  | transaction (.notConstructed (.missingTxKey _)) => true
  | transaction (.notConstructed (.outputKeyMismatch _ _)) => true
  | _ => false

variable {S : Suite} {σ : Type} {keys : AccountKeys}

/-! ### From a transfer to its secret -/

/-- The source of a recorded transfer is prepared with the secret of its key and with its key image.
-/
theorem Construct.spendable_of_draws {t : Transfer} {source : Source} (draws : Build.Draws t source)
    (recorded : t.Recorded S keys) :
    ∃ spend out secret, keys.spendSecret = some spend ∧ t.output? = some out ∧
      secret.publicKey S = .ok out.key ∧
      spendable S keys spend source = .ok ⟨source, secret, t.keyImage⟩ := by
  obtain ⟨d, out, usable, here, computed⟩ := recorded
  obtain ⟨⟨out', here', -, real⟩, txKey, index⟩ := draws
  obtain rfl : out = out' := Option.some.inj (here.symm.trans here')
  -- the derivation is computed from the same key of the same transaction
  obtain ⟨key, found, derived⟩ := Option.bind_eq_some_iff.mp usable
  obtain rfl : key = source.txKey := Option.some.inj (found.symm.trans txKey)
  rcases Scan.keyImageOf_cases S computed with ⟨-, none⟩ | known
  · cases none
  · obtain ⟨spend, secret, k, spendSecret, hs, belongs, made, same⟩ := known
    obtain rfl := Option.some.inj same
    refine ⟨spend, out, secret, spendSecret, here, belongs, spendable_eq_ok.mpr ⟨rfl, ?_⟩⟩
    exact ⟨t.globalIndex, out.key, d, real, Except.toOption_eq_some.mp derived, index ▸ hs, belongs,
      made⟩

namespace Build

/-- A recorded transfer makes a source, unless one of the decoys is no key. -/
theorem exists_protocol_of_sourceOf {w : Wallet} {mixin : UInt64} {handle : Handle}
    {decoys : List Daemon.Decoy} {t : Transfer} (recorded : t.Recorded S keys)
    (at_index : w.history.transfers[handle.index]? = some t) {e : WalletError}
    (fails : sourceOf w mixin handle decoys = .error e) : ∃ cause, e = .protocol cause := by
  obtain ⟨d, out, usable, here, -⟩ := recorded
  obtain ⟨txKey, found, -⟩ := Option.bind_eq_some_iff.mp usable
  have found : Extra.publicKey? t.tx.extra = some txKey := found
  unfold sourceOf at fails
  rw [at_index] at fails
  simp only [here, found] at fails
  rcases Except.bind_eq_error.mp fails with scanty | ⟨chosen, -, fails⟩
  · obtain ⟨cause, -, same⟩ := Except.mapError_eq_error.mp scanty
    exact ⟨cause, same.symm⟩
  · cases fails

end Build

/-! ### The errors of a construction -/

/-- Whether an error of a construction is none that disowns an output. -/
def TransactionError.Harmless (e : TransactionError) : Prop :=
  (WalletError.transaction e).disowns = false

namespace Construct

/-- If each source can be spent, the sources together fail for no reason that disowns one of
them. -/
theorem harmless_of_spendables {spend : SecretKey} {total : UInt64} {sources : List Source}
    (own : ∀ source ∈ sources, ∃ p, spendable S keys spend source = .ok p) {e : TransactionError}
    (fails : spendables S keys spend total sources = .error e) : e.Harmless := by
  induction sources generalizing total with
  | nil => cases fails
  | cons source rest ih =>
    rw [List.forall_mem_cons] at own
    obtain ⟨⟨p, prepared⟩, own⟩ := own
    -- the source itself can be prepared, so that only the sum can fail
    rw [spendables, prepared, Except.ok_bind] at fails
    rcases sum : total.addChecked source.amount with - | total'
    · rw [sum] at fails
      cases fails
      rfl
    · rw [sum] at fails
      rcases Except.bind_eq_error.mp fails with later | ⟨_, -, fails⟩
      · exact ih own later
      · cases fails

/-- Outputs fail for no reason that disowns a source. -/
theorem harmless_of_outputs {txSecret : SecretKey} {index : Nat} {total : UInt64}
    {destinations : List Destination} {e : TransactionError}
    (fails : outputs S txSecret index total destinations = .error e) : e.Harmless := by
  induction destinations generalizing index total with
  | nil => cases fails
  | cons dst rest ih =>
    -- an error in a key or in the sum blames no output
    rcases Except.bind_eq_error.mp fails with fails | ⟨d, -, fails⟩
    · obtain ⟨cause, -, rfl⟩ := Except.mapError_eq_error.mp fails
      rfl
    rcases Except.bind_eq_error.mp fails with fails | ⟨key, -, fails⟩
    · obtain ⟨cause, -, rfl⟩ := Except.mapError_eq_error.mp fails
      rfl
    rcases sum : total.addChecked dst.amount with - | total'
    · rw [sum] at fails
      cases fails
      rfl
    · rw [sum] at fails
      rcases Except.bind_eq_error.mp fails with later | ⟨_, -, fails⟩
      · exact ih later
      · cases fails

/-- Signatures fail for no reason that disowns a source. -/
theorem raises_sign {next : RandomSource σ} {message : Hash} {prepared : List SpendableSource}
    {s : σ} : Raises TransactionError.Harmless (sign S next message prepared) s := by
  induction prepared generalizing s with
  | nil => exact raises_pure []
  | cons p rest ih =>
    refine .bind ?_ fun signature t _ => .bind ih fun others u _ => raises_pure _
    refine raises_adapt ?_ _
    intro cause
    rfl

/-- A construction from sources of the sender does not disown any of them. -/
theorem raises_construct {next : RandomSource σ} {sources : List Source}
    (own : ∀ spend, keys.spendSecret = some spend → ∀ source ∈ sources,
      ∃ p, spendable S keys spend source = .ok p)
    {destinations : List Destination} {extra : Blob} {unlockTime : UInt64} {s : σ} :
    Raises TransactionError.Harmless
      (construct S next keys sources destinations extra unlockTime) s := by
  unfold construct
  rcases secret : keys.spendSecret with - | spend
  · exact raises_throw rfl
  simp only []
  split
  · exact raises_throw rfl
  refine .bind (raises_liftState _) fun ⟨txKey, txSecret⟩ _ _ => ?_
  -- only here an output could turn out to be another's
  refine .bind (raises_lift fun _ => harmless_of_spendables (own spend secret)) ?_
  intro ⟨prepared, money⟩ _ _
  refine .bind (raises_lift fun _ => harmless_of_outputs) fun ⟨outs, spent⟩ _ _ => ?_
  split
  · exact raises_throw rfl
  · exact .bind raises_sign fun signatures _ _ => raises_pure _

end Construct

/-! ### The errors of a build -/

namespace Build

variable {env : Environment σ}

/-- The sources of some outputs that the wallet has recorded are its own. -/
theorem own_of_sources {w : Wallet} (recorded : ∀ t ∈ w.history.transfers, t.Recorded S keys)
    {mixin : UInt64} {items : List (Handle × List Daemon.Decoy)} {sources : List Source}
    (run : items.mapM (fun q => sourceOf w mixin q.1 q.2) = .ok sources) (spend : SecretKey)
    (secret : keys.spendSecret = some spend) :
    ∀ source ∈ sources, ∃ p, Construct.spendable S keys spend source = .ok p := by
  intro source mem
  obtain ⟨⟨handle, decoys⟩, -, made⟩ := Except.mem_of_mapM_eq_ok run mem
  obtain ⟨t, at_index, draws, -⟩ := of_sourceOf made
  obtain ⟨spend', out, x, secret', -, -, prepared⟩ :=
    Construct.spendable_of_draws draws (recorded t (List.mem_of_getElem? at_index))
  rw [Option.some.inj (secret.symm.trans secret')]
  exact ⟨_, prepared⟩

/-- A build does not disown any output of the wallet. -/
theorem raises_build {s : Session σ}
    (recorded : ∀ t ∈ s.history.transfers, t.Recorded S s.wallet.account.keys)
    (r : TransferRequest) : Raises (fun e => e.disowns = false) (build S env r) s := by
  intro e t run
  cases refusal_of_build run with
  | request fails =>
    -- what a request can be refused for has nothing to do with the outputs
    rcases cases_of_neededMoney_eq_error fails with ⟨rfl, -⟩ | rfl | rfl
    · rfl
    · rfl
    · rfl
  | paymentId given fails =>
    rw [(Extra.ofPaymentId_eq_error.mp fails).2]
    rfl
  | poor needs short => rfl
  | daemon blamed =>
    cases e with
    | ledger cause => rfl
    | daemonBusy call => rfl
    | protocol cause => rfl
    | _ => cases blamed
  | overflow most => rfl
  | scanty mixes => rfl
  | source at_index fails =>
    -- a recorded transfer gives a source, unless the daemon's decoys are wrong
    obtain ⟨cause, rfl⟩ :=
      exists_protocol_of_sourceOf (recorded _ (List.mem_of_getElem? at_index)) at_index fails
    rfl
  | dust leaves beyond => rfl
  | construction drawn fails =>
    exact Construct.raises_construct (own_of_sources recorded drawn) _ _ fails
  | tooBig large => rfl

end Build

/-- What a full wallet records it can spend. Its account passes its check, and it comes from a new
wallet whatever the daemons, the clocks and the random words were on the way and however each step
ended. The account computes a key image for every output that it recognises in any transaction.
Every recorded transfer makes a source unless a decoy is no key; the source is prepared with a
secret whose key is the one of the output, and with the recorded key image. So no build fails
because a recorded output is missing, has no transaction key or belongs to another key, and the
inputs of a transaction that was built have the key images of the selected outputs, one by one. -/
theorem spendable_of_reached {S : Suite} (lawful : S.Lawful) {account : Account}
    (verified : account.verify S = true) (full : account.isViewOnly = false) {σ : Type}
    {s : Session σ} (reached : s.Reached S account) :
    (∀ (tx : Transaction) (d : KeyDerivation) (own : List Nat),
      Scan.derivation? S s.wallet.account.keys (Extra.parse tx.extra).1 = some d →
      Scan.ownOutputs S s.wallet.account.address d 0 tx.outputs = .ok own →
      ∀ i ∈ own, ∃ out image, tx.outputs[i]? = some out ∧
        Scan.keyImageOf S s.wallet.account.keys d i out.key = .ok (some image)) ∧
    (∀ (handle : Handle) (t : Transfer), s.history.transfers[handle.index]? = some t →
      ∀ (mixin : UInt64) (decoys : List Daemon.Decoy),
        (∀ e, Build.sourceOf s.wallet mixin handle decoys = .error e →
          ∃ cause, e = .protocol cause) ∧
        ∀ source, Build.sourceOf s.wallet mixin handle decoys = .ok source →
          ∃ spend out secret, s.wallet.account.keys.spendSecret = some spend ∧
            t.output? = some out ∧ secret.publicKey S = .ok out.key ∧
            Construct.spendable S s.wallet.account.keys spend source =
              .ok ⟨source, secret, t.keyImage⟩) ∧
    ∀ (env : Environment σ) (r : TransferRequest),
      (∀ e t, exec (build S env r) s = (.error e, t) →
        (∀ i, e ≠ .consistency (.missingOutput i)) ∧
        (∀ id, e ≠ .transaction (.notConstructed (.missingTxKey id))) ∧
        ∀ key key', e ≠ .transaction (.notConstructed (.outputKeyMismatch key key'))) ∧
      ∀ p t, exec (build S env r) s = (.ok p, t) →
        p.tx.inputs.map TxIn.keyImage? = p.selected.map fun handle => some handle.keyImage := by
  have present : account.keys.spendSecret.isSome := by
    simpa [Account.isViewOnly] using full
  obtain ⟨rfl, recorded⟩ := records_of_reached present reached
  refine ⟨?_, ?_, ?_⟩
  -- an own output gives its key image
  · intro tx d own usable recognised i mem
    obtain ⟨out, here, mine⟩ := (Reading.mem_ownOutputs recognised).mp mem
    obtain ⟨image, computed⟩ := exists_keyImageOf_of_owned lawful verified present mine
    exact ⟨out, image, here, computed⟩
  -- a recorded transfer can be spent
  · intro handle t at_index mixin decoys
    have recorded := recorded t (List.mem_of_getElem? at_index)
    refine ⟨fun e fails => Build.exists_protocol_of_sourceOf recorded at_index fails, ?_⟩
    intro source made
    obtain ⟨t', at_index', draws, -⟩ := Build.of_sourceOf made
    obtain rfl : t = t' := Option.some.inj (at_index.symm.trans at_index')
    exact Construct.spendable_of_draws draws recorded
  · intro env r
    constructor
    · intro e t run
      have harmless := Build.raises_build recorded r e t run
      -- none of the three errors is harmless
      refine ⟨?_, ?_, ?_⟩
      · rintro i rfl
        cases harmless
      · rintro id rfl
        cases harmless
      · rintro key key' rfl
        cases harmless
    · intro p t run
      exact (spends_of_build run fun t mem => (recorded t mem).imageAt?_eq).images_eq

/-! ### A reward that is received and spent -/

namespace Respending

open CyclicSuite

/-- A reward that pays the account. -/
def reward : Transaction :=
  ⟨⟨1, 0, [.generated 1], [⟨1000, key 3⟩], Extra.encodeKey (publicKey 3)⟩, []⟩

/-- A block with a reward only. -/
def block (reward : Transaction) : ParsedBlock :=
  let block : Block := ⟨⟨1, 0, 1, .null, 0⟩, reward, []⟩
  { block, id := block.hash .cyclic, txs := [] }

/-- A daemon with two blocks, which offers one decoy. -/
def server : ChainServer :=
  ⟨[block ⟨⟨1, 0, [.generated 0], [], []⟩, []⟩, block reward], fun _ => [7]⟩

def environment : Environment Unit :=
  { server.environment with
    getDecoys := fun r e => (.ok
      { status := Daemon.okStatus
        amounts := r.amounts.map (⟨·, [⟨3, Hex.encode outside.bytes.toList⟩]⟩) }, e) }

def new : Session Unit :=
  { env := (), wallet := ⟨account, { spendableAge := 1, dustThreshold := 10 }, {}⟩ }

/-- All of it for somebody else, with one decoy. -/
def request : TransferRequest := .standard new.wallet.config [⟨1000, stranger⟩] 1 0 0 []

/-- A batch of the daemon. -/
def batch (s : Session Unit) : Except WalletError Nat × Session Unit :=
  ChainServer.batch .cyclic (fun _ => server) id s

/-- The session after the two batches of a refresh. -/
def batches : Session Unit := (batch (batch (Sync.started (.fixed 0) new)).2).2

/-- The session after the refresh. -/
def refreshed : Session Unit :=
  batches.told (.refreshCompleted batches.summary.blocksFetched batches.wallet.height)

/-- The wallet comes from a new one by a refresh. -/
theorem reached_refreshed : refreshed.Reached .cyclic account := by
  have created : Wallet.create account new.wallet.config = .ok new.wallet := rfl
  -- both blocks are read, and the second batch is empty
  have legible (reward : Transaction)
      (readable : (Block.ofBlob (block reward).block.toBlob).toOption =
        some (block reward).block) : Script.Legible .cyclic (block reward) :=
    ⟨Except.toOption_eq_some.mp readable, rfl, by simp [block]⟩
  have blocks : ∀ b ∈ server.blocks, Script.Legible .cyclic b := List.forall_mem_cons.mpr
    ⟨legible _ (by decide +kernel), List.forall_mem_singleton.mpr (legible _ (by decide +kernel))⟩
  have first : batch (Sync.started (.fixed 0) new) =
      (.ok 2, (batch (Sync.started (.fixed 0) new)).2) :=
    Prod.ext (Except.toOption_eq_some.mp (by decide +kernel)) rfl
  have second : batch (batch (Sync.started (.fixed 0) new)).2 = (.ok 0, batches) :=
    Prod.ext (Except.toOption_eq_some.mp (by decide +kernel)) rfl
  have run :=
    ChainServer.exec_refresh (fun _ => blocks) first (by decide) (by decide +kernel) second
  have ends : (exec (Sync.pull .cyclic server.environment (.fixed 0) none) new).2 = refreshed :=
    congrArg Prod.snd run
  exact ends ▸ .refresh (.new created) server.environment (.fixed 0) none

end Respending

open Respending CyclicSuite in
/-- The account recognises the reward, and spends it with a decoy outside of the subgroup. -/
theorem spendable_of_reached_cyclic :
    refreshed.Reached .cyclic account ∧ account.verify .cyclic = true ∧
      account.isViewOnly = false ∧
      (∃ d out image, Scan.derivation? .cyclic refreshed.wallet.account.keys
          (Extra.parse reward.extra).1 = some d ∧ reward.outputs[0]? = some out ∧
        Scan.keyImageOf .cyclic refreshed.wallet.account.keys d 0 out.key = .ok (some image)) ∧
      (∃ t source spend secret, refreshed.history.transfers[0]? = some t ∧
        Construct.spendable .cyclic refreshed.wallet.account.keys spend source =
          .ok ⟨source, secret, t.keyImage⟩) ∧
      ∃ p t, exec (build .cyclic environment request) refreshed = (.ok p, t) ∧
        p.selected.length = 1 ∧
        p.tx.inputs.map TxIn.keyImage? = p.selected.map fun handle => some handle.keyImage := by
  have verified : account.verify .cyclic = true := by decide +kernel
  obtain ⟨recognised, sourced, builds⟩ :=
    spendable_of_reached Suite.lawful_cyclic verified rfl reached_refreshed
  refine ⟨reached_refreshed, verified, rfl, ?_, ?_, ?_⟩
  · -- the account owns the first output of the reward
    have owned : (Scan.derivation? .cyclic refreshed.wallet.account.keys
        (Extra.parse reward.extra).1).any (fun d => (Scan.ownOutputs .cyclic
          refreshed.wallet.account.address d 0 reward.outputs).toOption = some [0]) = true := by
      decide +kernel
    obtain ⟨d, usable, owned⟩ := (Option.any_eq_true _ _).mp owned
    have owned := Except.toOption_eq_some.mp (of_decide_eq_true owned)
    obtain ⟨out, image, here, computed⟩ := recognised reward d [0] usable owned 0 (by simp)
    exact ⟨d, out, image, usable, here, computed⟩
  · -- the source of the first transfer can be prepared
    have present : (refreshed.history.transfers[0]?).any (fun t =>
        (Build.sourceOf refreshed.wallet 0 ⟨0, t.keyImage⟩ []).toOption.isSome) = true := by
      decide +kernel
    obtain ⟨t, at_index, made⟩ := (Option.any_eq_true _ _).mp present
    obtain ⟨source, made⟩ := Option.isSome_iff_exists.mp made
    obtain ⟨spend, out, secret, -, -, -, prepared⟩ :=
      (sourced ⟨0, t.keyImage⟩ t at_index 0 []).2 source (Except.toOption_eq_some.mp made)
    exact ⟨t, source, spend, secret, at_index, prepared⟩
  · -- the transaction is built from one input
    have selected : (exec (build .cyclic environment request) refreshed).1.toOption.map
        (fun p => p.selected.length) = some 1 := by decide +kernel
    obtain ⟨p, built, selected⟩ := Option.map_eq_some_iff.mp selected
    have run := exec_eq_ok built
    exact ⟨p, _, run, selected, (builds environment request).2 p _ run⟩

end RingWallet
