import RingWallet.Proofs.Spend.Build
import RingWallet.Proofs.Wallet.Keeps
import RingWallet.Proofs.Wallet.Reading

/-!
# Refreshing, building and sending

A `Desk` is a wallet at work together with the transactions that it has built. `Deed` lists what
its user does: refreshes, builds, and sendings of transactions that were built before, in any order
and however each of them ends. `afterDeeds` does them one after the other. `Deed.run_cases` says
once what a deed can do, and `afterDeeds_induction` that what no deed breaks holds after any deeds.

`Desk.Sound` is what holds of the desk of a full account after any deeds: the history is consistent,
the key image of every transfer is the one of its output (`maintained_derived`), and the inputs of
every transaction that was built have the key images of the outputs that were selected for it
(`spends_of_build`).
-/

set_option autoImplicit false

namespace RingWallet

open Reading Scan WalletM

/-- A wallet at work, and the transactions that it has built, oldest first. -/
structure Desk (σ : Type) where
  session : Session σ
  built : List PendingTransaction := []

/-- What a user does with a wallet. -/
inductive Deed where
  | refresh (start : RefreshStart) (target : Option Hash)
  | build (r : TransferRequest)
  /-- Sends the transaction at a position among those that were built. -/
  | send (index : Nat)

section

variable (S : Suite) {σ : Type} (env : Environment σ)

/-- The desk after a deed, which may have failed. -/
def Deed.run : Deed → Desk σ → Desk σ
  | refresh start target, desk =>
    { desk with session := (exec (Sync.pull S env start target) desk.session).2 }
  | build r, desk =>
    let run := exec (RingWallet.build S env r) desk.session
    ⟨run.2, desk.built ++ run.1.toOption.toList⟩
  | send index, desk =>
    (desk.built[index]?).elim desk fun p =>
      { desk with session := (exec (RingWallet.send env p) desk.session).2 }

/-- The desk after some deeds, each of which may have failed. -/
def afterDeeds (deeds : List Deed) (desk : Desk σ) : Desk σ :=
  deeds.foldl (fun desk deed => deed.run S env desk) desk

end

variable {S : Suite} {account : Account} {σ : Type} {env : Environment σ}

/-! ### The key images of transfers -/

/-- What a scan of a full account records is an own output of the transaction, with the key image
that the account computes for it. -/
theorem keyImageOf_of_mem_receipts (full : account.keys.spendSecret.isSome) {d : KeyDerivation}
    {tx : Transaction} {txHash : Hash} {height : Nat} {indices : List UInt64} {own : List Nat}
    {r : Receipt} (mem : r ∈ receipts S account.keys d tx txHash height indices own) :
    r.transfer.tx = tx ∧ ∃ out, tx.outputs[r.transfer.outputIndex]? = some out ∧
      keyImageOf S account.keys d r.transfer.outputIndex out.key =
        .ok (some r.transfer.keyImage) := by
  obtain ⟨i, -, eq⟩ := List.mem_filterMap.mp mem
  obtain ⟨⟨out, globalIndex⟩, zip, eq⟩ := Option.bind_eq_some_iff.mp eq
  obtain ⟨image, computed, rfl⟩ := Option.map_eq_some_iff.mp eq
  have here : tx.outputs[i]? = some out := (List.getElem?_zip_eq_some.mp zip).1
  have computed := Except.toOption_eq_some.mp computed
  refine ⟨rfl, out, here, ?_⟩
  rcases keyImageOf_cases S computed with ⟨none, -⟩ | ⟨_, _, k, -, -, -, -, rfl⟩
  · rw [none] at full
    cases full
  · exact computed

/-- The key image that an account computes for an output is that of its one-time key pair. -/
theorem imageAt?_of_keyImageOf {d : KeyDerivation} {tx : Transaction} {i : Nat} {out : TxOut}
    {k : KeyImage} (usable : derivation? S account.keys (Extra.parse tx.extra).1 = some d)
    (here : tx.outputs[i]? = some out)
    (computed : keyImageOf S account.keys d i out.key = .ok (some k)) :
    imageAt? S account tx i = some k := by
  rcases keyImageOf_cases S computed with ⟨-, none⟩ | known
  · cases none
  · obtain ⟨spend, secret, k', spendable, hs, -, hk, same⟩ := known
    obtain rfl := Option.some.inj same
    simp [imageAt?, usable, here, spendable, hs, hk, Except.toOption]

/-- Taking in own outputs adds nothing else. -/
theorem History.mem_transfers_receiveAll {h : History} {found : List Receipt} {t : Transfer}
    (mem : t ∈ (found.foldl receive h).transfers) :
    t ∈ h.transfers ∨ ∃ r ∈ found, t = r.transfer := by
  induction found generalizing h with
  | nil => exact .inl mem
  | cons r rest ih =>
    rw [List.foldl_cons] at mem
    rcases ih mem with old | ⟨r', later, eq⟩
    · -- a receipt is recorded at the end, unless it is known
      unfold receive at old
      split at old
      · exact .inl old
      · rcases List.mem_append.mp old with old | new
        · exact .inl old
        · exact .inr ⟨r, List.mem_cons_self, List.mem_singleton.mp new⟩
    · exact .inr ⟨r', List.mem_cons_of_mem _ later, eq⟩

/-- However a scan ends, the transfers are those that were there and own outputs of the transaction,
apart from their marks. -/
theorem Scan.Ends.forall_transfers {q : Transfer → Prop} (blind : ∀ t, q t.unspent ↔ q t)
    {tx : Transaction} {txHash : Hash} {height : Nat} {s t : Session σ}
    {r : Except WalletError ScanOutcome} (ends : Ends S env tx txHash height s r t)
    (old : ∀ u ∈ s.history.transfers, q u)
    (new : ∀ d indices own, derivation? S s.wallet.account.keys (Extra.parse tx.extra).1 = some d →
      ∀ r ∈ receipts S s.wallet.account.keys d tx txHash height indices own, q r.transfer) :
    ∀ u ∈ t.history.transfers, q u := by
  have took {d : KeyDerivation} {indices : List UInt64} {own : List Nat} {done : List Receipt}
      (usable : derivation? S s.wallet.account.keys (Extra.parse tx.extra).1 = some d)
      (part : done ⊆ receipts S s.wallet.account.keys d tx txHash height indices own) :
      ∀ u ∈ (done.foldl History.receive (s.history.forget txHash)).transfers, q u := by
    intro u mem
    rcases History.mem_transfers_receiveAll mem with known | ⟨r, found, rfl⟩
    · exact old u known
    · exact new d indices own usable r (part found)
  cases ends with
  | passed unusable core =>
    rw [Session.history, Session.wallet_of_core core]
    exact old
  | stopped ended =>
    rw [Session.history, ended]
    exact old
  | broke usable owned part ended =>
    rw [Session.history, ended]
    exact took usable part.subset
  | @settled o t d own indices completed ended =>
    have part : brought S s.wallet.account.keys d tx txHash height indices own ⊆
        receipts S s.wallet.account.keys d tx txHash height indices own := by
      unfold brought
      split
      · exact List.Subset.refl _
      · exact List.nil_subset _
    rw [Session.history, ended]
    -- marks and payments do not matter
    show ∀ u ∈ (Scan.settled _ _ _ _ _ _ _ _ _).transfers, _
    unfold Scan.settled
    simp only []
    rw [(History.credit_outputs _ _ _ _ _ _).1]
    exact (History.sameOutputs_spendInputs _ _).forall_mem blind (took completed.usable part)

/-- The wallet of a full account, whose transfers all have the key images of their outputs. -/
structure Session.Derived (S : Suite) (account : Account) (s : Session σ) : Prop where
  own : s.wallet.account = account
  consistent : s.history.Consistent S
  derived : ∀ t ∈ s.history.transfers, imageAt? S account t.tx t.outputIndex = some t.keyImage

/-- No transfer of a full account has a null key image. -/
theorem Session.Derived.keyImage_ne_null
    (derivable : ∀ key secret, KeyImage.ofKeys S key secret ≠ .ok .null) {s : Session σ}
    (before : s.Derived S account) (t : Transfer) (mem : t ∈ s.history.transfers) :
    t.keyImage ≠ .null := by
  intro null
  have derived := before.derived t mem
  rw [null] at derived
  simp only [imageAt?, Option.bind_eq_bind, Option.bind_eq_some_iff] at derived
  obtain ⟨d, -, out, -, spend, -, secret, -, image⟩ := derived
  exact derivable _ _ (Except.toOption_eq_some.mp image)

/-- Spent flags and unconfirmed transactions do not matter. -/
theorem Session.Derived.sameOutputs {s t : Session σ} (before : s.Derived S account)
    (own : t.wallet.account = s.wallet.account) (same : s.history.SameOutputs t.history) :
    t.Derived S account where
  own := own.trans before.own
  consistent := before.consistent.sameOutputs same
  derived := same.forall_mem (fun _ => Iff.rfl) before.derived

/-- A cut takes transfers away, and leaves the others as they are. -/
theorem Session.Derived.detach {s : Session σ} (before : s.Derived S account) (height : Nat) :
    (s.withHistory (s.history.detach height)).Derived S account where
  own := before.own
  consistent := before.consistent.detach height
  derived t mem := before.derived t ((List.takeWhile_prefix _).subset mem)

/-- Blocks that are assumed to be scanned leave the transactions of the account where they come
from. -/
theorem Session.Derived.assumeScanned {s : Session σ} (before : s.Derived S account)
    (height : Nat) : (s.withHistory (s.history.assumeScanned height)).Derived S account where
  own := before.own
  consistent := before.consistent.assumeScanned height
  derived := before.derived

/-- A new wallet has no transfers. -/
theorem derived_of_create {config : Config} {s : Session σ}
    (created : Wallet.create account config = .ok s.wallet) : s.Derived S account := by
  have consistent : s.history.Consistent S := consistent_create created
  obtain ⟨chain, -, new⟩ := eq_of_create created
  have transfers : s.history.transfers = [] := by rw [Session.history, new]
  exact ⟨by rw [new], consistent, by simp [transfers]⟩

/-- However a scan ends, every transfer has the key image of its output. -/
theorem Session.Derived.scan (derivable : ∀ key secret, KeyImage.ofKeys S key secret ≠ .ok .null)
    (full : account.keys.spendSecret.isSome) {tx : Transaction} {s t : Session σ}
    {r : Except WalletError ScanOutcome}
    (ends : Ends S env tx (tx.hash S) s.history.height s r t) (before : s.Derived S account) :
    t.Derived S account := by
  obtain ⟨rfl, consistent, derived⟩ := before
  obtain ⟨h', wallet, changes⟩ := ends.changes (List.mem_singleton_self _)
  refine ⟨by rw [wallet]; rfl, ?_, ends.forall_transfers (fun _ => Iff.rfl) derived ?_⟩
  · rw [Session.history, wallet]
    exact changes.consistent_of_single derivable consistent
  · intro d indices own usable r mem
    obtain ⟨same, out, here, computed⟩ := keyImageOf_of_mem_receipts full mem
    rw [same]
    exact imageAt?_of_keyImageOf usable here computed

/-- The steps of a refresh keep the key images those of their outputs. -/
theorem maintained_derived (derivable : ∀ key secret, KeyImage.ofKeys S key secret ≠ .ok .null)
    (full : account.keys.spendSecret.isSome) :
    Sync.Maintained S env (fun _ => True) (Session.Derived S account) where
  idle s t same _ _ := by
    rintro ⟨own, consistent, derived⟩
    exact ⟨by rw [same]; exact own, by rw [Session.history, same]; exact consistent,
      by rw [Session.history, same]; exact derived⟩
  scan _ ends _ _ before := before.scan derivable full ends
  chain length := by
    rintro ⟨own, consistent, derived⟩
    exact ⟨own, consistent.withChain length, derived⟩
  cut {s n} _ before := (before.detach n).sameOutputs rfl (.refl _)

/-! ### Transactions that were built -/

/-- A pending transaction spends the outputs that were selected for it, in their order. -/
structure PendingTransaction.Spends (S : Suite) (p : PendingTransaction) : Prop where
  hash_eq : p.hash = p.tx.hash S
  images_eq : p.tx.inputs.map TxIn.keyImage? = p.selected.map fun handle => some handle.keyImage

/-- A key image that the transaction spends is that of a selected output. -/
theorem PendingTransaction.Spends.exists_selected {p : PendingTransaction} (spends : p.Spends S)
    {image : KeyImage} (spent : image ∈ p.tx.inputs.filterMap TxIn.keyImage?) :
    ∃ handle ∈ p.selected, handle.keyImage = image := by
  obtain ⟨input, mem, known⟩ := List.mem_filterMap.mp spent
  have found : some image ∈ p.tx.inputs.map TxIn.keyImage? := List.mem_map.mpr ⟨input, mem, known⟩
  rw [spends.images_eq] at found
  obtain ⟨handle, selected, same⟩ := List.mem_map.mp found
  exact ⟨handle, selected, Option.some.inj same⟩

/-- The key image with which a source is spent is that of the output that it draws. -/
theorem image_eq_of_draws {secret : SecretKey} {t : Transfer} {source : SpendableSource}
    (spendSecret : account.keys.spendSecret = some secret) (draws : Build.Draws t source.source)
    (prepared : Construct.spendable S account.keys secret source.source = .ok source)
    (derived : imageAt? S account t.tx t.outputIndex = some t.keyImage) :
    source.image = t.keyImage := by
  obtain ⟨⟨out, here, -, real⟩, txKey, index⟩ := draws
  obtain ⟨-, _, key, d, member, shared, derives, -, image⟩ :=
    Construct.spendable_eq_ok.mp prepared
  obtain ⟨-, rfl⟩ := Prod.mk.inj (Option.some.inj (member.symm.trans real))
  -- the scan has computed the image from the same secrets
  have known : derivation? S account.keys (Extra.parse t.tx.extra).1 = some d := by
    rw [derivation?, show Extra.publicKeyOf? (Extra.parse t.tx.extra).1 = _ from txKey]
    exact Except.toOption_eq_some.mpr shared
  have output : t.tx.outputs[t.outputIndex]? = some out := here
  rw [index] at derives
  simpa [imageAt?, known, output, spendSecret, derives, image, Except.toOption] using derived

/-- The inputs of a transaction that was built have the key images of the selected outputs. -/
theorem spends_of_build {r : TransferRequest} {p : PendingTransaction} {s t : Session σ}
    (run : exec (build S env r) s = (.ok p, t))
    (derived : ∀ t ∈ s.history.transfers,
      imageAt? S s.wallet.account t.tx t.outputIndex = some t.keyImage) : p.Spends S := by
  obtain ⟨⟨draft, drafted⟩, -⟩ := Build.of_build run
  obtain ⟨secret, spendSecret, prepared⟩ := drafted.secrets
  have derived : ∀ c ∈ draft.picked, imageAt? S s.wallet.account c.transfer.tx
      c.transfer.outputIndex = some c.transfer.keyImage :=
    fun c mem => derived _ (List.mem_of_getElem? (drafted.getElem?_transfers mem))
  refine ⟨drafted.hash, ?_⟩
  rw [drafted.inputs, drafted.selected_eq, List.map_map, List.map_map]
  have draws := drafted.draws
  generalize draft.picked = picked, draft.prepared = sources at draws derived prepared
  -- one input after the other, with the candidate that its source draws
  induction draws with
  | nil => rfl
  | cons first _ ih =>
    rw [List.forall_mem_cons] at derived prepared
    refine congrArg₂ List.cons ?_ (ih derived.2 prepared.2)
    exact congrArg some (image_eq_of_draws spendSecret first prepared.1 derived.1)

/-! ### Desks -/

/-- What a deed can do. A build, and a sending that fails, change the environment alone. -/
theorem Deed.run_cases (S : Suite) (env : Environment σ) (deed : Deed) (desk : Desk σ) :
    (∃ start target, deed.run S env desk =
        { desk with session := (exec (Sync.pull S env start target) desk.session).2 }) ∨
      (∃ e new, deed.run S env desk = ⟨{ desk.session with env := e }, desk.built ++ new⟩ ∧
        ∀ p ∈ new, ∃ r t, exec (RingWallet.build S env r) desk.session = (.ok p, t)) ∨
      ∃ index p now sent, deed = .send index ∧ desk.built[index]? = some p ∧
        exec (RingWallet.send env p) desk.session = (.ok p.hash, sent) ∧
        sent.wallet =
          { desk.session.wallet with history := desk.session.history.markSent p now } ∧
        sent.events = desk.session.events ∧
        deed.run S env desk = { desk with session := sent } := by
  have nothing (e : σ) : (⟨{ desk.session with env := e }, desk.built⟩ : Desk σ) =
      ⟨{ desk.session with env := e }, desk.built ++ []⟩ := by rw [List.append_nil]
  -- only a send that goes through touches the history outside a refresh
  cases deed with
  | refresh start target => exact .inl ⟨start, target, rfl⟩
  | build r =>
    refine .inr (.inl ⟨(exec (RingWallet.build S env r) desk.session).2.env, _,
      congrArg (Desk.mk · _) (Build.quiet_build S env r desk.session).2, fun p mem => ⟨r, ?_⟩⟩)
    exact ⟨_, Prod.ext (Except.toOption_eq_some.mp (Option.mem_toList.mp mem)) rfl⟩
  | send index =>
    rcases here : desk.built[index]? with - | p
    · refine .inr (.inl ⟨desk.session.env, [], ?_, by simp⟩)
      rw [run, here]
      exact nothing _
    · have sending : (send index).run S env desk =
          { desk with session := (exec (RingWallet.send env p) desk.session).2 } := by
        rw [run, here]
        rfl
      rcases exec_send_cases env p desk.session with ⟨e, env', failed⟩ | ⟨now, env', -, -, sent⟩
      · refine .inr (.inl ⟨env', [], ?_, by simp⟩)
        rw [sending, failed]
        exact nothing _
      · refine .inr (.inr ⟨index, p, now, _, rfl, here, sent, rfl, rfl, ?_⟩)
        rw [sending, sent]

/-- What no deed breaks holds after any deeds. -/
theorem afterDeeds_induction {P : Desk σ → Prop}
    (step : ∀ (deed : Deed) (desk : Desk σ), P desk → P (deed.run S env desk)) (deeds : List Deed)
    {desk : Desk σ} (start : P desk) : P (afterDeeds S env deeds desk) := by
  unfold afterDeeds
  induction deeds generalizing desk with
  | nil => exact start
  | cons deed rest ih => exact ih (step deed desk start)

/-- What holds of the desk of a full account. -/
structure Desk.Sound (S : Suite) (account : Account) (desk : Desk σ) : Prop where
  derived : desk.session.Derived S account
  spends : ∀ p ∈ desk.built, p.Spends S

/-- A deed keeps a desk sound, however it ends. -/
theorem Desk.Sound.run (derivable : ∀ key secret, KeyImage.ofKeys S key secret ≠ .ok .null)
    (full : account.keys.spendSecret.isSome) {desk : Desk σ} (sound : desk.Sound S account)
    (deed : Deed) : (deed.run S env desk).Sound S account := by
  obtain ⟨before, spends⟩ := sound
  rcases deed.run_cases S env desk with
    ⟨start, target, run⟩ | ⟨e, new, run, built⟩ | ⟨index, p, now, sent, -, -, -, wallet, -, run⟩
  -- a refresh derives what it records
  · rw [run]
    exact ⟨(maintained_derived derivable full).pull target (serves_anything S env) start _ before,
      spends⟩
  -- what is built is built from transfers of the account
  · rw [run]
    refine ⟨⟨before.own, before.consistent, before.derived⟩, fun p mem => ?_⟩
    rcases List.mem_append.mp mem with old | new
    · exact spends p old
    · obtain ⟨r, t, run⟩ := built p new
      exact spends_of_build run (before.own ▸ before.derived)
  · -- only spent flags and unconfirmed transactions change
    have history : sent.history = desk.session.history.markSent p now :=
      congrArg Wallet.history wallet
    have same := (History.sameOutputs_markSent desk.session.history p now).1
    rw [← history] at same
    rw [run]
    exact ⟨before.sameOutputs (by rw [wallet]) same, spends⟩

/-- A new wallet with nothing built is sound, and stays so whatever is done with it. -/
theorem sound_afterDeeds (derivable : ∀ key secret, KeyImage.ofKeys S key secret ≠ .ok .null)
    (full : account.keys.spendSecret.isSome) {config : Config} {s : Session σ}
    (created : Wallet.create account config = .ok s.wallet) (deeds : List Deed) :
    (afterDeeds S env deeds ⟨s, []⟩).Sound S account := by
  refine afterDeeds_induction (fun deed _ sound => sound.run derivable full deed) deeds ?_
  exact ⟨derived_of_create created, by simp⟩

/-- The steps of a refresh leave the account as it is. -/
theorem maintained_account :
    Sync.Maintained S env (fun _ => True) fun s : Session σ => s.wallet.account = account where
  idle s t same _ _ own := by rw [same]; exact own
  scan _ ends _ _ own := by
    obtain ⟨h', wallet, -⟩ := ends.changes (List.mem_singleton_self _)
    rw [wallet]
    exact own
  chain _ own := own
  cut _ own := own

/-- Only the wallet of a full account builds transactions. -/
theorem full_of_built {s : Session σ} (own : s.wallet.account = account) (deeds : List Deed)
    {p : PendingTransaction} (mem : p ∈ (afterDeeds S env deeds ⟨s, []⟩).built) :
    account.keys.spendSecret.isSome := by
  suffices all : (afterDeeds S env deeds ⟨s, []⟩).session.wallet.account = account ∧
      ∀ p ∈ (afterDeeds S env deeds ⟨s, []⟩).built, account.keys.spendSecret.isSome from
    all.2 p mem
  -- a build needs the spend secret, and no deed changes the account
  refine afterDeeds_induction (P := fun desk => desk.session.wallet.account = account ∧
    ∀ p ∈ desk.built, account.keys.spendSecret.isSome) ?_ deeds ⟨own, by simp⟩
  rintro deed desk ⟨own, full⟩
  rcases deed.run_cases S env desk with
    ⟨start, target, run⟩ | ⟨e, new, run, built⟩ | ⟨index, p, now, sent, -, -, -, wallet, -, run⟩
  · rw [run]
    exact ⟨maintained_account.pull target (serves_anything S env) start _ own, full⟩
  · rw [run]
    refine ⟨own, fun p mem => ?_⟩
    rcases List.mem_append.mp mem with old | new
    · exact full p old
    · obtain ⟨r, t, run⟩ := built p new
      obtain ⟨⟨draft, drafted⟩, -⟩ := Build.of_build run
      obtain ⟨secret, spendSecret, -⟩ := drafted.secrets
      rw [← own, spendSecret]
      rfl
  · rw [run]
    exact ⟨(congrArg Wallet.account wallet).trans own, full⟩

end RingWallet
