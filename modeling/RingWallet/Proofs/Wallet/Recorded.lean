import RingWallet.Proofs.Crypto.Group
import RingWallet.Proofs.Wallet.Deeds
import RingWallet.Proofs.Wallet.Replay

/-!
# What a full wallet records

`Session.Reached` lists how a wallet comes to its state from a new one: the steps of its user, each
with a daemon, a clock and random words of its own, and each of which may fail. `Transfer.Recorded`
says of a transfer that its transaction has a usable key and that the key image is the one that the
account computes for its output; whatever a full wallet has gone through, this holds of all its
transfers (`records_of_reached`).

Where the group is lawful, a full account that passes its check can compute the key image of every
output that it recognises (`exists_keyImageOf_of_owned`), so that no output is lost on this way.
-/

set_option autoImplicit false

namespace RingWallet

open Scan WalletM

/-- The sessions to which the new wallet of an account may come. -/
inductive Session.Reached (S : Suite) (account : Account) {σ : Type} : Session σ → Prop where
  | new {config : Config} {s : Session σ} (created : Wallet.create account config = .ok s.wallet) :
    Reached S account s
  /-- The wallet is left alone: a build, however it ends, or whatever happens around the wallet. -/
  | idle {s t : Session σ} (before : Reached S account s) (same : t.wallet = s.wallet) :
    Reached S account t
  /-- A refresh, however it ends. -/
  | refresh {s : Session σ} (before : Reached S account s) (env : Environment σ)
    (start : RefreshStart) (target : Option Hash) :
    Reached S account (exec (Sync.pull S env start target) s).2
  /-- A sending of any transaction, however it ends. -/
  | send {s : Session σ} (before : Reached S account s) (env : Environment σ)
    (p : PendingTransaction) : Reached S account (exec (RingWallet.send env p) s).2
  | detach {s : Session σ} (before : Reached S account s) (height : Nat) :
    Reached S account (exec (Sync.detach height) s).2
  | assumeScanned {s : Session σ} (before : Reached S account s) (height : Nat) :
    Reached S account (exec (modifyHistory fun h => h.assumeScanned height) s).2

/-- A transfer as a full account records it. -/
def Transfer.Recorded (S : Suite) (keys : AccountKeys) (t : Transfer) : Prop :=
  ∃ d out, derivation? S keys (Extra.parse t.tx.extra).1 = some d ∧ t.output? = some out ∧
    keyImageOf S keys d t.outputIndex out.key = .ok (some t.keyImage)

variable {S : Suite} {account : Account} {σ : Type} {env : Environment σ}

/-- A transfer that a full account recorded carries the key image of its output. -/
theorem Transfer.Recorded.imageAt?_eq {t : Transfer} (recorded : t.Recorded S account.keys) :
    Reading.imageAt? S account t.tx t.outputIndex = some t.keyImage := by
  obtain ⟨d, out, usable, here, computed⟩ := recorded
  exact imageAt?_of_keyImageOf usable here computed

/-- The wallet of an account, with transfers as the account records them. -/
def Session.Records (S : Suite) (account : Account) (s : Session σ) : Prop :=
  s.wallet.account = account ∧ ∀ t ∈ s.history.transfers, t.Recorded S account.keys

/-- The steps of a refresh record nothing else. -/
theorem maintained_records (full : account.keys.spendSecret.isSome) :
    Sync.Maintained S env (fun _ => True) (Session.Records S account) where
  idle s t same _ _ := by
    rintro ⟨own, recorded⟩
    rw [Session.Records, Session.history, same]
    exact ⟨own, recorded⟩
  scan _ ends _ _ := by
    rintro ⟨rfl, recorded⟩
    obtain ⟨h', wallet, -⟩ := ends.changes (List.mem_singleton_self _)
    -- what is new was received from the scanned transaction
    refine ⟨by rw [wallet]; rfl, ends.forall_transfers (fun _ => Iff.rfl) recorded ?_⟩
    intro d indices own usable r mem
    obtain ⟨same, out, here, computed⟩ := keyImageOf_of_mem_receipts full mem
    exact ⟨d, out, same ▸ usable, by rw [Transfer.output?, same]; exact here, computed⟩
  chain _ := id
  cut _ := fun ⟨own, recorded⟩ => ⟨own, fun t mem =>
    recorded t ((List.takeWhile_prefix _).subset mem)⟩

/-- A full wallet has recorded each of its transfers as its account does. -/
theorem records_of_reached (full : account.keys.spendSecret.isSome) {s : Session σ}
    (reached : s.Reached S account) : s.Records S account := by
  induction reached with
  | new created =>
    obtain ⟨chain, -, new⟩ := eq_of_create created
    rw [Session.Records, Session.history, new]
    exact ⟨rfl, by simp⟩
  | idle _ same ih =>
    rw [Session.Records, Session.history, same]
    exact ih
  | refresh _ env start target ih =>
    exact (maintained_records full).pull target (serves_anything S env) start _ ih
  | @send s _ env p ih =>
    rcases exec_send_cases env p s with ⟨e, env', failed⟩ | ⟨now, env', -, -, sent⟩
    · rw [failed]
      exact ih
    · -- a sending changes spent flags and unconfirmed transactions
      rw [sent]
      have same := (History.sameOutputs_markSent s.history p now).1
      exact ⟨ih.1, same.forall_mem (fun _ => Iff.rfl) ih.2⟩
  | detach _ height ih =>
    exact ⟨ih.1, fun t mem => ih.2 t ((List.takeWhile_prefix _).subset mem)⟩
  | assumeScanned _ height ih => exact ih

/-- The key images of the transfers are those of their outputs, and the index finds them. -/
theorem derived_of_reached (derivable : ∀ key secret, KeyImage.ofKeys S key secret ≠ .ok .null)
    (full : account.keys.spendSecret.isSome) {s : Session σ} (reached : s.Reached S account) :
    s.Derived S account := by
  -- only scanning records images; every other step keeps the outputs or takes some away
  induction reached with
  | new created => exact derived_of_create created
  | idle _ same ih =>
    refine ih.sameOutputs (congrArg Wallet.account same) ?_
    rw [Session.history, Session.history, same]
    exact .refl _
  | refresh _ env start target ih =>
    exact (maintained_derived derivable full).pull target (serves_anything S env) start _ ih
  | @send s _ env p ih =>
    rcases exec_send_cases env p s with ⟨e, env', failed⟩ | ⟨now, env', -, -, sent⟩
    · rw [failed]
      exact ih.sameOutputs rfl (.refl _)
    · rw [sent]
      exact ih.sameOutputs rfl (History.sameOutputs_markSent s.history p now).1
  | detach _ height ih => exact ih.detach height
  | assumeScanned _ height ih => exact ih.assumeScanned height

/-! ### Outputs that a full account recognises -/

/-- A full account that passes its check can compute the key image of every output that it
recognises. -/
theorem exists_keyImageOf_of_owned (lawful : S.Lawful) (verified : account.verify S = true)
    (full : account.keys.spendSecret.isSome) {d : KeyDerivation} {i : Nat} {key : PublicKey}
    (mine : d.publicKey S i account.address.spendKey = .ok key) :
    ∃ k, keyImageOf S account.keys d i key = .ok (some k) := by
  obtain ⟨spend, spendable⟩ := Option.isSome_iff_exists.mp full
  -- the spend key of a verified account belongs to its secret
  have genuine := (Bool.and_eq_true_iff.mp verified).2
  rw [spendable, Option.all_some] at genuine
  obtain ⟨b, scalar, spendKey⟩ := Reading.exists_scalar_of_matches genuine
  rw [KeyDerivation.publicKey, spendKey, lawful.point_ofPoint] at mine
  obtain ⟨image, computed⟩ :=
    exists_keyImageOf lawful.mulBase_add spendable scalar (Except.ok.inj mine)
  rcases keyImageOf_cases S computed with ⟨none, -⟩ | ⟨_, _, k, -, -, -, -, rfl⟩
  · rw [spendable] at none
    cases none
  · exact ⟨k, computed⟩

end RingWallet
