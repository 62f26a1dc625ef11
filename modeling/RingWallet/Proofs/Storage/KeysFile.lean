import RingWallet.Proofs.Storage.Files
import RingWallet.Proofs.Support.SmallSuite

/-!
# Keys and their file

`Account.Issued` says how accounts come about: made from random words, put together from given keys,
copied without the spend secret, or given another creation time. These are the accounts whose
secrets belong to their public keys (`Account.issued_iff_verify`), and such an account comes back
from its keys file.

What the right password opens can be said without opening anything: a box opens to a message exactly
if it is the message sealed (`Sealed.unlock?_eq_some`), so a keys file opens to an account exactly
if the keys of the account belong together and the box is the form of the account sealed, with
whatever bytes behind it (`KeysFile.unlock_eq_ok`). Every other box fails the password.
-/

set_option autoImplicit false

namespace RingWallet

/-! ### Accounts -/

namespace Account

variable {S : Suite}

/-- How an account comes about. -/
inductive Issued (S : Suite) : Account → Prop
  | generated {σ : Type} (next : RandomSource σ) (state : σ) (now : UInt64) :
    Issued S ((generate S next now).run state).1
  | ofKeys {keys : AccountKeys} {createTime : UInt64} {account : Account}
    (made : ofKeys? S keys createTime = some account) : Issued S account
  | viewOnly {account : Account} (issued : Issued S account) : Issued S account.toViewOnly
  | createTime {account : Account} (issued : Issued S account) (time : UInt64) :
    Issued S { account with createTime := time }

/-- The secret key of a scalar belongs to the scalar's multiple of the base point. -/
theorem matches_ofScalar (a : Scalar) :
    (SecretKey.ofScalar a).matches S (.ofPoint S (S.mulBase a)) = true := by
  unfold SecretKey.matches SecretKey.publicKey
  rw [SecretKey.scalar_ofScalar]
  exact decide_eq_true rfl

/-- The keys of a fresh account are those of the scalar that was drawn and of its hash. -/
theorem verify_generate {σ : Type} (next : RandomSource σ) (state : σ) (now : UInt64) :
    ((generate S next now).run state).1.verify S = true := by
  let spend := (next.scalar.run state).1
  let view := S.hashToScalar (SecretKey.ofScalar spend).bytes.toList
  have keys : ((generate S next now).run state).1.keys =
      ⟨⟨.ofPoint S (S.mulBase spend), .ofPoint S (S.mulBase view)⟩, some (.ofScalar spend),
        .ofScalar view⟩ := rfl
  unfold verify address
  rw [keys, Option.all_some, matches_ofScalar, matches_ofScalar]
  rfl

/-- An account that verifies still does when its spend key is left out. -/
theorem verify_toViewOnly {account : Account} (verified : account.verify S = true) :
    account.toViewOnly.verify S = true := by
  unfold verify at verified ⊢
  rw [Bool.and_eq_true] at verified ⊢
  exact ⟨verified.1, rfl⟩

/-- The keys of an account belong together, and accounts whose keys do can be put together. -/
theorem issued_iff_verify {account : Account} : account.Issued S ↔ account.verify S = true := by
  constructor
  · intro issued
    -- the ways in which an account is issued
    induction issued with
    | generated next state now => exact verify_generate next state now
    | ofKeys made =>
      obtain ⟨verified, same⟩ := Option.ite_none_right_eq_some.mp made
      exact Option.some.inj same ▸ verified
    | viewOnly _ ih => exact verify_toViewOnly ih
    | createTime _ _ ih => exact ih
  · intro verified
    -- an account that verifies is issued again from its keys
    have made : ofKeys? S account.keys account.createTime = some account := if_pos verified
    exact .ofKeys made

end Account

/-! ### Boxes -/

/-- A box opens to a message exactly if it is the message sealed. -/
theorem Sealed.unlock?_eq_some {key : Bytes32} {nonce : Bytes 24} {box message : Blob} :
    unlock? key nonce box = some message ↔ box = lock key nonce message := by
  constructor
  · intro opened
    unfold unlock? at opened
    split at opened
    · obtain ⟨tagged, same⟩ := Option.ite_none_right_eq_some.mp opened
      obtain rfl := Option.some.inj same
      rw [lock, mask_mask, ← tagged, List.take_append_drop]
    · cases opened
  · rintro rfl
    exact unlock?_lock key nonce message

namespace KeysFile

variable {S : Suite} {f : KeysFile} {password : String}

/-- A keys file opens to an account exactly if the keys of the account belong together and the box
is the form of the account sealed, with whatever bytes behind it. -/
theorem unlock_eq_ok {account : Account} :
    f.unlock S password = .ok account ↔ account.verify S = true ∧
      ∃ rest, f.sealedAccount =
        Sealed.lock (keyOf password f.salt) f.nonce (Account.codec.encode account ++ rest) := by
  unfold unlock
  constructor
  · intro opened
    split at opened
    · next bytes unlocked =>
      obtain ⟨found, read, opened⟩ := Except.bind_eq_ok.mp opened
      split at opened
      · next verified =>
        -- the reader stops behind the account, so the message may go on
        obtain rfl := Except.ok.inj opened
        obtain ⟨-, rest, rfl⟩ :=
          Account.exact_codec.canonical.write_read _ _ (Except.mapError_eq_ok.mp read)
        exact ⟨verified, rest, Sealed.unlock?_eq_some.mp unlocked⟩
      · cases opened
    · cases opened
  · rintro ⟨verified, rest, box⟩
    have read := Account.exact_codec.canonical.read_write account trivial rest
    simp only [Sealed.unlock?_eq_some.mpr box, read, Except.mapError_ok, Except.ok_bind, verified,
      if_true]
    rfl

/-- A box that is no sealed message fails the password. -/
theorem unlock_of_unsealed
    (unsealed : ∀ message, f.sealedAccount ≠ Sealed.lock (keyOf password f.salt) f.nonce message) :
    f.unlock S password = .error .invalidPassword := by
  have shut : Sealed.unlock? (keyOf password f.salt) f.nonce f.sealedAccount = none :=
    Option.eq_none_iff_forall_ne_some.mpr fun message opened =>
      unsealed message (Sealed.unlock?_eq_some.mp opened)
  unfold unlock
  rw [shut]
  rfl

end KeysFile

/-- The keys of every account belong together, and it comes back from its keys file under the
password it was sealed with, whatever the random words are. A keys file opens to no other accounts
than those whose keys belong together and whose form is sealed in it, and a box that is no sealed
message fails the password. -/
theorem account_of_keysFile (S : Suite) :
    (∀ account : Account, account.Issued S → account.verify S = true ∧
      ∀ {σ : Type} (next : RandomSource σ) (state : σ) (password : String),
        ∃ f, KeysFile.codec.read
            (KeysFile.codec.encode ((KeysFile.lock next account password).run state).1) = .ok f ∧
          f.unlock S password = .ok account) ∧
    (∀ (f : KeysFile) (password : String) (account : Account),
      f.unlock S password = .ok account ↔ account.verify S = true ∧
        ∃ rest, f.sealedAccount = Sealed.lock (KeysFile.keyOf password f.salt) f.nonce
          (Account.codec.encode account ++ rest)) ∧
    ∀ (f : KeysFile) (password : String),
      (∀ message,
        f.sealedAccount ≠ Sealed.lock (KeysFile.keyOf password f.salt) f.nonce message) →
      f.unlock S password = .error .invalidPassword := by
  refine ⟨fun account issued => ?_, fun f password account => KeysFile.unlock_eq_ok,
    fun f password => KeysFile.unlock_of_unsealed⟩
  have verified := Account.issued_iff_verify.mp issued
  refine ⟨verified, fun next state password => ⟨_, ?_, KeysFile.unlock_lockWith verified password
    (.ofNat (ofLittleEndian ((next.bytes 16).run state).1))
    (.ofNat (ofLittleEndian ((next.bytes 24).run ((next.bytes 16).run state).2).1))⟩⟩
  exact KeysFile.read_encode_lockWith account password _ _

/-- A view-only copy with another creation time comes back, and an empty box opens to nothing. -/
theorem account_of_keysFile_viewOnly :
    ({ SmallSuite.account.toViewOnly with createTime := 9 } : Account).Issued .small ∧
      (∃ f, KeysFile.codec.read (KeysFile.codec.encode ((KeysFile.lock RandomSource.splitMix
          { SmallSuite.account.toViewOnly with createTime := 9 } "right").run 3).1) = .ok f ∧
        f.unlock .small "right" = .ok { SmallSuite.account.toViewOnly with createTime := 9 }) ∧
      (⟨.zero, .zero, []⟩ : KeysFile).unlock .small "wrong" = .error .invalidPassword := by
  have made : Account.ofKeys? .small SmallSuite.account.keys 0 = some SmallSuite.account := by
    decide +kernel
  have issued : ({ SmallSuite.account.toViewOnly with createTime := 9 } : Account).Issued .small :=
    .createTime (.viewOnly (.ofKeys made)) 9
  refine ⟨issued, ((account_of_keysFile .small).1 _ issued).2 _ _ _, ?_⟩
  refine (account_of_keysFile .small).2.2 ⟨.zero, .zero, []⟩ "wrong" fun message same => ?_
  -- a sealed message ends in its tag
  have length := congrArg List.length same
  rw [Sealed.lock, List.length_append, Sealed.length_tagOf] at length
  simp at length

end RingWallet
