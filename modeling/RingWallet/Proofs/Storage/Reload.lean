import Mathlib.Data.List.Perm.Subperm
import RingWallet.Proofs.Storage.Files
import RingWallet.Proofs.Support.FlakyServer
import RingWallet.Proofs.Wallet.Bounds
import RingWallet.Proofs.Wallet.Pending
import RingWallet.Proofs.Wallet.Pinned
import RingWallet.Proofs.Wallet.Restore

/-!
# Wallets stored and opened again

What a wallet has learned can be written: the transactions in it came from bytes, or were sent
(`History.Writable`), its numbers are heights of the chain and positions in the list of transfers,
and its lists can be counted in a word (`History.Counted`). So its stored form is read back
(`History.fits`). It is also accepted, because its index and its hashes are right and its chain is
not empty, unless that of a new wallet is.

`reload_of_afterCalls` puts both together: after any calls, however each of them ended, a wallet
that is stored and opened again is the same wallet.
-/

set_option autoImplicit false

namespace RingWallet

open WalletM

namespace History

variable {h h' : History}

/-! ### What can be written -/

/-- The transactions that have own outputs can be written. -/
def TransfersFit (h : History) : Prop := ∀ t ∈ h.transfers, t.tx.Fits

/-- The transactions that were sent can be written. -/
def SentFit (h : History) : Prop :=
  ∀ (id : Hash) (u : Unconfirmed), h.unconfirmed[id]? = some u → u.tx.Fits

/-- The transactions in a history can be written. -/
structure Writable (h : History) : Prop where
  transfers : h.TransfersFit
  unconfirmed : h.SentFit

/-- The lists of a history can be counted in a word. -/
structure Counted (h : History) : Prop where
  chain : h.chain.length < UInt64.size
  transfers : h.transfers.length < UInt64.size
  unconfirmed : h.unconfirmed.toList.length < UInt64.size
  payments : h.payments.toList.length < UInt64.size
  paymentsOf : ∀ id, (h.paymentsOf id).length < UInt64.size

/-- A scan brings transactions that were read. -/
theorem TransfersFit.grows {seen : Hash → Transaction → Nat → Prop} (grows : Scan.Grows seen h h')
    (fits : ∀ id tx n, seen id tx n → tx.Fits) (hw : h.TransfersFit) : h'.TransfersFit := by
  intro t mem
  obtain ⟨i, at_i⟩ := List.mem_iff_getElem?.mp mem
  rcases Nat.lt_or_ge i h.transfers.length with old | new
  · -- an old output may only have been marked
    obtain ⟨t', here, same, -⟩ := grows.kept i _ (List.getElem?_eq_getElem old)
    obtain rfl := Option.some.inj (at_i.symm.trans here)
    rw [← Transfer.tx_unspent, same, Transfer.tx_unspent]
    exact hw _ (List.getElem_mem old)
  · exact fits _ _ _ (grows.added i t at_i new)

/-- A scan adds nothing to what was sent. -/
theorem SentFit.grows {seen : Hash → Transaction → Nat → Prop} (grows : Scan.Grows seen h h')
    (hw : h.SentFit) : h'.SentFit := by
  intro id u found
  rcases grows.unconfirmed id with same | ⟨-, gone⟩
  · exact hw id u (same.symm.trans found)
  · cases gone.symm.trans found

/-- A cut leaves only transactions that were there before it. -/
theorem TransfersFit.detach (hw : h.TransfersFit) (n : Nat) : (h.detach n).TransfersFit :=
  fun t mem => hw t ((List.takeWhile_prefix _).subset mem)

/-- Sending a transaction marks outputs but keeps their transactions. -/
theorem TransfersFit.markSent (hw : h.TransfersFit) (p : PendingTransaction) (now : UInt64) :
    (h.markSent p now).TransfersFit :=
  (sameOutputs_markSent h p now).1.forall_mem (fun _ => Iff.rfl) hw

/-- What is sent can be written if the transaction that is sent can. -/
theorem SentFit.markSent (hw : h.SentFit) {p : PendingTransaction} (fits : p.tx.Fits)
    (now : UInt64) : (h.markSent p now).SentFit := by
  intro id u found
  rw [(markSent_fields h p now).1, Std.ExtTreeMap.getElem?_insert] at found
  split at found
  · rw [← Option.some.inj found]
    exact fits
  · exact hw id u found

end History

/-! ### What is read can be written -/

/-- Every transaction that is read from a daemon's reply can be written again. -/
theorem serves_fits (S : Suite) {σ : Type} (env : Environment σ) :
    env.Serves S Transaction.Fits :=
  fun _ _ _ _ _ _ _ parsed => Sync.fits_of_parseEntry parsed

namespace History

variable {h : History} {S : Suite} {σ : Type} {env : Environment σ}

/-- A refresh keeps the transactions of the outputs writable. -/
theorem maintained_transfersFit :
    Sync.Maintained S env Transaction.Fits fun s : Session σ => s.history.TransfersFit where
  idle s t same _ _ hw := by
    rw [Session.history, same]
    exact hw
  scan {tx s t r} fits ends _ _ hw := by
    obtain ⟨h', wallet, changes⟩ := ends.changes (List.mem_singleton_self _)
    rw [Session.history, wallet]
    -- only the scanned transaction can have come in
    refine hw.grows changes.grows fun id tx' n seen => ?_
    obtain ⟨-, rfl⟩ := Prod.mk.inj (List.mem_singleton.mp seen.1)
    exact fits
  chain _ hw := hw
  cut _ hw := hw.detach _

/-- A refresh keeps the transactions that wait writable. -/
theorem maintained_sentFit :
    Sync.Maintained S env Transaction.Fits fun s : Session σ => s.history.SentFit where
  idle s t same _ _ hw := by
    rw [Session.history, same]
    exact hw
  scan {tx s t r} _ ends _ _ hw := by
    obtain ⟨h', wallet, changes⟩ := ends.changes (List.mem_singleton_self _)
    rw [Session.history, wallet]
    exact hw.grows changes.grows
  chain _ hw := hw
  cut _ hw := hw

/-- However a call ends, the transactions that have own outputs can be written. -/
theorem TransfersFit.call (call : Call) {s : Session σ} (hw : s.history.TransfersFit) :
    (exec (call.run S env) s).2.history.TransfersFit := by
  refine call.holds hw ?_ (fun n _ => hw.detach n) (fun _ => hw) (fun p now _ => hw.markSent p now)
  exact fun start target =>
    maintained_transfersFit.pull target (serves_fits S env) start s hw

/-- However a call ends, the history can be written if what was sent can. -/
theorem Writable.call (call : Call) (sent : ∀ p, call = .send p → p.tx.Fits) {s : Session σ}
    (hw : s.history.Writable) : (exec (call.run S env) s).2.history.Writable where
  transfers := hw.transfers.call call
  unconfirmed := by
    refine call.holds hw.unconfirmed ?_ (fun _ _ => hw.unconfirmed) (fun _ => hw.unconfirmed) ?_
    · exact fun start target => maintained_sentFit.pull target (serves_fits S env) start s
        hw.unconfirmed
    · exact fun p now is_sent => hw.unconfirmed.markSent (sent p is_sent) now

/-- There are no more images in the index than transfers. -/
theorem Indexed.length_le {p : KeyImage → Prop} (hi : h.Indexed p) :
    h.keyImages.toList.length ≤ h.transfers.length := by
  have inside : h.keyImages.toList.map Prod.fst ⊆ h.images := by
    intro image mem
    obtain ⟨⟨image, i⟩, entry, rfl⟩ := List.mem_map.mp mem
    rw [Std.ExtTreeMap.mem_toList_iff_getElem?_eq_some] at entry
    exact List.mem_of_getElem? ((hi image i).mp entry).2
  have count := ((Codec.nodup_keys_toList h.keyImages).subperm inside).length_le
  rwa [List.length_map, length_images] at count

/-- The outputs can be written if their heights and positions are words. -/
theorem fits_transfers (consistent : h.Consistent S) (fit : h.TransfersFit)
    (height : h.height < UInt64.size) (counted : h.transfers.length < UInt64.size) :
    Codec.Listed Transfer.Fits h.transfers := by
  refine ⟨counted, fun t mem => ⟨?_, fit t mem, ?_⟩⟩
  · exact Nat.lt_of_le_of_lt (consistent.height_le t mem) height
  · exact Nat.lt_trans (consistent.outputIndex_lt t mem) (fit t mem).signedPart.outputs

/-- So can the index. -/
theorem fits_keyImages (consistent : h.Consistent S) (counted : h.transfers.length < UInt64.size) :
    Codec.Listed (fun e => e.2 < UInt64.size) h.keyImages.toList := by
  refine ⟨Nat.lt_of_le_of_lt consistent.indexed.length_le counted, fun e mem => ?_⟩
  rw [Std.ExtTreeMap.mem_toList_iff_getElem?_eq_some] at mem
  have at_image := ((consistent.indexed e.1 e.2).mp mem).2
  have below := (List.getElem?_eq_some_iff.mp at_image).1
  rw [length_images] at below
  exact Nat.lt_trans below counted

/-- A history whose transactions and numbers can be written, and whose lists can be counted. -/
theorem fits (address : Address) (consistent : h.Consistent S) (within : h.Within (h.height + 1))
    (writable : h.Writable) (counted : h.Counted) : SavedState.Fits ⟨address, h⟩ where
  chain := counted.chain
  transfers := fits_transfers consistent writable.transfers counted.chain counted.transfers
  keyImages := fits_keyImages consistent counted.transfers
  -- what waits and what was paid is written as the list of the entries
  unconfirmed := by
    refine ⟨counted.unconfirmed, fun e mem => ?_⟩
    rw [Std.ExtTreeMap.mem_toList_iff_getElem?_eq_some] at mem
    exact writable.unconfirmed e.1 e.2 mem
  payments := by
    refine ⟨counted.payments, fun e mem => ?_⟩
    rw [Std.ExtTreeMap.mem_toList_iff_getElem?_eq_some] at mem
    have records : h.paymentsOf e.1 = e.2 := by
      unfold paymentsOf
      rw [mem, Option.getD_some]
    refine ⟨records ▸ counted.paymentsOf e.1, fun p listed => ?_⟩
    -- a payment is noted at most at the height of the next block
    have below := within.payments e.1 p (records ▸ listed)
    exact Nat.lt_of_le_of_lt (Nat.le_of_lt_succ below) counted.chain

end History

/-! ### Wallets that are stored -/

/-- The chain of a new wallet after some calls is empty only if it was empty at first. -/
theorem chain_of_afterCalls {S : Suite} {σ : Type} (env : Environment σ) {calls : List Call}
    (uncut : .detach 0 ∉ calls) (s : Session σ) :
    (if (afterCalls S env calls s).history.chain.isEmpty then s.history.chain
      else (afterCalls S env calls s).history.chain) =
      (afterCalls S env calls s).history.chain := by
  split
  · next empty =>
    rw [List.isEmpty_iff] at empty
    rcases Nat.eq_zero_or_pos s.history.chain.length with none | some
    · rw [empty, List.length_eq_zero_iff.mp none]
    · have longer := (Sync.rooted_length S).afterCalls env uncut some
      rw [empty] at longer
      exact absurd longer (Nat.lt_irrefl 0)
  · rfl

open WalletFiles in
/-- A new wallet was refreshed and has sent transactions, in any order and however each call ended,
but its chain was not cut at the bottom. Its stored form is read back and gives the same wallet, and
so a wallet that was stored next to its keys file is opened as the same wallet. -/
theorem reload_of_afterCalls (S : Suite)
    (derivable : ∀ key secret, KeyImage.ofKeys S key secret ≠ .ok .null) {σ τ : Type}
    (env : Environment σ) (env' : Environment τ) (account : Account) (config : Config)
    (s : Session σ) (created : Wallet.create account config = .ok s.wallet) (calls : List Call)
    (uncut : .detach 0 ∉ calls) (sent : ∀ p, .send p ∈ calls → p.tx.Fits)
    (counted : (afterCalls S env calls s).history.Counted) :
    let w := (afterCalls S env calls s).wallet
    SavedState.decode w.snapshot.encode = .ok (SavedState.currentVersion, w.snapshot) ∧
      Wallet.restore S account config w.snapshot = .ok w ∧
      ∀ (path password : String) (disk disk' : Disk τ),
        (loadKeys S path password).run.run disk = (.ok account, disk) →
        (store env' path w).run.run disk = (.ok (), disk') →
        (load S path password config).run.run disk' = (.ok w, disk') := by
  intro w
  obtain ⟨chain, -, new⟩ := eq_of_create created
  obtain ⟨h, wallet⟩ := withHistory_afterCalls S env calls s
  have own : w.account = account := by
    rw [show w = _ from wallet, new]
    rfl
  have consistent := consistent_afterCalls S env derivable account config calls s created
  -- whatever was taken in can be written, and so it is read back
  have writable : (afterCalls S env calls s).history.Writable := by
    refine afterCalls_holds (P := fun s : Session σ => s.history.Writable)
      (fun call mem s hw => hw.call call fun p is_sent => sent p (is_sent ▸ mem)) ?_
    rw [Session.history, new]
    exact ⟨by simp [History.TransfersFit], by simp [History.SentFit]⟩
  have held : SavedState.historyVersion ≤ SavedState.currentVersion := by decide
  have decoded : SavedState.decode w.snapshot.encode =
      .ok (SavedState.currentVersion, w.snapshot) := by
    have fits := History.fits w.account.address consistent (within_afterCalls S env calls created)
      writable counted
    obtain ⟨written, read⟩ := SavedState.decode_of_written held (Nat.le_refl _) fits
    have whole := (read _ written).1 []
    rw [List.append_nil] at whole
    exact whole
  -- the stored chain is not empty, and replaces the one of a new wallet
  have restored : Wallet.restore S account config w.snapshot = .ok w := by
    refine Wallet.restore_eq_ok.mpr ⟨congrArg Account.address own,
      fun t mem => (consistent.txHash_eq t mem).symm,
      fun image i found => ((consistent.indexed image i).mp found).2, _, created, ?_⟩
    have same : w = { s.wallet with history := w.history } := by
      rw [show w = _ from wallet]
      rfl
    show w = { s.wallet with history := { w.history with chain :=
      if w.history.chain.isEmpty then s.wallet.history.chain else w.history.chain } }
    rw [show (if w.history.chain.isEmpty then s.wallet.history.chain else w.history.chain) =
      w.history.chain from chain_of_afterCalls env uncut s]
    exact same
  refine ⟨decoded, restored, fun path password disk disk' unlocked stored => ?_⟩
  exact run_load_of_store unlocked stored held decoded restored

namespace Reloaded

open ChainServer SmallSuite

/-- A new wallet whose daemon is busy four times in the second block, when it is asked for the
indices of the second transaction. -/
def unread : Session (List Bool) where
  env := [false, false] ++ (List.replicate 4 [false, false, true]).flatten
  wallet := ⟨account, {}, {}⟩

/-- A transaction that was not built by the wallet. -/
def pending : PendingTransaction where
  tx := payment 6 6 []
  hash := (payment 6 6 []).hash .small
  fee := 0
  dust := 0
  change := ⟨0, account.address⟩
  selected := []

/-- A refresh that fails in the second block, and a sending. -/
def calls : List Call := [.refreshFromLocalChain, .send pending]

/-- The wallet after them. -/
def halfway : Session (List Bool) :=
  (exec (send (small.flaky 1) pending) (small.refreshed .small 1 unread).2).2

/-- The two calls are the failing refresh and the sending after it. -/
theorem afterCalls_calls : afterCalls .small (small.flaky 1) calls unread = halfway := by
  have refreshed : (exec (Call.refreshFromLocalChain.run .small (small.flaky 1)) unread).2 =
      (small.refreshed .small 1 unread).2 :=
    (exec_discard _ _).trans (congrArg Prod.snd (exec_refresh_flaky legible_small unread))
  have sent (s : Session (List Bool)) :
      (exec ((Call.send pending).run .small (small.flaky 1)) s).2 =
        (exec (send (small.flaky 1) pending) s).2 := exec_discard _ s
  unfold afterCalls calls
  rw [List.foldl_cons, List.foldl_cons, List.foldl_nil, refreshed, sent]
  rfl

/-- The halfway wallet is small enough to be counted in its file. -/
theorem counted : halfway.history.Counted where
  chain := by decide +kernel
  transfers := by decide +kernel
  unconfirmed := by decide +kernel
  payments := by decide +kernel
  paymentsOf id := by
    -- no payment was noted
    have none : halfway.history.payments.toList = [] := by decide +kernel
    unfold History.paymentsOf
    rcases found : halfway.history.payments[id]? with - | records
    · decide
    · rw [← Std.ExtTreeMap.mem_toList_iff_getElem?_eq_some, none] at found
      cases found

/-- A disk with a keys file of the account. -/
def disk : Disk Unit where
  env := ()
  files := (Directory.empty "dir").putFile ["wallet.keys", "dir"]
    (KeysFile.codec.encode (KeysFile.lockWith account "" (.ofNat 0) (.ofNat 0)))

end Reloaded

open ChainServer Reloaded in
/-- A wallet that is halfway through a block, and has sent a transaction, is stored and opened
again. -/
theorem reload_of_afterCalls_halfway :
    (∀ key secret, KeyImage.ofKeys .small key secret ≠ .ok .null) ∧
      Wallet.create SmallSuite.account {} = .ok unread.wallet ∧ .detach 0 ∉ calls ∧
      (∀ p, .send p ∈ calls → p.tx.Fits) ∧
      let w := (afterCalls .small (small.flaky 1) calls unread).wallet
      (w.height, w.history.transfers.length, w.history.unconfirmed.toList.length) = (1, 2, 1) ∧
        ∃ disk', (WalletFiles.store small.environment "/dir/wallet" w).run.run disk =
            (.ok (), disk') ∧
          (WalletFiles.load .small "/dir/wallet" "" {}).run.run disk' = (.ok w, disk') := by
  have uncut : Call.detach 0 ∉ calls := by
    simp [calls]
  -- the sent transaction is small enough to be written
  have sent (p : PendingTransaction) (mem : .send p ∈ calls) : p.tx.Fits := by
    obtain rfl : p = pending := by simpa [calls] using mem
    exact SmallSuite.fits_payment (by decide +kernel)
  have unlocked : (WalletFiles.loadKeys .small "/dir/wallet" "").run.run disk =
      (.ok SmallSuite.account, disk) :=
    WalletFiles.run_loadKeys_eq_ok.mpr
      ⟨WalletFiles.accountIn_of_lockWith (by decide +kernel) rfl, rfl⟩
  -- the wallet is halfway through the second block when it is stored
  have count : (afterCalls .small (small.flaky 1) calls unread).history.Counted := by
    rw [afterCalls_calls]
    exact counted
  obtain ⟨-, -, reload⟩ := reload_of_afterCalls .small Suite.small_ofKeys_ne_null (small.flaky 1)
    small.environment SmallSuite.account {} unread rfl calls uncut sent count
  obtain ⟨disk', stored⟩ := WalletFiles.run_store small.environment "/dir/wallet"
    (afterCalls .small (small.flaky 1) calls unread).wallet disk fun note => ⟨_, rfl, _, rfl⟩
  refine ⟨Suite.small_ofKeys_ne_null, rfl, uncut, sent, ?_, disk', stored, ?_⟩
  · rw [afterCalls_calls]
    decide +kernel
  · exact reload "/dir/wallet" "" disk disk' unlocked stored

end RingWallet
