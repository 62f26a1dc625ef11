import RingWallet.Proofs.Wallet.Calls

/-!
# How high a history reaches

`History.Within n` says that all transfers and payments stand below the height `n`. Each step of a
refresh keeps a history within its own height, as long as no block fails (`Sync.Calm.within`). A
failed block is scanned at the height of the chain, so that in general a history is only within its
height and one more (`within_afterCalls`).
-/

set_option autoImplicit false

namespace RingWallet

open Relation WalletM

namespace History

/-- Everything that was learned from blocks stands below a height. -/
structure Within (n : Nat) (h : History) : Prop where
  transfers : ∀ t ∈ h.transfers, t.blockHeight < n
  payments : ∀ id, ∀ p ∈ h.paymentsOf id, p.blockHeight < n
  /-- An id without payments is not listed. -/
  payments_ne_nil : ∀ id : Hash, h.payments[id]? ≠ some []

variable {m n : Nat} {h h' : History}

/-- What lies within some heights lies within more. -/
theorem Within.mono (hw : h.Within m) (le : m ≤ n) : h.Within n where
  transfers t ht := Nat.lt_of_lt_of_le (hw.transfers t ht) le
  payments id p hp := Nat.lt_of_lt_of_le (hw.payments id p hp) le
  payments_ne_nil := hw.payments_ne_nil

/-- Spent flags and payments aside, nothing has changed. -/
theorem Within.sameOutputs (hw : h.Within n) (same : SameOutputs h h')
    (payments : h'.payments = h.payments) : h'.Within n where
  transfers := same.forall_mem (fun _ => Iff.rfl) hw.transfers
  payments id := by
    rw [paymentsOf, payments]
    exact hw.payments id
  payments_ne_nil := by
    rw [payments]
    exact hw.payments_ne_nil

/-- Marking an output keeps it at its height. -/
theorem Within.spend (hw : h.Within n) (image : KeyImage) : (h.spend image).Within n := by
  refine hw.sameOutputs (sameOutputs_spend h image) ?_
  unfold History.spend
  rcases h.keyImages[image]? with - | i <;> rfl

/-- An output is recorded within the heights if its own lies there. -/
theorem Within.record (hw : h.Within n) {t : Transfer} {image : Option KeyImage}
    (below : t.blockHeight < n) : (h.record t image).Within n where
  transfers u hu := by
    rcases List.mem_append.mp hu with hu | hu
    · exact hw.transfers u hu
    · rw [List.mem_singleton.mp hu]
      exact below
  payments := hw.payments
  payments_ne_nil := hw.payments_ne_nil

/-- A payment is noted within the heights if its own lies there. -/
theorem Within.addPayment (hw : h.Within n) {id : Hash} {p : Payment} (below : p.blockHeight < n) :
    (h.addPayment id p).Within n := by
  unfold History.addPayment
  simp only []
  split
  · exact hw
  · refine ⟨hw.transfers, ?_, ?_⟩
    · intro id' q hq
      -- the payment is noted under its own id, and the other ids keep theirs
      by_cases hid : id = id'
      · subst hid
        simp only [paymentsOf, Std.ExtTreeMap.getElem?_insert_self, Option.getD_some,
          List.mem_append, List.mem_singleton] at hq
        rcases hq with hq | rfl
        · exact hw.payments id q hq
        · exact below
      · simp only [paymentsOf, Std.ExtTreeMap.getElem?_insert,
          Std.LawfulEqOrd.compare_eq_iff_eq, if_neg hid] at hq
        exact hw.payments id' q hq
    · intro id'
      by_cases hid : id = id'
      · subst hid
        simp
      · simpa [Std.ExtTreeMap.getElem?_insert, hid] using hw.payments_ne_nil id'

/-- After a cut, a payment id keeps the payments below it, and is forgotten if none are left. -/
theorem getElem?_payments_detach (h : History) (n : Nat) (id : Hash) :
    (h.detach n).payments[id]? =
      if (h.paymentsOf id).filter (fun p => p.blockHeight < n) = [] then none
      else some ((h.paymentsOf id).filter fun p => p.blockHeight < n) := by
  show (h.payments.filterMap _)[id]? = _
  rw [Std.ExtTreeMap.getElem?_filterMap', paymentsOf]
  rcases h.payments[id]? with - | records
  · rfl
  · -- an id that has no payment left is dropped
    simp only [Option.bind_some, Option.getD_some]
    generalize List.filter (fun p => decide (p.blockHeight < n)) records = kept
    cases kept with
    | nil => rfl
    | cons p rest => rfl

/-- Cutting back keeps the payments below the height. -/
theorem paymentsOf_detach (h : History) (n : Nat) (id : Hash) :
    (h.detach n).paymentsOf id = (h.paymentsOf id).filter fun p => p.blockHeight < n := by
  show ((h.detach n).payments[id]?).getD [] = _
  rw [getElem?_payments_detach]
  split
  · next none => exact none.symm
  · rfl

/-- What was within a height still is, and everything is within the height of the cut. -/
theorem Within.detach (hw : h.Within m) (n : Nat) : (h.detach n).Within (min m n) where
  transfers t ht := by
    -- what stays lies below the cut, and where it was before
    have below : t.blockHeight < n := by simpa using List.mem_takeWhile_imp ht
    have := hw.transfers t ((List.takeWhile_prefix _).subset ht)
    omega
  payments id p hp := by
    rw [paymentsOf_detach, List.mem_filter] at hp
    have := hw.payments id p hp.1
    have below : p.blockHeight < n := by simpa using hp.2
    omega
  payments_ne_nil id := by
    rw [getElem?_payments_detach]
    split
    · simp
    · next some => simpa using some

/-- Heights that count as scanned only make the chain longer. -/
theorem height_assumeScanned (h : History) (n : Nat) :
    (h.assumeScanned n).height = max h.height n := by
  show (h.chain ++ List.replicate (n - h.chain.length) Hash.null).length = max h.chain.length n
  rw [List.length_append, List.length_replicate]
  omega

/-- Blocks that are assumed to be scanned leave as much room above the history as there was. -/
theorem Within.assumeScanned {k : Nat} (hw : h.Within (h.height + k)) (n : Nat) :
    (h.assumeScanned n).Within ((h.assumeScanned n).height + k) := by
  have longer : h.height ≤ (h.assumeScanned n).height :=
    (height_assumeScanned h n).symm ▸ Nat.le_max_left _ _
  have same := hw.mono (Nat.add_le_add_right longer k)
  exact ⟨same.transfers, same.payments, same.payments_ne_nil⟩

end History

open History

variable {S : Suite} {σ : Type} {env : Environment σ} {target : Option Hash}

/-- A change at a height keeps a history within every greater height. -/
theorem Scan.Changes.within {txs : List (Hash × Transaction)} {height n : Nat} {h h' : History}
    (changes : Scan.Changes S txs height h h') (below : height < n) (hw : h.Within n) :
    h'.Within n := by
  induction changes with
  | refl => exact hw
  | tail _ change ih =>
    cases change with
    | forget mem => exact ih.sameOutputs (sameOutputs_forget _ _) rfl
    | record found new => exact ih.record (found.height_eq ▸ below)
    | spend mem input => exact ih.spend _
    | pay id mem at_height => exact ih.addPayment (at_height ▸ below)

namespace Sync

/-- A completed step keeps a history as far within its own height as it was. -/
theorem Step.within {s t : Session σ} (k : Nat) (step : Step S env target s t)
    (hw : s.history.Within (s.history.height + k)) : t.history.Within (t.history.height + k) := by
  cases step with
  | @added entry b parsed run =>
    obtain ⟨h', changes, wallet⟩ := changes_of_addBlock_ok run
    -- the scan is at the old height, which is below the new one
    have grown : t.history.height = s.history.height + 1 := height_of_addBlock run
    have scanned := changes.within (n := t.history.height + k) (by omega) (hw.mono (by omega))
    have same : t.history = { h' with chain := h'.chain ++ [b.id] } :=
      congrArg Wallet.history wallet
    rw [same] at scanned ⊢
    exact ⟨scanned.transfers, scanned.payments, scanned.payments_ne_nil⟩
  | @adopted height id unknown wallet =>
    rw [Session.history, wallet]
    have same : (s.history.chain.set height id).length = s.history.chain.length := List.length_set
    refine ⟨fun u hu => ?_, fun i p hp => ?_, hw.payments_ne_nil⟩
    · have := hw.transfers u hu
      show u.blockHeight < (s.history.chain.set height id).length + k
      rwa [same]
    · have := hw.payments i p hp
      show p.blockHeight < (s.history.chain.set height id).length + k
      rwa [same]
  | @detached height below wallet =>
    rw [Session.history, wallet]
    refine (hw.detach height).mono ?_
    show min (s.history.height + k) height ≤ (s.history.chain.take height).length + k
    rw [List.length_take]
    unfold History.height at below ⊢
    omega

/-- As long as no block fails, everything stands below the end of the chain. -/
theorem Calm.within {s t : Session σ} (calm : Calm S env target s t)
    (hw : s.history.Within s.history.height) : t.history.Within t.history.height := by
  induction calm with
  | refl => exact hw
  | tail _ move ih =>
    rcases move with step | same
    · exact step.within 0 ih
    · rw [Session.history, same]
      exact ih

/-- A failed block reaches one height beyond the chain. -/
theorem Path.within {s t : Session σ} (path : Path S env target s t)
    (hw : s.history.Within (s.history.height + 1)) : t.history.Within (t.history.height + 1) := by
  induction path with
  | refl => exact hw
  | @tail u v _ move ih =>
    rcases move with step | ⟨b, failed⟩ | same
    · exact step.within 1 ih
    · -- the scan is at the height of the chain, which does not grow
      obtain ⟨parsed, run⟩ := failed
      obtain ⟨h', changes, wallet⟩ := changes_of_addBlock_error run
      have scanned := changes.within (Nat.lt_succ_self _) ih
      rw [Session.history, wallet]
      show h'.Within (h'.chain.length + 1)
      rw [changes.chain_eq]
      exact scanned
    · rw [Session.history, same]
      exact ih

end Sync

/-! ### Calls -/

/-- A call keeps a history within its height and one more, however it ends. -/
theorem Call.within (call : Call) {s : Session σ}
    (hw : s.history.Within (s.history.height + 1)) :
    (exec (call.run S env) s).2.history.Within
      ((exec (call.run S env) s).2.history.height + 1) := by
  refine call.holds (P := fun h => h.Within (h.height + 1)) hw ?_ ?_ hw.assumeScanned ?_
  · intro start target
    refine (Sync.path_pull S env target start s).within ?_
    cases start with
    | fixed height => exact hw.assumeScanned height
    | localChain => exact hw
  -- what lies below both heights lies below the smaller one
  · intro height _
    refine (hw.detach height).mono ?_
    show min (s.history.height + 1) height ≤ (s.history.chain.take height).length + 1
    rw [List.length_take]
    unfold History.height
    omega
  · intro pending now _
    obtain ⟨same, payments⟩ := sameOutputs_markSent s.history pending now
    show (s.history.markSent pending now).Within ((s.history.markSent pending now).chain.length + 1)
    rw [same.chain]
    exact hw.sameOutputs same payments

/-- A new wallet has learned nothing. -/
theorem within_create {account : Account} {config : Config} {w : Wallet}
    (created : Wallet.create account config = .ok w) (n : Nat) : w.history.Within n := by
  obtain ⟨chain, -, rfl⟩ := eq_of_create created
  refine ⟨by simp, ?_, by simp⟩
  intro id p hp
  simp [paymentsOf] at hp

variable (S env) in
/-- After any calls nothing stands more than one height beyond the chain. -/
theorem within_afterCalls {account : Account} {config : Config} (calls : List Call) {s : Session σ}
    (created : Wallet.create account config = .ok s.wallet) :
    (afterCalls S env calls s).history.Within ((afterCalls S env calls s).history.height + 1) :=
  afterCalls_holds (P := fun s : Session σ => s.history.Within (s.history.height + 1))
    (fun call _ _ hw => call.within hw) (within_create created _)

end RingWallet
