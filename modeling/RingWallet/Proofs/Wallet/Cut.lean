import RingWallet.Proofs.Wallet.Payments

/-!
# Cutting back, record by record

`History.detach` cuts the list of outputs at the first one that is too high, and takes the images of
the cut off outputs out of the index. `History.below` is the same operation without any use of the
order: each output, each entry of the index and each payment stays or goes for its own height.

The two agree on a history whose outputs are ordered by height and whose index agrees with them
(`History.detach_eq_below`), and such is every history that a new wallet reaches, whatever the calls
and however they fail (`detach_afterCalls`).
-/

set_option autoImplicit false

namespace RingWallet

namespace History

variable {h : History} {n : Nat}

/-- What was learned from the blocks below a height. An entry of the index is about the output at
its position, and an id under which no payment is left is not listed. -/
def below (h : History) (n : Nat) : History where
  chain := h.chain.take n
  transfers := h.transfers.filter fun t => t.blockHeight < n
  keyImages := h.keyImages.filter fun _ i => (h.transfers[i]?).any fun t => t.blockHeight < n
  unconfirmed := h.unconfirmed
  payments := (h.payments.map fun _ records => records.filter fun p => p.blockHeight < n).filter
    fun _ records => !records.isEmpty

/-- The positions after a cut are those of the outputs below it. -/
theorem getElem?_transfers_detach_iff
    (sorted : h.transfers.Pairwise fun t u => t.blockHeight ≤ u.blockHeight) {i : Nat}
    {t : Transfer} :
    (h.detach n).transfers[i]? = some t ↔ h.transfers[i]? = some t ∧ t.blockHeight < n := by
  constructor
  · intro kept
    have inside := (List.getElem?_eq_some_iff.mp kept).1
    refine ⟨?_, ((mem_transfers_detach sorted).mp (List.mem_of_getElem? kept)).2⟩
    rw [transfers_eq_append_dropped h n, List.getElem?_append_left inside]
    exact kept
  · rintro ⟨at_i, low⟩
    exact getElem?_transfers_detach sorted at_i low

/-- An entry of the index stays exactly if its output does. -/
theorem getElem?_keyImages_detach_iff (indexed : h.Indexed (· ≠ .null))
    (sorted : h.transfers.Pairwise fun t u => t.blockHeight ≤ u.blockHeight) {image : KeyImage}
    {i : Nat} :
    (h.detach n).keyImages[image]? = some i ↔
      h.keyImages[image]? = some i ∧ ∃ t, h.transfers[i]? = some t ∧ t.blockHeight < n := by
  have images (h : History) :
      h.images[i]? = some image ↔ ∃ t, h.transfers[i]? = some t ∧ t.keyImage = image := by
    unfold History.images
    rw [List.getElem?_map, Option.map_eq_some_iff]
  rw [indexed.detach n image i, indexed image i, images, images]
  -- an entry of either index is the image of the transfer at its position
  constructor
  · rintro ⟨known, t, kept, own⟩
    obtain ⟨at_i, low⟩ := (getElem?_transfers_detach_iff sorted).mp kept
    exact ⟨⟨known, t, at_i, own⟩, t, at_i, low⟩
  · rintro ⟨⟨known, t, at_i, own⟩, u, at_i', low⟩
    obtain rfl : t = u := Option.some.inj (at_i.symm.trans at_i')
    exact ⟨known, t, (getElem?_transfers_detach_iff sorted).mpr ⟨at_i, low⟩, own⟩

/-- The index after a cut is that of the outputs below it. -/
theorem keyImages_detach_eq_filter (indexed : h.Indexed (· ≠ .null))
    (sorted : h.transfers.Pairwise fun t u => t.blockHeight ≤ u.blockHeight) (n : Nat) :
    (h.detach n).keyImages = (h.below n).keyImages := by
  apply Std.ExtTreeMap.ext_getElem?
  intro image
  apply Option.ext
  intro i
  show _ ↔ (h.keyImages.filter _)[image]? = some i
  rw [getElem?_keyImages_detach_iff indexed sorted, Std.ExtTreeMap.getElem?_filter',
    Option.filter_eq_some_iff, Option.any_eq_true]
  simp only [decide_eq_true_eq]

/-- The payments after a cut are those below it. -/
theorem payments_detach_eq_filter (h : History) (n : Nat) :
    (h.detach n).payments = (h.below n).payments := by
  apply Std.ExtTreeMap.ext_getElem?
  intro id
  show _ = ((h.payments.map _).filter _)[id]?
  rw [getElem?_payments_detach, Std.ExtTreeMap.getElem?_filter', Std.ExtTreeMap.getElem?_map,
    paymentsOf]
  -- an id is kept if any of its payments lies below the cut
  rcases h.payments[id]? with - | records
  · rfl
  · rw [Option.getD_some, Option.map_some]
    generalize records.filter (fun p => decide (p.blockHeight < n)) = kept
    cases kept with
    | nil => rfl
    | cons p rest => rfl

/-- An id is listed below a height with its payments below it, if there are any. -/
theorem getElem?_payments_below {id : Hash} {records : List Payment} :
    (h.below n).payments[id]? = some records ↔
      records ≠ [] ∧
        ∃ old, h.payments[id]? = some old ∧ records = old.filter fun p => p.blockHeight < n := by
  rw [← payments_detach_eq_filter, getElem?_payments_detach, paymentsOf]
  rcases h.payments[id]? with - | old
  · simp
  · simp only [Option.getD_some, Option.some.injEq, exists_eq_left']
    split
    · next none => simp [none]
    · next some =>
      rw [Option.some.injEq, eq_comm, iff_and_self]
      rintro rfl
      exact some

/-- Cutting off a suffix leaves what is below the height. -/
theorem detach_eq_below (indexed : h.Indexed (· ≠ .null))
    (sorted : h.transfers.Pairwise fun t u => t.blockHeight ≤ u.blockHeight) (n : Nat) :
    h.detach n = h.below n := by
  have transfers : (h.detach n).transfers = (h.below n).transfers :=
    transfers_detach_eq_filter sorted n
  have keyImages := keyImages_detach_eq_filter indexed sorted n
  have payments := payments_detach_eq_filter h n
  show (⟨_, _, _, _, _⟩ : History) = ⟨_, _, _, _, _⟩
  congr 1

end History

open WalletM

variable {σ : Type}

/-- Whatever calls a new wallet has made, and however they have ended, cutting it back to a height
keeps exactly what was learned below that height: the block ids up to there, the outputs below it as
they are and in their order, the entries of the index that point at them, under the positions that
they had, and the payments below it, where an id under which none is left is not listed. It leaves
the transactions that wait for a block alone, and gives the number of ids that are gone. -/
theorem detach_afterCalls (S : Suite) (env : Environment σ)
    (derivable : ∀ key secret, KeyImage.ofKeys S key secret ≠ .ok .null)
    (account : Account) (config : Config) (calls : List Call) (s : Session σ)
    (created : Wallet.create account config = .ok s.wallet) (n : Nat) :
    let t : Session σ := afterCalls S env calls s
    let h : History := t.history
    let kept : History := h.below n
    exec (Sync.detach n) t = (.ok (h.chain.length - kept.chain.length), t.withHistory kept) ∧
      kept.chain = h.chain.take n ∧ kept.chain.length = min h.chain.length n ∧
      kept.transfers = h.transfers.filter (fun u => u.blockHeight < n) ∧
      (∀ (i : Nat) (u : Transfer),
        kept.transfers[i]? = some u ↔ h.transfers[i]? = some u ∧ u.blockHeight < n) ∧
      (∀ (image : KeyImage) (i : Nat), kept.keyImages[image]? = some i ↔
        h.keyImages[image]? = some i ∧
          ∃ u : Transfer, h.transfers[i]? = some u ∧ u.blockHeight < n ∧ u.keyImage = image) ∧
      (∀ (id : Hash) (records : List Payment), kept.payments[id]? = some records ↔
        records ≠ [] ∧ ∃ old : List Payment, h.payments[id]? = some old ∧
          records = old.filter fun p => p.blockHeight < n) ∧
      kept.unconfirmed = h.unconfirmed := by
  intro t h kept
  -- the history is consistent, so that what is dropped is a suffix of the outputs
  have hc : h.Consistent S :=
    afterCalls_holds (P := fun s : Session σ => s.history.Consistent S)
      (fun call _ _ hc => call.consistent derivable hc) (consistent_create created)
  have same : h.detach n = kept := History.detach_eq_below hc.indexed hc.sorted n
  have length : kept.chain.length = min h.chain.length n := by
    show (h.chain.take n).length = _
    rw [List.length_take, Nat.min_comm]
  refine ⟨?_, rfl, length, rfl, ?_, ?_, fun id records => History.getElem?_payments_below, rfl⟩
  · have run : exec (Sync.detach n) t =
        (.ok (h.chain.length - n), t.withHistory (h.detach n)) := rfl
    have gone : h.chain.length - min h.chain.length n = h.chain.length - n := by omega
    rw [run, same, length, gone]
  · intro i u
    rw [← same]
    exact History.getElem?_transfers_detach_iff hc.sorted
  · intro image i
    rw [← same, History.getElem?_keyImages_detach_iff hc.indexed hc.sorted]
    refine and_congr_right fun found => exists_congr fun u => ?_
    -- the index points at the transfer with the image
    constructor
    · rintro ⟨at_i, low⟩
      obtain ⟨-, own⟩ := (hc.indexed image i).mp found
      rw [History.images, List.getElem?_map, at_i] at own
      exact ⟨at_i, low, Option.some.inj own⟩
    · rintro ⟨at_i, low, -⟩
      exact ⟨at_i, low⟩

open Reused in
/-- A wallet has received a reward and a payment in its first block, and loses both in a cut to the
height 0. -/
theorem detach_afterCalls_paid :
    (∀ key secret, KeyImage.ofKeys .small key secret ≠ .ok .null) ∧
      Wallet.create SmallSuite.account {} = .ok unpaid.wallet ∧
      afterCalls .small Script.environment [.refreshFromLocalChain] unpaid = paid ∧
      paid.history.transfers.length = 1 ∧ (paid.history.paymentsOf Reused.id).length = 1 ∧
      exec (Sync.detach 0) paid = (.ok 1, paid.withHistory (paid.history.below 0)) ∧
      (paid.history.below 0).transfers = [] ∧ (paid.history.below 0).paymentsOf Reused.id = [] := by
  obtain ⟨summary, refresh⟩ := paid_of_unpaid
  have reached : afterCalls .small Script.environment [.refreshFromLocalChain] unpaid = paid := by
    rw [afterCalls, List.foldl_cons, List.foldl_nil, Call.run, exec_discard, refresh]
  obtain ⟨run, -⟩ := detach_afterCalls .small Script.environment Suite.small_ofKeys_ne_null
    SmallSuite.account {} [.refreshFromLocalChain] unpaid rfl 0
  rw [reached] at run
  -- before the cut there is one output and one payment
  have before : paid.history.transfers.length = 1 ∧
      (paid.history.paymentsOf Reused.id).length = 1 ∧
      paid.history.chain.length - (paid.history.below 0).chain.length = 1 := by
    decide +kernel
  have after : (paid.history.below 0).transfers = [] ∧
      (paid.history.below 0).paymentsOf Reused.id = [] := by decide +kernel
  rw [before.2.2] at run
  exact ⟨Suite.small_ofKeys_ne_null, rfl, reached, before.1, before.2.1, run, after⟩

end RingWallet
