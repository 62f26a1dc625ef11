import Mathlib.Data.List.Sort
import RingWallet.Proofs.Spend.Build
import RingWallet.Proofs.Support.Script

/-!
# Rings

What the inputs of a transaction that was built are mixed with: `ring_of_build`. The ring of an
input has the global indices to which its offsets add up (`TxIn.ringIndices`); offsets of sorted
indices lose nothing (`Offsets.toAbsolute_toRelative`), nor do indices of offsets whose sum fits a
word (`Offsets.toRelative_toAbsolute`). A ring is made of what the daemon offers, in three steps:
the offers are sorted and the output itself is dropped from them (`Build.usable`), the first ones
are chosen (`Build.indices_chooseDecoys`), and the output is put among them at its place
(`Build.ringOf_eq`). `Build.Mixed` says what comes out.

The daemon's offers are counted before the output itself is dropped, and repetitions are kept. So a
ring can be too small, and a member can stand in it twice: `Build.Mixed.full_iff` says when a ring
is as it should be, and `Build.suffices_of_nodup` that a daemon which offers what it is asked for
gets such rings.
-/

set_option autoImplicit false

namespace RingWallet

open WalletM

namespace Offsets

/-- What was subtracted from a larger word can be added again. -/
theorem addSat_subSat {a b : UInt64} (le : a ≤ b) : a.addSat (b.subSat a) = b := by
  have bound := b.toNat_le_maxWord
  rw [UInt64.le_iff_toNat_le] at le
  rw [← UInt64.toNat_inj, UInt64.toNat_addSat, UInt64.toNat_subSat]
  omega

/-- Ascending indices come back from their differences. -/
theorem absoluteFrom_relativeFrom {previous : UInt64} {offsets : List UInt64}
    (sorted : (previous :: offsets).Pairwise (· ≤ ·)) :
    absoluteFrom previous (relativeFrom previous offsets) = offsets := by
  induction offsets generalizing previous with
  | nil => rfl
  | cons offset rest ih =>
    obtain ⟨le, sorted⟩ := List.pairwise_cons.mp sorted
    rw [relativeFrom, absoluteFrom, addSat_subSat (le offset List.mem_cons_self), ih sorted]

/-- The distances between sorted indices add up to the indices. -/
theorem toAbsolute_toRelative {offsets : List UInt64} (sorted : offsets.Pairwise (· ≤ ·)) :
    toAbsolute (toRelative offsets) = offsets :=
  absoluteFrom_relativeFrom (List.pairwise_cons.mpr ⟨fun _ _ => UInt64.zero_le, sorted⟩)

/-- What was added can be subtracted again, if the sum fits a word. -/
theorem subSat_addSat {a b : UInt64} (fits : a.toNat + b.toNat ≤ maxWord) :
    (a.addSat b).subSat a = b := by
  rw [← UInt64.toNat_inj, UInt64.toNat_subSat, UInt64.toNat_addSat]
  omega

/-- Differences come back from the indices, if these fit into words. -/
theorem relativeFrom_absoluteFrom {total : UInt64} {offsets : List UInt64}
    (fits : total.toNat + exactSum offsets ≤ maxWord) :
    relativeFrom total (absoluteFrom total offsets) = offsets := by
  induction offsets generalizing total with
  | nil => rfl
  | cons offset rest ih =>
    rw [exactSum_cons] at fits
    have sum : (total.addSat offset).toNat = total.toNat + offset.toNat := by
      rw [UInt64.toNat_addSat]
      omega
    rw [absoluteFrom, relativeFrom, subSat_addSat (by omega), ih (by omega)]

/-- The totals of distances that fit a word lie at these distances. -/
theorem toRelative_toAbsolute {offsets : List UInt64} (fits : exactSum offsets ≤ maxWord) :
    toRelative (toAbsolute offsets) = offsets :=
  relativeFrom_absoluteFrom (by simpa using fits)

end Offsets

/-- The global indices of the outputs among which an input hides the one that it spends. -/
def TxIn.ringIndices : TxIn → List UInt64
  | generated _ => []
  | toKey _ offsets _ => Offsets.toAbsolute offsets

namespace Build

/-! ### Making a ring -/

/-- The real member is put where the order of the indices wants it. -/
theorem ringOf_eq (decoys : List (UInt64 × PublicKey)) (real : UInt64 × PublicKey) :
    (ringOf decoys real).1 = decoys.orderedInsert (fun a b => a.1 ≤ b.1) real := by
  unfold ringOf
  induction decoys with
  | nil => rfl
  | cons d rest ih =>
    by_cases first : real.1 ≤ d.1
    · simp [List.findIdx_cons, first]
    · simpa [List.findIdx_cons, first] using ih

/-- The offers that can be used in a ring, by ascending index: all but the output itself. -/
def usable (real : UInt64) (offered : List Daemon.Decoy) : List UInt64 :=
  ((offered.map Daemon.Decoy.globalIndex).mergeSort (· ≤ ·)).filter (· ≠ real)

/-- The first offers that can be used are chosen. -/
theorem indices_chooseDecoys {mixin real : UInt64} {offered : List Daemon.Decoy}
    {chosen : List (UInt64 × PublicKey)} (run : chooseDecoys mixin real offered = .ok chosen) :
    chosen.map Prod.fst = (usable real offered).take mixin.toNat := by
  have indices : ((((offered.mergeSort fun a b => a.globalIndex ≤ b.globalIndex).filter fun d =>
      d.globalIndex ≠ real).take mixin.toNat).map Daemon.Decoy.globalIndex) =
      chosen.map Prod.fst := by
    rw [← List.forall₂_eq_eq_eq, List.forall₂_map_left_iff, List.forall₂_map_right_iff]
    refine (Except.forall₂_of_mapM_eq_ok run).imp fun d member step => ?_
    obtain ⟨key, -, eq⟩ := Except.bind_eq_ok.mp step
    exact congrArg Prod.fst (Except.ok.inj eq)
  -- sorting and dropping look at the indices alone
  have sorted : (offered.map Daemon.Decoy.globalIndex).mergeSort (· ≤ ·) =
      (offered.mergeSort fun a b => a.globalIndex ≤ b.globalIndex).map Daemon.Decoy.globalIndex :=
    (List.map_mergeSort (f := Daemon.Decoy.globalIndex) fun _ _ _ _ => rfl).symm
  rw [← indices, List.map_take, usable, sorted, List.filter_map]
  rfl

/-- A ring for the output with a global index, made of what is offered: by ascending index, the
output itself and the first `mixin` offers that can be used. -/
structure Mixed (mixin : Nat) (real : UInt64) (offered : List Daemon.Decoy) (ring : List UInt64) :
    Prop where
  sorted : ring.Pairwise (· ≤ ·)
  members : ring.Perm (real :: (usable real offered).take mixin)

/-- A ring with the number of decoys that is wanted, no two of its members the same. -/
def FullRing (mixin : Nat) (ring : List UInt64) : Prop :=
  ring.length = mixin + 1 ∧ ring.Pairwise (· < ·)

/-- Enough of what is offered for an output can be used, without repetitions. -/
def Suffices (mixin : Nat) (real : UInt64) (offered : List Daemon.Decoy) : Prop :=
  mixin ≤ (usable real offered).length ∧ ((usable real offered).take mixin).Nodup

/-- A ring is made of the decoys that are chosen and of the real output. -/
theorem mixed_of_chooseDecoys {mixin real : UInt64} {offered : List Daemon.Decoy}
    {chosen : List (UInt64 × PublicKey)} (run : chooseDecoys mixin real offered = .ok chosen)
    (key : PublicKey) :
    Mixed mixin.toNat real offered ((ringOf chosen (real, key)).1.map Prod.fst) := by
  have indices := indices_chooseDecoys run
  have ring : (ringOf chosen (real, key)).1.map Prod.fst =
      ((usable real offered).take mixin.toNat).orderedInsert (· ≤ ·) real := by
    rw [ringOf_eq, ← indices]
    exact List.map_orderedInsert _ _ _ _ _ (fun _ _ => Iff.rfl) fun _ _ => Iff.rfl
  rw [ring]
  refine ⟨.orderedInsert _ _ ?_, List.perm_orderedInsert _ _ _⟩
  exact ((List.pairwise_mergeSort' (· ≤ ·) _).filter _).sublist (List.take_sublist _ _)

namespace Mixed

variable {mixin : Nat} {real : UInt64} {offered : List Daemon.Decoy} {ring : List UInt64}

/-- The output itself is no decoy of its ring. -/
theorem notMem_usable : real ∉ (usable real offered).take mixin := by
  intro mem
  have kept := List.of_mem_filter ((List.take_sublist _ _).subset mem)
  simp at kept

/-- Exactly one member of the ring is the output itself. -/
theorem count_real (mixed : Mixed mixin real offered ring) : ring.count real = 1 := by
  rw [mixed.members.count_eq, List.count_cons_self, List.count_eq_zero.mpr notMem_usable]

/-- A ring has as many members as are wanted, or as there are. -/
theorem length_eq (mixed : Mixed mixin real offered ring) :
    ring.length = min mixin (usable real offered).length + 1 := by
  rw [mixed.members.length_eq, List.length_cons, List.length_take]

/-- The members of a ring are distinct when the decoys in it are. -/
theorem increasing_iff (mixed : Mixed mixin real offered ring) :
    ring.Pairwise (· < ·) ↔ ((usable real offered).take mixin).Nodup := by
  have strict : ring.Pairwise (· < ·) ↔ ring.Nodup := by
    constructor
    · exact fun increasing => increasing.imp UInt64.ne_of_lt
    · exact fun distinct => (mixed.sorted.and distinct).imp fun ⟨le, ne⟩ =>
        UInt64.lt_of_le_of_ne le ne
  rw [strict, mixed.members.nodup_iff, List.nodup_cons]
  exact and_iff_right notMem_usable

/-- A ring is full exactly when what is offered suffices. -/
theorem full_iff (mixed : Mixed mixin real offered ring) :
    FullRing mixin ring ↔ Suffices mixin real offered := by
  rw [FullRing, Suffices, mixed.increasing_iff, mixed.length_eq]
  exact and_congr_left fun _ => by omega

end Mixed

/-- It suffices to offer as many decoys as the wallet asks for, one more than a ring needs, and no
two of them the same. -/
theorem suffices_of_nodup {mixin : Nat} {real : UInt64} {offered : List Daemon.Decoy}
    (distinct : (offered.map Daemon.Decoy.globalIndex).Nodup) (enough : mixin < offered.length) :
    Suffices mixin real offered := by
  have sorted : ((offered.map Daemon.Decoy.globalIndex).mergeSort (· ≤ ·)).Perm
      (offered.map Daemon.Decoy.globalIndex) := List.mergeSort_perm _ _
  have nodup := sorted.nodup_iff.mpr distinct
  refine ⟨?_, (nodup.filter _).sublist (List.take_sublist _ _)⟩
  -- at most one of the offers is the output itself
  have dropped : usable real offered =
      ((offered.map Daemon.Decoy.globalIndex).mergeSort (· ≤ ·)).erase real := by
    rw [nodup.erase_eq_filter]
    exact List.filter_congr fun a _ => Bool.eq_iff_iff.mpr (by simp)
  have most := List.le_length_erase (a := real)
    (l := (offered.map Daemon.Decoy.globalIndex).mergeSort (· ≤ ·))
  rw [← dropped, sorted.length_eq, List.length_map] at most
  omega

/-- The ring that is made for a selected output. -/
theorem mixed_of_sourceOf {w : Wallet} {mixin : UInt64} {handle : Handle}
    {offered : List Daemon.Decoy} {source : SpendableSource}
    (run : sourceOf w mixin handle offered = .ok source.source) :
    ∃ t, w.history.transfers[handle.index]? = some t ∧
      Mixed mixin.toNat t.globalIndex offered source.input.ringIndices := by
  obtain ⟨t, at_index, -, chosen, key, choice, ring⟩ := of_sourceOf run
  have mixed := mixed_of_chooseDecoys choice key
  refine ⟨t, at_index, ?_⟩
  show Mixed _ _ _ (Offsets.toAbsolute (Offsets.toRelative (source.source.ring.map Prod.fst)))
  rw [ring, Offsets.toAbsolute_toRelative mixed.sorted]
  exact mixed

end Build

/-- A transaction that was built with decoys, for any wallet and request and whatever the daemon and
the source of random words answer. Asked when the outputs had been selected, the daemon has offered
decoys for each input, at least as many as are wanted. The ring of the input is the output that it
spends, which stands in it once, and the first of the others that the daemon has offered, by
ascending index. So the ring is full exactly when what was offered suffices, as it does when the
daemon has offered the decoys that the wallet asks for, no two of them the same. -/
theorem ring_of_build (S : Suite) {σ : Type} (env : Environment σ) (r : TransferRequest)
    (s t : Session σ) (p : PendingTransaction) (run : exec (build S env r) s = (.ok p, t))
    (mixes : r.mixin ≠ 0) :
    ∃ reply, Build.Offered env (Build.asking env s r) s.wallet r.mixin p.selected reply ∧
      List.Forall₂ (fun input (handle, offer) => ∃ t, s.history.transfers[handle.index]? = some t ∧
        Build.Mixed r.mixin.toNat t.globalIndex offer.decoys input.ringIndices ∧
        input.ringIndices.count t.globalIndex = 1 ∧
        (Build.FullRing r.mixin.toNat input.ringIndices ↔
          Build.Suffices r.mixin.toNat t.globalIndex offer.decoys) ∧
        ((offer.decoys.map Daemon.Decoy.globalIndex).Nodup →
          r.mixin.toNat < offer.decoys.length → Build.FullRing r.mixin.toNat input.ringIndices))
        p.tx.inputs (p.selected.zip reply.amounts) := by
  obtain ⟨⟨draft, drafted, offers⟩, -⟩ := Build.drafted_of_build run
  obtain ⟨reply, offered, eq⟩ := offers mixes
  refine ⟨reply, offered, ?_⟩
  have sourced := Except.forall₂_of_mapM_eq_ok drafted.sourced
  rw [eq, List.zip_map_right, List.forall₂_map_left_iff, List.forall₂_map_right_iff] at sourced
  rw [drafted.inputs, List.forall₂_map_left_iff]
  refine sourced.flip.imp fun source ⟨handle, offer⟩ run => ?_
  obtain ⟨t, at_index, mixed⟩ := Build.mixed_of_sourceOf run
  exact ⟨t, at_index, mixed, mixed.count_real, mixed.full_iff, fun distinct enough =>
    mixed.full_iff.mpr (Build.suffices_of_nodup distinct enough)⟩

/-! ### A ring of two, and a ring of one -/

namespace Mixing

open SmallSuite

/-- A decoy with the key of a payment. -/
def decoy (globalIndex : UInt64) (sender : Nat) : Daemon.Decoy where
  globalIndex
  key := Hex.encode (key sender).bytes.toList

/-- A daemon that offers the same decoys for every amount. -/
def offering (decoys : List Daemon.Decoy) : Environment Script :=
  { Script.environment with
    getDecoys := fun r script => (.ok { status := Daemon.okStatus
                                        amounts := r.amounts.map (⟨·, decoys⟩) }, script) }

/-- A wallet with one output of 1000, whose global index is 7. -/
def wallet : Session Script where
  env := {}
  wallet := ⟨account, { spendableAge := 1 },
    { chain := [.null, .null, .null]
      transfers :=
        [⟨1, payment 3 1000 [], (payment 3 1000 []).hash .small, 0, 7, false, image 3⟩] }⟩

/-- 1000 for somebody else, with one decoy. -/
def request : TransferRequest :=
  .standard wallet.wallet.config [⟨1000, ⟨.ofPoint .small (11 : Nat), .ofPoint .small (13 : Nat)⟩⟩]
    1 0 0 []

end Mixing

open Mixing in
/-- The daemon offers the output with index 3, which becomes the decoy. -/
theorem ring_of_build_small :
    ∃ p t, exec (build .small (offering [decoy 3 9]) request) wallet = (.ok p, t) ∧
      request.mixin ≠ 0 ∧ p.tx.inputs.map TxIn.ringIndices = [[3, 7]] ∧
      ∃ reply, Build.Offered (offering [decoy 3 9])
          (Build.asking (offering [decoy 3 9]) wallet request) wallet.wallet 1 p.selected reply ∧
        List.Forall₂ (fun input (handle, offer) => ∃ t, wallet.history.transfers[handle.index]? =
          some t ∧ Build.Mixed 1 t.globalIndex offer.decoys input.ringIndices ∧
          input.ringIndices.count t.globalIndex = 1)
          p.tx.inputs (p.selected.zip reply.amounts) := by
  have rings : (exec (build .small (offering [decoy 3 9]) request) wallet).1.toOption.map (fun p =>
      p.tx.inputs.map TxIn.ringIndices) = some [[3, 7]] := by decide +kernel
  obtain ⟨p, built, rings⟩ := Option.map_eq_some_iff.mp rings
  have run := exec_eq_ok built
  obtain ⟨reply, offered, each⟩ :=
    ring_of_build .small (offering [decoy 3 9]) request wallet _ p run (by decide)
  refine ⟨p, _, run, by decide, rings, reply, offered, each.imp ?_⟩
  rintro input ⟨handle, offer⟩ ⟨t, at_index, mixed, once, -⟩
  exact ⟨t, at_index, mixed, once⟩

open Mixing in
/-- The only output that the daemon offers is the one that is spent. That is as many as were wanted,
so the transaction is built, without any decoy. -/
theorem lonely_ring_of_build :
    ∃ p t, exec (build .small (offering [⟨7, ""⟩]) request) wallet = (.ok p, t) ∧
      request.mixin = 1 ∧ p.tx.inputs.map TxIn.ringIndices = [[7]] ∧
      ∀ input ∈ p.tx.inputs, ¬ Build.FullRing 1 input.ringIndices := by
  have rings : (exec (build .small (offering [⟨7, ""⟩]) request) wallet).1.toOption.map (fun p =>
      p.tx.inputs.map TxIn.ringIndices) = some [[7]] := by decide +kernel
  obtain ⟨p, built, rings⟩ := Option.map_eq_some_iff.mp rings
  refine ⟨p, _, exec_eq_ok built, rfl, rings, fun input mem full => ?_⟩
  have ring : input.ringIndices ∈ [[7]] := rings ▸ List.mem_map_of_mem mem
  rw [List.mem_singleton.mp ring] at full
  exact absurd full.1 (by decide)

end RingWallet
