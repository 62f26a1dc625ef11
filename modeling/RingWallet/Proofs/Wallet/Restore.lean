import RingWallet.Proofs.Wallet.Keeps
import RingWallet.Proofs.Wallet.SavedState

/-!
# What a stored index leads to

A stored history comes from anywhere. `Wallet.restore` checks that every entry of the index points
at the transfer that has its key image (`Wallet.restore_eq_ok`), and neither that every key image
has an entry nor that the null image, which view-only wallets give to all their outputs, has none.

What later calls keep of the index is shown for any property that recording an output and cutting
back keep and that rests on the index and the images alone (`History.Lasting`). There are two of
them: that the index is right (`History.Indexed`), and that its entries are (`History.Sound`), which
is enough for no entry to point beyond the transfers. `index_of_restore` says which stored histories
lead to the one and which to the other.
-/

set_option autoImplicit false

namespace RingWallet

open WalletM

namespace History

variable {h h' : History}

/-! ### Properties of the index that last -/

/-- A property of histories that rests on the index and the key images, and that recording an output
with a new image and cutting back keep. -/
structure Lasting (P : History → Prop) : Prop where
  congr : ∀ {h h' : History}, P h → h'.keyImages = h.keyImages → h'.images = h.images → P h'
  record : ∀ {h : History} {t : Transfer} {image : Option KeyImage}, t.keyImage = image.getD .null →
    (∀ k, image = some k → k ≠ .null) → h.isRecorded image t.txHash t.outputIndex = false →
    P h → P (h.record t image)
  detach : ∀ {h : History} (n : Nat), P h → P (h.detach n)

/-- That the index is right lasts. -/
theorem lasting_indexed : Lasting fun h => h.Indexed (· ≠ .null) where
  congr hi index images := hi.congr index images
  record := by
    intro h t image own present new hi
    cases image with
    | none => exact hi.record_none fun some => some own
    | some k => exact hi.record_some (present k rfl) own new
  detach n hi := hi.detach n

/-- Every entry of the index points at a transfer that has its image. -/
def Points (h : History) : Prop :=
  ∀ (image : KeyImage) (i : Nat), h.keyImages[image]? = some i → h.images[i]? = some image

/-- Such an index is right if the images that are not null have entries, and the null image has
none. -/
theorem Points.indexed_iff (points : h.Points) :
    h.Indexed (· ≠ .null) ↔ h.keyImages[KeyImage.null]? = none ∧
      ∀ (image : KeyImage) (i : Nat), image ≠ .null → h.images[i]? = some image →
        h.keyImages[image]? = some i := by
  rw [Option.eq_none_iff_forall_ne_some]
  constructor
  · -- the index knows where each image is, and the null image is none of them
    intro hi
    refine ⟨fun i found => ((hi .null i).mp found).1 rfl, ?_⟩
    exact fun image i known at_i => (hi image i).mpr ⟨known, at_i⟩
  · rintro ⟨no_null, whole⟩ image i
    constructor
    · intro found
      refine ⟨?_, points image i found⟩
      rintro rfl
      exact no_null i found
    · rintro ⟨known, at_i⟩
      exact whole image i known at_i

/-- Every entry of the index is for an image that is not null, and points at a transfer that has it.
-/
def Sound (h : History) : Prop :=
  ∀ (image : KeyImage) (i : Nat), h.keyImages[image]? = some i →
    image ≠ .null ∧ h.images[i]? = some image

/-- An index that points at the transfers is sound if it has no entry of the null image. -/
theorem Points.sound_iff (points : h.Points) :
    h.Sound ↔ h.keyImages[KeyImage.null]? = none := by
  rw [Option.eq_none_iff_forall_ne_some]
  constructor
  · exact fun hs i found => (hs .null i found).1 rfl
  · intro no_null image i found
    refine ⟨?_, points image i found⟩
    rintro rfl
    exact no_null i found

/-- No entry of a sound index points beyond the transfers. -/
theorem Sound.lt (hs : h.Sound) {image : KeyImage} {i : Nat}
    (found : h.keyImages[image]? = some i) : i < h.transfers.length := by
  rw [← length_images]
  exact (List.getElem?_eq_some_iff.mp (hs image i found).2).1

/-- The new entry points at the new output, and the others stay. -/
theorem Points.record (points : h.Points) {t : Transfer} {image : Option KeyImage}
    (own : t.keyImage = image.getD .null) : (h.record t image).Points := by
  intro k i at_k
  rw [images_record, getElem?_concat_eq_some]
  cases image with
  | none => exact .inl (points k i at_k)
  | some new =>
    have inserted : (h.keyImages.insert new h.transfers.length)[k]? = some i := at_k
    -- the new image points at the new output, the others where they did
    rw [Std.ExtTreeMap.getElem?_insert] at inserted
    split at inserted
    · next same =>
      obtain rfl : new = k := Std.LawfulEqOrd.compare_eq_iff_eq.mp same
      rw [length_images]
      exact .inr ⟨(Option.some.inj inserted).symm, own⟩
    · exact .inl (points k i inserted)

/-- A new entry is for an image that is not null. -/
theorem Sound.record (hs : h.Sound) {t : Transfer} {image : Option KeyImage}
    (own : t.keyImage = image.getD .null) (present : ∀ k, image = some k → k ≠ .null) :
    (h.record t image).Sound := by
  have points : h.Points := fun image i found => (hs image i found).2
  have no_null := points.sound_iff.mp hs
  rw [(points.record own).sound_iff]
  cases image with
  | none => exact no_null
  | some new =>
    have other : compare new KeyImage.null ≠ .eq :=
      fun same => present new rfl (Std.LawfulEqOrd.compare_eq_iff_eq.mp same)
    show (h.keyImages.insert new h.transfers.length)[KeyImage.null]? = none
    rw [Std.ExtTreeMap.getElem?_insert, if_neg other, no_null]

/-- An entry that a cut leaves does not point behind it, for the images there are erased. -/
theorem Sound.detach (hs : h.Sound) (n : Nat) : (h.detach n).Sound := by
  intro image i found
  rw [getElem?_keyImages_detach] at found
  split at found
  · cases found
  · next stays =>
    -- were its output behind the cut, the entry would have gone with it
    obtain ⟨known, at_i⟩ := hs image i found
    refine ⟨known, ?_⟩
    rw [images_eq_append_dropped h n] at at_i
    by_cases below : i < (h.detach n).images.length
    · rwa [List.getElem?_append_left below] at at_i
    · rw [List.getElem?_append_right (Nat.le_of_not_lt below)] at at_i
      exact absurd ⟨known, List.mem_of_getElem? at_i⟩ stays

/-- That the index is sound lasts. -/
theorem lasting_sound : Lasting Sound where
  congr hs index images := by
    intro image i found
    rw [index] at found
    rw [images]
    exact hs image i found
  record own present _ hs := hs.record own present
  detach n hs := hs.detach n

/-- A cut at the bottom leaves nothing behind but an entry of the null image. -/
theorem detach_zero (h : History) :
    (h.detach 0).transfers = [] ∧
      (h.detach 0).keyImages[KeyImage.null]? = h.keyImages[KeyImage.null]? := by
  constructor
  · rw [transfers_detach, List.takeWhile_eq_nil_iff]
    exact fun _ low => Nat.not_lt_zero _ (of_decide_eq_true low)
  · rw [getElem?_keyImages_detach, if_neg]
    exact fun gone => gone.1 rfl

variable {S : Suite} {σ : Type} {env : Environment σ} {P : History → Prop}
  {txs : List (Hash × Transaction)} {height : Nat}

section

variable (derivable : ∀ key secret, KeyImage.ofKeys S key secret ≠ .ok .null)

include derivable

/-- What a scan changes keeps such a property. -/
theorem Lasting.change (lasting : Lasting P) (change : Scan.Change S txs height h h')
    (hp : P h) : P h' := by
  cases change with
  | forget mem => exact lasting.congr hp rfl rfl
  | spend mem input =>
    exact lasting.congr hp (sameOutputs_spend h _).keyImages (sameOutputs_spend h _).images
  | pay id mem at_height =>
    exact lasting.congr hp (sameOutputs_addPayment h id _).keyImages
      (sameOutputs_addPayment h id _).images
  | record found new =>
    -- the only change that adds an entry, and the image of the entry was derived
    refine lasting.record found.keyImage_eq ?_ new hp
    rintro k known rfl
    obtain ⟨key, secret, null⟩ := found.derived _ known
    exact derivable key secret null

/-- All that a scan changes keeps such a property. -/
theorem Lasting.changes (lasting : Lasting P) (changes : Scan.Changes S txs height h h')
    (hp : P h) : P h' := by
  induction changes with
  | refl => exact hp
  | tail _ change ih => exact lasting.change derivable change ih

/-- A refresh keeps such a property. -/
theorem Lasting.maintained (lasting : Lasting P) :
    Sync.Maintained S env (fun _ => True) fun s : Session σ => P s.history where
  idle s t wallet _ _ hp := by
    rwa [show t.history = s.history from congrArg Wallet.history wallet]
  scan := by
    intro tx s t r _ ends _ _ hp
    obtain ⟨h', wallet, changes⟩ := ends.changes (List.mem_singleton_self _)
    rw [show t.history = h' from congrArg Wallet.history wallet]
    exact lasting.changes derivable changes hp
  chain _ hp := lasting.congr hp rfl rfl
  cut _ hp := lasting.detach _ hp

/-- However a call ends, it keeps such a property. -/
theorem Lasting.call (lasting : Lasting P) (call : Call) {s : Session σ} (hp : P s.history) :
    P (exec (call.run S env) s).2.history := by
  refine call.holds hp ?_ (fun n _ => lasting.detach n hp) (fun n => lasting.congr hp rfl rfl) ?_
  · intro start target
    exact (lasting.maintained derivable).pull target (serves_anything S env) start s hp
  · intro pending now _
    have outputs := (sameOutputs_markSent s.history pending now).1
    exact lasting.congr hp outputs.keyImages outputs.images

/-- Such a property holds after any calls exactly if it holds before them. -/
theorem Lasting.forall_afterCalls (lasting : Lasting P) {s : Session σ} :
    (∀ calls, P (afterCalls S env calls s).history) ↔ P s.history := by
  refine ⟨fun always => always [], fun hp calls => ?_⟩
  exact afterCalls_holds (P := fun s : Session σ => P s.history)
    (fun call _ _ hp => lasting.call derivable call hp) hp

end

end History

/-! ### Restored wallets -/

namespace Wallet

variable {S : Suite}

/-- The hashes are accepted if every transfer carries that of its transaction. -/
theorem checkHashes_eq_ok {transfers : List Transfer} :
    checkHashes S transfers = .ok () ↔ ∀ t ∈ transfers, t.tx.hash S = t.txHash := by
  induction transfers with
  | nil => simp [checkHashes]
  | cons t rest ih =>
    rw [checkHashes, List.forall_mem_cons, ← ih]
    split
    · next same => simp only [same, true_and]
    · next other => simp [other]

/-- The key images are accepted if every entry of the index points at a transfer that has its
image. -/
theorem checkKeyImages_eq_ok {transfers : List Transfer} {entries : List (KeyImage × Nat)} :
    checkKeyImages transfers entries = .ok () ↔
      ∀ e ∈ entries, (transfers.map Transfer.keyImage)[e.2]? = some e.1 := by
  induction entries with
  | nil => simp [checkKeyImages]
  | cons e rest ih =>
    rw [checkKeyImages, List.forall_mem_cons, ← ih, List.getElem?_map]
    split
    · next points => simp only [points, true_and]
    · next dangles => simp [dangles]

/-- A stored history is taken if it belongs to the account, its transfers have the hashes of their
transactions, and the entries of the index point at the transfers that have their images. -/
theorem restore_eq_ok {account : Account} {config : Config} {state : SavedState} {w : Wallet} :
    restore S account config state = .ok w ↔
      state.address = account.address ∧
      (∀ t ∈ state.history.transfers, t.tx.hash S = t.txHash) ∧
      state.history.Points ∧
      ∃ fresh, create account config = .ok fresh ∧
        w = { fresh with history := { state.history with chain :=
          if state.history.chain.isEmpty then fresh.history.chain else state.history.chain } } := by
  -- the check walks over the entries of the index as a list
  have entries : (∀ e ∈ state.history.keyImages.toList,
      state.history.images[e.2]? = some e.1) ↔ state.history.Points := by
    simp only [Prod.forall, Std.ExtTreeMap.mem_toList_iff_getElem?_eq_some, History.Points]
  rw [← entries]
  constructor
  · intro restored
    unfold restore at restored
    by_cases own : state.address = account.address
    · rw [if_neg (not_not.mpr own)] at restored
      obtain ⟨⟨⟩, hashes, restored⟩ := Except.bind_eq_ok.mp restored
      obtain ⟨⟨⟩, images, restored⟩ := Except.bind_eq_ok.mp restored
      obtain ⟨fresh, created, restored⟩ := Except.bind_eq_ok.mp restored
      exact ⟨own, checkHashes_eq_ok.mp hashes, checkKeyImages_eq_ok.mp images, fresh, created,
        (Except.ok.inj restored).symm⟩
    · rw [if_pos own] at restored
      cases restored
  · rintro ⟨own, hashes, images, fresh, created, rfl⟩
    unfold restore
    rw [if_neg (not_not.mpr own)]
    exact Except.bind_eq_ok.mpr ⟨(), checkHashes_eq_ok.mpr hashes,
      Except.bind_eq_ok.mpr ⟨(), checkKeyImages_eq_ok.mpr images,
        Except.bind_eq_ok.mpr ⟨fresh, created, rfl⟩⟩⟩

end Wallet

variable (S : Suite) {σ : Type} (env : Environment σ)

/-- Every entry of the index of a restored wallet points at the transfer that has its image. The
index is right after any calls exactly if the stored one has an entry for every image that is not
null and none for the null image, and no entry ever points beyond the transfers exactly if there is
none for the null image. -/
theorem index_of_restore (derivable : ∀ key secret, KeyImage.ofKeys S key secret ≠ .ok .null)
    (account : Account) (config : Config) (state : SavedState) (s : Session σ)
    (restored : Wallet.restore S account config state = .ok s.wallet) :
    s.history.transfers = state.history.transfers ∧
      s.history.keyImages = state.history.keyImages ∧ s.history.Points ∧
      ((∀ calls, (afterCalls S env calls s).history.Indexed (· ≠ .null)) ↔
        state.history.keyImages[KeyImage.null]? = none ∧
          ∀ (image : KeyImage) (i : Nat), image ≠ .null → state.history.images[i]? = some image →
            state.history.keyImages[image]? = some i) ∧
      ((∀ calls (image : KeyImage) (i : Nat),
          (afterCalls S env calls s).history.keyImages[image]? = some i →
            i < (afterCalls S env calls s).history.transfers.length) ↔
        state.history.keyImages[KeyImage.null]? = none) := by
  obtain ⟨-, -, points, fresh, -, wallet⟩ := Wallet.restore_eq_ok.mp restored
  have transfers : s.history.transfers = state.history.transfers :=
    congrArg (fun w => w.history.transfers) wallet
  have index : s.history.keyImages = state.history.keyImages :=
    congrArg (fun w => w.history.keyImages) wallet
  have images : s.history.images = state.history.images :=
    congrArg (List.map Transfer.keyImage) transfers
  rw [← index, ← images]
  replace points : s.history.Points := by
    unfold History.Points
    rwa [index, images]
  refine ⟨transfers, rfl, points, ?_, ?_⟩
  · rw [← points.indexed_iff]
    exact History.lasting_indexed.forall_afterCalls derivable
  · constructor
    · -- a cut at the bottom would leave an entry of the null image without any transfer
      intro bounded
      refine Option.eq_none_iff_forall_ne_some.mpr fun i found => ?_
      obtain ⟨none, stays⟩ := s.history.detach_zero
      have below := bounded [.detach 0] .null i (stays.trans found)
      have empty : (afterCalls S env [.detach 0] s).history.transfers = [] := none
      rw [empty] at below
      exact Nat.not_lt_zero i below
    · intro no_null calls image i found
      have sound := points.sound_iff.mpr no_null
      exact ((History.lasting_sound.forall_afterCalls derivable).mpr sound calls).lt found

namespace SmallSuite

/-- A wallet of the account with a history, whose daemon has no blocks. -/
def holding (history : History) : Session Script where
  env := {}
  wallet := { account, config := {}, history }

/-- The output carries the hash of its transaction. -/
theorem hash_received (sender : Nat) :
    (received sender).tx.hash .small = (received sender).txHash := rfl

/-- A history with a chain is taken if the hashes and the entries of its index are right. -/
theorem restore_holding {history : History} (chain : history.chain.isEmpty = false)
    (hashes : ∀ t ∈ history.transfers, t.tx.hash .small = t.txHash)
    (points : history.Points) :
    Wallet.restore .small account {} ⟨account.address, history⟩ = .ok (holding history).wallet := by
  refine Wallet.restore_eq_ok.mpr ⟨rfl, hashes, points, _, rfl, ?_⟩
  simp only [chain, Bool.false_eq_true, if_false]
  rfl

end SmallSuite

open SmallSuite in
/-- The index of the stored wallet stays right, whatever it is asked to do. -/
theorem index_of_restore_stored :
    (∀ key secret, KeyImage.ofKeys .small key secret ≠ .ok .null) ∧
      Wallet.restore .small account {} stored = .ok (holding stored.history).wallet ∧
      ∀ calls, (afterCalls .small Script.environment calls
        (holding stored.history)).history.Indexed (· ≠ .null) := by
  have index (image : KeyImage) (i : Nat) : stored.history.keyImages[image]? = some i ↔
      image = SmallSuite.image 4 ∧ i = 1 ∨ image = SmallSuite.image 3 ∧ i = 0 := by
    rw [← Std.ExtTreeMap.mem_toList_iff_getElem?_eq_some, entries_stored]
    simp only [List.mem_cons, Prod.mk.injEq, List.not_mem_nil, or_false]
  have points (image : KeyImage) (i : Nat) (found : stored.history.keyImages[image]? = some i) :
      stored.history.images[i]? = some image := by
    obtain ⟨rfl, rfl⟩ | ⟨rfl, rfl⟩ := (index image i).mp found
    · rfl
    · rfl
  have hashes : ∀ t ∈ stored.history.transfers, t.tx.hash .small = t.txHash := by
    show ∀ t ∈ [3, 4].map received, t.tx.hash .small = t.txHash
    rw [List.forall_mem_map]
    exact fun sender _ => hash_received sender
  -- the index is the one of a wallet that was stored, so the general statement tells the rest
  have restored := restore_holding rfl hashes points
  obtain ⟨-, -, -, right, -⟩ := index_of_restore .small Script.environment
    Suite.small_ofKeys_ne_null account {} stored (holding stored.history) restored
  refine ⟨Suite.small_ofKeys_ne_null, restored, right.mpr ⟨?_, ?_⟩⟩
  · have known : image 3 ≠ .null ∧ image 4 ≠ .null := by decide +kernel
    refine Option.eq_none_iff_forall_ne_some.mpr fun i found => ?_
    obtain ⟨null, -⟩ | ⟨null, -⟩ := (index .null i).mp found
    · exact known.2 null.symm
    · exact known.1 null.symm
  · intro own i _ at_i
    have at_i : [image 3, image 4][i]? = some own := at_i
    rcases i with - | - | i
    · exact (index own 0).mpr (.inr ⟨(Option.some.inj at_i).symm, rfl⟩)
    · exact (index own 1).mpr (.inl ⟨(Option.some.inj at_i).symm, rfl⟩)
    · cases at_i

namespace SmallSuite

/-- A stored wallet whose output has no entry in the index. -/
def unindexed : SavedState where
  address := account.address
  history := { transfers := [received 3] }

/-- A stored view-only wallet whose output has an entry in the index. -/
def nullIndexed : SavedState where
  address := account.address
  history :=
    { transfers := [{ received 3 with keyImage := .null }]
      keyImages := (∅ : Std.ExtTreeMap KeyImage Nat).insert .null 0 }

end SmallSuite

open SmallSuite in
/-- An output without an entry is taken, and so is an entry of the null image, which stays without
its transfer when the chain is cut. -/
theorem unindexed_of_restore :
    (∃ w, Wallet.restore .small account {} unindexed = .ok w ∧
      w.history.images[0]? = some (image 3) ∧ image 3 ≠ .null ∧
      w.history.keyImages[image 3]? = none) ∧
    ∃ w, Wallet.restore .small account {} nullIndexed = .ok w ∧
      w.history.keyImages[KeyImage.null]? = some 0 ∧
      (w.history.detach 0).keyImages[KeyImage.null]? = some 0 ∧
      (w.history.detach 0).transfers.length = 0 := by
  constructor
  · -- an output that the index does not know passes, since only the index is checked
    refine ⟨_, Wallet.restore_eq_ok.mpr ⟨rfl, ?_, ?_, _, rfl, rfl⟩, rfl, by decide +kernel, ?_⟩
    · show ∀ t ∈ [received 3], t.tx.hash .small = t.txHash
      rw [List.forall_mem_singleton]
      exact hash_received 3
    · intro own i found
      exact nomatch (Std.ExtTreeMap.getElem?_empty.symm.trans found)
    · exact Std.ExtTreeMap.getElem?_empty
  · have indexed : nullIndexed.history.keyImages[KeyImage.null]? = some 0 :=
      Std.ExtTreeMap.getElem?_insert_self
    obtain ⟨none, stays⟩ := nullIndexed.history.detach_zero
    refine ⟨_, Wallet.restore_eq_ok.mpr ⟨rfl, ?_, ?_, _, rfl, rfl⟩, indexed, stays.trans indexed,
      congrArg List.length none⟩
    · show ∀ t ∈ [{ received 3 with keyImage := .null }], t.tx.hash .small = t.txHash
      rw [List.forall_mem_singleton]
      exact hash_received 3
    · intro own i found
      have inserted : ((∅ : Std.ExtTreeMap KeyImage Nat).insert .null 0)[own]? = some i := found
      rw [Std.ExtTreeMap.getElem?_insert] at inserted
      split at inserted
      · next same =>
        obtain rfl : KeyImage.null = own := Std.LawfulEqOrd.compare_eq_iff_eq.mp same
        obtain rfl := Option.some.inj inserted
        rfl
      · exact nomatch (Std.ExtTreeMap.getElem?_empty.symm.trans inserted)

end RingWallet
