import RingWallet.Spend.Send
import Mathlib.Data.List.Forall2
import Mathlib.Data.List.TakeWhile

/-!
# What always holds of a history

A history keeps the own outputs twice: as the list `transfers` and, for those whose key image is
known, in the index `keyImages`. `History.Consistent` says that the two agree, that the list is
ordered by height and does not reach beyond the chain, and that every entry stands for an output of
the transaction that it names.

The operations on histories keep it, each for a reason of its own (`History.Ordered` is the part
about the order of the list, which does not depend on the key images):

* `Consistent.sameOutputs` covers all operations that only mark outputs as spent or do not touch
  them at all, such as `spend`, `addPayment` and `markSent`;
* `Consistent.record` adds an output that the index does not know yet;
* `Consistent.detach` cuts a suffix off the list. It is right because the list is ordered: what
  stands behind the first entry that is too high is too high as well, and every image of the suffix
  leaves the index.
-/

set_option autoImplicit false

namespace RingWallet

namespace Transfer

/-- The transfer with its spent flag taken down. Two transfers that agree here are the same output.
-/
def unspent (t : Transfer) : Transfer := { t with spent := false }

/-- Whether an output is spent does not show in its key image. -/
@[simp] theorem keyImage_unspent (t : Transfer) : t.unspent.keyImage = t.keyImage := rfl

/-- Whether an output is spent does not show in its height. -/
@[simp] theorem blockHeight_unspent (t : Transfer) : t.unspent.blockHeight = t.blockHeight := rfl

/-- Whether an output is spent does not show in its transaction. -/
@[simp] theorem tx_unspent (t : Transfer) : t.unspent.tx = t.tx := rfl

end Transfer

namespace History

/-! ### The index of key images -/

/-- The key images of the transfers, in order. -/
def images (h : History) : List KeyImage := h.transfers.map Transfer.keyImage

/-- The index holds exactly those images of transfers that satisfy `p`, each under the position of
the transfer that has it. -/
def Indexed (p : KeyImage → Prop) (h : History) : Prop :=
  ∀ image i, h.keyImages[image]? = some i ↔ p image ∧ h.images[i]? = some image

variable {p : KeyImage → Prop} {h h' : History}

/-- Only the index and the images matter. -/
theorem Indexed.congr (hi : h.Indexed p) (index : h'.keyImages = h.keyImages)
    (images : h'.images = h.images) : h'.Indexed p := by
  intro image i
  rw [index, images]
  exact hi image i

/-- An indexed image belongs to one transfer only. -/
theorem Indexed.unique (hi : h.Indexed p) {image : KeyImage} (hp : p image) {i j : Nat}
    (at_i : h.images[i]? = some image) (at_j : h.images[j]? = some image) : i = j := by
  have found_i := (hi image i).mpr ⟨hp, at_i⟩
  have found_j := (hi image j).mpr ⟨hp, at_j⟩
  rw [found_i] at found_j
  exact Option.some.inj found_j

/-- The index knows an image exactly when a transfer has it. -/
theorem Indexed.contains_iff (hi : h.Indexed p) {image : KeyImage} (hp : p image) :
    h.keyImages.contains image = true ↔ image ∈ h.images := by
  rw [Std.ExtTreeMap.contains_eq_isSome_getElem?, Option.isSome_iff_exists,
    List.mem_iff_getElem?]
  exact exists_congr fun i => (hi image i).trans (and_iff_right hp)

/-- A recorded output adds its key image at the end. -/
theorem images_record (h : History) (t : Transfer) (image : Option KeyImage) :
    (h.record t image).images = h.images ++ [t.keyImage] := by
  simp [images, record]

/-- There is one key image for every output, be it the null one. -/
theorem length_images (h : History) : h.images.length = h.transfers.length := by
  simp [images]

/-- A position of the longer list is one of the shorter list or the new one. -/
theorem getElem?_concat_eq_some {α : Type} {items : List α} {a b : α} {i : Nat} :
    (items ++ [a])[i]? = some b ↔ items[i]? = some b ∨ (i = items.length ∧ a = b) := by
  -- the index is inside the list, at its end or beyond it
  rcases Nat.lt_trichotomy i items.length with hlt | heq | hgt
  · rw [List.getElem?_append_left hlt]
    constructor
    · exact Or.inl
    · rintro (h | ⟨h, -⟩)
      · exact h
      · omega
  · subst heq
    simp
  · have : (items ++ [a])[i]? = none := by simp; omega
    have : items[i]? = none := by simp; omega
    simp_all
    omega

/-- A new image is indexed under the position that its transfer gets. -/
theorem Indexed.record_some (hi : h.Indexed p) {t : Transfer} {image : KeyImage} (hp : p image)
    (own : t.keyImage = image) (new : h.keyImages.contains image = false) :
    (h.record t (some image)).Indexed p := by
  have unknown : image ∉ h.images := by
    rw [← hi.contains_iff hp, new]
    exact Bool.false_ne_true
  intro k i
  have index : (h.record t (some image)).keyImages[k]? =
      if k = image then some h.transfers.length else h.keyImages[k]? := by
    show (h.keyImages.insert image h.transfers.length)[k]? = _
    rw [Std.ExtTreeMap.getElem?_insert]
    exact if_congr (Std.LawfulEqOrd.compare_eq_iff_eq.trans eq_comm) rfl rfl
  rw [index, images_record, getElem?_concat_eq_some, own, length_images]
  -- the new image stands at the end only, and every other one where it stood
  by_cases hk : k = image
  · subst hk
    have absent : h.images[i]? ≠ some k := fun at_i => unknown (List.mem_of_getElem? at_i)
    simp [hp, absent, eq_comm]
  · rw [if_neg hk, hi k i]
    simp [Ne.symm hk]

/-- A transfer whose image is not to be indexed leaves the index as it is. -/
theorem Indexed.record_none (hi : h.Indexed p) {t : Transfer} (hp : ¬ p t.keyImage) :
    (h.record t none).Indexed p := by
  intro k i
  rw [images_record, getElem?_concat_eq_some]
  show h.keyImages[k]? = some i ↔ _
  rw [hi k i]
  constructor
  · rintro ⟨hk, at_i⟩
    exact ⟨hk, .inl at_i⟩
  · rintro ⟨hk, at_i | ⟨-, rfl⟩⟩
    · exact ⟨hk, at_i⟩
    · exact absurd hk hp

/-! ### Unknown ids -/

/-- The ids of a chain and what has become of them after some unknown ones became known. -/
def Learned : List Hash → List Hash → Prop := List.Forall₂ fun was now => was = now ∨ was = .null

namespace Learned

variable {ids ids' ids'' : List Hash}

/-- Nothing has to become known. -/
theorem refl (ids : List Hash) : Learned ids ids := List.forall₂_same.mpr fun _ _ => .inl rfl

/-- What became known in two steps became known. -/
theorem trans (first : Learned ids ids') (second : Learned ids' ids'') : Learned ids ids'' := by
  induction first generalizing ids'' with
  | nil => exact second
  | cons was _ ih =>
    cases second with
    | cons now later =>
      refine .cons ?_ (ih later)
      rcases was with rfl | unknown
      · exact now
      · exact .inr unknown

/-- No block is added or lost while ids become known. -/
theorem length_eq (learned : Learned ids ids') : ids'.length = ids.length :=
  (List.Forall₂.length_eq learned).symm

/-- A block is added on top of both chains. -/
theorem concat (learned : Learned ids ids') (id : Hash) : Learned (ids ++ [id]) (ids' ++ [id]) :=
  List.rel_append learned (.cons (.inl rfl) .nil)

/-- An unknown id that becomes known. -/
theorem set (learned : Learned ids ids') {n : Nat} (unknown : ids'[n]? = some .null)
    (known : Hash) : Learned ids (ids'.set n known) := by
  refine learned.trans (List.forall₂_iff_get.mpr ⟨List.length_set.symm, fun i here there => ?_⟩)
  simp only [List.get_eq_getElem, List.getElem_set]
  split
  · next at_n =>
    subst at_n
    exact .inr (List.getElem?_eq_some_iff.mp unknown).2
  · exact .inl rfl

/-- A known id stays. -/
theorem getElem?_eq (learned : Learned ids ids') {n : Nat} {id : Hash} (here : ids[n]? = some id)
    (known : id ≠ .null) : ids'[n]? = some id := by
  obtain ⟨inside, rfl⟩ := List.getElem?_eq_some_iff.mp here
  have inside' : n < ids'.length := learned.length_eq ▸ inside
  have either := (List.forall₂_iff_get.mp learned).2 n inside inside'
  exact (List.getElem?_eq_getElem inside').trans
    (congrArg some (either.resolve_right known).symm)

end Learned

/-! ### Operations that leave the outputs alone -/

/-- The two histories have the same chain, index and outputs; only spent flags may differ, and what
is not about outputs. -/
structure SameOutputs (h h' : History) : Prop where
  chain : h'.chain = h.chain
  keyImages : h'.keyImages = h.keyImages
  transfers : h'.transfers.map Transfer.unspent = h.transfers.map Transfer.unspent

/-- A history has its own outputs. -/
theorem SameOutputs.refl (h : History) : SameOutputs h h := ⟨rfl, rfl, rfl⟩

/-- Two operations that leave the outputs alone do so one after the other. -/
theorem SameOutputs.trans {h'' : History} (first : SameOutputs h h') (second : SameOutputs h' h'') :
    SameOutputs h h'' :=
  ⟨second.chain.trans first.chain, second.keyImages.trans first.keyImages,
    second.transfers.trans first.transfers⟩

/-- The key images are still there, in their order. -/
theorem SameOutputs.images (same : SameOutputs h h') : h'.images = h.images := by
  have := congrArg (List.map Transfer.keyImage) same.transfers
  simpa [History.images, Function.comp_def] using this

/-- The outputs are still at their heights. -/
theorem SameOutputs.heights (same : SameOutputs h h') :
    h'.transfers.map Transfer.blockHeight = h.transfers.map Transfer.blockHeight := by
  have := congrArg (List.map Transfer.blockHeight) same.transfers
  simpa [Function.comp_def] using this

/-- What holds of every transfer, whatever its spent flag is, still holds. -/
theorem SameOutputs.forall_mem (same : SameOutputs h h') {q : Transfer → Prop}
    (blind : ∀ t, q t.unspent ↔ q t) (all : ∀ t ∈ h.transfers, q t) :
    ∀ t ∈ h'.transfers, q t := by
  intro t ht
  -- `q` is taken back to the old transfers through their unspent forms, which are the same
  have : t.unspent ∈ h.transfers.map Transfer.unspent := by
    rw [← same.transfers]
    exact List.mem_map_of_mem ht
  obtain ⟨u, hu, eq⟩ := List.mem_map.mp this
  rw [← blind t, ← eq, blind u]
  exact all u hu

/-- Marking the output at a position leaves the outputs alone. -/
theorem sameOutputs_spendAt (h : History) (index : Nat) : SameOutputs h (h.spendAt index) := by
  refine ⟨rfl, rfl, ?_⟩
  apply List.ext_getElem?
  intro i
  simp only [spendAt, List.getElem?_map, List.getElem?_modify]
  rcases h.transfers[i]? with - | t
  · rfl
  · simp only [Option.map_some]
    split <;> rfl

/-- Marking the output with a key image leaves the outputs alone. -/
theorem sameOutputs_spend (h : History) (image : KeyImage) : SameOutputs h (h.spend image) := by
  unfold spend
  rcases h.keyImages[image]? with - | index
  · exact .refl h
  · exact sameOutputs_spendAt h index

/-- Noting a payment leaves the outputs alone. -/
theorem sameOutputs_addPayment (h : History) (id : Hash) (payment : Payment) :
    SameOutputs h (h.addPayment id payment) := by
  simp only [addPayment]
  split
  · exact .refl h
  · exact ⟨rfl, rfl, rfl⟩

/-- The history without an unconfirmed transaction. -/
def forget (h : History) (txHash : Hash) : History :=
  { h with unconfirmed := h.unconfirmed.erase txHash }

/-- An unconfirmed transaction is forgotten without a change of the outputs. -/
theorem sameOutputs_forget (h : History) (txHash : Hash) : SameOutputs h (h.forget txHash) :=
  ⟨rfl, rfl, rfl⟩

/-- There is nothing to forget about a transaction that nobody waits for. -/
theorem forget_eq_self {txHash : Hash} (none : h.unconfirmed[txHash]? = none) :
    h.forget txHash = h := by
  have same : h.unconfirmed.erase txHash = h.unconfirmed := by
    refine Std.ExtTreeMap.ext_getElem? fun id => ?_
    rw [Std.ExtTreeMap.getElem?_erase]
    split
    · next is_it =>
      rw [← Std.LawfulEqOrd.compare_eq_iff_eq.mp is_it, none]
    · rfl
  unfold forget
  rw [same]

/-- Forgetting a transaction twice is forgetting it once. -/
theorem forget_forget (h : History) (txHash : Hash) :
    (h.forget txHash).forget txHash = h.forget txHash :=
  forget_eq_self (by simp [forget])

/-- A transaction that was sent marks outputs as spent, and touches no payment. -/
theorem sameOutputs_markSent (h : History) (sent : PendingTransaction) (now : UInt64) :
    SameOutputs h (h.markSent sent now) ∧ (h.markSent sent now).payments = h.payments := by
  unfold markSent
  suffices marked : ∀ noted : History, SameOutputs h noted → noted.payments = h.payments →
      SameOutputs h (sent.selected.foldl (fun h handle => h.spendAt handle.index) noted) ∧
        (sent.selected.foldl (fun h handle => h.spendAt handle.index) noted).payments =
          h.payments from marked _ ⟨rfl, rfl, rfl⟩ rfl
  intro noted same payments
  -- marking the selected outputs one after the other
  induction sent.selected generalizing noted with
  | nil => exact ⟨same, payments⟩
  | cons handle rest ih =>
    exact ih _ (same.trans (sameOutputs_spendAt noted handle.index)) payments

/-! ### The order of the outputs -/

/-- The list of outputs is ordered by height and does not reach beyond the chain and the block that
comes next. -/
structure Ordered (h : History) : Prop where
  sorted : h.transfers.Pairwise fun t u => t.blockHeight ≤ u.blockHeight
  height_le : ∀ t ∈ h.transfers, t.blockHeight ≤ h.height

/-- The order of the outputs does not depend on what was spent. -/
theorem Ordered.sameOutputs (ordered : h.Ordered) (same : SameOutputs h h') : h'.Ordered where
  sorted := by
    have heights := List.pairwise_map.mpr ordered.sorted
    rw [← same.heights] at heights
    exact List.pairwise_map.mp heights
  height_le := by
    have := same.forall_mem (fun _ => Iff.rfl) ordered.height_le
    rwa [height, ← same.chain] at this

/-- A new output of the block on top of the chain goes to the end of the list. -/
theorem Ordered.record (ordered : h.Ordered) {t : Transfer} (image : Option KeyImage)
    (height : t.blockHeight = h.height) : (h.record t image).Ordered where
  sorted := by
    refine List.pairwise_append.mpr ⟨ordered.sorted, List.pairwise_singleton _ t, ?_⟩
    -- no old output is higher than the end of the chain, where the new one stands
    intro u hu v hv
    rw [List.mem_singleton.mp hv, height]
    exact ordered.height_le u hu
  height_le := by
    have below := ordered.height_le
    rintro u hu
    rcases List.mem_append.mp hu with hu | hu
    · exact below u hu
    · rw [List.mem_singleton.mp hu]
      exact Nat.le_of_eq height

/-- Another chain that is at least as long. -/
theorem Ordered.withChain (ordered : h.Ordered) {chain : List Hash}
    (length : h.height ≤ chain.length) : ({ h with chain } : History).Ordered where
  sorted := ordered.sorted
  height_le t ht := Nat.le_trans (ordered.height_le t ht) length

/-- The outputs stay ordered when a block is appended. -/
theorem Ordered.append (ordered : h.Ordered) (id : Hash) :
    ({ h with chain := h.chain ++ [id] } : History).Ordered :=
  ordered.withChain (by simp [height])

/-- The outputs stay ordered when an id becomes known. -/
theorem Ordered.setId (ordered : h.Ordered) (n : Nat) (id : Hash) :
    ({ h with chain := h.chain.set n id } : History).Ordered :=
  ordered.withChain (by simp [height])

/-- The outputs stay ordered when blocks are assumed to be scanned. -/
theorem Ordered.assumeScanned (ordered : h.Ordered) (n : Nat) : (h.assumeScanned n).Ordered :=
  ordered.withChain (by simp [height])

/-- The outputs stay ordered in what a cut leaves. -/
theorem Ordered.detach (ordered : h.Ordered) (n : Nat) : (h.detach n).Ordered := by
  have kept : (h.detach n).transfers.Sublist h.transfers := (List.takeWhile_prefix _).sublist
  refine ⟨ordered.sorted.sublist kept, fun t ht => ?_⟩
  have below : t.blockHeight < n := by simpa using List.mem_takeWhile_imp ht
  have := ordered.height_le t (kept.subset ht)
  show t.blockHeight ≤ (h.chain.take n).length
  rw [List.length_take]
  unfold height at this
  omega

/-! ### Consistency -/

/-- What always holds of a history. -/
structure Consistent (S : Suite) (h : History) : Prop where
  /-- The index holds the images that are not null, each under its own position. -/
  indexed : h.Indexed (· ≠ .null)
  sorted : h.transfers.Pairwise fun t u => t.blockHeight ≤ u.blockHeight
  height_le : ∀ t ∈ h.transfers, t.blockHeight ≤ h.height
  txHash_eq : ∀ t ∈ h.transfers, t.txHash = t.tx.hash S
  outputIndex_lt : ∀ t ∈ h.transfers, t.outputIndex < t.tx.outputs.length

variable {S : Suite}

/-- The outputs of a consistent history are ordered. -/
theorem Consistent.ordered (hc : h.Consistent S) : h.Ordered := ⟨hc.sorted, hc.height_le⟩

/-- A new history is consistent. -/
theorem Consistent.empty : Consistent S {} where
  indexed := by
    intro image i
    simp [images]
  sorted := .nil
  height_le := by simp
  txHash_eq := by simp
  outputIndex_lt := by simp

/-- Consistency is not about the spent flags. -/
theorem Consistent.sameOutputs (hc : h.Consistent S) (same : SameOutputs h h') :
    h'.Consistent S where
  indexed := hc.indexed.congr same.keyImages same.images
  sorted := (hc.ordered.sameOutputs same).sorted
  height_le := (hc.ordered.sameOutputs same).height_le
  txHash_eq := same.forall_mem (fun _ => Iff.rfl) hc.txHash_eq
  outputIndex_lt := same.forall_mem (fun _ => Iff.rfl) hc.outputIndex_lt

/-- An output that is recorded as the scan records it leaves the history consistent. -/
theorem Consistent.record (hc : h.Consistent S) {t : Transfer} {image : Option KeyImage}
    (height : t.blockHeight = h.height) (txHash : t.txHash = t.tx.hash S)
    (index : t.outputIndex < t.tx.outputs.length) (own : t.keyImage = image.getD .null)
    (present : ∀ k, image = some k → k ≠ .null)
    (new : h.isRecorded image t.txHash t.outputIndex = false) :
    (h.record t image).Consistent S where
  indexed := by
    -- only an output with an image goes into the index
    cases image with
    | none => exact hc.indexed.record_none (by simpa using own)
    | some k => exact hc.indexed.record_some (present k rfl) own new
  sorted := (hc.ordered.record image height).sorted
  height_le := (hc.ordered.record image height).height_le
  txHash_eq := by
    rintro u hu
    rcases List.mem_append.mp hu with hu | hu
    · exact hc.txHash_eq u hu
    · rw [List.mem_singleton.mp hu]
      exact txHash
  outputIndex_lt := by
    rintro u hu
    rcases List.mem_append.mp hu with hu | hu
    · exact hc.outputIndex_lt u hu
    · rw [List.mem_singleton.mp hu]
      exact index

/-- Another chain that is at least as long leaves the history consistent. -/
theorem Consistent.withChain (hc : h.Consistent S) {chain : List Hash}
    (length : h.height ≤ chain.length) : ({ h with chain } : History).Consistent S where
  indexed := hc.indexed
  sorted := hc.sorted
  height_le := (hc.ordered.withChain length).height_le
  txHash_eq := hc.txHash_eq
  outputIndex_lt := hc.outputIndex_lt

/-- An appended block leaves the history consistent. -/
theorem Consistent.append (hc : h.Consistent S) (id : Hash) :
    ({ h with chain := h.chain ++ [id] } : History).Consistent S :=
  hc.withChain (by simp [height])

/-- An id that becomes known leaves the history consistent. -/
theorem Consistent.setId (hc : h.Consistent S) (n : Nat) (id : Hash) :
    ({ h with chain := h.chain.set n id } : History).Consistent S :=
  hc.withChain (by simp [height])

/-- Blocks that are assumed to be scanned leave the history consistent. -/
theorem Consistent.assumeScanned (hc : h.Consistent S) (n : Nat) :
    (h.assumeScanned n).Consistent S :=
  hc.withChain (by simp [height])

/-! ### Cutting back -/

/-- A cut drops the outputs from the first one on that is not below it. -/
theorem transfers_detach (h : History) (n : Nat) :
    (h.detach n).transfers = h.transfers.takeWhile fun t => t.blockHeight < n := rfl

/-- What stays are all outputs below the cut, because the list is ordered. -/
theorem transfers_detach_eq_filter
    (sorted : h.transfers.Pairwise fun t u => t.blockHeight ≤ u.blockHeight) (n : Nat) :
    (h.detach n).transfers = h.transfers.filter fun t => t.blockHeight < n := by
  rw [transfers_detach]
  generalize h.transfers = ts at sorted ⊢
  induction ts with
  | nil => rfl
  | cons t rest ih =>
    obtain ⟨least, sorted⟩ := List.pairwise_cons.mp sorted
    by_cases low : t.blockHeight < n
    · rw [List.takeWhile_cons_of_pos (by simpa using low),
        List.filter_cons_of_pos (by simpa using low), ih sorted]
    · rw [List.takeWhile_cons_of_neg (by simpa using low), eq_comm, List.filter_eq_nil_iff]
      -- nothing behind the first output that is too high is low enough
      intro u mem
      rw [decide_eq_true_eq]
      rcases List.mem_cons.mp mem with rfl | later
      · exact low
      · exact fun below => low (Nat.lt_of_le_of_lt (least u later) below)

/-- An output below the cut stays where it is, because the list is ordered. -/
theorem getElem?_transfers_detach
    (sorted : h.transfers.Pairwise fun t u => t.blockHeight ≤ u.blockHeight) {n i : Nat}
    {t : Transfer} (at_i : h.transfers[i]? = some t) (below : t.blockHeight < n) :
    (h.detach n).transfers[i]? = some t := by
  rw [transfers_detach]
  generalize h.transfers = ts at sorted at_i
  induction ts generalizing i with
  | nil => cases at_i
  | cons u rest ih =>
    obtain ⟨least, sorted⟩ := List.pairwise_cons.mp sorted
    -- nothing before it is higher than itself
    have low : u.blockHeight < n := by
      rcases List.mem_cons.mp (List.mem_of_getElem? at_i) with rfl | later
      · exact below
      · exact Nat.lt_of_le_of_lt (least t later) below
    rw [List.takeWhile_cons_of_pos (by simpa using low)]
    cases i with
    | zero => exact at_i
    | succ i => exact ih sorted at_i

/-- In an ordered history a cut leaves exactly the outputs below it. -/
theorem mem_transfers_detach
    (sorted : h.transfers.Pairwise fun t u => t.blockHeight ≤ u.blockHeight) {n : Nat}
    {t : Transfer} : t ∈ (h.detach n).transfers ↔ t ∈ h.transfers ∧ t.blockHeight < n := by
  constructor
  · intro mem
    exact ⟨(List.takeWhile_prefix _).subset mem, by simpa using List.mem_takeWhile_imp mem⟩
  · rintro ⟨mem, below⟩
    obtain ⟨i, at_i⟩ := List.mem_iff_getElem?.mp mem
    exact List.mem_of_getElem? (getElem?_transfers_detach sorted at_i below)

/-- The transfers that `detach` drops. -/
def dropped (h : History) (n : Nat) : List Transfer :=
  h.transfers.drop (h.detach n).transfers.length

/-- A history is cut into what stays and what is dropped. -/
theorem transfers_eq_append_dropped (h : History) (n : Nat) :
    h.transfers = (h.detach n).transfers ++ h.dropped n := by
  have kept : (h.detach n).transfers <+: h.transfers := List.takeWhile_prefix _
  have cut := List.take_append_drop (h.detach n).transfers.length h.transfers
  rw [← List.prefix_iff_eq_take.mp kept] at cut
  exact cut.symm

/-- The images are those of what stays, followed by those of what is dropped. -/
theorem images_eq_append_dropped (h : History) (n : Nat) :
    h.images = (h.detach n).images ++ (h.dropped n).map Transfer.keyImage := by
  unfold images
  rw [← List.map_append, ← transfers_eq_append_dropped]

/-- Erasing the images of some transfers, null images apart. -/
theorem getElem?_foldl_erase (gone : List Transfer) (index : Std.ExtTreeMap KeyImage Nat)
    (image : KeyImage) :
    (gone.foldl (fun index t =>
      if t.keyImage.isNull then index else index.erase t.keyImage) index)[image]? =
      if image ≠ .null ∧ image ∈ gone.map Transfer.keyImage then none else index[image]? := by
  induction gone generalizing index with
  | nil => simp
  | cons t rest ih =>
    rw [List.foldl_cons, ih]
    -- whether `t` has an image to erase, and whether it is the one that is looked up
    by_cases hn : t.keyImage = .null
    · by_cases hi : image = .null
      · simp [hi, hn, KeyImage.isNull]
      · simp [hn, hi, KeyImage.isNull]
    · by_cases hi : image = t.keyImage
      · subst hi
        simp [hn, KeyImage.isNull]
      · simp [hn, hi, KeyImage.isNull, Std.ExtTreeMap.getElem?_erase, Ne.symm hi]

/-- A cut takes the key images of the dropped outputs from the index, the null one apart. -/
theorem getElem?_keyImages_detach (h : History) (n : Nat) (image : KeyImage) :
    (h.detach n).keyImages[image]? =
      if image ≠ .null ∧ image ∈ (h.dropped n).map Transfer.keyImage then none
      else h.keyImages[image]? :=
  getElem?_foldl_erase (h.dropped n) h.keyImages image

/-- The index loses exactly the images of the transfers that are dropped. -/
theorem Indexed.detach (hi : h.Indexed (· ≠ .null)) (n : Nat) :
    (h.detach n).Indexed (· ≠ .null) := by
  have split := images_eq_append_dropped h n
  intro image i
  rw [getElem?_keyImages_detach]
  constructor
  · -- what is still indexed was not erased, so that its position is not behind the cut
    intro found
    split at found
    · cases found
    · next stays =>
      obtain ⟨hn, at_i⟩ := (hi image i).mp found
      refine ⟨hn, ?_⟩
      by_cases hlt : i < (h.detach n).images.length
      · rwa [split, List.getElem?_append_left hlt] at at_i
      · rw [split, List.getElem?_append_right (Nat.le_of_not_lt hlt)] at at_i
        exact absurd ⟨hn, List.mem_of_getElem? at_i⟩ stays
  · -- an image before the cut was not erased, because it stands at one position only
    rintro ⟨hn, at_i⟩
    have hlt : i < (h.detach n).images.length := (List.getElem?_eq_some_iff.mp at_i).1
    have whole : h.images[i]? = some image := by
      rwa [split, List.getElem?_append_left hlt]
    rw [if_neg]
    · exact (hi image i).mpr ⟨hn, whole⟩
    · rintro ⟨-, mem⟩
      obtain ⟨j, at_j⟩ := List.mem_iff_getElem?.mp mem
      -- the same image would stand behind the cut as well
      have behind : h.images[(h.detach n).images.length + j]? = some image := by
        rw [split, List.getElem?_append_right (Nat.le_add_right _ _), Nat.add_sub_cancel_left]
        exact at_j
      have := hi.unique hn whole behind
      omega

/-- Cutting a history back keeps it consistent. -/
theorem Consistent.detach (hc : h.Consistent S) (n : Nat) : (h.detach n).Consistent S := by
  have kept : (h.detach n).transfers.Sublist h.transfers := (List.takeWhile_prefix _).sublist
  exact ⟨hc.indexed.detach n, (hc.ordered.detach n).sorted, (hc.ordered.detach n).height_le,
    fun t ht => hc.txHash_eq t (kept.subset ht), fun t ht => hc.outputIndex_lt t (kept.subset ht)⟩

end History

end RingWallet
