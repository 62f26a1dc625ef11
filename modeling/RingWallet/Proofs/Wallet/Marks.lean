import RingWallet.Proofs.Wallet.Changes

/-!
# Which outputs a scan marks as spent

`Transfer.markIn` marks an output as spent when its key image is among some images. An index that
agrees with the list of outputs finds every output by its image, so that the inputs of a transaction
mark exactly the outputs whose images they carry: `transfers_spendInputs`. `transfers_receiveAll`
says that taking in outputs only adds to the end of the list, and `transfers_settled` puts the two
together.
-/

set_option autoImplicit false

namespace RingWallet

namespace Transfer

variable (p : KeyImage → Prop) [DecidablePred p]

/-- The output, marked as spent if its key image satisfies `p` and is among `images`. -/
def markIn (images : List KeyImage) (t : Transfer) : Transfer :=
  { t with spent := t.spent || decide (p t.keyImage ∧ t.keyImage ∈ images) }

variable {p}

/-- A mark does not show in the key image. -/
theorem keyImage_markIn (images : List KeyImage) (t : Transfer) :
    (t.markIn p images).keyImage = t.keyImage := rfl

/-- No input marks nothing. -/
theorem markIn_nil (t : Transfer) : t.markIn p [] = t := by
  simp [markIn]

/-- Two lists of inputs mark what the joined list marks. -/
theorem markIn_markIn (images images' : List KeyImage) (t : Transfer) :
    (t.markIn p images).markIn p images' = t.markIn p (images ++ images') := by
  simp only [markIn, List.mem_append, Bool.or_assoc, mk.injEq, true_and, and_true]
  by_cases h : p t.keyImage <;> simp [h]

end Transfer

/-- An unspent output stays unspent unless its key image is among the inputs. -/
theorem map_markIn_eq_self {ts : List Transfer} {images : List KeyImage} :
    ts.map (Transfer.markIn (· ≠ .null) images) = ts ↔
      ∀ t ∈ ts, t.spent = false → t.keyImage ≠ .null → t.keyImage ∉ images := by
  constructor
  · -- a change at one output is a change of the list, so each output can be read off by itself
    intro eq t ht unspent present mem
    obtain ⟨i, at_i⟩ := List.mem_iff_getElem?.mp ht
    have marked := congrArg (fun ts => ts[i]?.map Transfer.spent) eq
    simp [at_i, Transfer.markIn, present, mem, unspent] at marked
  · intro unmarked
    have each : ∀ t ∈ ts, t.markIn (· ≠ .null) images = id t := by
      intro t ht
      unfold Transfer.markIn
      by_cases spent : t.spent = true
      · rw [spent, Bool.true_or, ← spent]
        rfl
      · -- an unspent output is only touched by its own image
        have none : ¬ (t.keyImage ≠ .null ∧ t.keyImage ∈ images) := fun both =>
          unmarked t ht (Bool.eq_false_iff.mpr spent) both.1 both.2
        rw [decide_eq_false none, Bool.or_false]
        rfl
    rw [List.map_congr_left each, List.map_id]

namespace History

variable {p : KeyImage → Prop} {h : History}

/-- An input leaves the index of the key images as it is. -/
theorem indexed_spendInput (hi : h.Indexed p) (input : TxIn) : (h.spendInput input).Indexed p :=
  hi.congr (sameOutputs_spendInput h input).keyImages (sameOutputs_spendInput h input).images

variable [DecidablePred p]

/-- An output that is found by its key image is the one that gets marked. -/
theorem transfers_spend (hi : h.Indexed p) (image : KeyImage) :
    (h.spend image).transfers = h.transfers.map (Transfer.markIn p [image]) := by
  apply List.ext_getElem?
  intro j
  rw [List.getElem?_map]
  have at_j : h.images[j]? = h.transfers[j]?.map Transfer.keyImage := List.getElem?_map
  unfold spend
  rcases hk : h.keyImages[image]? with - | i
  · -- nobody has the image, and nothing is marked
    show h.transfers[j]? = _
    rcases ht : h.transfers[j]? with - | t
    · rfl
    · -- otherwise the index would know the image
      have other : ¬ (p t.keyImage ∧ t.keyImage = image) := by
        rintro ⟨hp, rfl⟩
        rw [ht] at at_j
        rw [(hi t.keyImage j).mpr ⟨hp, at_j⟩] at hk
        cases hk
      simp [Transfer.markIn, other]
  · -- the output at `i` has the image, and it is the only one
    obtain ⟨hp, at_i⟩ := (hi image i).mp hk
    show (h.transfers.modify i _)[j]? = _
    rw [List.getElem?_modify]
    rcases ht : h.transfers[j]? with - | t
    · rfl
    · rw [ht] at at_j
      by_cases hij : i = j
      · subst hij
        rw [at_i] at at_j
        obtain rfl : image = t.keyImage := Option.some.inj at_j
        simp [Transfer.markIn, hp]
      · have other : t.keyImage ≠ image := by
          rintro rfl
          exact hij (hi.unique hp at_i at_j)
        simp [Transfer.markIn, other, hij]

/-- The inputs of a transaction mark the outputs whose key images they carry. -/
theorem transfers_spendInputs (hi : h.Indexed p) (inputs : List TxIn) :
    (inputs.foldl spendInput h).transfers =
      h.transfers.map (Transfer.markIn p (inputs.filterMap TxIn.keyImage?)) := by
  induction inputs generalizing h with
  | nil =>
    show h.transfers = h.transfers.map (Transfer.markIn p [])
    rw [show Transfer.markIn p [] = id from funext Transfer.markIn_nil, List.map_id]
  | cons input rest ih =>
    -- the marks of the first input are made before those of the rest, and marks compose
    rw [List.foldl_cons, ih (indexed_spendInput hi input), List.filterMap_cons]
    unfold spendInput
    rcases input.keyImage? with - | image
    · rfl
    · show (h.spend image).transfers.map _ = _
      rw [transfers_spend hi image, List.map_map]
      exact List.map_congr_left fun t _ => Transfer.markIn_markIn [image] _ t

/-- The inputs of a transaction leave the outputs alone. -/
theorem sameOutputs_spendInputs (h : History) (inputs : List TxIn) :
    SameOutputs h (inputs.foldl spendInput h) := by
  induction inputs generalizing h with
  | nil => exact .refl h
  | cons input rest ih => exact (sameOutputs_spendInput h input).trans (ih _)

/-- Marking outputs notes no payment. -/
theorem payments_spendInputs (h : History) (inputs : List TxIn) :
    (inputs.foldl spendInput h).payments = h.payments := by
  induction inputs generalizing h with
  | nil => rfl
  | cons input rest ih =>
    rw [List.foldl_cons, ih]
    unfold spendInput
    rcases input.keyImage? with - | image
    · rfl
    · -- spending only changes transfers
      show (h.spend image).payments = _
      unfold spend
      rcases h.keyImages[image]? with - | i
      · rfl
      · rfl

/-- Noting a payment writes nothing else. -/
theorem exists_payments_credit (h : History) (tx : Transaction) (txHash : Hash) (height : Nat)
    (fields : List ExtraField) (received : UInt64) :
    ∃ payments, h.credit tx txHash height fields received = { h with payments } := by
  unfold credit
  split
  · split
    · exact ⟨h.payments, rfl⟩
    · unfold addPayment
      simp only []
      split
      · exact ⟨h.payments, rfl⟩
      · exact ⟨_, rfl⟩
  · exact ⟨h.payments, rfl⟩

/-- Noting a payment touches no output. -/
theorem credit_outputs (h : History) (tx : Transaction) (txHash : Hash) (height : Nat)
    (fields : List ExtraField) (received : UInt64) :
    (h.credit tx txHash height fields received).transfers = h.transfers ∧
      (h.credit tx txHash height fields received).keyImages = h.keyImages := by
  obtain ⟨payments, eq⟩ := exists_payments_credit h tx txHash height fields received
  rw [eq]
  exact ⟨rfl, rfl⟩

/-- Taking in own outputs notes no payment. -/
theorem payments_receiveAll (h : History) (found : List Receipt) :
    (found.foldl receive h).payments = h.payments := by
  induction found generalizing h with
  | nil => rfl
  | cons r rest ih =>
    rw [List.foldl_cons, ih]
    unfold receive
    split
    · rfl
    · rfl

/-- Taking in own outputs adds some of them to the end of the list. -/
theorem transfers_receiveAll (h : History) (found : List Receipt) :
    ∃ new, (found.foldl receive h).transfers = h.transfers ++ new := by
  induction found generalizing h with
  | nil => exact ⟨[], by simp⟩
  | cons r rest ih =>
    obtain ⟨new, eq⟩ := ih (h.receive r)
    rw [List.foldl_cons, eq]
    by_cases recorded : h.isRecorded r.image r.transfer.txHash r.transfer.outputIndex = true
    · exact ⟨new, by rw [receive_of_recorded recorded]⟩
    · refine ⟨r.transfer :: new, ?_⟩
      rw [receive_of_new recorded]
      exact List.append_assoc h.transfers [r.transfer] new

/-- Own outputs with different key images, none of which is known, all go to the end of the list. -/
theorem transfers_receiveAll_new {h : History} {found : List Receipt} {images : List KeyImage}
    (same : found.map Receipt.image = images.map some) (distinct : images.Nodup)
    (unknown : ∀ image ∈ images, h.keyImages[image]? = none) :
    (found.foldl receive h).transfers = h.transfers ++ found.map Receipt.transfer := by
  induction found generalizing h images with
  | nil => simp
  | cons r rest ih =>
    rcases images with - | ⟨image, others⟩
    · cases same
    rw [List.map_cons, List.map_cons, List.cons.injEq] at same
    rw [List.nodup_cons] at distinct
    rw [List.forall_mem_cons] at unknown
    have new : ¬ h.isRecorded r.image r.transfer.txHash r.transfer.outputIndex = true := by
      rw [same.1]
      show ¬ h.keyImages.contains image = true
      rw [Std.ExtTreeMap.contains_eq_isSome_getElem?, unknown.1]
      exact Bool.false_ne_true
    rw [List.foldl_cons, receive_of_new new, ih same.2 distinct.2, List.map_cons]
    · exact List.append_assoc h.transfers [r.transfer] _
    -- only its own image gets known
    · intro other mem
      rw [same.1]
      show (h.keyImages.insert image h.transfers.length)[other]? = none
      rw [Std.ExtTreeMap.getElem?_insert, if_neg, unknown.2 other mem]
      rw [Std.LawfulEqOrd.compare_eq_iff_eq]
      rintro rfl
      exact distinct.1 mem

end History

namespace Scan

open History

variable {S : Suite} {p : KeyImage → Prop} [DecidablePred p]

/-- A scan that comes to its end takes in own outputs, and then marks the outputs that the inputs of
the transaction spend, own new ones included. -/
theorem transfers_settled {keys : AccountKeys} {d : KeyDerivation} {tx : Transaction}
    {txHash : Hash} {height : Nat} {indices : List UInt64} {own : List Nat} {h : History}
    (hi : ((brought S keys d tx txHash height indices own).foldl receive
      (h.forget txHash)).Indexed p) :
    (settled S keys d tx txHash height indices own h).transfers =
      ((brought S keys d tx txHash height indices own).foldl receive
        (h.forget txHash)).transfers.map
          (Transfer.markIn p (tx.inputs.filterMap TxIn.keyImage?)) := by
  unfold settled
  simp only []
  rw [(credit_outputs _ _ _ _ _ _).1, transfers_spendInputs hi]

/-- The index of a scan that came to its end is that after its outputs were taken in. -/
theorem keyImages_settled {keys : AccountKeys} {d : KeyDerivation} {tx : Transaction}
    {txHash : Hash} {height : Nat} {indices : List UInt64} {own : List Nat} {h : History} :
    (settled S keys d tx txHash height indices own h).keyImages =
      ((brought S keys d tx txHash height indices own).foldl receive
        (h.forget txHash)).keyImages := by
  unfold settled
  simp only []
  rw [(credit_outputs _ _ _ _ _ _).2, (sameOutputs_spendInputs _ _).keyImages]

/-- After a scan that came to its end nobody waits for the transaction any more. -/
theorem unconfirmed_settled {keys : AccountKeys} {d : KeyDerivation} {tx : Transaction}
    {txHash : Hash} {height : Nat} {indices : List UInt64} {own : List Nat} {h : History} :
    (settled S keys d tx txHash height indices own h).unconfirmed =
      h.unconfirmed.erase txHash := by
  -- a transaction that is settled twice is forgotten once
  have again : settled S keys d tx txHash height indices own (h.forget txHash) =
      settled S keys d tx txHash height indices own h := by
    unfold settled
    rw [forget_forget]
  have changes : Changes S [(txHash, tx)] height (h.forget txHash)
      (settled S keys d tx txHash height indices own (h.forget txHash)) :=
    changes_settled (List.mem_singleton_self _) _
  rw [again] at changes
  refine Std.ExtTreeMap.ext_getElem? fun id => ?_
  -- only the transaction that was settled can have left the unconfirmed ones
  rcases changes.grows.unconfirmed id with same | ⟨⟨_, _, mem, -⟩, gone⟩
  · exact same
  · obtain ⟨rfl, -⟩ := Prod.mk.inj (List.mem_singleton.mp mem)
    rw [gone]
    simp

end Scan

end RingWallet
