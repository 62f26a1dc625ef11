import RingWallet.Proofs.Spend.Ring

/-!
# Inputs are signed for the rings that they name

An input names its ring by offsets, and its signature is made for the keys of a ring. Both come from
the same source, so they are about the same ring, position by position: `Build.RingSigned` says so
of one input, `Build.ringSigned_of_sourceOf` proves it for the source of a selected output, and
`offsets_name_signed_ring` for all inputs of a transaction that was built.
-/

set_option autoImplicit false

namespace RingWallet

open WalletM

/-- Lists that are related item by item have related items at every position. -/
theorem exists_getElem?_of_forall₂ {α β : Type} {R : α → β → Prop} {as : List α} {bs : List β}
    (pairs : List.Forall₂ R as bs) {i : Nat} {a : α} (here : as[i]? = some a) :
    ∃ b, bs[i]? = some b ∧ R a b := by
  obtain ⟨bound, rfl⟩ := List.getElem?_eq_some_iff.mp here
  obtain ⟨length, related⟩ := List.forall₂_iff_get.mp pairs
  exact ⟨bs[i], List.getElem?_eq_getElem _, related i bound (length ▸ bound)⟩

namespace Build

variable {S : Suite} {σ : Type} {env : Environment σ}

/-- What is left of a ring without its real member are the decoys. -/
theorem eraseIdx_ringOf (decoys : List (UInt64 × PublicKey)) (real : UInt64 × PublicKey) :
    (ringOf decoys real).1.eraseIdx (ringOf decoys real).2 = decoys :=
  List.eraseIdx_insertIdx_self real

/-- A chosen decoy is one that was offered, with its key. -/
theorem exists_offer_of_mem_chosen {mixin real : UInt64} {offered : List Daemon.Decoy}
    {chosen : List (UInt64 × PublicKey)} (run : chooseDecoys mixin real offered = .ok chosen)
    {member : UInt64 × PublicKey} (mem : member ∈ chosen) :
    ∃ d ∈ offered, d.globalIndex = member.1 ∧ PublicKey.ofHex d.key = .ok member.2 := by
  obtain ⟨d, taken, step⟩ := Except.mem_of_mapM_eq_ok run mem
  obtain ⟨key, decoded, step⟩ := Except.bind_eq_ok.mp step
  obtain rfl := Except.ok.inj step
  have usable := (List.mem_filter.mp (List.mem_of_mem_take taken)).1
  exact ⟨d, List.mem_mergeSort.mp usable, rfl, Except.mapError_eq_ok.mp decoded⟩

/-- An input that spends a transfer is signed for the ring that it names. The offsets of the input
decode to the global indices of the ring, which go up. At the position that signs stand the global
index of the transfer and the key of its output, and everywhere else a decoy that was offered. The
signature of the message is made with the keys of the ring, for the key image of the input. -/
structure RingSigned (S : Suite) (env : Environment σ) (message : Hash) (mixin : Nat) (t : Transfer)
    (offered : List Daemon.Decoy) (input : TxIn) (signature : List Signature)
    (ring : List (UInt64 × PublicKey)) (position : Nat) : Prop where
  decoded : ∃ amount offsets image, input = .toKey amount offsets image ∧
    Offsets.toAbsolute offsets = ring.map Prod.fst
  sorted : (ring.map Prod.fst).Pairwise (· ≤ ·)
  real : ∃ out, t.output? = some out ∧ ring[position]? = some (t.globalIndex, out.key)
  others : ∀ member ∈ ring.eraseIdx position, ∃ d ∈ offered, d.globalIndex = member.1 ∧
    PublicKey.ofHex d.key = .ok member.2
  size : ring.length ≤ mixin + 1
  signed : ∃ image secret e e', input.keyImage? = some image ∧
    (RingSignature.generate S env.random message image (ring.map Prod.snd) secret
      position).run.run e = (.ok signature, e')

/-- The source of a selected output makes an input and a signature for one ring. -/
theorem ringSigned_of_sourceOf {w : Wallet} {mixin : UInt64} {handle : Handle}
    {offered : List Daemon.Decoy} {source : SpendableSource}
    (run : sourceOf w mixin handle offered = .ok source.source) {message : Hash}
    {signature : List Signature} {e e' : σ}
    (signs : (RingSignature.generate S env.random message source.image source.source.keys
      source.secret source.source.position).run.run e = (.ok signature, e')) :
    ∃ t, w.history.transfers[handle.index]? = some t ∧
      RingSigned S env message mixin.toNat t offered source.input signature source.source.ring
        source.source.position := by
  -- the source gives the ring its members and the position, which the signature is about
  obtain ⟨t, out, chosen, txKey, at_index, here, choice, -, eq⟩ := eq_of_sourceOf run
  have ring : source.source.ring = (ringOf chosen (t.globalIndex, out.key)).1 := by rw [eq]
  have position : source.source.position = (ringOf chosen (t.globalIndex, out.key)).2 := by rw [eq]
  have mixed := mixed_of_chooseDecoys choice out.key
  rw [← ring] at mixed
  refine ⟨t, at_index, ⟨⟨_, _, _, rfl, Offsets.toAbsolute_toRelative mixed.sorted⟩, mixed.sorted,
    ⟨out, here, ?_⟩, ?_, ?_, ⟨source.image, source.secret, e, e', rfl, signs⟩⟩⟩
  · -- the own output, the decoys, and their number
    rw [ring, position]
    exact getElem?_ringOf _ _
  · rw [ring, position, eraseIdx_ringOf]
    exact fun member mem => exists_offer_of_mem_chosen choice mem
  · have length := mixed.length_eq
    rw [List.length_map] at length
    omega

end Build

/-- Offsets name the ring. Indices that do not go down are what their offsets decode to, and offsets
whose sum fits a word are those of the indices to which they decode. A transaction that was built
has one input and one signature for each selected output, for any wallet and request and whatever
the daemon and the source of random words answer: the input decodes to the global indices of the
very ring that the signature is made for, in order, with the output that is spent at the position
that signs and at most as many others as decoys were wanted, all of them offered by the daemon. -/
theorem offsets_name_signed_ring :
    (∀ indices : List UInt64, indices.Pairwise (· ≤ ·) →
      Offsets.toAbsolute (Offsets.toRelative indices) = indices) ∧
    (∀ offsets : List UInt64, exactSum offsets ≤ maxWord →
      Offsets.toRelative (Offsets.toAbsolute offsets) = offsets) ∧
    ∀ (S : Suite) {σ : Type} (env : Environment σ) (r : TransferRequest) (s t : Session σ)
      (p : PendingTransaction), exec (build S env r) s = (.ok p, t) →
      p.tx.inputs.length = p.selected.length ∧ p.tx.signatures.length = p.selected.length ∧
      ∃ offers : List (List Daemon.Decoy),
        (r.mixin ≠ 0 → ∃ reply,
          Build.Offered env (Build.asking env s r) s.wallet r.mixin p.selected reply ∧
            offers = reply.amounts.map Daemon.DecoysOfAmount.decoys) ∧
        ∀ (i : Nat) (handle : Handle), p.selected[i]? = some handle →
          ∃ t offered input signature ring position,
            s.history.transfers[handle.index]? = some t ∧ offers[i]? = some offered ∧
            p.tx.inputs[i]? = some input ∧ p.tx.signatures[i]? = some signature ∧
            Build.RingSigned S env (p.tx.signedPart.hash S) r.mixin.toNat t offered input signature
              ring position := by
  refine ⟨fun _ => Offsets.toAbsolute_toRelative, fun _ => Offsets.toRelative_toAbsolute, ?_⟩
  intro S σ env r s t p run
  obtain ⟨⟨needed, now, found, offers, sources, extra, steps⟩, -⟩ := Build.steps_of_build run
  obtain ⟨e, e', constructed⟩ := steps.constructs
  obtain ⟨spendSecret, prepared, money, spent, parts⟩ := Construct.steps_of_construct constructed
  obtain ⟨same, -, -⟩ := Construct.of_spendables parts.prepares
  obtain ⟨e₁, e₂, signs⟩ := parts.signs
  have signed := Construct.of_sign signs
  -- the sources in the order of the selection
  have sourced := Except.forall₂_of_mapM_eq_ok steps.sourced
  rw [← same, List.forall₂_map_right_iff] at sourced
  have count : (p.selected.zip offers).length = p.selected.length := by
    rw [List.length_zip, steps.length, Nat.min_self]
  have length := sourced.length_eq
  refine ⟨?_, ?_, offers, steps.offers, ?_⟩
  · rw [parts.inputs, List.length_map, ← length, count]
  · rw [← signed.length_eq, ← length, count]
  · intro i handle here
    obtain ⟨bound, -⟩ := List.getElem?_eq_some_iff.mp here
    have inside : i < offers.length := steps.length ▸ bound
    have offered : offers[i]? = some offers[i] := List.getElem?_eq_getElem inside
    have pair : (p.selected.zip offers)[i]? = some (handle, offers[i]) :=
      List.getElem?_zip_eq_some.mpr ⟨here, offered⟩
    obtain ⟨source, at_place, made⟩ := exists_getElem?_of_forall₂ sourced pair
    obtain ⟨signature, listed, e₃, e₄, generated⟩ := exists_getElem?_of_forall₂ signed at_place
    obtain ⟨t, at_index, ringSigned⟩ := Build.ringSigned_of_sourceOf made generated
    refine ⟨t, _, source.input, signature, _, _, at_index, offered, ?_, listed, ringSigned⟩
    rw [parts.inputs, List.getElem?_map, at_place]
    rfl

open Mixing in
/-- The output with index 7 is spent among the outputs with indices 3 and 7. -/
theorem offsets_name_signed_ring_small :
    (∃ p t, exec (build .small (offering [decoy 3 9]) request) wallet = (.ok p, t) ∧
      ∃ t offered input signature ring position, wallet.history.transfers[0]? = some t ∧
        p.tx.inputs[0]? = some input ∧ p.tx.signatures[0]? = some signature ∧
        input.ringIndices = [3, 7] ∧
        Build.RingSigned .small (offering [decoy 3 9]) (p.tx.signedPart.hash .small) 1 t offered
          input signature ring position) ∧
    Offsets.toAbsolute (Offsets.toRelative [3, 7]) = [3, 7] ∧
    Offsets.toRelative (Offsets.toAbsolute [3, 4]) = [3, 4] := by
  obtain ⟨decodes, encodes, signs⟩ := offsets_name_signed_ring
  refine ⟨?_, decodes [3, 7] (by decide), encodes [3, 4] (by decide)⟩
  have built : (exec (build .small (offering [decoy 3 9]) request) wallet).1.toOption.map (fun p =>
      (p.selected.map Handle.index, p.tx.inputs.map TxIn.ringIndices)) =
        some ([0], [[3, 7]]) := by decide +kernel
  obtain ⟨p, built, parts⟩ := Option.map_eq_some_iff.mp built
  obtain ⟨selected, rings⟩ := Prod.mk.inj parts
  have run := exec_eq_ok built
  obtain ⟨-, -, offers, -, each⟩ := signs .small (offering [decoy 3 9]) request wallet _ p run
  -- the only selected handle
  obtain ⟨handle, here, index⟩ : ∃ handle, p.selected[0]? = some handle ∧ handle.index = 0 := by
    have first : (p.selected.map Handle.index)[0]? = some 0 := by rw [selected]; rfl
    rwa [List.getElem?_map, Option.map_eq_some_iff] at first
  obtain ⟨t, offered, input, signature, ring, position, at_index, -, at_input, listed, signed⟩ :=
    each 0 handle here
  have decoded : (p.tx.inputs.map TxIn.ringIndices)[0]? = some input.ringIndices := by
    rw [List.getElem?_map, at_input]
    rfl
  rw [rings] at decoded
  exact ⟨p, _, run, t, offered, input, signature, ring, position, index ▸ at_index, at_input,
    listed, (Option.some.inj decoded).symm, signed⟩

end RingWallet
