import RingWallet.Proofs.Crypto.Group

/-!
# Ring signatures verify

A signer and a verifier go through a ring in separate loops, and the signature is accepted when the
two hash the same points. `RingSignature.Drawn` is what the signer's loop can come up with, whatever
the random words are. The verifier finds the same points for a drawn pair (`Drawn.points?_decoys`),
and for the closed pair of the signer as well, because the key of the signer and the key image are
the multiples of their base points by one secret (`commitment_closed`). Since the signer's pair is
drawn with the challenge zero, closing it makes the challenges add up to the hash
(`challengeSum_close`).

`check_of_generate` says that what `generate` returns is accepted, and `exists_generate` that it
returns something for every ring of points.
-/

set_option autoImplicit false

namespace RingWallet

namespace RingSignature

variable {S : Suite} {σ : Type} {next : RandomSource σ} {image : S.Point} {signer : Nat}

/-- The pairs and the points that `draw` may come up with for a ring. -/
inductive Drawn (S : Suite) (image : S.Point) (signer : Nat) :
    Nat → List PublicKey → List (Scalar × Scalar) → Blob → Prop where
  | nil (position : Nat) : Drawn S image signer position [] [] []
  | own {key : PublicKey} {P : S.Point} {rest : List PublicKey} {pairs : List (Scalar × Scalar)}
      {points : Blob} (decoded : key.point S = .ok P) (nonce : Scalar)
      (others : Drawn S image signer (signer + 1) rest pairs points) :
      Drawn S image signer signer (key :: rest) ((.zero, nonce) :: pairs)
        (ownCommitment S (hashToPoint S key) nonce ++ points)
  | decoy {position : Nat} {key : PublicKey} {P : S.Point} {rest : List PublicKey}
      {pairs : List (Scalar × Scalar)} {points : Blob} (decoded : key.point S = .ok P)
      (other : position ≠ signer) (c r : Scalar)
      (others : Drawn S image signer (position + 1) rest pairs points) :
      Drawn S image signer position (key :: rest) ((c, r) :: pairs)
        (commitment S image P (hashToPoint S key) c r ++ points)

/-! ### The signer's loop -/

/-- What the loop of a signature draws and hashes, whatever numbers it is given. -/
theorem drawn_of_draw {position : Nat} {ring : List PublicKey} {pairs : List (Scalar × Scalar)}
    {points : Blob} {s t : σ}
    (run : (draw S next image signer position ring).run.run s = (.ok (pairs, points), t)) :
    Drawn S image signer position ring pairs points := by
  induction ring generalizing position pairs points s t with
  | nil =>
    obtain ⟨rfl, rfl⟩ := Prod.mk.inj (Except.ok.inj (Prod.mk.inj run).1)
    exact .nil position
  | cons key rest ih =>
    obtain ⟨P, s₁, lifted, run⟩ := ExceptT.run_bind_eq_ok.mp run
    have decoded := (ExceptT.run_lift_eq_ok.mp lifted).1
    -- the signer's own key draws a nonce, a decoy a challenge and a response
    split at run
    · next here =>
      subst here
      obtain ⟨nonce, s₂, -, run⟩ := ExceptT.run_bind_eq_ok.mp run
      obtain ⟨⟨others, more⟩, s₃, later, run⟩ := ExceptT.run_bind_eq_ok.mp run
      obtain ⟨rfl, rfl⟩ := Prod.mk.inj (Except.ok.inj (Prod.mk.inj run).1)
      exact .own decoded nonce (ih later)
    · next other =>
      obtain ⟨c, s₂, -, run⟩ := ExceptT.run_bind_eq_ok.mp run
      obtain ⟨r, s₃, -, run⟩ := ExceptT.run_bind_eq_ok.mp run
      obtain ⟨⟨others, more⟩, s₄, later, run⟩ := ExceptT.run_bind_eq_ok.mp run
      obtain ⟨rfl, rfl⟩ := Prod.mk.inj (Except.ok.inj (Prod.mk.inj run).1)
      exact .decoy decoded other c r (ih later)

/-- The signer gets through every ring of points. -/
theorem exists_draw {position : Nat} {ring : List PublicKey}
    (valid : ∀ key ∈ ring, key.isValid S = true) (s : σ) :
    ∃ pairs points t,
      (draw S next image signer position ring).run.run s = (.ok (pairs, points), t) := by
  induction ring generalizing position s with
  | nil => exact ⟨[], [], s, rfl⟩
  | cons key rest ih =>
    rw [List.forall_mem_cons] at valid
    obtain ⟨P, decoded⟩ := Option.isSome_iff_exists.mp valid.1
    -- every key is valid, so that none of them stops the loop
    have point := PublicKey.point_eq_ok.mpr decoded
    unfold draw
    rw [ExceptT.run_bind_ok (ExceptT.run_lift_eq_ok.mpr ⟨point, rfl⟩)]
    simp only []
    split
    · -- the signer draws one number
      rw [ExceptT.run_bind_ok (ExceptT.run_liftState next.scalar s)]
      obtain ⟨pairs, points, t, later⟩ := ih valid.2 (next.scalar.run s).2
      rw [ExceptT.run_bind_ok later]
      exact ⟨_, _, t, rfl⟩
    · -- everyone else gets two
      rw [ExceptT.run_bind_ok (ExceptT.run_liftState next.scalar s)]
      rw [ExceptT.run_bind_ok (ExceptT.run_liftState next.scalar _)]
      obtain ⟨pairs, points, t, later⟩ := ih valid.2 (next.scalar.run (next.scalar.run s).2).2
      rw [ExceptT.run_bind_ok later]
      exact ⟨_, _, t, rfl⟩

/-! ### The signer's pair -/

/-- The points of the signer are those of the closed pair, if key and key image are the multiples of
the base point and of the hashed point by one scalar. -/
theorem commitment_closed (lawful : S.Lawful) {H : S.Point} (free : S.isTorsionFree H = true)
    (x nonce c : Scalar) :
    commitment S (S.smul x.val H) (S.mulBase x) H c (nonce - c * x) = ownCommitment S H nonce := by
  have closes {P : S.Point} (free : S.isTorsionFree P = true) :
      S.add (S.smul c.val (S.smul x.val P)) (S.smul (nonce - c * x).val P) =
        S.smul nonce.val P := by
    rw [← lawful.smul_val_mul free, ← lawful.smul_val_add free, add_sub_cancel]
  unfold commitment ownCommitment Suite.mulBase
  rw [closes lawful.isTorsionFree_base, lawful.add_comm (S.smul (nonce - c * x).val H), closes free]

/-- The drawn pairs with the pair of the signer closed. -/
def close (x c : Scalar) (k : Nat) (pairs : List (Scalar × Scalar)) : List (Scalar × Scalar) :=
  pairs.modify k fun (_, nonce) => (c, nonce - c * x)

/-- The challenge of the signer stands for zero in the sum. -/
theorem challengeSum_close {pairs : List (Scalar × Scalar)} {k : Nat} {nonce : Scalar}
    (drawn : pairs[k]? = some (.zero, nonce)) (x c : Scalar) :
    challengeSum (close x c k pairs) = c + challengeSum pairs := by
  induction pairs generalizing k with
  | nil => cases drawn
  | cons pair rest ih =>
    -- the challenge goes into the pair of the signer, which held zero
    cases k with
    | zero =>
      obtain rfl := Option.some.inj drawn
      show c + challengeSum rest = c + (Scalar.zero + challengeSum rest)
      rw [show Scalar.zero = 0 from rfl, zero_add]
    | succ k =>
      show pair.1 + challengeSum (close x c k rest) = c + (pair.1 + challengeSum rest)
      rw [ih drawn, add_left_comm]

/-! ### The verifier's loop -/

/-- The form of a pair in a signature. -/
def toSignature : Scalar × Scalar → Signature := fun (c, r) => ⟨c.toBytes, r.toBytes⟩

/-- The verifier finds the points of a pair. -/
theorem points?_cons {key : PublicKey} {P : S.Point} {rest : List (PublicKey × Signature)}
    {challenges : List Scalar} {points : Blob} (decoded : key.point S = .ok P) (c r : Scalar)
    (others : points? S image rest = some (challenges, points)) :
    points? S image ((key, toSignature (c, r)) :: rest) =
      some (c :: challenges, commitment S image P (hashToPoint S key) c r ++ points) := by
  have decoded := PublicKey.point_eq_ok.mp decoded
  simp [points?, toSignature, decoded, Scalar.ofCanonical?_toBytes, others]

namespace Drawn

variable {position : Nat} {ring : List PublicKey} {pairs : List (Scalar × Scalar)} {points : Blob}

/-- Each member of the ring has its pair of numbers. -/
theorem length_eq (drawn : Drawn S image signer position ring pairs points) :
    pairs.length = ring.length := by
  induction drawn with
  | nil => rfl
  | own _ _ _ ih => exact congrArg (· + 1) ih
  | decoy _ _ _ _ _ ih => exact congrArg (· + 1) ih

/-- Behind the signer the drawn pairs are the final ones. -/
theorem points?_behind (drawn : Drawn S image signer position ring pairs points)
    (behind : signer < position) :
    points? S image (ring.zip (pairs.map toSignature)) = some (pairs.map Prod.fst, points) := by
  induction drawn with
  | nil => rfl
  | own => exact absurd behind (Nat.lt_irrefl _)
  | decoy decoded _ c r _ ih => exact points?_cons decoded c r (ih (Nat.lt_succ_of_lt behind))

/-- The signer's nonce stands at its position, with the challenge zero. -/
theorem exists_nonce (drawn : Drawn S image signer position ring pairs points)
    (upto : position ≤ signer) (inside : signer < position + ring.length) :
    ∃ nonce, pairs[signer - position]? = some (.zero, nonce) := by
  induction drawn with
  | nil => exact absurd inside (Nat.not_lt.mpr upto)
  | own _ nonce => exact ⟨nonce, by rw [Nat.sub_self]; rfl⟩
  | @decoy position _ _ _ _ _ _ other _ _ _ ih =>
    rw [List.length_cons] at inside
    rw [show signer - position = signer - (position + 1) + 1 by omega]
    exact ih (by omega) (by omega)

/-- With the closed pair the verifier finds the points that were hashed. -/
theorem points?_close (lawful : S.Lawful) {x : Scalar} {key : PublicKey}
    (own : key.point S = .ok (S.mulBase x)) (marked : image = S.smul x.val (hashToPoint S key))
    (drawn : Drawn S image signer position ring pairs points) (upto : position ≤ signer)
    (real : ring[signer - position]? = some key) (c : Scalar) :
    points? S image (ring.zip ((close x c (signer - position) pairs).map toSignature)) =
      some ((close x c (signer - position) pairs).map Prod.fst, points) := by
  induction drawn with
  | nil => cases real
  | @own key' P rest pairs points decoded nonce others _ =>
    -- the closed response of the signer gives back the commitment that was drawn
    rw [Nat.sub_self] at real ⊢
    obtain rfl : key' = key := Option.some.inj real
    obtain rfl : P = S.mulBase x := Except.ok.inj (decoded.symm.trans own)
    have later := others.points?_behind (Nat.lt_succ_self signer)
    rw [← commitment_closed lawful (lawful.isTorsionFree_hashToPoint key') x nonce c, ← marked]
    exact points?_cons decoded c (nonce - c * x) later
  | @decoy position _ _ _ _ _ decoded other c' r others ih =>
    -- before the signer nothing changes
    have shift : signer - position = signer - (position + 1) + 1 := by omega
    rw [shift] at real ⊢
    exact points?_cons decoded c' r (ih (by omega) real)

end Drawn

/-! ### Signing and checking -/

section

variable {message : Hash} {image : KeyImage} {ring : List PublicKey} {secret : SecretKey}
  {signer : Nat} {key : PublicKey} {x : Scalar}

/-- Closed pairs are accepted, if the challenge closes the sum of the drawn ones. -/
theorem check_close (lawful : S.Lawful) (real : ring[signer]? = some key)
    (own : key.point S = .ok (S.mulBase x))
    (marked : image.point? S = some (S.smul x.val (hashToPoint S key)))
    {pairs : List (Scalar × Scalar)} {points : Blob}
    (drawn : Drawn S (S.smul x.val (hashToPoint S key)) signer 0 ring pairs points) {c : Scalar}
    (closes : c = S.hashToScalar (message.bytes.toList ++ points) - challengeSum pairs) :
    check S message image ring ((close x c signer pairs).map toSignature) = true := by
  have inside : signer < ring.length := (List.getElem?_eq_some_iff.mp real).1
  have nonempty : ring ≠ [] := List.ne_nil_of_length_pos (Nat.zero_lt_of_lt inside)
  have lengths : ring.length = ((close x c signer pairs).map toSignature).length := by
    simp [close, drawn.length_eq]
  -- the verifier hashes the same points
  have same := drawn.points?_close lawful own rfl (Nat.zero_le signer) real c
  rw [Nat.sub_zero] at same
  -- and the challenges add up to the hash
  obtain ⟨nonce, here⟩ : ∃ nonce, pairs[signer]? = some (.zero, nonce) :=
    drawn.exists_nonce (Nat.zero_le signer) (by omega)
  have sum : challengeSum (close x c signer pairs) =
      S.hashToScalar (message.bytes.toList ++ points) := by
    rw [challengeSum_close here, closes, sub_add_cancel]
  unfold check
  rw [if_neg (by simp [nonempty, lengths]), marked]
  simp only [same]
  exact decide_eq_true sum.symm

/-- What a signer returns is accepted, if its secret belongs to the member at its position and the
key image was made from the two. -/
theorem check_of_generate (lawful : S.Lawful) (real : ring[signer]? = some key)
    (own : key.point S = .ok (S.mulBase x)) (scalar : secret.scalar = .ok x)
    (made : KeyImage.ofKeys S key secret = .ok image) {signatures : List Signature} {s t : σ}
    (run : (generate S next message image ring secret signer).run.run s = (.ok signatures, t)) :
    check S message image ring signatures = true := by
  have inside : signer < ring.length := (List.getElem?_eq_some_iff.mp real).1
  have marked := lawful.point?_ofKeys scalar made
  unfold generate at run
  rw [if_neg (Nat.not_le.mpr inside)] at run
  by_cases zero : x = .zero
  · -- the image of the secret zero is refused
    rw [if_pos zero] at marked
    rw [marked] at run
    exact nomatch (Prod.mk.inj run).1
  · rw [if_neg zero] at marked
    -- the pairs come from the loop of draws, and are closed at the signer
    rw [marked] at run
    obtain ⟨x', s₁, lifted, step⟩ := ExceptT.run_bind_eq_ok.mp run
    have same := (ExceptT.run_lift_eq_ok.mp lifted).1
    rw [scalar] at same
    obtain rfl := Except.ok.inj same
    obtain ⟨⟨pairs, points⟩, s₂, loop, step⟩ := ExceptT.run_bind_eq_ok.mp step
    obtain rfl := Except.ok.inj (Prod.mk.inj step).1
    exact check_close lawful real own marked (drawn_of_draw loop) rfl

/-- A signer returns something for every ring of points, whatever the random words are, if its
secret is not zero. -/
theorem exists_generate (lawful : S.Lawful) (valid : ∀ member ∈ ring, member.isValid S = true)
    (inside : signer < ring.length) (scalar : secret.scalar = .ok x) (nonzero : x ≠ .zero)
    (made : KeyImage.ofKeys S key secret = .ok image) (s : σ) :
    ∃ signatures t,
      (generate S next message image ring secret signer).run.run s = (.ok signatures, t) := by
  have marked := lawful.point?_ofKeys scalar made
  rw [if_neg nonzero] at marked
  obtain ⟨pairs, points, t, loop⟩ : ∃ pairs points t,
      (draw S next (S.smul x.val (hashToPoint S key)) signer 0 ring).run.run s =
        (.ok (pairs, points), t) := exists_draw valid s
  unfold generate
  rw [if_neg (Nat.not_le.mpr inside), marked]
  simp only []
  rw [ExceptT.run_bind_ok (ExceptT.run_lift_eq_ok.mpr ⟨scalar, rfl⟩), ExceptT.run_bind_ok loop]
  exact ⟨_, t, rfl⟩

end

end RingSignature

end RingWallet
