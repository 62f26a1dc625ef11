import RingWallet.Proofs.Wallet.Run
import RingWallet.Spend.Construct
import RingWallet.Wallet.Balance

/-!
# Drawing at random is silent

A wallet draws random words when it selects outputs, and when it makes the key of a transaction and
its ring signatures. These programs read the source of random words alone, one word after the other
(`RandomSource.mute_words`), so nothing is sent while they run. `Balance.mute_select` says this of a
selection and `mute_construct` of the construction of a transaction, however it ends.
-/

set_option autoImplicit false

namespace RingWallet

open Environment

variable {σ : Type} (env : Environment σ)

namespace RandomSource

/-- To draw a word sends nothing. -/
theorem mute_next : env.Mute (env.random : StateM σ UInt64) := .of_step fun e => .random e

/-- To draw some words sends nothing. -/
theorem mute_words (count : Nat) : env.Mute (words env.random count) := by
  induction count with
  | zero => exact mute_pure _
  | succ count ih => exact (mute_next env).bind fun _ => ih.bind fun _ => mute_pure _

/-- To draw a scalar sends nothing. -/
theorem mute_scalar : env.Mute (scalar env.random) :=
  ((mute_words env _).bind fun _ => mute_pure _).bind fun _ => mute_pure _

/-- To draw a position sends nothing. -/
theorem mute_position {α : Type} (items : List α) (h : items ≠ []) :
    env.Mute (position env.random items h) :=
  (mute_next env).bind fun _ => mute_pure _

end RandomSource

open RandomSource

namespace Balance

/-- To pick outputs sends nothing. -/
theorem mute_pick (needed found : UInt64) (dustFirst : Bool) (regular dust : List Candidate) :
    env.Mute (pick env.random needed found dustFirst regular dust) := by
  induction found, dustFirst, regular, dust using pick.induct needed with
  | case1 found dustFirst regular dust enough =>
    rw [pick, if_pos enough]
    exact mute_pure _
  | case2 found dustFirst regular dust more h ih =>
    rw [pick, if_neg more, dif_pos h]
    -- dust is drawn first, if there is any and it is wanted
    exact (mute_position env _ _).bind fun i => (ih i).bind fun _ => mute_pure _
  | case3 found dustFirst regular dust more no_dust h ih =>
    rw [pick, if_neg more, dif_neg no_dust, dif_pos h]
    exact (mute_position env _ _).bind fun i => (ih i).bind fun _ => mute_pure _
  | case4 found dustFirst regular dust more no_dust none =>
    rw [pick, if_neg more, dif_neg no_dust, dif_neg none]
    exact mute_pure _

/-- A selection sends nothing. -/
theorem mute_select (w : Wallet) (now needed : UInt64) (addDust : Bool) (threshold : UInt64)
    (excluded : List Nat) :
    env.Mute (select env.random w now needed addDust threshold excluded) :=
  mute_pick env needed 0 addDust _ _

end Balance

variable (S : Suite)

namespace RingSignature

/-- To draw the numbers of a ring sends nothing. -/
theorem mute_draw (image : S.Point) (signer position : Nat) (ring : List PublicKey) :
    env.Mute (draw S env.random image signer position ring).run := by
  induction ring generalizing position with
  | nil => exact mute_pure _
  | cons key rest ih =>
    rw [draw]
    refine .run_bind (mute_pure _) fun P => ?_
    simp only []
    split
    · -- the signer draws one number, everyone else two
      refine .run_bind (.lift (mute_scalar env)) fun nonce => ?_
      exact .run_bind (ih _) fun _ => mute_pure _
    · refine .run_bind (.lift (mute_scalar env)) fun c => ?_
      refine .run_bind (.lift (mute_scalar env)) fun r => ?_
      exact .run_bind (ih _) fun _ => mute_pure _

/-- To sign for a ring sends nothing. -/
theorem mute_generate (message : Hash) (image : KeyImage) (ring : List PublicKey)
    (secret : SecretKey) (signer : Nat) :
    env.Mute (generate S env.random message image ring secret signer).run := by
  unfold generate
  simp only []
  split
  · exact mute_pure _
  · split
    · refine .run_bind (mute_pure _) fun x => ?_
      exact .run_bind (mute_draw env S _ _ _ _) fun _ => mute_pure _
    · exact mute_pure _

end RingSignature

/-- To sign for all inputs sends nothing. -/
theorem Construct.mute_sign (message : Hash) (sources : List SpendableSource) :
    env.Mute (sign S env.random message sources).run := by
  induction sources with
  | nil => exact mute_pure _
  | cons s rest ih =>
    refine .run_bind ?_ fun _ => .run_bind ih fun _ => mute_pure _
    exact (RingSignature.mute_generate env S _ _ _ _ _).bind fun _ => mute_pure _

/-- The construction of a transaction sends nothing, however it ends. -/
theorem mute_construct (sender : AccountKeys) (sources : List Source)
    (destinations : List Destination) (extra : Blob) (unlockTime : UInt64) :
    env.Mute (construct S env.random sender sources destinations extra unlockTime).run := by
  unfold construct
  split
  · split
    · exact mute_pure _
    -- only the keys of the transaction and the signatures are random
    refine .run_bind (.lift ((mute_scalar env).bind fun _ => mute_pure _)) fun keys => ?_
    refine .run_bind (mute_pure _) fun prepared => .run_bind (mute_pure _) fun outs => ?_
    simp only []
    split
    · exact mute_pure _
    · exact .run_bind (Construct.mute_sign env S _ _) fun _ => mute_pure _
  · exact mute_pure _

end RingWallet
