import Mathlib.Data.List.Basic
import Mathlib.Data.List.Induction
import RingWallet.Proofs.Support.Script
import RingWallet.Proofs.Support.Sums
import RingWallet.Proofs.Wallet.Chain
import RingWallet.Wallet.Balance
import RingWallet.Wallet.SavedState

/-!
# Reading a chain

What a full wallet knows of a chain can be told without scanning it. The transactions that matter
(`Reading.looked`) are those of young enough blocks whose transaction key is the encoding of a
point. Those that pay the account something are `Reading.asked`, because the daemon is asked for the
indices of their outputs. Their own outputs in chain order are `Reading.found`, of which the first
one of each key image counts (`Reading.firsts`), and one is spent if its key image appears among the
inputs of its own or a later transaction (`Reading.isSpent`). Together this is the list
`Reading.transfers`.

`reading_of_addBlocks` says that a new wallet that scans the chain without a failure ends up
with exactly these transfers, indexed by their key images, and with the sum of the unspent ones as
its balance.
-/

set_option autoImplicit false

namespace RingWallet

namespace Reading

open Scan

variable (S : Suite) (account : Account)

/-- Whether the first transaction key in the extra bytes exists and is the encoding of a point. -/
def hasKey (p : Placed) : Bool := (Extra.publicKey? p.tx.extra).any (PublicKey.isValid S)

/-- The transactions of a chain that matter: those of young enough blocks that have a usable key. -/
def looked (config : Config) (start : Nat) (blocks : List ParsedBlock) : List Placed :=
  (Sync.placed S account config start blocks).filter (hasKey S)

/-- The positions of the outputs of a transaction whose key is the one-time key of the account. -/
def owned (tx : Transaction) : List Nat :=
  (derivation? S account.keys (Extra.parse tx.extra).1).elim [] fun d =>
    (tx.outputs.zipIdx.filter fun (out, i) =>
      (d.publicKey S i account.address.spendKey).toOption = some out.key).map Prod.snd

/-- What a transaction pays the account. -/
def ownedSum (tx : Transaction) : Nat :=
  ((owned S account tx).map fun i => ((tx.outputs[i]?.map TxOut.amount).getD 0).toNat).sum

/-- The key image of the one-time key pair of an own output. -/
def imageAt? (tx : Transaction) (i : Nat) : Option KeyImage := do
  let d ← derivation? S account.keys (Extra.parse tx.extra).1
  let out ← tx.outputs[i]?
  let spend ← account.keys.spendSecret
  let secret ← (d.secretKey S i spend).toOption
  (KeyImage.ofKeys S out.key secret).toOption

/-- An own output of a chain, unspent, and how many of the transactions that matter come before its
own one. -/
structure OwnOutput where
  transfer : Transfer
  since : Nat

namespace OwnOutput

def image (o : OwnOutput) : KeyImage := o.transfer.keyImage

end OwnOutput

/-- The own outputs of a transaction with `n` others before it. -/
def outputsOf (p : Placed) (n : Nat) (indices : List UInt64) : List OwnOutput :=
  (owned S account p.tx).map fun i =>
    { transfer :=
        { blockHeight := p.height, tx := p.tx, txHash := p.txHash, outputIndex := i
          globalIndex := indices[i]?.getD 0, spent := false
          keyImage := (imageAt? S account p.tx i).getD .null }
      since := n }

/-- The transactions that pay the account something, numbered among all that matter. -/
def asked (txs : List Placed) : List (Placed × Nat) :=
  txs.zipIdx.filter fun (p, _) => ownedSum S account p.tx ≠ 0

/-- The own outputs in chain order; `answers` are the indices of the outputs of each transaction
that pays the account something. -/
def found (txs : List Placed) (answers : List (List UInt64)) : List OwnOutput :=
  ((asked S account txs).zip answers).flatMap fun ((p, n), indices) =>
    outputsOf S account p n indices

/-- The first output of each key image. -/
def firsts (outputs : List OwnOutput) : List OwnOutput :=
  (outputs.zipIdx.filter fun (o, i) =>
    decide (∀ o' ∈ outputs.take i, o'.image ≠ o.image)).map Prod.fst

/-- Whether the key image of an output appears among the inputs of its own or a later transaction.
-/
def isSpent (txs : List Placed) (o : OwnOutput) : Bool := o.image ∈ spentImages (txs.drop o.since)

/-- An own output as it stands after all transactions. -/
def settle (txs : List Placed) (o : OwnOutput) : Transfer :=
  { o.transfer with spent := isSpent txs o }

/-- The transfers of a wallet that knows some transactions and the indices of their outputs. -/
def transfers (txs : List Placed) (answers : List (List UInt64)) : List Transfer :=
  (firsts (found S account txs answers)).map (settle txs)

/-! ### The first output of each key image -/

/-- One more output counts if its key image is a new one. -/
theorem firsts_concat (outputs : List OwnOutput) (o : OwnOutput) :
    firsts (outputs ++ [o]) =
      firsts outputs ++ if ∀ o' ∈ outputs, o'.image ≠ o.image then [o] else [] := by
  unfold firsts
  rw [List.zipIdx_append, List.filter_append, List.map_append]
  congr 1
  · congr 1
    -- whether an output came first depends on the outputs before it only
    apply List.filter_congr
    rintro ⟨o', i⟩ mem
    have below : i < outputs.length := by
      have := List.snd_lt_of_mem_zipIdx mem
      omega
    simp only [List.take_append_of_le_length (Nat.le_of_lt below)]
  · rw [List.zipIdx_singleton, Nat.zero_add]
    by_cases h : ∀ o' ∈ outputs, o'.image ≠ o.image
    · rw [if_pos h, List.filter_cons_of_pos]
      · rfl
      · simp only [List.take_left]
        exact decide_eq_true h
    · rw [if_neg h, List.filter_cons_of_neg]
      · rfl
      · simp only [List.take_left, decide_eq_true_iff]
        exact h

/-- Every key image keeps an output. -/
theorem mem_images_firsts (outputs : List OwnOutput) (image : KeyImage) :
    image ∈ (firsts outputs).map OwnOutput.image ↔ image ∈ outputs.map OwnOutput.image := by
  induction outputs using List.reverseRecOn with
  | nil => rfl
  | append_singleton outputs o ih =>
    rw [firsts_concat, List.map_append, List.mem_append, ih, List.map_append, List.mem_append]
    by_cases h : ∀ o' ∈ outputs, o'.image ≠ o.image
    · rw [if_pos h]
    · -- an output that is left out has its image from an earlier one
      rw [if_neg h]
      push Not at h
      obtain ⟨o', mem, eq⟩ := h
      constructor
      · rintro (old | none)
        · exact .inl old
        · cases none
      · rintro (old | new)
        · exact .inl old
        · rw [List.map_singleton, List.mem_singleton] at new
          rw [new, ← eq]
          exact .inl (List.mem_map_of_mem mem)

/-- Only own outputs are left when repeated key images are dropped. -/
theorem mem_of_mem_firsts {outputs : List OwnOutput} {o : OwnOutput} (mem : o ∈ firsts outputs) :
    o ∈ outputs := by
  obtain ⟨⟨o', i⟩, kept, rfl⟩ := List.mem_map.mp mem
  obtain ⟨-, -, eq⟩ := List.mem_zipIdx (List.mem_filter.mp kept).1
  rw [eq]
  exact List.getElem_mem _

/-! ### What a scan takes in -/

/-- An own output as a scan of a full account finds it. -/
def OwnOutput.receipt (o : OwnOutput) : Receipt := ⟨o.transfer, some o.image⟩

/-- Taking in own outputs keeps the first one of each key image. -/
theorem receive_firsts {f : OwnOutput → Transfer} (image_eq : ∀ o, (f o).keyImage = o.image)
    (before : List OwnOutput) {new : List OwnOutput} (unspent : ∀ o ∈ new, f o = o.transfer)
    {h : History} (indexed : h.Indexed fun _ => True)
    (known : h.transfers = (firsts before).map f) :
    ((new.map OwnOutput.receipt).foldl History.receive h).transfers =
        (firsts (before ++ new)).map f ∧
      ((new.map OwnOutput.receipt).foldl History.receive h).Indexed fun _ => True := by
  induction new generalizing before h with
  | nil =>
    rw [List.append_nil]
    exact ⟨known, indexed⟩
  | cons o rest ih =>
    rw [List.forall_mem_cons] at unspent
    rw [List.map_cons, List.foldl_cons, List.append_cons]
    -- the index has exactly the images of the outputs so far
    have images : h.images = (firsts before).map OwnOutput.image := by
      rw [History.images, known, List.map_map]
      exact List.map_congr_left fun o _ => image_eq o
    have recorded : h.isRecorded o.receipt.image o.receipt.transfer.txHash
        o.receipt.transfer.outputIndex = true ↔ ¬ ∀ o' ∈ before, o'.image ≠ o.image := by
      show h.keyImages.contains o.image = true ↔ _
      rw [indexed.contains_iff trivial, images, mem_images_firsts]
      push Not
      exact List.mem_map
    -- an image that is new makes a transfer, any other output is passed over
    by_cases new : ∀ o' ∈ before, o'.image ≠ o.image
    · have absent := (not_congr recorded).mpr (not_not_intro new)
      rw [History.receive_of_new absent]
      refine ih _ unspent.2 (indexed.record_some trivial rfl (Bool.eq_false_iff.mpr absent)) ?_
      rw [firsts_concat, if_pos new, List.map_append, ← known, List.map_singleton, unspent.1]
      rfl
    · rw [History.receive_of_recorded (recorded.mpr new)]
      refine ih _ unspent.2 indexed ?_
      rw [firsts_concat, if_neg new, List.append_nil]
      exact known

variable {S account}

/-- The scan finds the outputs that the account owns. -/
theorem ownOutputs_eq {address : Address} {d : KeyDerivation} {index : Nat} {outs : List TxOut}
    {own : List Nat} (run : ownOutputs S address d index outs = .ok own) :
    own = ((outs.zipIdx index).filter fun (out, i) =>
      (d.publicKey S i address.spendKey).toOption = some out.key).map Prod.snd := by
  induction outs generalizing index own with
  | nil => exact (Except.ok.inj run).symm
  | cons out rest ih =>
    obtain ⟨key, hk, run⟩ := Except.bind_eq_ok.mp run
    obtain ⟨others, hrest, run⟩ := Except.bind_eq_ok.mp run
    have run := Except.ok.inj run
    rw [← run, List.zipIdx_cons, ih hrest]
    -- whether the key is the wallet's own decides if the position is kept
    by_cases mine : key = out.key
    · rw [if_pos mine, List.filter_cons_of_pos]
      · rfl
      · simp [hk, Except.toOption, mine]
    · rw [if_neg mine, List.filter_cons_of_neg]
      simp [hk, Except.toOption, mine]

/-- The positions of the outputs with the one-time key of an address. -/
theorem mem_positions {address : Address} {d : KeyDerivation} {outs : List TxOut} {i : Nat} :
    i ∈ (outs.zipIdx.filter fun (out, i) =>
        (d.publicKey S i address.spendKey).toOption = some out.key).map Prod.snd ↔
      ∃ out, outs[i]? = some out ∧ d.publicKey S i address.spendKey = .ok out.key := by
  constructor
  · intro mem
    obtain ⟨⟨out, j⟩, kept, rfl⟩ := List.mem_map.mp mem
    obtain ⟨numbered, mine⟩ := List.mem_filter.mp kept
    exact ⟨out, List.mem_zipIdx_iff_getElem?.mp numbered,
      Except.toOption_eq_some.mp (of_decide_eq_true mine)⟩
  · rintro ⟨out, here, mine⟩
    have numbered : (out, i) ∈ outs.zipIdx := List.mem_zipIdx_iff_getElem?.mpr here
    have mine := decide_eq_true (Except.toOption_eq_some.mpr mine)
    exact List.mem_map.mpr ⟨(out, i), List.mem_filter.mpr ⟨numbered, mine⟩, rfl⟩

/-- The positions that are found are those of the outputs with the one-time key of the address. -/
theorem mem_ownOutputs {address : Address} {d : KeyDerivation} {outs : List TxOut} {own : List Nat}
    (run : ownOutputs S address d 0 outs = .ok own) {i : Nat} :
    i ∈ own ↔
      ∃ out, outs[i]? = some out ∧ d.publicKey S i address.spendKey = .ok out.key := by
  rw [ownOutputs_eq run]
  exact mem_positions

/-- An account owns the outputs whose one-time key is derived from its address. -/
theorem mem_owned {tx : Transaction} {d : KeyDerivation}
    (usable : derivation? S account.keys (Extra.parse tx.extra).1 = some d) {i : Nat} :
    i ∈ owned S account tx ↔ ∃ out, tx.outputs[i]? = some out ∧
      d.publicKey S i account.address.spendKey = .ok out.key := by
  unfold owned
  rw [usable]
  exact mem_positions

variable {σ : Type} {env : Environment σ} {p : Placed} {e e' : σ} {d : KeyDerivation}
  {own : List Nat} {indices : List UInt64}

/-- The positions that a completed scan has found are those of the own outputs. -/
theorem owned_of_completed (completed : Completed S env account p.tx p.txHash e e' d own indices) :
    own = owned S account p.tx := by
  unfold owned
  rw [completed.usable]
  exact ownOutputs_eq completed.owned

/-- What the scan adds up is what the transaction pays the account, up to the largest word. -/
theorem toNat_amountAt_owned (S : Suite) (account : Account) (tx : Transaction) :
    (amountAt tx.outputs (owned S account tx)).toNat = min (ownedSum S account tx) maxWord := by
  unfold amountAt ownedSum
  rw [UInt64.toNat_foldl_addSat]
  simp

/-- The daemon is asked exactly when the own outputs have a sum that is not zero. -/
theorem worth_iff (tx : Transaction) :
    Worth tx (owned S account tx) ↔ ownedSum S account tx ≠ 0 := by
  have total := toNat_amountAt_owned S account tx
  have some_bound : 0 < maxWord := by decide
  have zero_iff : amountAt tx.outputs (owned S account tx) = 0 ↔ ownedSum S account tx = 0 := by
    -- a saturated sum is zero just when the sum is
    rw [← UInt64.toNat_inj, total]
    show min _ _ = 0 ↔ _
    omega
  constructor
  · rintro ⟨-, worth⟩
    exact (not_congr zero_iff).mp worth
  · intro worth
    refine ⟨?_, (not_congr zero_iff).mpr worth⟩
    intro none
    rw [ownedSum, none] at worth
    exact worth rfl

/-- An owned position is one of an output. -/
theorem exists_of_mem_owned {tx : Transaction} {i : Nat} (mem : i ∈ owned S account tx) :
    ∃ out, tx.outputs[i]? = some out := by
  unfold owned at mem
  rcases usable : derivation? S account.keys (Extra.parse tx.extra).1 with - | d
  · rw [usable] at mem
    cases mem
  · rw [usable] at mem
    obtain ⟨⟨out, j⟩, kept, rfl⟩ := List.mem_map.mp mem
    exact ⟨out, List.mem_zipIdx_iff_getElem?.mp (List.mem_filter.mp kept).1⟩

/-- A full account that has scanned a transaction knows the key images of its own outputs. -/
theorem exists_imageAt? (full : account.keys.spendSecret.isSome)
    (completed : Completed S env account p.tx p.txHash e e' d own indices)
    (worth : Worth p.tx own) {i : Nat} {out : TxOut} (mem : i ∈ owned S account p.tx)
    (here : p.tx.outputs[i]? = some out) :
    ∃ k, keyImageOf S account.keys d i out.key = .ok (some k) ∧
      imageAt? S account p.tx i = some k := by
  have found : i ∈ own := by rwa [owned_of_completed completed]
  obtain ⟨image, computed⟩ := completed.derivable worth i found out here
  rcases keyImageOf_cases S computed with ⟨none, -⟩ | known
  · rw [none] at full
    cases full
  · obtain ⟨spend, secret, k, spendable, hs, -, hk, rfl⟩ := known
    refine ⟨k, computed, ?_⟩
    simp [imageAt?, completed.usable, here, spendable, hs, hk, Except.toOption]

/-- What a full account finds is what a transaction brings it. -/
theorem receipts_eq (full : account.keys.spendSecret.isSome)
    (completed : Completed S env account p.tx p.txHash e e' d own indices)
    (worth : Worth p.tx own) (n : Nat) :
    receipts S account.keys d p.tx p.txHash p.height indices own =
      (outputsOf S account p n indices).map OwnOutput.receipt := by
  have owned_eq := owned_of_completed completed
  unfold receipts outputsOf
  rw [owned_eq, List.map_map]
  have each : ∀ i ∈ owned S account p.tx,
      receipt? S account.keys d p.tx p.txHash p.height indices i =
        some (OwnOutput.receipt
          { transfer :=
              { blockHeight := p.height, tx := p.tx, txHash := p.txHash, outputIndex := i
                globalIndex := indices[i]?.getD 0, spent := false
                keyImage := (imageAt? S account p.tx i).getD .null }
            since := n }) := by
    -- every own output has an image and an index, so none is left out
    intro i mem
    obtain ⟨out, here⟩ := exists_of_mem_owned mem
    obtain ⟨k, computed, image⟩ := exists_imageAt? full completed worth mem here
    obtain ⟨g, answer⟩ : ∃ g, indices[i]? = some g := by
      have := (List.getElem?_eq_some_iff.mp here).1
      rw [← completed.length_eq worth] at this
      exact ⟨_, List.getElem?_eq_getElem this⟩
    have zip : (p.tx.outputs.zip indices)[i]? = some (out, g) :=
      List.getElem?_zip_eq_some.mpr ⟨here, answer⟩
    simp only [receipt?, zip, Option.bind_some, computed, image, answer]
    rfl
  exact List.filterMap_eq_map_iff_forall_eq_some.mpr each

/-! ### One more transaction -/

/-- The last transaction is asked about if it pays the account something. -/
theorem asked_concat (txs : List Placed) (p : Placed) :
    asked S account (txs ++ [p]) =
      asked S account txs ++ if ownedSum S account p.tx ≠ 0 then [(p, txs.length)] else [] := by
  unfold asked
  rw [List.zipIdx_append, List.filter_append, List.zipIdx_singleton, Nat.zero_add]
  by_cases worth : ownedSum S account p.tx ≠ 0
  · rw [if_pos worth, List.filter_cons_of_pos (by simpa using worth), List.filter_nil]
  · rw [if_neg worth, List.filter_cons_of_neg (by simpa using worth), List.filter_nil]

/-- Every own output was found before the end. -/
theorem since_le_of_mem_found {txs : List Placed} {answers : List (List UInt64)} {o : OwnOutput}
    (mem : o ∈ found S account txs answers) : o.since ≤ txs.length := by
  obtain ⟨⟨⟨p, n⟩, indices⟩, pair, mem⟩ := List.mem_flatMap.mp mem
  obtain ⟨i, -, rfl⟩ := List.mem_map.mp mem
  have numbered : (p, n) ∈ txs.zipIdx := (List.mem_filter.mp (List.of_mem_zip pair).1).1
  have := List.snd_lt_of_mem_zipIdx numbered
  show n ≤ txs.length
  omega

/-- The inputs of one more transaction mark what they spend. -/
theorem settle_concat {txs : List Placed} {p : Placed} {o : OwnOutput}
    (before : o.since ≤ txs.length) :
    settle (txs ++ [p]) o =
      (settle txs o).markIn (fun _ => True) (p.tx.inputs.filterMap TxIn.keyImage?) := by
  have later : isSpent (txs ++ [p]) o =
      (isSpent txs o || decide (o.image ∈ p.tx.inputs.filterMap TxIn.keyImage?)) := by
    unfold isSpent
    rw [List.drop_append_of_le_length before]
    simp [spentImages]
  unfold settle Transfer.markIn
  rw [later]
  simp [OwnOutput.image]

/-- An own output of the next transaction is unspent so far. -/
theorem settle_of_since_eq {txs : List Placed} {o : OwnOutput} (now : o.since = txs.length)
    (unspent : o.transfer.spent = false) : settle txs o = o.transfer := by
  unfold settle isSpent
  rw [now, List.drop_length]
  show { o.transfer with spent := false } = o.transfer
  rw [← unspent]

/-- What holds of a full account after it looked into some transactions, if the daemon was in the
state `e₀` before and is in the state `e` now. -/
structure Reads (S : Suite) (env : Environment σ) (account : Account) (e₀ : σ) (txs : List Placed)
    (answers : List (List UInt64)) (e : σ) (h : History) : Prop where
  answered : ((asked S account txs).mapM fun q => env.getIndices q.1.txHash).run e₀ =
    (answers.map fun indices => .ok ⟨Daemon.okStatus, indices⟩, e)
  length_eq : ∀ q ∈ (asked S account txs).zip answers, q.2.length = q.1.1.tx.outputs.length
  length_answers : (asked S account txs).length = answers.length
  transfers_eq : h.transfers = transfers S account txs answers
  indexed : h.Indexed fun _ => True
  unconfirmed : h.unconfirmed = ∅

variable {e₀ : σ} {txs : List Placed} {answers : List (List UInt64)} {h : History}

/-- One more question, asked where the others have led. -/
theorem run_mapM_concat {α β : Type} {f : α → StateM σ β} {items : List α} {a : α} {bs : List β}
    {b : β} (before : (items.mapM f).run e₀ = (bs, e)) (now : (f a).run e = (b, e')) :
    ((items ++ [a]).mapM f).run e₀ = (bs ++ [b], e') := by
  rw [List.mapM_append]
  show ((f a >>= fun b => pure [b]) >>= fun last => pure (((items.mapM f).run e₀).1 ++ last)).run
    ((items.mapM f).run e₀).2 = _
  rw [before]
  show (bs ++ [((f a).run e).1], ((f a).run e).2) = _
  rw [now]

/-- What one more transaction adds to a reading: its own outputs `new`, and the answer to a question
if there was one. -/
structure Brings (S : Suite) (env : Environment σ) (account : Account) (e₀ e' : σ)
    (txs : List Placed) (p : Placed) (answers answers' : List (List UInt64))
    (receipts : List Receipt) (new : List OwnOutput) : Prop where
  receipts_eq : receipts = new.map OwnOutput.receipt
  since_eq : ∀ o ∈ new, o.since = txs.length
  unspent : ∀ o ∈ new, o.transfer.spent = false
  found_eq : found S account (txs ++ [p]) answers' = found S account txs answers ++ new
  answered : ((asked S account (txs ++ [p])).mapM fun q => env.getIndices q.1.txHash).run e₀ =
    (answers'.map fun indices => .ok ⟨Daemon.okStatus, indices⟩, e')
  length_eq : ∀ q ∈ (asked S account (txs ++ [p])).zip answers',
    q.2.length = q.1.1.tx.outputs.length
  length_answers : (asked S account (txs ++ [p])).length = answers'.length

/-- A transaction that pays the account something costs a question, and brings all its own outputs.
-/
theorem Reads.brings_of_worth (full : account.keys.spendSecret.isSome)
    (reads : Reads S env account e₀ txs answers e h)
    (completed : Completed S env account p.tx p.txHash e e' d own indices)
    (worth : ownedSum S account p.tx ≠ 0) :
    Brings S env account e₀ e' txs p answers (answers ++ [indices])
      (brought S account.keys d p.tx p.txHash p.height indices own)
      (outputsOf S account p txs.length indices) := by
  -- the transaction is asked about, so the list of answers grows with it
  have asks : asked S account (txs ++ [p]) = asked S account txs ++ [(p, txs.length)] := by
    rw [asked_concat, if_pos worth]
  have pays : Worth p.tx own := owned_of_completed completed ▸ (worth_iff p.tx).mpr worth
  refine ⟨?_, ?_, ?_, ?_, ?_, ?_, ?_⟩
  · rw [brought, if_pos pays, receipts_eq full completed pays txs.length]
  · intro o mem
    obtain ⟨i, -, rfl⟩ := List.mem_map.mp mem
    rfl
  · intro o mem
    obtain ⟨i, -, rfl⟩ := List.mem_map.mp mem
    rfl
  · unfold found
    rw [asks, List.zip_append reads.length_answers, List.flatMap_append]
    simp
  · rw [asks, List.map_append]
    exact run_mapM_concat reads.answered (completed.asked pays)
  · rw [asks, List.zip_append reads.length_answers]
    intro q mem
    rcases List.mem_append.mp mem with mem | mem
    · exact reads.length_eq q mem
    · obtain rfl : q = ((p, txs.length), indices) := by simpa using mem
      exact completed.length_eq pays
  · rw [asks, List.length_append, List.length_append, reads.length_answers]
    rfl

/-- Another transaction brings nothing, and the daemon is not asked. -/
theorem Reads.brings_of_worthless (reads : Reads S env account e₀ txs answers e h)
    (completed : Completed S env account p.tx p.txHash e e' d own indices)
    (worthless : ¬ ownedSum S account p.tx ≠ 0) :
    Brings S env account e₀ e' txs p answers answers
      (brought S account.keys d p.tx p.txHash p.height indices own) [] := by
  -- no index is asked for, and nothing can be recorded
  have asks : asked S account (txs ++ [p]) = asked S account txs := by
    rw [asked_concat, if_neg worthless, List.append_nil]
  have pays_not : ¬ Worth p.tx own :=
    owned_of_completed completed ▸ (not_congr (worth_iff p.tx)).mpr worthless
  refine ⟨?_, by simp, by simp, ?_, ?_, ?_, ?_⟩
  · rw [brought, if_neg pays_not, List.map_nil]
  · unfold found
    rw [asks, List.append_nil]
  · rw [asks, completed.idle pays_not]
    exact reads.answered
  · rw [asks]
    exact reads.length_eq
  · rw [asks]
    exact reads.length_answers

/-- A scan that comes to its end keeps reading the chain. -/
theorem Reads.scan (full : account.keys.spendSecret.isSome)
    (reads : Reads S env account e₀ txs answers e h)
    (completed : Completed S env account p.tx p.txHash e e' d own indices) :
    ∃ answers', Reads S env account e₀ (txs ++ [p]) answers' e'
      (settled S account.keys d p.tx p.txHash p.height indices own h) := by
  obtain ⟨answers', new, brings⟩ : ∃ answers' new,
      Brings S env account e₀ e' txs p answers answers'
        (brought S account.keys d p.tx p.txHash p.height indices own) new := by
    by_cases worth : ownedSum S account p.tx ≠ 0
    · exact ⟨_, _, reads.brings_of_worth full completed worth⟩
    · exact ⟨_, _, reads.brings_of_worthless completed worth⟩
  have known : (h.forget p.txHash).transfers =
      (firsts (found S account txs answers)).map (settle txs) := reads.transfers_eq
  -- the new outputs go to the end of the list, those with a known key image apart
  have took := receive_firsts (f := settle txs) (h := h.forget p.txHash) (fun _ => rfl)
    (found S account txs answers)
    (fun o mem => settle_of_since_eq (brings.since_eq o mem) (brings.unspent o mem))
    reads.indexed known
  rw [← brings.receipts_eq, ← brings.found_eq] at took
  refine ⟨answers', brings.answered, brings.length_eq, brings.length_answers, ?_, ?_, ?_⟩
  · -- then the inputs mark what they spend, be it old or new
    rw [transfers_settled took.2, took.1, transfers, List.map_map]
    refine List.map_congr_left fun o mem => (settle_concat ?_).symm
    rcases List.mem_append.mp (brings.found_eq ▸ mem_of_mem_firsts mem) with old | new
    · exact since_le_of_mem_found old
    · exact Nat.le_of_eq (brings.since_eq o new)
  · refine took.2.congr keyImages_settled ?_
    unfold History.images
    rw [transfers_settled took.2, List.map_map]
    exact List.map_congr_left fun t _ => Transfer.keyImage_markIn _ t
  · -- a scan adds no unconfirmed transaction, and there was none
    rw [unconfirmed_settled, reads.unconfirmed]
    simp

/-- Nothing but scans matters for the reading. -/
theorem kept_reads (full : account.keys.spendSecret.isSome) :
    Sync.Kept S env account fun txs e h => ∃ answers, Reads S env account e₀ txs answers e h where
  skip past e h p unreadable := by
    rintro ⟨answers, reads⟩
    -- a transaction that is passed over may still settle one that was sent
    refine ⟨answers, { reads with unconfirmed := ?_ }⟩
    show h.unconfirmed.erase p.txHash = ∅
    simp [reads.unconfirmed]
  scan past e e' h p d own indices completed on_top := by
    rintro ⟨answers, reads⟩
    exact reads.scan full completed
  append past e h id := by
    rintro ⟨answers, reads⟩
    exact ⟨answers, { reads with }⟩

/-! ### The whole chain -/

/-- A secret key that belongs to a public key is the canonical form of its logarithm. -/
theorem exists_scalar_of_matches {secret : SecretKey} {key : PublicKey}
    (own : secret.matches S key = true) :
    ∃ a, secret.scalar = .ok a ∧ key = .ofPoint S (S.mulBase a) := by
  unfold SecretKey.matches at own
  rcases known : secret.publicKey S with e | found
  · rw [known] at own
    cases own
  · rw [known] at own
    obtain ⟨a, scalar, computed⟩ := Except.bind_eq_ok.mp known
    exact ⟨a, scalar, (of_decide_eq_true own).symm.trans (Except.ok.inj computed).symm⟩

/-- The view secret of a verified account is a scalar. -/
theorem exists_scalar_of_verify (verified : account.verify S = true) :
    ∃ a, account.keys.viewSecret.scalar = .ok a := by
  obtain ⟨a, scalar, -⟩ := exists_scalar_of_matches (Bool.and_eq_true_iff.mp verified).1
  exact ⟨a, scalar⟩

/-- A verified account can use the transaction keys that are encodings of points. -/
theorem isReadable_eq_hasKey (verified : account.verify S = true) (p : Placed) :
    Sync.isReadable S account p = hasKey S p := by
  obtain ⟨a, scalar⟩ := exists_scalar_of_verify verified
  unfold Sync.isReadable hasKey derivation? Extra.publicKey?
  rcases Extra.publicKeyOf? (Extra.parse p.tx.extra).1 with - | key
  · rfl
  · rw [Option.bind_some, Option.any_some, PublicKey.isValid, KeyDerivation.ofKeys,
      PublicKey.point, scalar]
    rcases S.decode? key.bytes with - | P
    · rfl
    · rfl

end Reading

namespace History

/-- What the unspent outputs are worth. -/
def unspentSum (h : History) : Nat :=
  exactSum ((h.transfers.filter fun t => !t.spent).map Transfer.amount)

/-- The change that is waited for. -/
def changeSum (h : History) : Nat := exactSum (h.unconfirmed.toList.map fun q => q.2.change)

end History

namespace Wallet

/-- What a wallet has, as a number that no word has to hold. -/
def funds (w : Wallet) : Nat := w.history.unspentSum + w.history.changeSum

/-- The balance is what the wallet has, up to the largest word. -/
theorem toNat_balance (w : Wallet) : w.balance.toNat = min w.funds maxWord := by
  have sums : w.balance = w.history.unconfirmed.toList.foldl
      (fun total q => total.addSat q.2.change)
      ((w.history.transfers.filter fun t => !t.spent).foldl
        (fun total t => total.addSat t.amount) 0) := rfl
  unfold funds History.unspentSum History.changeSum exactSum
  rw [sums, UInt64.toNat_foldl_addSat, UInt64.toNat_foldl_addSat, List.map_map, List.map_map]
  -- a sum that is cut off early is cut off in the end
  show min (min (0 + _) maxWord + _) maxWord = _
  simp only [Function.comp_def]
  omega

/-- Without transactions on their way the balance is the sum of the unspent outputs, up to the
largest word. -/
theorem toNat_balance_of_settled {w : Wallet} (settled : w.history.unconfirmed = ∅) :
    w.balance.toNat =
      min ((w.history.transfers.filter fun t => !t.spent).map fun t => t.amount.toNat).sum
        maxWord := by
  have none : w.history.unconfirmed.toList = [] := by
    rw [← List.isEmpty_iff, Std.ExtTreeMap.isEmpty_toList, settled]
    rfl
  rw [toNat_balance, funds, History.changeSum, none, History.unspentSum, exactSum, List.map_map]
  rfl

end Wallet

/-- A new wallet of a full account that scans a chain without a failure ends up with what can be
read off the chain. Its transfers are the first own outputs of each key image, in chain order, with
those spent whose image appears among the inputs of their own or a later transaction; the index
holds each of their images at its position; and the balance is the sum of the unspent amounts, up to
the largest word. The indices of the outputs are the answers of the daemon to the questions for the
transactions that pay the account something, and it is asked nothing else. -/
theorem reading_of_addBlocks (S : Suite) {σ : Type} (env : Environment σ) (account : Account)
    (config : Config) (target : Option Hash) (blocks : List ParsedBlock) (s t : Session σ)
    (created : Wallet.create account config = .ok s.wallet) (verified : account.verify S = true)
    (full : account.isViewOnly = false)
    (run : WalletM.exec (Sync.addBlocks S env target blocks) s = (.ok (), t)) :
    let txs := Reading.looked S account config s.wallet.height blocks
    ∃ answers : List (List UInt64),
      ((Reading.asked S account txs).mapM fun q => env.getIndices q.1.txHash).run s.env =
          (answers.map fun indices => .ok ⟨Daemon.okStatus, indices⟩, t.env) ∧
      (∀ q ∈ (Reading.asked S account txs).zip answers,
        q.2.length = q.1.1.tx.outputs.length) ∧
      t.wallet.history.chain = s.wallet.history.chain ++ blocks.map ParsedBlock.id ∧
      t.wallet.history.transfers = Reading.transfers S account txs answers ∧
      (∀ (image : KeyImage) (i : Nat), t.wallet.history.keyImages[image]? = some i ↔
        (t.wallet.history.transfers.map Transfer.keyImage)[i]? = some image) ∧
      t.wallet.balance.toNat =
        min ((t.wallet.history.transfers.filter fun t => !t.spent).map
          fun t => t.amount.toNat).sum maxWord := by
  intro txs
  obtain ⟨genesis, -, wallet⟩ := Except.bind_eq_ok.mp created
  have wallet := Except.ok.inj wallet
  have spendable : account.keys.spendSecret.isSome := by
    rcases h : account.keys.spendSecret with - | spend
    · simp [Account.isViewOnly, h] at full
    · rfl
  have own : s.wallet.account = account := by rw [← wallet]
  have same : s.wallet.config = config := by rw [← wallet]
  -- a new wallet reads as one that has seen no transaction
  have start : ∃ answers, Reading.Reads S env account s.env [] answers s.env s.history := by
    refine ⟨[], rfl, by simp, rfl, ?_, ?_, ?_⟩
    · rw [Session.history, ← wallet]
      rfl
    · rw [Session.history, ← wallet]
      intro image i
      simp [History.images]
    · rw [Session.history, ← wallet]
  -- the induction over the blocks carries the reading along
  obtain ⟨⟨h, wallet', chain⟩, answers, reads⟩ :=
    Sync.addBlocks_induction (Reading.kept_reads spendable) run own same start
  have looked : [] ++ Sync.scanned S account config s.history.height blocks = txs := by
    rw [List.nil_append, Sync.scanned, funext (Reading.isReadable_eq_hasKey verified)]
    rfl
  rw [looked] at reads
  refine ⟨answers, reads.answered, reads.length_eq, ?_, reads.transfers_eq, ?_,
    Wallet.toNat_balance_of_settled reads.unconfirmed⟩
  · rw [wallet']
    exact chain
  · intro image i
    exact (reads.indexed image i).trans (and_iff_right trivial)

/-- A reward that is received and spent again. -/
theorem reading_of_addBlocks_spending :
    let s := Script.opened {} ⟨[], [Script.indicesOf [0], Script.indicesOf [0]]⟩
    let blocks := [SmallSuite.funding, SmallSuite.spending]
    let txs := Reading.looked .small SmallSuite.account {} 0 blocks
    Wallet.create SmallSuite.account {} = .ok s.wallet ∧
      SmallSuite.account.verify .small = true ∧ SmallSuite.account.isViewOnly = false ∧
      ∃ t, WalletM.exec (Sync.addBlocks .small Script.environment none blocks) s = (.ok (), t) ∧
        ∃ answers : List (List UInt64),
          t.wallet.history.transfers = Reading.transfers .small SmallSuite.account txs answers := by
  intro s blocks txs
  have run := WalletM.exec_eq_ok (a := ()) (s := s)
    (x := Sync.addBlocks .small Script.environment none blocks) (by decide +kernel)
  have verified : SmallSuite.account.verify .small = true := by decide +kernel
  obtain ⟨answers, -, -, -, transfers, -⟩ := reading_of_addBlocks .small Script.environment
    SmallSuite.account {} none blocks s _ rfl verified rfl run
  exact ⟨rfl, verified, rfl, _, run, answers, transfers⟩

end RingWallet
