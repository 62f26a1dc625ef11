import RingWallet.Proofs.Wallet.Bounds
import RingWallet.Proofs.Wallet.Chain

/-!
# Cutting back after a scan

Scanning blocks on top of a chain and then cutting the chain back to its old height gives back the
block ids, the outputs, the index and the payments. It does not give back the spent flags: an output
below the height that one of the blocks spends stays marked as spent. `detach_addBlocks` says which
flags are affected, and that everything is given back exactly if the blocks spend no output that was
unspent before.
-/

set_option autoImplicit false

namespace RingWallet

open History Relation Scan WalletM

variable {S : Suite} {σ : Type} {env : Environment σ}

/-- Sessions reached by refreshes that go through without a failure. -/
abbrev Refreshed (S : Suite) (env : Environment σ) : Session σ → Session σ → Prop :=
  ReflTransGen fun s t => ∃ start target, Sync.Smooth S env target start s t

/-! ### Before the blocks -/

/-- Refreshes without a failure leave an index that agrees with the outputs, and nothing above the
end of the chain. -/
theorem Refreshed.settled (derivable : ∀ key secret, KeyImage.ofKeys S key secret ≠ .ok .null)
    {s t : Session σ} (reached : Refreshed S env s t) (hc : s.history.Consistent S)
    (hw : s.history.Within s.history.height) :
    t.history.Consistent S ∧ t.history.Within t.history.height ∧
      ∃ h, t.wallet = s.wallet.withHistory h := by
  induction reached with
  | refl => exact ⟨hc, hw, s.wallet.history, rfl⟩
  | @tail u v _ refresh ih =>
    obtain ⟨start, target, smooth⟩ := refresh
    obtain ⟨hc, hw, h, before⟩ := ih
    have calm := smooth.calm
    obtain ⟨h', after⟩ := calm.withHistory
    -- heights below the start count as scanned
    have begun : (Sync.started start u).history.Consistent S ∧
        (Sync.started start u).history.Within (Sync.started start u).history.height ∧
        ∃ h, (Sync.started start u).wallet = s.wallet.withHistory h := by
      cases start with
      | localChain => exact ⟨hc, hw, h, before⟩
      | fixed height =>
        refine ⟨hc.assumeScanned height, Within.assumeScanned (k := 0) hw height,
          u.history.assumeScanned height, ?_⟩
        show u.wallet.withHistory _ = _
        rw [before, Wallet.withHistory_withHistory]
    obtain ⟨hc', hw', h'', begins⟩ := begun
    refine ⟨calm.path.consistent derivable hc', calm.within hw', h', ?_⟩
    rw [after, begins, Wallet.withHistory_withHistory]

/-! ### The blocks -/

/-- What holds of a history that had `n` blocks when it was `h₀`, after more transactions were
scanned. -/
structure Stacked (n : Nat) (h₀ : History) (txs : List Placed) (h : History) : Prop where
  le_height : n ≤ h.height
  indexed : h.Indexed (· ≠ .null)
  grows : Grows (fun _ _ m => n ≤ m) h₀ h
  marked : ∀ (i : Nat) (t : Transfer), h₀.transfers[i]? = some t →
    h.transfers[i]? = some (t.markIn (· ≠ .null) (spentImages txs))

variable {n : Nat} {h₀ h : History} {txs : List Placed}

/-- Changes on top keep what is not about spent flags. -/
theorem stacked_changes (derivable : ∀ key secret, KeyImage.ofKeys S key secret ≠ .ok .null)
    (stacked : Stacked n h₀ txs h) {height : Nat} (above : n ≤ height)
    {h' : History} {block : List (Hash × Transaction)} (changes : Changes S block height h h') :
    n ≤ h'.height ∧ h'.Indexed (· ≠ .null) ∧ Grows (fun _ _ m => n ≤ m) h₀ h' := by
  refine ⟨?_, changes.indexed derivable stacked.indexed, ?_⟩
  · rw [History.height, changes.chain_eq]
    exact stacked.le_height
  · refine stacked.grows.trans (changes.grows.mono ?_)
    rintro _ _ m ⟨-, rfl⟩
    exact above

/-- The scans of an account keep the blocks stacked. -/
theorem kept_stacked (derivable : ∀ key secret, KeyImage.ofKeys S key secret ≠ .ok .null)
    (account : Account) : Sync.Kept S env account fun txs _ h => Stacked n h₀ txs h where
  skip past e h p unreadable stacked := by
    have change : Changes S [(p.txHash, p.tx)] n h (h.forget p.txHash) :=
      .single (.forget h (List.mem_singleton_self _))
    obtain ⟨above, indexed, grows⟩ := stacked_changes derivable stacked (Nat.le_refl n) change
    exact ⟨above, indexed, grows, stacked.marked⟩
  append past e h id stacked := by
    refine ⟨?_, stacked.indexed, ?_, stacked.marked⟩
    · have := stacked.le_height
      show n ≤ (h.chain ++ [id]).length
      rw [List.length_append]
      unfold History.height at this
      omega
    · exact stacked.grows.withChain _
  scan past e e' h p d own indices completed on_top stacked := by
    have above : n ≤ p.height := on_top ▸ stacked.le_height
    have mem := List.mem_singleton_self (p.txHash, p.tx)
    have all : Changes S [(p.txHash, p.tx)] p.height h
        (settled S account.keys d p.tx p.txHash p.height indices own h) := changes_settled mem h
    obtain ⟨above', indexed, grows⟩ := stacked_changes derivable stacked above all
    refine ⟨above', indexed, grows, ?_⟩
    intro i t ht
    -- the outputs of the transaction go behind the old ones, and then its inputs mark all of them
    have first : Changes S [(p.txHash, p.tx)] p.height h
        ((brought S account.keys d p.tx p.txHash p.height indices own).foldl receive
          (h.forget p.txHash)) := changes_brought mem h
    have took := first.indexed derivable stacked.indexed
    obtain ⟨new, eq⟩ := transfers_receiveAll (h.forget p.txHash)
      (brought S account.keys d p.tx p.txHash p.height indices own)
    have old : (h.forget p.txHash).transfers[i]? =
        some (t.markIn (· ≠ .null) (spentImages past)) := stacked.marked i t ht
    rw [transfers_settled took, eq, List.getElem?_map,
      List.getElem?_append_left (List.getElem?_eq_some_iff.mp old).1, old, Option.map_some,
      Transfer.markIn_markIn]
    simp [spentImages]

/-! ### Cutting back -/

/-- Cutting back to the old height gives back the outputs, with the spent flags of the scan. -/
theorem Stacked.transfers_detach (stacked : Stacked n h₀ txs h) (hw : h₀.Within n) :
    (h.detach n).transfers =
      h₀.transfers.map (Transfer.markIn (· ≠ .null) (spentImages txs)) := by
  have cut : h.transfers = h₀.transfers.map (Transfer.markIn (· ≠ .null) (spentImages txs)) ++
      h.transfers.drop h₀.transfers.length := by
    apply List.ext_getElem?
    intro i
    -- the old outputs stand where they stood, and the rest is what came behind them
    by_cases old : i < h₀.transfers.length
    · have at_i := List.getElem?_eq_getElem old
      rw [List.getElem?_append_left (by simpa using old), List.getElem?_map, at_i,
        stacked.marked i _ at_i]
      rfl
    · rw [List.getElem?_append_right (by simpa using old), List.length_map, List.getElem?_drop]
      congr 1
      omega
  have low : ∀ t ∈ h₀.transfers.map (Transfer.markIn (· ≠ .null) (spentImages txs)),
      decide (t.blockHeight < n) = true := by
    intro t ht
    obtain ⟨u, hu, rfl⟩ := List.mem_map.mp ht
    exact decide_eq_true (hw.transfers u hu)
  show h.transfers.takeWhile (fun t => t.blockHeight < n) = _
  have none : (h.transfers.drop h₀.transfers.length).takeWhile (fun t => t.blockHeight < n) =
      [] := by
    -- the first output behind the old ones is too high already
    rcases behind : h.transfers.drop h₀.transfers.length with - | ⟨t, rest⟩
    · rfl
    · have at_end : h.transfers[h₀.transfers.length]? = some t := by
        have := congrArg (fun ts => ts[0]?) behind
        simpa [List.getElem?_drop] using this
      have high := stacked.grows.added _ t at_end (Nat.le_refl _)
      rw [List.takeWhile_cons_of_neg (by simpa using high)]
  rw [cut, List.takeWhile_append_of_pos low, none, List.append_nil]

/-- Cutting back to the old height gives back the index. -/
theorem Stacked.keyImages_detach (stacked : Stacked n h₀ txs h) (hw : h₀.Within n)
    (hi : h₀.Indexed (· ≠ .null)) : (h.detach n).keyImages = h₀.keyImages := by
  have images : (h.detach n).images = h₀.images := by
    unfold History.images
    rw [stacked.transfers_detach hw, List.map_map]
    exact List.map_congr_left fun t _ => Transfer.keyImage_markIn _ t
  -- both indices agree with the same list of images
  apply Std.ExtTreeMap.ext_getElem?
  intro image
  apply Option.ext
  intro i
  rw [stacked.indexed.detach n image i, images, hi image i]

/-- Cutting back to the old height gives back the payments. -/
theorem Stacked.payments_detach (stacked : Stacked n h₀ txs h) (hw : h₀.Within n) :
    (h.detach n).payments = h₀.payments := by
  apply Std.ExtTreeMap.ext_getElem?
  intro id
  obtain ⟨new, eq, above⟩ := stacked.grows.payments id
  have kept : (h.paymentsOf id).filter (fun p => p.blockHeight < n) = h₀.paymentsOf id := by
    rw [eq, List.filter_append, List.filter_eq_self.mpr, List.filter_eq_nil_iff.mpr,
      List.append_nil]
    · intro p hp
      obtain ⟨-, at_height⟩ := above p hp
      simpa using at_height
    · intro p hp
      exact decide_eq_true (hw.payments id p hp)
  -- an id without payments is not listed before the scan, and not after the cut
  rw [getElem?_payments_detach, kept, paymentsOf]
  rcases known : h₀.payments[id]? with - | records
  · rfl
  · have : records ≠ [] := by
      rintro rfl
      exact hw.payments_ne_nil id known
    rw [Option.getD_some, if_neg this]

/-- A wallet that was reached by refreshes without a failure scans some blocks on top of its chain,
again without a failure, and is then cut back to its old height. It gets back its block ids, its
index and its payments, and its outputs except that those are marked as spent whose key images
appear among the inputs of the scanned transactions. So it gets back everything exactly if no output
that was unspent has its key image among these inputs. -/
theorem detach_addBlocks (derivable : ∀ key secret, KeyImage.ofKeys S key secret ≠ .ok .null)
    {account : Account} {config : Config} {s₀ s t : Session σ} {target : Option Hash}
    {blocks : List ParsedBlock} (created : Wallet.create account config = .ok s₀.wallet)
    (reached : Refreshed S env s₀ s)
    (run : exec (Sync.addBlocks S env target blocks) s = (.ok (), t)) :
    let images := spentImages (Sync.scanned S account config s.history.height blocks)
    let back := (exec (Sync.detach s.history.height) t).2.history
    back.chain = s.history.chain ∧ back.keyImages = s.history.keyImages ∧
      back.payments = s.history.payments ∧
      back.transfers = s.history.transfers.map (Transfer.markIn (· ≠ .null) images) ∧
      (back.transfers = s.history.transfers ↔
        ∀ t ∈ s.history.transfers, t.spent = false → t.keyImage ≠ .null → t.keyImage ∉ images) := by
  intro images back
  obtain ⟨hc, hw, h, wallet⟩ := reached.settled derivable (consistent_create created)
    (within_create created _)
  have new : s₀.wallet.account = account ∧ s₀.wallet.config = config := by
    obtain ⟨genesis, -, created⟩ := Except.bind_eq_ok.mp created
    rw [← Except.ok.inj created]
    exact ⟨rfl, rfl⟩
  have own : s.wallet.account = account := by rw [wallet]; exact new.1
  have same : s.wallet.config = config := by rw [wallet]; exact new.2
  -- at the start nothing is stacked on the history
  have start : Stacked s.history.height s.history [] s.history := by
    refine ⟨Nat.le_refl _, hc.indexed, .refl _, ?_⟩
    intro i t ht
    rw [ht]
    exact congrArg some (Transfer.markIn_nil t).symm
  obtain ⟨⟨h', wallet', chain⟩, stacked⟩ :=
    Sync.addBlocks_induction (kept_stacked derivable account) run own same start
  rw [List.nil_append] at stacked
  have transfers := stacked.transfers_detach hw
  -- the scan kept what was below, and the cut gives it back, except for the marks
  refine ⟨?_, stacked.keyImages_detach hw hc.indexed, stacked.payments_detach hw, transfers, ?_⟩
  · show t.history.chain.take s.history.height = _
    rw [show t.history = h' from congrArg Wallet.history wallet', chain]
    exact List.take_left
  · rw [show back.transfers = _ from transfers]
    exact map_markIn_eq_self

/-! ### A spent flag that stays

A new wallet is refreshed and receives a reward. The block that spends it is scanned, and taken
back. -/

namespace Detached

open SmallSuite Script

/-- A new wallet, whose daemon will send it the block with the reward. -/
def unpaid : Session Script := opened {} ⟨[batch 0 funding], [indicesOf [0], indicesOf [0]]⟩

/-- The session in which the block was scanned. -/
def scanned : Session Script :=
  (exec (Sync.addBlock .small environment funding 0 none)
    (fetched (Sync.started .localChain unpaid))).2

/-- The wallet after the refresh. -/
def paid : Session Script :=
  scanned.told (.refreshCompleted scanned.summary.blocksFetched scanned.wallet.height)

/-- The wallet after the scan of the block that spends the reward. -/
def spent : Session Script := (exec (Sync.addBlocks .small environment none [spending]) paid).2

/-- The refresh scans the block with the reward. -/
theorem paid_of_unpaid : Refreshed .small environment unpaid paid := by
  have legible : Legible .small funding := legible_block (by decide +kernel) (by simp)
  have run : exec (Sync.addBlock .small environment funding 0 none)
      (fetched (Sync.started .localChain unpaid)) = (.ok (), scanned) :=
    exec_eq_ok (by decide +kernel)
  exact .single ⟨.localChain, none, smooth_pull legible rfl run (by decide +kernel)⟩

/-- The block that spends the reward is scanned after it. -/
theorem spent_of_paid :
    exec (Sync.addBlocks .small environment none [spending]) paid = (.ok (), spent) :=
  exec_eq_ok (by decide +kernel)

end Detached

open Detached in
/-- The block ids, the index and the payments are given back. -/
theorem detach_addBlocks_spending :
    Wallet.create SmallSuite.account {} = .ok unpaid.wallet ∧
      Refreshed .small Script.environment unpaid paid ∧
      exec (Sync.addBlocks .small Script.environment none [SmallSuite.spending]) paid =
        (.ok (), spent) ∧
      let back := (exec (Sync.detach paid.history.height) spent).2.history
      back.chain = paid.history.chain ∧ back.keyImages = paid.history.keyImages ∧
        back.payments = paid.history.payments := by
  obtain ⟨chain, keyImages, payments, -⟩ := detach_addBlocks Suite.small_ofKeys_ne_null
    (rfl : Wallet.create SmallSuite.account {} = .ok unpaid.wallet) paid_of_unpaid spent_of_paid
  exact ⟨rfl, paid_of_unpaid, spent_of_paid, chain, keyImages, payments⟩

open Detached in
/-- The spent flag of the reward is not given back. -/
theorem spent_of_detach_addBlocks :
    SmallSuite.account.isViewOnly = false ∧
      Wallet.create SmallSuite.account {} = .ok unpaid.wallet ∧
      Refreshed .small Script.environment unpaid paid ∧
      exec (Sync.addBlocks .small Script.environment none [SmallSuite.spending]) paid =
        (.ok (), spent) ∧
      paid.history.transfers.map Transfer.spent = [false] ∧
      (exec (Sync.detach paid.history.height) spent).2.history.transfers.map Transfer.spent =
        [true] := by
  refine ⟨rfl, rfl, paid_of_unpaid, spent_of_paid, ?_⟩
  decide +kernel

end RingWallet
