import Mathlib.Data.List.Perm.Basic
import Mathlib.Data.List.Perm.Subperm
import RingWallet.Proofs.Support.Sums
import RingWallet.Wallet.Balance

/-!
# What a selection picks

Whatever the random words are, a selection picks candidates by the rule `Balance.Picks`, each at
most once, and reports their handles and the total of their amounts, up to the largest word
(`Balance.run_select`). So a handle stands for an unspent, unlocked output that the request does not
exclude (`Balance.mem_candidates`).
-/

set_option autoImplicit false

namespace RingWallet

/-- Taking an item out leaves the others, in some order. -/
theorem perm_swapRemove {α : Type} (items : List α) (i : Fin items.length) :
    (items[i] :: swapRemove items i).Perm items := by
  have present : items ≠ [] := List.ne_nil_of_length_pos (Nat.zero_lt_of_lt i.isLt)
  -- the last item stands at the end whether it was put into the gap or is the gap itself
  have last : swapRemove items i ++ [items.getLast present] =
      items.set i (items.getLast present) := by
    have same : (items.set i (items.getLast present)).getLast (by simpa using present) =
        items.getLast present := by
      simp [List.getLast_eq_getElem, List.getElem_set]
    conv_lhs => rw [← same]
    exact List.dropLast_concat_getLast _
  have others : (swapRemove items i).Perm (items.eraseIdx i) := by
    have filled := List.set_perm_cons_eraseIdx i.isLt (items.getLast present)
    rw [← last] at filled
    exact ((List.perm_append_singleton _ _).symm.trans filled).cons_inv
  exact (others.cons _).trans (List.getElem_cons_eraseIdx_perm i.isLt)

namespace Balance

variable {σ : Type} (next : RandomSource σ)

/-- What a choice of candidates comes to, on top of `found`. -/
def result (found : UInt64) (picked : List Candidate) : UInt64 × List Handle :=
  (picked.foldl (fun total c => total.addSat c.transfer.amount) found,
    picked.map Candidate.handle)

/-- The total of a choice is the sum of its amounts, cut off at the largest word. -/
theorem toNat_result (found : UInt64) (picked : List Candidate) :
    (result found picked).1.toNat =
      min (found.toNat + exactSum (picked.map fun c => c.transfer.amount)) maxWord := by
  rw [result, UInt64.toNat_foldl_addSat, exactSum, List.map_map]
  rfl

/-- How candidates are picked from the two lists, whatever the random words are: dust if it is the
turn of one or nothing else is left, otherwise something regular, and so on until `found` covers
`needed` or both lists are empty. -/
inductive Picks (needed : UInt64) :
    (found : UInt64) → (dustFirst : Bool) → (regular dust picked : List Candidate) → Prop
  | enough {found : UInt64} {dustFirst : Bool} {regular dust : List Candidate}
    (covered : needed ≤ found) : Picks needed found dustFirst regular dust []
  | dust {found : UInt64} {dustFirst : Bool} {regular dust rest picked : List Candidate}
    {c : Candidate} (more : found < needed) (turn : dustFirst = true ∨ regular = [])
    (taken : (c :: rest).Perm dust)
    (later : Picks needed (found.addSat c.transfer.amount) false regular rest picked) :
    Picks needed found dustFirst regular dust (c :: picked)
  | regular {found : UInt64} {dustFirst : Bool} {regular dust rest picked : List Candidate}
    {c : Candidate} (more : found < needed) (turn : dustFirst = false ∨ dust = [])
    (taken : (c :: rest).Perm regular)
    (later : Picks needed (found.addSat c.transfer.amount) false rest dust picked) :
    Picks needed found dustFirst regular dust (c :: picked)
  | none {found : UInt64} {dustFirst : Bool} : Picks needed found dustFirst [] [] []

/-- Each candidate is picked at most once. -/
theorem Picks.subperm {needed found : UInt64} {dustFirst : Bool}
    {regular dust picked : List Candidate}
    (picks : Picks needed found dustFirst regular dust picked) :
    picked.Subperm (regular ++ dust) := by
  induction picks with
  | enough | none => exact List.nil_subperm
  | @dust _ _ regular dust rest _ c _ _ taken _ ih =>
    have all : (c :: (regular ++ rest)).Perm (regular ++ dust) :=
      List.perm_middle.symm.trans (taken.append_left regular)
    exact ((List.subperm_cons _).mpr ih).trans all.subperm
  | regular _ _ taken _ ih =>
    exact ((List.subperm_cons _).mpr ih).trans (taken.append_right _).subperm

/-- The choice follows the rule, and comes to what is reported. -/
theorem run_pick (needed found : UInt64) (dustFirst : Bool) (regular dust : List Candidate)
    (s : σ) :
    ∃ picked : List Candidate, Picks needed found dustFirst regular dust picked ∧
      ((pick next needed found dustFirst regular dust).run s).1 = result found picked := by
  -- each round moves one candidate from its list to the front of what is picked
  induction found, dustFirst, regular, dust using pick.induct needed generalizing s with
  | case1 found dustFirst regular dust enough =>
    refine ⟨[], .enough enough, ?_⟩
    rw [pick, if_pos enough]
    rfl
  | case2 found dustFirst regular dust more h ih =>
    rw [pick, if_neg more, dif_pos h]
    let i : Fin dust.length := ((RandomSource.position next dust h.1).run s).1
    obtain ⟨picked, picks, run⟩ := ih i (next s).2
    refine ⟨dust[i] :: picked, .dust (UInt64.not_le.mp more) h.2 (perm_swapRemove dust i) picks, ?_⟩
    exact congrArg (fun p : UInt64 × List Handle => (p.1, dust[i].handle :: p.2)) run
  | case3 found dustFirst regular dust more no_dust h ih =>
    rw [pick, if_neg more, dif_neg no_dust, dif_pos h]
    let i : Fin regular.length := ((RandomSource.position next regular h).run s).1
    obtain ⟨picked, picks, run⟩ := ih i (next s).2
    have turn : dustFirst = false ∨ dust = [] := by
      by_cases none : dust = []
      · exact .inr none
      · exact .inl (Bool.eq_false_iff.mpr fun first => no_dust ⟨none, .inl first⟩)
    refine ⟨regular[i] :: picked,
      .regular (UInt64.not_le.mp more) turn (perm_swapRemove regular i) picks, ?_⟩
    exact congrArg (fun p : UInt64 × List Handle => (p.1, regular[i].handle :: p.2)) run
  | case4 found dustFirst regular dust more no_dust none =>
    obtain rfl : regular = [] := not_not.mp none
    obtain rfl : dust = [] := by
      by_contra some
      exact no_dust ⟨some, .inr rfl⟩
    refine ⟨[], .none, ?_⟩
    rw [pick, if_neg more, dif_neg no_dust, dif_neg none]
    rfl

/-- A candidate is an unspent and unlocked output, which is not excluded, and its position. -/
theorem mem_candidates {w : Wallet} {now : UInt64} {excluded : List Nat} {c : Candidate} :
    c ∈ candidates w now excluded ↔ w.history.transfers[c.index]? = some c.transfer ∧
      c.transfer.spent = false ∧ c.index ∉ excluded ∧ w.isUnlocked now c.transfer = true := by
  unfold candidates
  rw [List.mem_filter, List.mem_map]
  constructor
  · rintro ⟨⟨⟨t, i⟩, mem, rfl⟩, allowed⟩
    have here := List.mem_zipIdx_iff_getElem?.mp mem
    simp only [Bool.and_eq_true, Bool.not_eq_true', List.contains_eq_mem] at allowed
    exact ⟨here, allowed.1.1, by simpa using allowed.1.2, allowed.2⟩
  · rintro ⟨here, unspent, free, unlocked⟩
    refine ⟨⟨(c.transfer, c.index), List.mem_zipIdx_iff_getElem?.mpr here, rfl⟩, ?_⟩
    simp [unspent, free, unlocked]

/-- No two candidates have the same position. -/
theorem nodup_index_candidates (w : Wallet) (now : UInt64) (excluded : List Nat) :
    ((candidates w now excluded).map Candidate.index).Nodup := by
  unfold candidates
  refine List.Nodup.sublist (List.filter_sublist.map _) ?_
  rw [List.map_map]
  show (w.history.transfers.zipIdx.map Prod.snd).Nodup
  rw [List.zipIdx_map_snd]
  exact List.nodup_range'

/-- A selection picks regular candidates and dust by the rule. -/
theorem picks_of_select (w : Wallet) (now needed : UInt64) (addDust : Bool) (threshold : UInt64)
    (excluded : List Nat) (s : σ) :
    ∃ picked : List Candidate,
      Picks needed 0 addDust
        ((candidates w now excluded).filter fun c => threshold < c.transfer.amount)
        ((candidates w now excluded).filter fun c => !decide (threshold < c.transfer.amount))
        picked ∧
      ((select next w now needed addDust threshold excluded).run s).1 = result 0 picked := by
  unfold select
  rw [List.partition_eq_filter_filter]
  exact run_pick next needed 0 addDust _ _ s

/-- A selection picks candidates, each at most once. -/
theorem run_select (w : Wallet) (now needed : UInt64) (addDust : Bool) (threshold : UInt64)
    (excluded : List Nat) (s : σ) :
    ∃ picked : List Candidate, picked.Subperm (candidates w now excluded) ∧
      ((select next w now needed addDust threshold excluded).run s).1 = result 0 picked := by
  obtain ⟨picked, picks, run⟩ := picks_of_select next w now needed addDust threshold excluded s
  exact ⟨picked, picks.subperm.trans (List.filter_append_perm _ _).subperm, run⟩

/-- A selected position is that of a transfer. -/
theorem exists_transfer_of_select {w : Wallet} {now needed : UInt64} {addDust : Bool}
    {threshold : UInt64} {excluded : List Nat} {s : σ} {found : UInt64} {selected : List Handle}
    (run : ((select next w now needed addDust threshold excluded).run s).1 = (found, selected))
    {handle : Handle} (mem : handle ∈ selected) :
    ∃ t, w.history.transfers[handle.index]? = some t := by
  obtain ⟨picked, part, picks⟩ := run_select next w now needed addDust threshold excluded s
  rw [run] at picks
  obtain rfl : selected = picked.map Candidate.handle := congrArg Prod.snd picks
  obtain ⟨c, chosen, rfl⟩ := List.mem_map.mp mem
  exact ⟨c.transfer, (mem_candidates.mp (part.subset chosen)).1⟩

end Balance

end RingWallet
