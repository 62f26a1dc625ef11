import RingWallet.Proofs.Spend.Select

/-!
# What a selection promises

`Wallet.Selects` says what a request for outputs can count on, whatever the random words are: which
outputs are picked, that none is picked too many, that all are picked if they do not suffice, and
when dust is picked. Each part is read off the rule `Balance.Picks` by an induction over the rounds.
`selects_select` puts them together. A choice covers the amount exactly if all eligible outputs
together do (`Balance.Picks.le_result_iff`), which has nothing to do with the random words.
-/

set_option autoImplicit false

namespace RingWallet

/-- An output that a request may pick, and its position. -/
def Wallet.Eligible (w : Wallet) (now : UInt64) (excluded : List Nat) (c : Candidate) : Prop :=
  w.history.transfers[c.index]? = some c.transfer ∧ c.transfer.spent = false ∧
    w.isUnlocked now c.transfer = true ∧ c.index ∉ excluded

namespace Balance

/-- The amounts of a choice. -/
def amounts (picked : List Candidate) : List UInt64 := picked.map fun c => c.transfer.amount

/-! ### The rounds -/

variable {needed found : UInt64} {dustFirst : Bool} {regular dust picked : List Candidate}

/-- Before the last pick the amount was not covered. -/
theorem Picks.sum_dropLast_lt (picks : Picks needed found dustFirst regular dust picked)
    (some : picked ≠ []) :
    found.toNat + exactSum (amounts picked.dropLast) < needed.toNat := by
  -- what a round adds is not cut off, as long as `needed` is not reached
  have step {found : UInt64} {c : Candidate} {picked : List Candidate} (more : found < needed)
      (ih : picked ≠ [] → (found.addSat c.transfer.amount).toNat +
        exactSum (amounts picked.dropLast) < needed.toNat) :
      found.toNat + exactSum (amounts (c :: picked).dropLast) < needed.toNat := by
    cases picked with
    | nil => exact UInt64.lt_iff_toNat_lt.mp more
    | cons d rest =>
      have later := ih (List.cons_ne_nil d rest)
      have bound := needed.toNat_le_maxWord
      rw [UInt64.toNat_addSat] at later
      rw [List.dropLast_cons_of_ne_nil (List.cons_ne_nil d rest), amounts, List.map_cons,
        exactSum_cons]
      unfold amounts at later
      omega
  induction picks with
  | enough | none => exact absurd rfl some
  | dust more _ _ _ ih => exact step more ih
  | regular more _ _ _ ih => exact step more ih

/-- If the amount is not covered, then everything was picked. -/
theorem Picks.perm_of_lt (picks : Picks needed found dustFirst regular dust picked)
    (short : (result found picked).1 < needed) : picked.Perm (regular ++ dust) := by
  induction picks with
  | enough covered => exact absurd short (UInt64.not_lt.mpr covered)
  | none => exact .nil
  | @dust _ _ regular dust rest _ c _ _ taken _ ih =>
    exact ((ih short).cons c).trans (List.perm_middle.symm.trans (taken.append_left regular))
  | @regular _ _ regular dust rest _ c _ _ taken _ ih =>
    exact ((ih short).cons c).trans (taken.append_right dust)

/-- If it is the turn of dust and there is some, then dust is picked first. -/
theorem Picks.exists_dust (picks : Picks needed found true regular dust picked)
    (more : found < needed) (some : dust ≠ []) : ∃ c ∈ dust, ∃ rest, picked = c :: rest := by
  cases picks with
  | enough covered => exact absurd more (UInt64.not_lt.mpr covered)
  | none => exact absurd rfl some
  | dust _ _ taken _ => exact ⟨_, taken.subset List.mem_cons_self, _, rfl⟩
  | regular _ turn _ _ =>
    rcases turn with ended | none
    · cases ended
    · exact absurd none some

/-- Any other dust is picked when nothing regular is left. -/
theorem Picks.mem_before (isDust : Candidate → Prop)
    (picks : Picks needed found dustFirst regular dust picked)
    (split : ∀ c ∈ regular, ¬ isDust c) {before after : List Candidate} {c : Candidate}
    (picked_eq : picked = before ++ c :: after) (is_dust : isDust c)
    (other : dustFirst = false ∨ before ≠ []) {r : Candidate} (mem : r ∈ regular) :
    r ∈ before := by
  induction picks generalizing before with
  | enough | none => exact absurd picked_eq.symm (by simp)
  | dust _ turn _ _ ih =>
    cases before with
    | nil =>
      -- it is the turn of dust without being the first one, so that nothing else is left
      have not_first := other.resolve_right (· rfl)
      rw [turn.resolve_left (by simp [not_first])] at mem
      cases mem
    | cons d before =>
      obtain ⟨rfl, rest⟩ := List.cons.inj picked_eq
      exact List.mem_cons_of_mem _ (ih split rest (.inl rfl) mem)
  | regular _ _ taken _ ih =>
    cases before with
    | nil =>
      obtain ⟨rfl, -⟩ := List.cons.inj picked_eq
      exact absurd is_dust (split _ (taken.subset List.mem_cons_self))
    | cons d before =>
      obtain ⟨rfl, rest⟩ := List.cons.inj picked_eq
      rcases List.mem_cons.mp (taken.symm.subset mem) with rfl | left
      · exact List.mem_cons_self
      · refine List.mem_cons_of_mem _ (ih (fun c left => ?_) rest (.inl rfl) left)
        exact split c (taken.subset (List.mem_cons_of_mem _ left))

/-- The choice covers the amount exactly if everything together does. -/
theorem Picks.le_result_iff (picks : Picks needed 0 dustFirst regular dust picked) :
    needed ≤ (result 0 picked).1 ↔ needed.toNat ≤ exactSum (amounts (regular ++ dust)) := by
  -- the amounts that were found are summed up to the largest word
  have total : (result 0 picked).1.toNat = min (exactSum (amounts picked)) maxWord := by
    rw [toNat_result]
    exact congrArg (min · maxWord) (Nat.zero_add _)
  constructor
  · -- a part of the candidates is worth no more than all of them
    intro covered
    obtain ⟨part, perm, sub⟩ := picks.subperm
    obtain ⟨left, all⟩ := sub.exists_perm_append
    have sum : exactSum (amounts (regular ++ dust)) =
        exactSum (amounts picked) + exactSum (amounts left) := by
      rw [← exactSum_append, amounts, amounts, amounts, ← List.map_append]
      exact exactSum_perm ((all.trans (perm.append_right left)).map _)
    have := UInt64.le_iff_toNat_le.mp covered
    omega
  · -- a choice that does not suffice has taken all of them
    intro enough
    by_contra short
    have all := picks.perm_of_lt (UInt64.not_le.mp short)
    have sum : exactSum (amounts picked) = exactSum (amounts (regular ++ dust)) :=
      exactSum_perm (all.map _)
    have bound := needed.toNat_le_maxWord
    refine short (UInt64.le_iff_toNat_le.mpr ?_)
    rw [total, sum]
    exact Nat.le_min.mpr ⟨enough, bound⟩

end Balance

/-! ### The request -/

open Balance

/-- What a request for outputs promises of its choice, which is listed in the order of the picks. An
output is dust if its amount does not exceed the threshold. -/
structure Wallet.Selects (w : Wallet) (now needed : UInt64) (addDust : Bool) (threshold : UInt64)
    (excluded : List Nat) (picked : List Candidate) : Prop where
  nodup : (picked.map Candidate.index).Nodup
  eligible : ∀ c ∈ picked, w.Eligible now excluded c
  /-- Without the last pick the amount is not covered. -/
  needs_last : picked ≠ [] → exactSum (amounts picked.dropLast) < needed.toNat
  /-- An amount that is not covered takes all there is. -/
  exhausts : totalAmount (picked.map Candidate.transfer) < needed →
    ∀ c, w.Eligible now excluded c → c ∈ picked
  dust_first : addDust = true → 0 < needed →
    (∃ c, w.Eligible now excluded c ∧ c.transfer.amount ≤ threshold) →
    ∃ c rest, picked = c :: rest ∧ c.transfer.amount ≤ threshold
  /-- Any other dust comes after everything that is not dust. -/
  dust_last : ∀ before c after, picked = before ++ c :: after → c.transfer.amount ≤ threshold →
    (addDust = false ∨ before ≠ []) →
    ∀ r, w.Eligible now excluded r → threshold < r.transfer.amount → r ∈ before

/-- The candidates are the outputs that a request may pick. -/
theorem mem_candidates_iff_eligible {w : Wallet} {now : UInt64} {excluded : List Nat}
    {c : Candidate} : c ∈ candidates w now excluded ↔ w.Eligible now excluded c := by
  rw [mem_candidates, Wallet.Eligible, and_comm (a := c.index ∉ excluded)]

/-- If nothing is excluded, then the candidates are worth the unlocked balance. -/
theorem unlockedBalance_eq (w : Wallet) (now : UInt64) :
    w.unlockedBalance now = totalAmount ((candidates w now []).map Candidate.transfer) := by
  have transfers : (candidates w now []).map Candidate.transfer =
      w.history.transfers.filter fun t => !t.spent && w.isUnlocked now t := by
    have free (c : Candidate) : (!([] : List Nat).contains c.index) = true := rfl
    unfold candidates
    simp only [free, Bool.and_true]
    rw [List.filter_map, List.map_map]
    conv_rhs => rw [← List.zipIdx_map_fst 0 w.history.transfers, List.filter_map]
    rfl
  rw [transfers, Wallet.unlockedBalance]

/-- The totals of two choices that differ in the order only. -/
theorem totalAmount_perm {transfers transfers' : List Transfer} (perm : transfers.Perm transfers') :
    totalAmount transfers = totalAmount transfers' := by
  apply UInt64.toNat_inj.mp
  rw [totalAmount, totalAmount, UInt64.toNat_foldl_addSat, UInt64.toNat_foldl_addSat,
    (perm.map fun t => t.amount.toNat).sum_nat]

/-- What is picked by the rule from the candidates meets the promises. -/
theorem Balance.Picks.selects {w : Wallet} {now needed : UInt64} {addDust : Bool}
    {threshold : UInt64} {excluded : List Nat} {picked : List Candidate}
    (picks : Picks needed 0 addDust
      ((candidates w now excluded).filter fun c => threshold < c.transfer.amount)
      ((candidates w now excluded).filter fun c => !decide (threshold < c.transfer.amount))
      picked) : w.Selects now needed addDust threshold excluded picked := by
  -- what is picked is a part of the candidates, in some order
  have part : picked.Subperm (candidates w now excluded) :=
    picks.subperm.trans (List.filter_append_perm _ _).subperm
  have is_dust (c : Candidate) : (!decide (threshold < c.transfer.amount)) = true ↔
      c.transfer.amount ≤ threshold := by
    rw [Bool.not_eq_true', decide_eq_false_iff_not, UInt64.not_lt]
  refine ⟨?_, fun c mem => mem_candidates_iff_eligible.mp (part.subset mem), ?_, ?_, ?_, ?_⟩
  · obtain ⟨order, perm, sub⟩ := part
    rw [← (perm.map Candidate.index).nodup_iff]
    exact (nodup_index_candidates w now excluded).sublist (sub.map _)
  -- without its last candidate the choice would not suffice
  · intro some
    have := picks.sum_dropLast_lt some
    rwa [UInt64.toNat_zero, Nat.zero_add] at this
  -- a choice that does not suffice has taken all candidates
  · intro short c eligible
    rw [totalAmount, List.foldl_map] at short
    have all := (picks.perm_of_lt short).trans (List.filter_append_perm _ _)
    exact all.symm.subset (mem_candidates_iff_eligible.mpr eligible)
  -- with dust wanted, dust comes first
  · rintro rfl more ⟨c, eligible, low⟩
    have mem : c ∈ (candidates w now excluded).filter fun c =>
        !decide (threshold < c.transfer.amount) :=
      List.mem_filter.mpr ⟨mem_candidates_iff_eligible.mpr eligible, (is_dust c).mpr low⟩
    obtain ⟨first, among, rest, eq⟩ := picks.exists_dust more (List.ne_nil_of_mem mem)
    exact ⟨first, rest, eq, (is_dust first).mp (List.mem_filter.mp among).2⟩
  -- a dust candidate is only taken while no other one is left
  · intro before c after eq low other r eligible high
    refine picks.mem_before (fun c => c.transfer.amount ≤ threshold) ?_ eq low other ?_
    · intro d mem
      exact UInt64.not_le.mpr (of_decide_eq_true (List.mem_filter.mp mem).2)
    · exact List.mem_filter.mpr ⟨mem_candidates_iff_eligible.mpr eligible, decide_eq_true high⟩

/-- Whatever the random words are, a selection gives the handles of a choice that meets its
promises, and the total of its amounts. If nothing is excluded and the amount is not covered, then
this is the unlocked balance. Other random words cover the amount exactly if these do. -/
theorem selects_select {σ : Type} (next : RandomSource σ) (w : Wallet) (now needed : UInt64)
    (addDust : Bool) (threshold : UInt64) (excluded : List Nat) (s : σ) :
    ∃ picked : List Candidate,
      let found := totalAmount (picked.map Candidate.transfer)
      ((select next w now needed addDust threshold excluded).run s).1 =
          (found, picked.map Candidate.handle) ∧
        w.Selects now needed addDust threshold excluded picked ∧
        (excluded = [] → found < needed → found = w.unlockedBalance now) ∧
        ∀ (σ' : Type) (next' : RandomSource σ') (s' : σ'),
          needed ≤ found ↔
            needed ≤ ((select next' w now needed addDust threshold excluded).run s').1.1 := by
  obtain ⟨picked, picks, run⟩ := picks_of_select next w now needed addDust threshold excluded s
  have total : result 0 picked =
      (totalAmount (picked.map Candidate.transfer), picked.map Candidate.handle) := by
    rw [result, totalAmount, List.foldl_map]
  refine ⟨picked, run.trans total, picks.selects, ?_, ?_⟩
  -- a selection that falls short has taken all that is unlocked
  · rintro rfl short
    rw [unlockedBalance_eq]
    have found : (result 0 picked).1 < needed := total ▸ short
    have all := (picks.perm_of_lt found).trans (List.filter_append_perm _ _)
    exact totalAmount_perm (all.map _)
  -- whether the amount is covered does not depend on what is drawn
  · intro σ' next' s'
    obtain ⟨picked', picks', run'⟩ :=
      picks_of_select next' w now needed addDust threshold excluded s'
    have covers := picks.le_result_iff
    rw [total] at covers
    rw [run', picks'.le_result_iff]
    exact covers

end RingWallet
