import RingWallet.Proofs.Spend.Conserve

/-!
# Spreading a payment over several transactions

`buildSplit` makes attempts: with one transaction, then with two, and so on, up to the number that
the wallet allows. `Attempts.outcome` is what the attempt with some number of parts ends with, when
it follows all attempts with fewer. `Attempts.cases_buildSplitFrom` says all that the loop can do:
it ends with the first attempt that is not too big, and if there is none it fails.

An attempt hands each part to a build of its own, which leaves out what the earlier ones spend
(`Build.apart_of_buildAll`). Nothing else is carried from one build to the next, and nothing at all
from one attempt to the next but the state of the environment (`Attempts.wallet_after`). So what an
attempt returns is one payment (`Build.Shared`), and `shared_of_buildSplit` says so of the whole
search.
-/

set_option autoImplicit false

namespace RingWallet

open WalletM

variable (S : Suite) {σ : Type} (env : Environment σ)

/-! ### One attempt -/

namespace Build

/-- A transaction that was built for a request in some session of a wallet, whatever was to be
excluded. -/
def Built (w : Wallet) (r : TransferRequest) (p : PendingTransaction) : Prop :=
  ∃ (s : Session σ) (excluded : List Nat), s.wallet = w ∧
    (exec (build S env { r with excluded }) s).1 = .ok p

variable {S env} {w : Wallet} {r : TransferRequest} {draft : Draft} {p : PendingTransaction}

/-- The positions of what was selected are those of what was picked. -/
theorem Drafted.map_index_selected (drafted : Drafted S w r draft p) :
    p.selected.map Handle.index = draft.picked.map Candidate.index := by
  rw [drafted.selected_eq, List.map_map]
  rfl

/-- A transaction does not spend a transfer twice. -/
theorem Drafted.nodup_selected (drafted : Drafted S w r draft p) :
    (p.selected.map Handle.index).Nodup := by
  rw [drafted.map_index_selected]
  obtain ⟨picked, perm, sublist⟩ := drafted.picked
  have distinct := Balance.nodup_index_candidates w draft.now r.excluded
  exact ((perm.map _).nodup_iff).mp (distinct.sublist (sublist.map _))

/-- A transaction spends nothing that is excluded. -/
theorem Drafted.not_mem_excluded (drafted : Drafted S w r draft p) {i : Nat}
    (spent : i ∈ p.selected.map Handle.index) : i ∉ r.excluded := by
  rw [drafted.map_index_selected] at spent
  obtain ⟨c, picked, rfl⟩ := List.mem_map.mp spent
  exact (Balance.mem_candidates.mp (drafted.picked.subset picked)).2.2.1

/-- What is built for a request comes from a draft. -/
theorem Built.drafted (built : Built S env w r p) :
    ∃ excluded draft, Drafted S w { r with excluded } draft p := by
  obtain ⟨s, excluded, rfl, run⟩ := built
  obtain ⟨⟨draft, drafted, -⟩, -⟩ := drafted_of_build (Prod.ext run rfl)
  exact ⟨excluded, draft, drafted⟩

/-- What stands at the side of a member of the second list. -/
private theorem exists_of_forall₂ {α β : Type} {R : α → β → Prop} {as : List α} {bs : List β}
    (all : List.Forall₂ R as bs) {b : β} (mem : b ∈ bs) : ∃ a, R a b := by
  induction all with
  | nil => cases mem
  | cons first _ ih =>
    rcases List.mem_cons.mp mem with rfl | later
    · exact ⟨_, first⟩
    · exact ih later

/-- The transfers that two transactions spend are different ones. -/
def Apart (p q : PendingTransaction) : Prop :=
  (p.selected.map Handle.index).Disjoint (q.selected.map Handle.index)

/-- Transactions that are built one after the other are each built for its own request. No two of
them spend the same transfer, and none of them spends an excluded one. -/
theorem apart_of_buildAll {request : List Destination → TransferRequest}
    {parts : List (List Destination)} {excluded : List Nat} {s t : Session σ}
    {ps : List PendingTransaction}
    (run : exec (buildAll S env request excluded parts) s = (.ok ps, t)) :
    List.Forall₂ (fun part p => Built S env s.wallet (request part) p) parts ps ∧
      ps.Pairwise Apart ∧ ∀ p ∈ ps, ∀ i ∈ p.selected.map Handle.index, i ∉ excluded := by
  induction parts generalizing excluded s t ps with
  | nil =>
    obtain rfl := Except.ok.inj (congrArg Prod.fst run)
    simp
  | cons part rest ih =>
    obtain ⟨p, s₁, built, run⟩ := exec_bind_eq_ok.mp run
    obtain ⟨others, s₂, later, run⟩ := exec_bind_eq_ok.mp run
    obtain rfl := Except.ok.inj (congrArg Prod.fst run)
    obtain ⟨⟨draft, drafted, -⟩, same⟩ := drafted_of_build built
    have wallet : s₁.wallet = s.wallet := by rw [same]
    obtain ⟨each, apart, free⟩ := ih later
    rw [wallet] at each
    -- the later ones leave out what is excluded and what the first one spends
    have first : ∀ q ∈ others, Apart p q := by
      intro q mem i spent again
      exact free q mem i again (List.mem_append_right _ spent)
    have allowed : ∀ q ∈ others, ∀ i ∈ q.selected.map Handle.index, i ∉ excluded := by
      intro q mem i spent out
      exact free q mem i spent (List.mem_append_left _ out)
    have own : ∀ i ∈ p.selected.map Handle.index, i ∉ excluded :=
      fun i spent => drafted.not_mem_excluded spent
    exact ⟨.cons ⟨s, excluded, rfl, congrArg Prod.fst built⟩ each, .cons first apart,
      List.forall_mem_cons.mpr ⟨own, allowed⟩⟩

variable (S env) in
/-- Transactions that together pay some destinations, as many times the fee as there are
transactions. -/
structure Shared (w : Wallet) (request : List Destination → TransferRequest)
    (destinations : List Destination) (fee : UInt64) (ps : List PendingTransaction) : Prop where
  /-- Each transaction was built for its own part of the destinations. -/
  built : List.Forall₂ (fun part p => Built S env w (request part) p)
    (spreadOver destinations ps.length) ps
  /-- What the builds were handed for the destination at one position adds up to its amount. -/
  amounts : ∀ (i : Nat) (d : Destination), destinations[i]? = some d →
    ∃ amounts, (spreadOver destinations ps.length).map (fun part => part[i]?) =
        amounts.map (fun amount => some ⟨amount, d.address⟩) ∧
      exactSum amounts = d.amount.toNat
  apart : ps.Pairwise Apart
  nodup : ∀ p ∈ ps, (p.selected.map Handle.index).Nodup
  /-- Each transaction pays the fee, and nothing beyond it but the dust. -/
  fee : ∀ p ∈ ps, p.fee = fee ∧ exactSum (p.tx.inputs.map TxIn.amount) =
    exactSum (p.tx.outputs.map TxOut.amount) + fee.toNat + p.dust.toNat
  size : ∀ p ∈ ps, p.tx.toBlob.length < w.config.transactionSizeLimit

/-- The builds for all parts of the destinations make up a payment. -/
theorem shared_of_buildAll {w : Wallet} {mixin unlockTime fee : UInt64} {extra : Blob}
    {destinations : List Destination} {parts : Nat} (positive : 0 < parts) {s t : Session σ}
    (wallet : s.wallet = w) {ps : List PendingTransaction}
    (run : exec (buildAll S env (fun ds => .standard w.config ds mixin unlockTime fee extra) []
      (spreadOver destinations parts)) s = (.ok ps, t)) :
    ps.length = parts ∧ Shared S env w
      (fun ds => .standard w.config ds mixin unlockTime fee extra) destinations fee ps := by
  subst wallet
  obtain ⟨built, apart, -⟩ := apart_of_buildAll run
  have length : ps.length = parts := by
    rw [← built.length_eq, length_spreadOver]
    omega
  have each : ∀ p ∈ ps, (p.selected.map Handle.index).Nodup ∧
      (p.fee = fee ∧ exactSum (p.tx.inputs.map TxIn.amount) =
        exactSum (p.tx.outputs.map TxOut.amount) + fee.toNat + p.dust.toNat) ∧
      p.tx.toBlob.length < s.wallet.config.transactionSizeLimit := by
    intro p mem
    obtain ⟨part, alone⟩ := exists_of_forall₂ built mem
    obtain ⟨excluded, draft, drafted⟩ := Built.drafted alone
    -- such a request leaves the dust to the fee
    have sums : exactSum (p.tx.inputs.map TxIn.amount) =
        exactSum (p.tx.outputs.map TxOut.amount) + fee.toNat + p.dust.toNat :=
      drafted.exactSum_inputs
    exact ⟨drafted.nodup_selected, ⟨drafted.fee, sums⟩, drafted.size⟩
  refine ⟨length, ?_⟩
  constructor
  · rw [length]
    exact built
  · intro i d here
    exact exists_amounts_of_spreadOver here _
  · exact apart
  · exact fun p mem => (each p mem).1
  · exact fun p mem => (each p mem).2.1
  · exact fun p mem => (each p mem).2.2

end Build

/-! ### One attempt after the other -/

namespace Attempts

variable (request : List Destination → TransferRequest) (destinations : List Destination)

/-- An attempt with some number of parts. -/
def attempt (parts : Nat) : WalletM σ (List PendingTransaction) :=
  buildAll S env request [] (spreadOver destinations parts)

/-- The session after the attempts with up to `parts` parts, whatever they ended with. -/
def after (s : Session σ) : (parts : Nat) → Session σ
  | 0 => s
  | parts + 1 => (exec (attempt S env request destinations (parts + 1)) (after s parts)).2

/-- What the attempt with `parts` parts ends with, after all those with fewer. -/
def outcome (s : Session σ) (parts : Nat) : Except WalletError (List PendingTransaction) :=
  (exec (attempt S env request destinations parts)
    (after S env request destinations s (parts - 1))).1

/-- An attempt that failed since a transaction came out too big. -/
def TooBig {α : Type} (result : Except WalletError α) : Prop :=
  ∃ e, result = .error e ∧ e.isTooBig = true

variable {S env request destinations} {s : Session σ}

/-- An attempt leaves the wallet as it is. -/
@[simp] theorem wallet_after (s : Session σ) (parts : Nat) :
    (after S env request destinations s parts).wallet = s.wallet := by
  induction parts with
  | zero => rfl
  | succ parts ih =>
    have quiet := (Build.quiet_buildAll S env request [] (spreadOver destinations (parts + 1))
      (after S env request destinations s parts)).2
    show (exec (buildAll S env request [] _) _).2.wallet = _
    rw [quiet]
    exact ih

/-- One round of the loop. -/
theorem buildSplitFrom_succ (attempts parts : Nat) (last : WalletError) :
    buildSplitFrom S env request destinations (attempts + 1) parts last =
      WalletM.outcome (attempt S env request destinations parts) >>= fun
        | .ok pending => pure pending
        | .error e =>
          if e.isTooBig then buildSplitFrom S env request destinations attempts (parts + 1) e
          else throw e := by
  rw [buildSplitFrom]
  rfl

/-- If the attempt with one part more than were tried is too big, the loop goes on after it. -/
theorem exec_buildSplitFrom_of_tooBig {tried : Nat} {e : WalletError}
    (fails : outcome S env request destinations s (tried + 1) = .error e)
    (big : e.isTooBig = true) (attempts : Nat) (last : WalletError) :
    exec (buildSplitFrom S env request destinations (attempts + 1) (tried + 1) last)
        (after S env request destinations s tried) =
      exec (buildSplitFrom S env request destinations attempts (tried + 2) e)
        (after S env request destinations s (tried + 1)) := by
  have run : exec (WalletM.outcome (attempt S env request destinations (tried + 1)))
      (after S env request destinations s tried) =
      (.ok (.error e), after S env request destinations s (tried + 1)) :=
    (exec_outcome _ _).trans (congrArg (fun r => (Except.ok r, _)) fails)
  rw [buildSplitFrom_succ, exec_bind_ok _ run]
  simp only [big, if_true]

/-- If it is not too big, the loop ends as the attempt does. -/
theorem exec_buildSplitFrom_of_not_tooBig {tried : Nat}
    (fits : ¬ TooBig (outcome S env request destinations s (tried + 1))) (attempts : Nat)
    (last : WalletError) :
    (exec (buildSplitFrom S env request destinations (attempts + 1) (tried + 1) last)
        (after S env request destinations s tried)).1 =
      outcome S env request destinations s (tried + 1) := by
  have run := exec_outcome (attempt S env request destinations (tried + 1))
    (after S env request destinations s tried)
  rw [buildSplitFrom_succ, exec_bind_ok _ run]
  show (exec (match outcome S env request destinations s (tried + 1) with
    | .ok pending => pure pending
    | .error e => if e.isTooBig then _ else throw e) _).1 = _
  rcases ends : outcome S env request destinations s (tried + 1) with e | ps
  · -- only a transaction that is too big is split again
    have small : ¬ e.isTooBig = true := fun big => fits ⟨e, ends, big⟩
    simp only [if_neg small]
    rfl
  · rfl

variable (S env request destinations) in
/-- The loop ends with the first attempt that is not too big. If there is none, it fails, and with
the error that it was given if there is no attempt at all. -/
theorem cases_buildSplitFrom (s : Session σ) (attempts tried : Nat) (last : WalletError) :
    let result := (exec (buildSplitFrom S env request destinations attempts (tried + 1) last)
      (after S env request destinations s tried)).1
    let ends := outcome S env request destinations s
    (∃ parts, tried < parts ∧ parts ≤ tried + attempts ∧ result = ends parts ∧
        ¬ TooBig (ends parts) ∧ ∀ fewer, tried < fewer → fewer < parts → TooBig (ends fewer)) ∨
      ((∀ parts, tried < parts → parts ≤ tried + attempts → TooBig (ends parts)) ∧
        ∃ e, result = .error e ∧ (attempts = 0 → e = last)) := by
  induction attempts generalizing tried last with
  | zero =>
    refine .inr ⟨?_, last, rfl, fun _ => rfl⟩
    intro parts above below
    omega
  | succ attempts ih =>
    intro result ends
    by_cases big : TooBig (ends (tried + 1))
    · obtain ⟨e, fails, size⟩ := id big
      have step : result = _ :=
        congrArg Prod.fst (exec_buildSplitFrom_of_tooBig fails size attempts last)
      -- the attempt that was just made is too big, and so are those that the loop makes after it
      rcases ih (tried + 1) e with
        ⟨parts, above, below, same, fits, before⟩ | ⟨all, e', same, -⟩
      · refine .inl ⟨parts, by omega, by omega, step.trans same, fits, ?_⟩
        intro fewer more less
        rcases Nat.lt_or_eq_of_le more with later | now
        · exact before fewer later less
        · exact now ▸ big
      · refine .inr ⟨?_, e', step.trans same, by omega⟩
        intro parts above below
        rcases Nat.lt_or_eq_of_le above with later | now
        · exact all parts later (by omega)
        · exact now ▸ big
    · refine .inl ⟨tried + 1, by omega, by omega,
        exec_buildSplitFrom_of_not_tooBig big attempts last, big, ?_⟩
      intro fewer above below
      omega

end Attempts

open Attempts Build in
/-- A payment that is spread over several transactions, for any wallet and destinations and whatever
the daemon and the source of random words answer.

If transactions are returned, there is at least one and at most as many as there may be attempts;
they come from the attempt with as many parts, and every attempt with fewer was too big. Together
they pay the destinations, none of them spends what another one spends, each pays the fee and stays
below the size limit (`Build.Shared`). An error that says that a transaction is too big means that
every attempt was. And an attempt that is not too big, when all with fewer parts were, decides how
the search ends. -/
theorem shared_of_buildSplit (S : Suite) {σ : Type} (env : Environment σ)
    (destinations : List Destination) (mixin unlockTime fee : UInt64) (extra : Blob)
    (s : Session σ) :
    let config := s.wallet.config
    let request ds := TransferRequest.standard config ds mixin unlockTime fee extra
    let ends := outcome S env request destinations s
    let result := (exec (buildSplit S env destinations mixin unlockTime fee extra) s).1
    (∀ ps, result = .ok ps →
      1 ≤ ps.length ∧ ps.length ≤ config.maxSplitAttempts ∧ ends ps.length = .ok ps ∧
        (∀ parts, 1 ≤ parts → parts < ps.length → TooBig (ends parts)) ∧
        Shared S env s.wallet request destinations fee ps) ∧
    (∀ e, result = .error e → e.isTooBig = true →
      1 ≤ config.maxSplitAttempts ∧
        ∀ parts, 1 ≤ parts → parts ≤ config.maxSplitAttempts → TooBig (ends parts)) ∧
    ∀ parts, 1 ≤ parts → parts ≤ config.maxSplitAttempts → ¬ TooBig (ends parts) →
      (∀ fewer, 1 ≤ fewer → fewer < parts → TooBig (ends fewer)) → result = ends parts := by
  intro config request ends result
  have loop : result = (exec (buildSplitFrom S env request destinations config.maxSplitAttempts 1
      (.transaction (.notConstructed .noSplitAttempts))) s).1 := by
    show (exec (buildSplit S env destinations mixin unlockTime fee extra) s).1 = _
    rw [buildSplit, exec_bind_ok _ (exec_wallet s)]
  rcases cases_buildSplitFrom S env request destinations s config.maxSplitAttempts 0
    (.transaction (.notConstructed .noSplitAttempts)) with
    ⟨parts, positive, below, same, fits, before⟩ | ⟨all, e, same, none⟩
  · replace same : result = ends parts := loop.trans same
    refine ⟨?_, ?_, ?_⟩
    · intro ps ok
      have made : ends parts = .ok ps := same.symm.trans ok
      obtain ⟨length, shared⟩ := shared_of_buildAll positive
        (wallet_after s (parts - 1)) (Prod.ext made rfl)
      subst length
      exact ⟨positive, by omega, made, before, shared⟩
    · intro e fails big
      exact absurd ⟨e, same.symm.trans fails, big⟩ fits
    · intro parts' positive' _ fits' before'
      -- of two such attempts neither comes before the other
      have first : parts' = parts := by
        rcases Nat.lt_trichotomy parts' parts with less | same | more
        · exact absurd (before parts' positive' less) fits'
        · exact same
        · exact absurd (before' parts positive more) fits
      rw [first]
      exact same
  · replace same : result = .error e := loop.trans same
    refine ⟨?_, ?_, ?_⟩
    · intro ps ok
      cases same.symm.trans ok
    · intro e' fails big
      obtain rfl := Except.error.inj (same.symm.trans fails)
      -- without any attempt the error is another one
      have some : config.maxSplitAttempts ≠ 0 := by
        intro zero
        rw [none zero] at big
        cases big
      exact ⟨by omega, fun parts positive below => all parts positive (by omega)⟩
    · intro parts positive below fits
      exact absurd (all parts positive (by omega)) fits

/-! ### A payment that does not fit into one transaction -/

namespace Attempts

open SmallSuite

/-- A wallet with two outputs of 1005, whose transactions may have one input. -/
def wallet (maxSplitAttempts : Nat) : Session Script where
  env := {}
  wallet := ⟨account, { spendableAge := 1, dustThreshold := 10, transactionSizeLimit := 300,
                        maxSplitAttempts },
    { chain := [.null, .null, .null]
      transfers := [Conserved.output 1 3 1005, Conserved.output 2 4 1005] }⟩

/-- 2000 for somebody else. -/
def payment : List Destination :=
  [⟨2000, ⟨.ofPoint .small (11 : Nat), .ofPoint .small (13 : Nat)⟩⟩]

/-- The payment, with a fee of 5 for each transaction. -/
def paying (maxSplitAttempts : Nat) : Except WalletError (List PendingTransaction) :=
  (exec (buildSplit .small Script.environment payment 0 0 5 []) (wallet maxSplitAttempts)).1

end Attempts

open Attempts Build in
/-- Two transactions with one input each are small enough, and one with both is not. If there may
be one attempt only, it fails. -/
theorem shared_of_buildSplit_small :
    (∃ ps, paying 2 = .ok ps ∧ ps.map (fun p => p.selected.map Handle.index) = [[0], [1]] ∧
      TooBig (outcome .small Script.environment
        (fun ds => .standard (wallet 2).wallet.config ds 0 0 5 []) payment (wallet 2) 1) ∧
      Shared .small Script.environment (wallet 2).wallet
        (fun ds => .standard (wallet 2).wallet.config ds 0 0 5 []) payment 5 ps) ∧
    (∃ e, paying 1 = .error e ∧ e.isTooBig = true ∧
      TooBig (outcome .small Script.environment
        (fun ds => .standard (wallet 1).wallet.config ds 0 0 5 []) payment (wallet 1) 1)) := by
  constructor
  · have spent : (paying 2).toOption.map (fun ps => ps.map fun p => p.selected.map Handle.index) =
        some [[0], [1]] := by decide +kernel
    obtain ⟨ps, ok, spent⟩ := Option.map_eq_some_iff.mp spent
    replace ok : paying 2 = .ok ps := Except.toOption_eq_some.mp ok
    -- one transaction per share
    have two : ps.length = 2 := by simpa using congrArg List.length spent
    obtain ⟨-, -, -, before, shared⟩ :=
      (shared_of_buildSplit .small Script.environment payment 0 0 5 [] (wallet 2)).1 ps ok
    exact ⟨ps, ok, spent, before 1 (Nat.le_refl 1) (by omega), shared⟩
  · have fails : (match paying 1 with
        | .error e => e.isTooBig
        | .ok _ => false) = true := by decide +kernel
    -- with one attempt allowed the shares are never spread further
    rcases ends : paying 1 with e | ps
    · rw [ends] at fails
      obtain ⟨-, all⟩ :=
        (shared_of_buildSplit .small Script.environment payment 0 0 5 [] (wallet 1)).2.1 e ends
          fails
      exact ⟨e, rfl, fails, all 1 (Nat.le_refl 1) (Nat.le_refl 1)⟩
    · rw [ends] at fails
      cases fails

end RingWallet
