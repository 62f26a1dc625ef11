import RingWallet.Proofs.Spend.Attempts
import RingWallet.Proofs.Spend.PaymentId
import RingWallet.Proofs.Spend.Refusal

/-!
# Parts of a payment that are empty

A build refuses a destination without an amount before it looks at the wallet, and with an error
that no later step gives (`Build.build_eq_zeroDestination_iff`). The same holds of the parts that
`buildSplit` hands to its builds. An amount that has fewer units than there are parts leaves some
part empty (`partAmount_eq_zero_iff`), so that the attempt with that many parts fails with this
error, whatever the wallet, the daemon and the random words are, and no other attempt does
(`Attempts.outcome_eq_zeroDestination_iff`).

So a payment with positive amounts is refused as an empty one exactly if it does not fit into as
many transactions as its smallest amount has units (`zeroDestination_of_buildSplit`).
-/

set_option autoImplicit false

namespace RingWallet

open WalletM ExceptT

variable {S : Suite} {σ : Type} {env : Environment σ}

/-! ### The errors of a construction -/

/-- The errors that making a transaction out of its parts may end with. -/
inductive TransactionError.OfConstruction : TransactionError → Prop
  | viewOnly : OfConstruction .viewOnly
  | notConstructed (cause : ConstructionError) : OfConstruction (.notConstructed cause)
  | amountOverflow : OfConstruction .amountOverflow
  | crypto (cause : CryptoError) : OfConstruction (.crypto cause)

namespace Construct

open TransactionError (OfConstruction)

variable {keys : AccountKeys} {e : TransactionError}

/-- An error of the cryptography is one of the construction. -/
theorem ofConstruction_of_crypto {α : Type} {x : Except CryptoError α}
    (fails : x.mapError TransactionError.crypto = .error e) : e.OfConstruction := by
  obtain ⟨cause, -, rfl⟩ := Except.mapError_eq_error.mp fails
  exact .crypto cause

/-- A source that cannot be spent makes a construction fail. -/
theorem ofConstruction_of_spendable {spend : SecretKey} {source : Source}
    (fails : spendable S keys spend source = .error e) : e.OfConstruction := by
  unfold spendable at fails
  rcases real : source.ring[source.position]? with - | ⟨index, key⟩
  · rw [real] at fails
    cases fails
    exact .notConstructed _
  rw [real] at fails
  -- the five steps fail one by one, and only the comparison of the keys fails on its own
  rcases Except.bind_eq_error.mp fails with fails | ⟨d, -, fails⟩
  · exact ofConstruction_of_crypto fails
  rcases Except.bind_eq_error.mp fails with fails | ⟨secret, -, fails⟩
  · exact ofConstruction_of_crypto fails
  rcases Except.bind_eq_error.mp fails with fails | ⟨derived, -, fails⟩
  · exact ofConstruction_of_crypto fails
  simp only [] at fails
  split at fails
  · cases fails
    exact .notConstructed _
  rcases Except.bind_eq_error.mp fails with fails | ⟨image, -, fails⟩
  · exact ofConstruction_of_crypto fails
  · cases fails

/-- A construction fails at its sources with an error of its own. -/
theorem ofConstruction_of_spendables {spend : SecretKey} {total : UInt64} {sources : List Source}
    (fails : spendables S keys spend total sources = .error e) : e.OfConstruction := by
  induction sources generalizing total with
  | nil => cases fails
  | cons source rest ih =>
    rcases Except.bind_eq_error.mp fails with fails | ⟨p, -, fails⟩
    · exact ofConstruction_of_spendable fails
    -- either the source itself fails, or the sum, or one of the others
    rcases sum : total.addChecked source.amount with - | total'
    · rw [sum] at fails
      cases fails
      exact .amountOverflow
    · rw [sum] at fails
      rcases Except.bind_eq_error.mp fails with later | ⟨_, -, fails⟩
      · exact ih later
      · cases fails

/-- A construction fails at its outputs with an error of its own. -/
theorem ofConstruction_of_outputs {txSecret : SecretKey} {index : Nat} {total : UInt64}
    {destinations : List Destination}
    (fails : outputs S txSecret index total destinations = .error e) : e.OfConstruction := by
  induction destinations generalizing index total with
  | nil => cases fails
  | cons dst rest ih =>
    -- either the keys of the output fail, or the sum, or one of the others
    rcases Except.bind_eq_error.mp fails with fails | ⟨d, -, fails⟩
    · exact ofConstruction_of_crypto fails
    rcases Except.bind_eq_error.mp fails with fails | ⟨key, -, fails⟩
    · exact ofConstruction_of_crypto fails
    rcases sum : total.addChecked dst.amount with - | total'
    · rw [sum] at fails
      cases fails
      exact .amountOverflow
    · rw [sum] at fails
      rcases Except.bind_eq_error.mp fails with later | ⟨_, -, fails⟩
      · exact ih later
      · cases fails

/-- A construction fails at its signatures with an error of its own. -/
theorem raises_ofConstruction_of_sign {next : RandomSource σ} {message : Hash}
    {prepared : List SpendableSource} {s : σ} :
    Raises OfConstruction (sign S next message prepared) s := by
  induction prepared generalizing s with
  | nil => exact raises_pure []
  | cons p rest ih =>
    refine .bind ?_ fun signature t _ => .bind ih fun others u _ => raises_pure _
    exact raises_adapt (fun cause => .crypto cause) _

/-- However a construction fails, it is with an error of its own. -/
theorem raises_ofConstruction {next : RandomSource σ} {sources : List Source}
    {destinations : List Destination} {extra : Blob} {unlockTime : UInt64} {s : σ} :
    Raises OfConstruction (construct S next keys sources destinations extra unlockTime) s := by
  unfold construct
  -- the checks throw what they find, and everything between them is either random or a construction
  rcases keys.spendSecret with - | spend
  · exact raises_throw .viewOnly
  simp only []
  split
  · exact raises_throw (.notConstructed _)
  refine .bind (raises_liftState _) fun ⟨txKey, txSecret⟩ _ _ => ?_
  refine .bind (raises_lift fun _ => ofConstruction_of_spendables) fun ⟨prepared, money⟩ _ _ => ?_
  refine .bind (raises_lift fun _ => ofConstruction_of_outputs) fun ⟨outs, spent⟩ _ _ => ?_
  split
  · exact raises_throw (.notConstructed _)
  · exact .bind raises_ofConstruction_of_sign fun signatures _ _ => raises_pure _

end Construct

/-! ### Destinations without an amount -/

namespace Build

/-- There is nobody to pay, or somebody who gets nothing. -/
def Empty (destinations : List Destination) : Prop :=
  destinations = [] ∨ ∃ d ∈ destinations, d.amount = 0

/-- A request is refused for an empty destination exactly if there is one, or none at all. -/
theorem neededMoney_eq_zeroDestination_iff (config : Config) {r : TransferRequest} :
    neededMoney config r = .error .zeroDestination ↔ Empty r.destinations := by
  constructor
  · -- of the three ways to fail only the first one is this error
    intro fails
    rcases cases_of_neededMoney_eq_error fails with ⟨-, none⟩ | other | other
    · exact none
    · cases other
    · cases other
  · intro none
    have checked : (r.destinations.isEmpty || r.destinations.any fun d => d.amount = 0) = true := by
      simpa [Empty] using none
    unfold neededMoney
    simp only []
    rw [if_pos checked]
    rfl

/-- A build is refused as an empty one exactly if the request is. -/
theorem build_eq_zeroDestination_iff {r : TransferRequest} {s : Session σ} :
    (exec (build S env r) s).1 = .error (.transaction .zeroDestination) ↔
      Empty r.destinations := by
  constructor
  · intro fails
    -- no later step gives this error
    generalize same : WalletError.transaction .zeroDestination = e at fails
    cases refusal_of_build (Prod.ext fails rfl) with
    | request failed =>
      obtain rfl := WalletError.transaction.inj same
      exact (neededMoney_eq_zeroDestination_iff _).mp failed
    | paymentId given failed =>
      obtain rfl := WalletError.transaction.inj same
      cases (Extra.ofPaymentId_eq_error.mp failed).2
    | daemon blamed =>
      subst same
      cases blamed
    | source at_index failed =>
      subst same
      rcases cases_of_sourceOf_eq_error failed with other | ⟨cause, other⟩ | ⟨hash, other⟩
      all_goals cases other
    | construction drawn failed =>
      obtain rfl := WalletError.transaction.inj same
      nomatch Construct.raises_ofConstruction _ _ failed
    | poor _ _ => cases same
    | overflow _ => cases same
    | scanty _ => cases same
    | dust _ _ => cases same
    | tooBig _ => cases same
  · intro none
    have refused := (neededMoney_eq_zeroDestination_iff s.wallet.config).mpr none
    have stops : exec (orFail WalletError.transaction (neededMoney s.wallet.config r)) s =
        (.error (.transaction .zeroDestination), s) := by
      rw [exec_orFail, refused]
      rfl
    unfold build
    rw [exec_bind_ok _ (exec_wallet s), exec_bind_error _ stops]

variable {request : List Destination → TransferRequest}

/-- If the first of several requests is empty, no transaction is built. -/
theorem buildAll_of_empty {part : List Destination} (rest : List (List Destination))
    {excluded : List Nat} {s : Session σ} (asked : (request part).destinations = part)
    (none : Empty part) :
    (exec (buildAll S env request excluded (part :: rest)) s).1 =
      .error (.transaction .zeroDestination) := by
  have refused : (exec (build S env { request part with excluded }) s).1 =
      .error (.transaction .zeroDestination) :=
    build_eq_zeroDestination_iff.mpr (asked.symm ▸ none)
  unfold buildAll
  rw [exec_bind_error _ (Prod.ext refused rfl)]

/-- If none of several requests is empty, none is refused as such. -/
theorem buildAll_ne_zeroDestination {parts : List (List Destination)} {excluded : List Nat}
    {s : Session σ} (asked : ∀ ds, (request ds).destinations = ds)
    (some : ∀ part ∈ parts, ¬ Empty part) :
    Raises (· ≠ .transaction .zeroDestination) (buildAll S env request excluded parts) s := by
  refine raises_buildAll (fun part mem excluded t => ?_) excluded s
  rintro e u run rfl
  have none := build_eq_zeroDestination_iff.mp (congrArg Prod.fst run)
  exact some part mem (asked part ▸ none)

end Build

/-! ### Parts without an amount -/

/-- A part of an amount is empty exactly if it is not the last one and the amount has fewer units
than there are parts. -/
theorem partAmount_eq_zero_iff {amount : UInt64} (present : amount ≠ 0) {parts part : Nat}
    (below : part < parts) :
    partAmount amount parts part = 0 ↔ part + 1 ≠ parts ∧ amount.toNat < parts := by
  have fits := amount.toNat_le_maxWord
  have units : 0 < amount.toNat :=
    Nat.pos_of_ne_zero fun zero => present (UInt64.toNat_inj.mp zero)
  have small : amount.toNat / parts ≤ amount.toNat := Nat.div_le_self _ _
  have whole : amount.toNat / parts * parts ≤ amount.toNat := Nat.div_mul_le_self _ _
  unfold partAmount
  simp only []
  split
  · next last =>
    -- the last part carries the remainder
    have rest : amount.toNat - amount.toNat / parts * (parts - 1) ≠ 0 := by
      rw [Nat.mul_sub, Nat.mul_one]
      rcases Nat.eq_zero_or_pos (amount.toNat / parts) with none | some
      · rw [none]
        omega
      · omega
    simp [last, ofNat_ne_zero (by omega) rest]
  · next early =>
    have zero_iff : UInt64.ofNat (amount.toNat / parts) = 0 ↔ amount.toNat / parts = 0 :=
      ⟨fun zero => Decidable.byContradiction fun some => ofNat_ne_zero (by omega) some zero,
        fun none => by rw [none]; rfl⟩
    rw [zero_iff, Nat.div_eq_zero_iff]
    omega

namespace Attempts

open Build (Empty)

variable {destinations : List Destination} {request : List Destination → TransferRequest}
  {s : Session σ}

/-- An attempt with positive amounts is refused as an empty one exactly if some amount has fewer
units than there are parts. -/
theorem outcome_eq_zeroDestination_iff (asked : ∀ ds, (request ds).destinations = ds)
    (some : destinations ≠ []) (present : ∀ d ∈ destinations, d.amount ≠ 0) {parts : Nat}
    (positive : 1 ≤ parts) :
    outcome S env request destinations s parts = .error (.transaction .zeroDestination) ↔
      ∃ d ∈ destinations, d.amount.toNat < parts := by
  have exact_parts : max parts 1 = parts := by omega
  constructor
  · intro fails
    refine Decidable.byContradiction fun enough => ?_
    push Not at enough
    have filled : ∀ part ∈ spreadOver destinations parts, ¬ Empty part := by
      intro part mem
      unfold spreadOver at mem
      rw [exact_parts] at mem
      obtain ⟨n, below, rfl⟩ := List.mem_map.mp mem
      rintro (none | ⟨o, paid, zero⟩)
      · exact some (List.map_eq_nil_iff.mp none)
      · obtain ⟨d, here, rfl⟩ := List.mem_map.mp paid
        have short :=
          ((partAmount_eq_zero_iff (present d here) (List.mem_range.mp below)).mp zero).2
        exact absurd short (Nat.not_lt.mpr (enough d here))
    exact Build.buildAll_ne_zeroDestination asked filled _ _ (Prod.ext fails rfl) rfl
  · rintro ⟨d, here, short⟩
    have units : 0 < d.amount.toNat :=
      Nat.pos_of_ne_zero fun zero => present d here (UInt64.toNat_inj.mp zero)
    -- there are at least two parts, and the first one is empty
    obtain ⟨others, rfl⟩ : ∃ others, parts = others + 2 := ⟨parts - 2, by omega⟩
    have first : spreadOver destinations (others + 2) =
        (destinations.map fun d => { d with amount := partAmount d.amount (others + 2) 0 }) ::
          (spreadOver destinations (others + 2)).tail := by
      unfold spreadOver
      simp only []
      rw [exact_parts, List.range_succ_eq_map, List.map_cons, List.tail_cons]
    have zero : partAmount d.amount (others + 2) 0 = 0 :=
      (partAmount_eq_zero_iff (present d here) (by omega)).mpr ⟨by omega, short⟩
    show (exec (buildAll S env request [] (spreadOver destinations (others + 2))) _).1 = _
    rw [first]
    exact Build.buildAll_of_empty _ (asked _) (.inr ⟨_, List.mem_map_of_mem here, zero⟩)

/-- If all attempts are too big, the loop fails for that reason, or with the error that it was
given.
-/
theorem error_of_tooBig {attempts tried : Nat} (last : WalletError)
    (all : ∀ parts, tried < parts → parts ≤ tried + attempts →
      TooBig (outcome S env request destinations s parts)) :
    ∃ e, (exec (buildSplitFrom S env request destinations attempts (tried + 1) last)
        (after S env request destinations s tried)).1 = .error e ∧
      (e = last ∨ e.isTooBig = true) := by
  induction attempts generalizing tried last with
  | zero => exact ⟨last, rfl, .inl rfl⟩
  | succ attempts ih =>
    obtain ⟨e, fails, big⟩ := all (tried + 1) (by omega) (by omega)
    rw [exec_buildSplitFrom_of_tooBig fails big]
    -- what was tried last is now this attempt
    have later : ∀ parts, tried + 1 < parts → parts ≤ tried + 1 + attempts →
        TooBig (outcome S env request destinations s parts) :=
      fun parts above below => all parts (by omega) (by omega)
    obtain ⟨e', same, cause⟩ := ih e later
    refine ⟨e', same, .inr ?_⟩
    rcases cause with rfl | big'
    · exact big
    · exact big'

end Attempts

open Attempts in
/-- When a payment with positive amounts is refused as an empty one, for any wallet and whatever the
daemon and the source of random words answer: exactly if some amount has fewer units than there may
be attempts, and every attempt with at most as many parts as it has units is too big. The attempt
after those has an empty part, and fails with this error in place of going on. So no payment is
refused like that whose amounts all have as many units as there may be attempts. -/
theorem zeroDestination_of_buildSplit (S : Suite) {σ : Type} (env : Environment σ)
    {destinations : List Destination} (some : destinations ≠ [])
    (present : ∀ d ∈ destinations, d.amount ≠ 0) (mixin unlockTime fee : UInt64) (extra : Blob)
    (s : Session σ) :
    let config := s.wallet.config
    let request ds := TransferRequest.standard config ds mixin unlockTime fee extra
    let ends := outcome S env request destinations s
    (exec (buildSplit S env destinations mixin unlockTime fee extra) s).1 =
        .error (.transaction .zeroDestination) ↔
      ∃ d ∈ destinations, d.amount.toNat < config.maxSplitAttempts ∧
        ∀ parts, 1 ≤ parts → parts ≤ d.amount.toNat → TooBig (ends parts) := by
  intro config request ends
  have loop : (exec (buildSplit S env destinations mixin unlockTime fee extra) s).1 =
      (exec (buildSplitFrom S env request destinations config.maxSplitAttempts 1
        (.transaction (.notConstructed .noSplitAttempts))) s).1 := by
    rw [buildSplit, exec_bind_ok _ (exec_wallet s)]
  -- an attempt is refused for a zero share exactly if an amount is smaller than its parts
  have refused {parts : Nat} (positive : 1 ≤ parts) :
      ends parts = .error (.transaction .zeroDestination) ↔
        ∃ d ∈ destinations, d.amount.toNat < parts :=
    outcome_eq_zeroDestination_iff (fun _ => rfl) some present positive
  -- such a refusal is not about the size, so that the search ends there
  have not_tooBig {parts : Nat} (positive : 1 ≤ parts) {d : Destination} (here : d ∈ destinations)
      (short : d.amount.toNat < parts) : ¬ TooBig (ends parts) := by
    rintro ⟨e, fails, big⟩
    obtain rfl :=
      Except.error.inj (fails.symm.trans ((refused positive).mpr ⟨d, here, short⟩))
    cases big
  rw [loop]
  rcases cases_buildSplitFrom S env request destinations s config.maxSplitAttempts 0
    (.transaction (.notConstructed .noSplitAttempts)) with
    ⟨last, positive, below, same, fits, before⟩ | ⟨all, -⟩
  · -- the attempt that ends the search is the one with `last` parts
    constructor
    · intro fails
      obtain ⟨d, here, short⟩ := (refused positive).mp (same.symm.trans fails)
      exact ⟨d, here, by omega, fun parts one le => before parts one (by omega)⟩
    · rintro ⟨d, here, -, big⟩
      have most : last ≤ d.amount.toNat + 1 := by
        refine Nat.le_of_not_lt fun more => ?_
        exact not_tooBig (by omega) here (Nat.lt_succ_self _) (before _ (by omega) more)
      have least : ¬ last ≤ d.amount.toNat := fun less => fits (big last positive less)
      exact same.trans ((refused positive).mpr ⟨d, here, by omega⟩)
  · constructor
    -- all attempts were too big, and so is the error that comes out
    · intro fails
      obtain ⟨e, same, cause⟩ :=
        error_of_tooBig (.transaction (.notConstructed .noSplitAttempts)) all
      obtain rfl := Except.error.inj (same.symm.trans fails)
      rcases cause with other | big
      · cases other
      · cases big
    · rintro ⟨d, here, few, -⟩
      exact absurd (all (d.amount.toNat + 1) (by omega) (by omega))
        (not_tooBig (by omega) here (Nat.lt_succ_self _))

/-! ### One unit that does not fit into one transaction -/

namespace SingleUnit

open SmallSuite

/-- A wallet with an output of 16, whose transactions are all too big. -/
def wallet : Session Script where
  env := {}
  wallet := ⟨account, { spendableAge := 1, dustThreshold := 10, transactionSizeLimit := 100,
                        maxSplitAttempts := 2 },
    { chain := [.null, .null, .null], transfers := [Conserved.output 1 3 16] }⟩

/-- One unit for somebody else. -/
def payment : List Destination :=
  [⟨1, ⟨.ofPoint .small (11 : Nat), .ofPoint .small (13 : Nat)⟩⟩]

/-- The attempt with one part. -/
def first : Except WalletError (List PendingTransaction) :=
  Attempts.outcome .small Script.environment
    (fun ds => .standard wallet.wallet.config ds 0 0 5 []) payment wallet 1

end SingleUnit

open Attempts (TooBig) in
open SingleUnit in
/-- One unit is refused as an empty payment, since it does not fit into one transaction and has no
two parts. -/
theorem zeroDestination_of_buildSplit_small :
    payment ≠ [] ∧ (∀ d ∈ payment, d.amount ≠ 0) ∧ TooBig first ∧
      (exec (buildSplit .small Script.environment payment 0 0 5 []) wallet).1 =
        .error (.transaction .zeroDestination) := by
  have some : payment ≠ [] := by decide
  have present : ∀ d ∈ payment, d.amount ≠ 0 := by decide
  -- the first attempt is too big, and the second one has a zero share
  have fails : (match first with
    | .error e => e.isTooBig
    | .ok _ => false) = true := by decide +kernel
  have big : TooBig first := by
    rcases ends : first with e | ps
    · rw [ends] at fails
      exact ⟨e, rfl, fails⟩
    · rw [ends] at fails
      cases fails
  refine ⟨some, present, big, ?_⟩
  refine (zeroDestination_of_buildSplit .small Script.environment some present 0 0 5 []
    wallet).mpr ⟨_, List.mem_singleton_self _, by decide, ?_⟩
  intro parts positive le
  obtain rfl : parts = 1 := Nat.le_antisymm le positive
  exact big

open SingleUnit in
/-- So a payment of one unit, which is no empty one, is refused as if it were. -/
theorem unit_refused_as_empty :
    payment ≠ [] ∧ (∀ d ∈ payment, d.amount ≠ 0) ∧
      (match (exec (buildSplit .small Script.environment payment 0 0 5 []) wallet).1 with
      | .error e => some e
      | .ok _ => none) = some (.transaction .zeroDestination) := by
  decide +kernel

end RingWallet
