import RingWallet.Proofs.Wallet.Recorded

/-!
# The journal that the events keep

The events of a refresh can be read as a journal: a new block is entered at the end of the chain, a
cut takes the last ids and what was received at their heights away, and money received is entered
with its height, its transaction and its amount. `Journal.replay` reads events in this way and stops
at an entry that does not fit, such as a block at a height that is not the end of the chain.

`Sync.Narrated` lists the single steps of a refresh together with their events, and
`Sync.Narrated.pull` says that what survives these steps survives every refresh, however it ends. So
`replay_of_pull` can say that no step is told without being done, and none done without being told:
replayed on the state in which the batches began, the events give the blocks and the transfers with
which the refresh ended. Only an unknown id can be replaced without an event, so that the chain of
the journal may still have it as unknown.
-/

set_option autoImplicit false

namespace RingWallet

open Scan WalletM

/-- What a listener knows: the ids of the blocks, and what was received, each with its height, its
transaction and its amount. -/
structure Journal where
  chain : List Hash
  received : List (Nat × Hash × UInt64)

namespace Journal

/-- What is received with a transfer. -/
def receipt (t : Transfer) : Nat × Hash × UInt64 := (t.blockHeight, t.txHash, t.amount)

/-- What a listener would know that knows the whole history. -/
def ofHistory (h : History) : Journal where
  chain := h.chain
  received := h.transfers.map receipt

/-- Enters an event, if it fits. -/
def enter (j : Journal) : Event → Option Journal
  | .newBlock height id =>
    if height = j.chain.length then some { j with chain := j.chain ++ [id] } else none
  | .moneyReceived height txHash amount =>
    some { j with received := j.received ++ [(height, txHash, amount)] }
  | .reorg height detached =>
    if j.chain.length = height + detached then
      some ⟨j.chain.take height, j.received.filter fun entry => entry.1 < height⟩
    else none
  | .moneySpent _ _ _ | .skipTransaction _ _ | .refreshCompleted _ _ => some j

/-- Enters events one after the other. -/
def replay (j : Journal) (told : List Event) : Option Journal := told.foldlM enter j

/-- The journal agrees with a history, except that ids may have become known that it has as unknown.
-/
structure Matches (j : Journal) (h : History) : Prop where
  chain : History.Learned j.chain h.chain
  received : j.received = h.transfers.map receipt

variable {j j' : Journal} {h h' : History} {told : List Event}

/-- An event that is told later is entered after the others. -/
theorem replay_concat {e : Event} (before : j.replay told = some j') :
    j.replay (told ++ [e]) = j'.enter e := by
  unfold replay at before ⊢
  rw [List.foldlM_append, before]
  show [e].foldlM enter j' = _
  rw [List.foldlM_cons]
  exact bind_pure _

/-- The journal of a history agrees with it. -/
theorem matches_ofHistory (h : History) : (ofHistory h).Matches h :=
  ⟨.refl _, rfl⟩

namespace Matches

/-- The two chains have the same length. -/
theorem length_chain (same : j.Matches h) : j.chain.length = h.height := same.chain.length_eq.symm

/-- Marks do not matter. -/
theorem sameOutputs (same : j.Matches h) (outputs : History.SameOutputs h h') : j.Matches h' where
  chain := by
    rw [outputs.chain]
    exact same.chain
  received := by
    have blind := congrArg (List.map receipt) outputs.transfers
    rw [List.map_map, List.map_map] at blind
    exact same.received.trans blind.symm

/-- A new block stands at the end of both chains. -/
theorem newBlock (same : j.Matches h) (id : Hash) :
    ∃ j', j.enter (.newBlock h.height id) = some j' ∧
      j'.Matches { h with chain := h.chain ++ [id] } := by
  exact ⟨{ j with chain := j.chain ++ [id] }, if_pos same.length_chain.symm, same.chain.concat id,
    same.received⟩

/-- A recorded output is entered as a receipt. -/
theorem moneyReceived (same : j.Matches h) (t : Transfer) (image : Option KeyImage) :
    ∃ j', j.enter (.moneyReceived t.blockHeight t.txHash t.amount) = some j' ∧
      j'.Matches (h.record t image) := by
  refine ⟨_, rfl, same.chain, ?_⟩
  show j.received ++ [receipt t] = (h.transfers ++ [t]).map receipt
  rw [same.received, List.map_append]
  rfl

/-- A cut takes the same blocks from both chains, and from the transfers, which are ordered, those
that were received there. -/
theorem reorg (same : j.Matches h) (ordered : h.Ordered) {n : Nat} (below : n < h.height) :
    ∃ j', j.enter (.reorg n (h.height - n)) = some j' ∧ j'.Matches (h.detach n) := by
  -- the cut is told with its number of blocks, which has to fit the journal
  have length : j.chain.length = n + (h.height - n) := by
    have := same.length_chain
    omega
  refine ⟨_, if_pos length, List.forall₂_take n same.chain, ?_⟩
  show j.received.filter _ = (h.detach n).transfers.map receipt
  rw [same.received, List.filter_map, History.transfers_detach_eq_filter ordered.sorted]
  rfl

/-- An unknown id that becomes known is not told. -/
theorem adopted (same : j.Matches h) {n : Nat} (unknown : h.chain[n]? = some .null)
    (known : Hash) : j.Matches { h with chain := h.chain.set n known } :=
  ⟨same.chain.set unknown known, same.received⟩

end Matches

end Journal

/-! ### The steps that are told -/

namespace Sync

/-- A property of a history and of what was told so far that the single steps of a refresh keep,
each together with its event. -/
structure Narrated (P : History → List Event → Prop) : Prop where
  forget : ∀ {h es} txHash, P h es → P (h.forget txHash) es
  skipped : ∀ {h es} txHash, P h es → P h (es ++ [.skipTransaction h.height txHash])
  record : ∀ {h es} (t : Transfer) image, t.blockHeight = h.height → P h es →
    P (h.record t image) (es ++ [.moneyReceived t.blockHeight t.txHash t.amount])
  spend : ∀ {h es} image txHash amount, P h es →
    P (h.spend image) (es ++ [.moneySpent h.height txHash amount])
  pay : ∀ {h es} id payment, P h es → P (h.addPayment id payment) es
  append : ∀ {h es} id, P h es →
    P { h with chain := h.chain ++ [id] } (es ++ [.newBlock h.height id])
  adopt : ∀ {h es n} id, h.chain[n]? = some .null → P h es →
    P { h with chain := h.chain.set n id } es
  cut : ∀ {h es n}, n < h.height → P h es → P (h.detach n) (es ++ [.reorg n (h.height - n)])
  completed : ∀ {h es} fetched, P h es → P h (es ++ [.refreshCompleted fetched h.height])

namespace Narrated

variable {S : Suite} {σ : Type} {env : Environment σ} {P : History → List Event → Prop}
  (narrated : Narrated P) (target : Option Hash)

include narrated

/-- While a block is scanned the chain stays as it is. -/
theorem stepwise (height : Nat) :
    Stepwise env height fun s : Session σ => P s.history s.events ∧ s.history.height = height where
  env _ _ _ hs := hs
  forget _ txHash hs := ⟨narrated.forget txHash hs.1, hs.2⟩
  skipped _ txHash hs := ⟨hs.2 ▸ narrated.skipped txHash hs.1, hs.2⟩
  record s t image at_height hs := by
    -- the output is recorded at the height of the chain, which is what the scan passes on
    subst at_height
    exact ⟨narrated.record t image hs.2.symm hs.1, hs.2⟩
  spend s image txHash amount hs := by
    have chain := (History.sameOutputs_spend s.history image).chain
    exact ⟨hs.2 ▸ narrated.spend image txHash amount hs.1, (congrArg List.length chain).trans hs.2⟩
  pay s id payment hs := by
    have chain := (History.sameOutputs_addPayment s.history id payment).chain
    exact ⟨narrated.pay id payment hs.1, (congrArg List.length chain).trans hs.2⟩

/-- A block that is added keeps the property, whether its scan succeeds or not. -/
theorem addBlock (b : ParsedBlock) {s : Session σ} (hs : P s.history s.events) :
    P (exec (addBlock S env b s.history.height target) s).2.history
      (exec (addBlock S env b s.history.height target) s).2.events := by
  have scan : P (scanBlock S env b s.history.height s).2.history
        (scanBlock S env b s.history.height s).2.events ∧
      (scanBlock S env b s.history.height s).2.history.height = s.history.height :=
    -- the summary is no part of the history
    keeps_scanBlock (fun txHash tx => (narrated.stepwise _).transaction S env tx txHash)
      (fun _ _ _ _ same => same) b ⟨hs, rfl⟩
  rw [exec_addBlock]
  rcases run : scanBlock S env b s.history.height s with ⟨e | ⟨⟩, t⟩
  · rw [run] at scan
    exact scan.1
  · rw [run] at scan
    -- the block is told at the height at which it was scanned, which is still the last one
    obtain ⟨before, same⟩ := scan
    have entered := narrated.append b.id before
    rw [same] at entered
    exact entered

/-- A batch keeps the property. -/
theorem pullBatch (startHeight : Nat) :
    Keeps (fun s : Session σ => P s.history s.events)
      (Sync.pullBatch S env startHeight target) := by
  have placed (b : ParsedBlock) (height : Nat) (first : Bool) :
      Keeps (fun s : Session σ => P s.history s.events)
        (placeBlock S env b height first target) :=
    keeps_placeBlock (fun _ _ unknown hs => by exact narrated.adopt b.id unknown hs)
      (fun _ _ below hs => by exact narrated.cut below hs)
      (fun _ hs => narrated.addBlock target b hs) height first
  exact keeps_pullBatch (fun _ _ _ hs => hs) (fun _ _ _ _ _ _ b _ => placed b) startHeight

/-- The batches of a refresh keep the property. -/
theorem pullLoop (start : RefreshStart) (rounds : Nat) (first : Bool) (tries : Nat)
    (delay : Delay) : Keeps (fun s : Session σ => P s.history s.events)
      (Sync.pullLoop S env start target rounds first tries delay) :=
  keeps_pullLoop (fun _ _ _ _ hs => hs) (narrated.pullBatch target) start rounds first tries delay

/-- What a refresh tells after its batches. -/
theorem ofBatches {start : RefreshStart} {s : Session σ} {p : Except WalletError Unit × Session σ}
    (batches : exec (Sync.pullLoop S env start target env.maxRounds true 0
      s.wallet.config.retry.firstDelay) (started start s) = p) (kept : P p.2.history p.2.events) :
    P (exec (Sync.pull S env start target) s).2.history
      (exec (Sync.pull S env start target) s).2.events := by
  rw [exec_pull, batches]
  rcases p with ⟨e | ⟨⟩, t⟩
  · exact kept
  · exact narrated.completed _ kept

/-- However a refresh ends, what its single steps keep holds of the history and what was told. -/
theorem pull (start : RefreshStart) {s : Session σ}
    (begun : P (started start s).history s.events) :
    P (exec (Sync.pull S env start target) s).2.history
      (exec (Sync.pull S env start target) s).2.events :=
  narrated.ofBatches target rfl (narrated.pullLoop target start _ _ _ _ (started start s) begun)

end Narrated

end Sync

/-! ### The order of the outputs in every wallet -/

namespace History

/-- The single steps of a refresh keep the outputs in order. -/
theorem narrated_ordered : Sync.Narrated fun h _ => h.Ordered where
  forget txHash ordered := ordered.sameOutputs (sameOutputs_forget _ txHash)
  skipped _ ordered := ordered
  record _ image at_end ordered := ordered.record image at_end
  spend image _ _ ordered := ordered.sameOutputs (sameOutputs_spend _ image)
  pay id payment ordered := ordered.sameOutputs (sameOutputs_addPayment _ id payment)
  append _ ordered := ordered.withChain (by simp [height])
  adopt _ _ ordered := ordered.withChain (by simp [height])
  cut _ ordered := ordered.detach _
  completed _ ordered := ordered

end History

variable {S : Suite} {account : Account} {σ : Type}

/-- The outputs stay ordered when a refresh begins. -/
theorem ordered_started (start : RefreshStart) {s : Session σ} (ordered : s.history.Ordered) :
    (Sync.started start s).history.Ordered := by
  cases start with
  | fixed height => exact ordered.assumeScanned height
  | localChain => exact ordered

/-- The outputs of every wallet are in order. -/
theorem ordered_of_reached {s : Session σ} (reached : s.Reached S account) : s.history.Ordered := by
  induction reached with
  | new created =>
    obtain ⟨chain, -, new⟩ := eq_of_create created
    rw [Session.history, new]
    -- a new wallet has neither blocks nor outputs
    exact ⟨.nil, by simp⟩
  | idle _ same ih =>
    rw [Session.history, same]
    exact ih
  | refresh _ env start target ih =>
    exact History.narrated_ordered.pull target start (ordered_started start ih)
  -- sending marks outputs as spent and leaves their heights alone
  | @send s _ env p ih =>
    rcases exec_send env p s with same | ⟨now, sent⟩
    · rw [same]
      exact ih
    · rw [sent]
      exact ih.sameOutputs (History.sameOutputs_markSent s.history p now).1
  | detach _ height ih => exact ih.detach height
  | assumeScanned _ height ih => exact ih.assumeScanned height

/-! ### Refreshes -/

namespace Journal

/-- The history is in order, and what was told since `before` leads to it. -/
structure Follows (begun : Journal) (before : List Event) (h : History) (es : List Event) :
    Prop where
  ordered : h.Ordered
  told : ∃ told j, es = before ++ told ∧ begun.replay told = some j ∧ j.Matches h

variable {begun : Journal} {before es : List Event} {h h' : History}

/-- A step that is told. -/
theorem Follows.entered {e : Event} (follows : begun.Follows before h es) (ordered : h'.Ordered)
    (enter : ∀ j : Journal, j.Matches h → ∃ j', j.enter e = some j' ∧ j'.Matches h') :
    begun.Follows before h' (es ++ [e]) := by
  obtain ⟨told, j, rfl, replayed, same⟩ := follows.told
  obtain ⟨j', entered, same'⟩ := enter j same
  exact ⟨ordered, told ++ [e], j', List.append_assoc _ _ _,
    (replay_concat replayed).trans entered, same'⟩

/-- A step that is not told. -/
theorem Follows.unnoticed (follows : begun.Follows before h es) (ordered : h'.Ordered)
    (same : ∀ j : Journal, j.Matches h → j.Matches h') : begun.Follows before h' es := by
  obtain ⟨told, j, rfl, replayed, matched⟩ := follows.told
  exact ⟨ordered, told, j, rfl, replayed, same j matched⟩

/-- The single steps of a refresh are told as they are done. -/
theorem narrated_follows (begun : Journal) (before : List Event) :
    Sync.Narrated (begun.Follows before) where
  -- settling an unconfirmed transaction tells nothing, so the journal only has to survive the
  -- change
  forget txHash follows :=
    have same := History.sameOutputs_forget _ txHash
    follows.unnoticed (follows.ordered.sameOutputs same) fun _ known => known.sameOutputs same
  skipped _ follows := follows.entered follows.ordered fun j known => ⟨j, rfl, known⟩
  record t image at_end follows :=
    follows.entered (follows.ordered.record image at_end) fun _ known =>
      known.moneyReceived t image
  spend image _ _ follows :=
    have same := History.sameOutputs_spend _ image
    follows.entered (follows.ordered.sameOutputs same) fun j known =>
      ⟨j, rfl, known.sameOutputs same⟩
  pay id payment follows :=
    have same := History.sameOutputs_addPayment _ id payment
    follows.unnoticed (follows.ordered.sameOutputs same) fun _ known => known.sameOutputs same
  append id follows :=
    follows.entered (follows.ordered.append id) fun _ known => known.newBlock id
  adopt id unknown follows :=
    follows.unnoticed (follows.ordered.setId _ id) fun _ known => known.adopted unknown id
  -- a cut keeps the events below it, since the transfers are ordered by height
  cut below follows :=
    follows.entered (follows.ordered.detach _) fun _ known => known.reorg follows.ordered below
  completed _ follows := follows.entered follows.ordered fun j known => ⟨j, rfl, known⟩

end Journal

/-- However a refresh of any wallet ends, what it told is a journal that leads from where its
batches began to where it ended. -/
theorem replay_of_pull (env : Environment σ) (start : RefreshStart) (target : Option Hash)
    {s : Session σ} (reached : s.Reached S account) :
    let ended := (exec (Sync.pull S env start target) s).2
    ∃ told j, ended.events = s.events ++ told ∧
      (Journal.ofHistory (Sync.started start s).history).replay told = some j ∧
        j.Matches ended.history := by
  have ordered := ordered_started start (ordered_of_reached reached)
  exact ((Journal.narrated_follows _ s.events).pull target start
    ⟨ordered, [], _, (List.append_nil _).symm, rfl, Journal.matches_ofHistory _⟩).told

/-- A new wallet that receives a reward. -/
theorem replay_of_pull_funding :
    let s := Script.opened {} ⟨[Script.batch 0 SmallSuite.funding], [Script.indicesOf [0]]⟩
    Session.Reached .small SmallSuite.account s ∧
      let ended := (exec (Sync.pull .small Script.environment (.fixed 0) none) s).2
      ∃ told j, ended.events = s.events ++ told ∧
        (Journal.ofHistory (Sync.started (.fixed 0) s).history).replay told = some j ∧
          j.Matches ended.history := by
  have created : Wallet.create SmallSuite.account {} = .ok (Script.opened {}
      ⟨[Script.batch 0 SmallSuite.funding], [Script.indicesOf [0]]⟩).wallet := rfl
  exact ⟨.new created, replay_of_pull Script.environment (.fixed 0) none (.new created)⟩

end RingWallet
