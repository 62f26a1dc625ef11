/-!
# Progress of a refresh

Counters for one refresh, the lines that report them, and how often a line is due: when a thousand
blocks were added since the last one, or when it is asked for.
-/

set_option autoImplicit false

namespace RingWallet

/-- What a refresh has done so far. -/
structure Progress where
  startHeight : Nat
  highestHeight : Nat
  blocksAppended : Nat := 0
  /-- Blocks that were not scanned because they are older than the account. -/
  blocksSkipped : Nat := 0
  transactions : Nat := 0
  reorgs : Nat := 0
  batches : Nat := 0
  /-- The height of the last report. -/
  loggedHeight : Nat
deriving DecidableEq

namespace Progress

/-- The progress of a refresh that starts at a height. -/
def start (height : Nat) : Progress :=
  { startHeight := height, highestHeight := height, loggedHeight := height }

def recordBatch (p : Progress) : Progress := { p with batches := p.batches + 1 }

def recordBlock (p : Progress) (height : Nat) (scanned : Bool) : Progress :=
  { p with
    highestHeight := max p.highestHeight height
    blocksAppended := p.blocksAppended + 1
    blocksSkipped := if scanned then p.blocksSkipped else p.blocksSkipped + 1 }

def recordTransaction (p : Progress) : Progress := { p with transactions := p.transactions + 1 }

def recordReorg (p : Progress) (height : Nat) : Progress :=
  { p with
    reorgs := p.reorgs + 1
    highestHeight := height
    loggedHeight := min p.loggedHeight height }

/-- Whether a report is due. There is nothing to report before the first block. -/
def isDue (p : Progress) (force : Bool) : Bool :=
  (force || 1000 ≤ p.highestHeight - p.loggedHeight) && 0 < p.blocksAppended

/-- The line of a report. -/
def report (p : Progress) : String :=
  s!"Sync progress: {p.blocksAppended} blocks, {p.transactions} transactions processed up to " ++
    s!"height {p.highestHeight}"

/-- Reports if a report is due. -/
def log (p : Progress) (force : Bool) : Progress × Option String :=
  if p.isDue force then ({ p with loggedHeight := p.highestHeight }, some p.report) else (p, none)

/-- The line that sums up a refresh. -/
def summary (p : Progress) : String :=
  s!"Sync from {p.startHeight} to {p.highestHeight}: {p.blocksAppended} blocks " ++
    s!"({p.blocksSkipped} skipped), {p.transactions} transactions, {p.batches} batches" ++
    if p.reorgs = 0 then "" else s!" ({p.reorgs} reorgs)"

end Progress

end RingWallet
