import RingWallet.Address
import RingWallet.Saturating

/-!
# Destinations

Amounts and where they go, and two ways to spread them: over several transactions
(`spreadOver`), and over the outputs of one transaction (`SplitStrategy.split`). The second
keeps what is too small to be worth an output, the dust of the change, apart.
-/

set_option autoImplicit false

namespace RingWallet

/-- An amount and who gets it. -/
structure Destination where
  amount : UInt64
  address : Address
deriving DecidableEq, Inhabited

/-! ## Several transactions -/

/-- The amount that the part at position `part` of `parts` parts carries: equal pieces, and the
last one carries the remainder as well. -/
def partAmount (amount : UInt64) (parts part : Nat) : UInt64 :=
  let piece := amount.toNat / parts
  if part + 1 = parts then .ofNat (amount.toNat - piece * (parts - 1)) else .ofNat piece

/-- One list of destinations for each of `parts` transactions, at least one. -/
def spreadOver (destinations : List Destination) (parts : Nat) : List (List Destination) :=
  let parts := max parts 1
  (List.range parts).map fun part =>
    destinations.map fun d => { d with amount := partAmount d.amount parts part }

/-! ## Decimal pieces -/

/-- A piece of an amount. -/
inductive Piece where
  /-- A digit other than zero, times a power of ten. -/
  | chunk (amount : UInt64)
  /-- The sum of the low digits that stay within the threshold. -/
  | dust (amount : UInt64)
deriving DecidableEq

def Piece.amount : Piece → UInt64
  | chunk amount => amount
  | dust amount => amount

/-- The dust gathered so far, unless it was handed out before or is zero. -/
def dustPiece (handed : Bool) (dust : Nat) : List Piece :=
  if handed ∨ dust = 0 then [] else [.dust (.ofNat dust)]

/-- The pieces of `amount * order`, lowest digit first. Digits are gathered into the dust as long
as the sum stays within the threshold. -/
def piecesFrom (threshold : Nat) (amount order dust : Nat) (handed : Bool) : List Piece :=
  if amount = 0 then dustPiece handed dust
  else
    let chunk := amount % 10 * order
    if dust + chunk ≤ threshold then
      piecesFrom threshold (amount / 10) (order * 10) (dust + chunk) handed
    else
      dustPiece handed dust ++ (if chunk = 0 then [] else [.chunk (.ofNat chunk)])
        ++ piecesFrom threshold (amount / 10) (order * 10) dust (handed || dust ≠ 0)
termination_by amount

/-- The decimal pieces of an amount, lowest first. The dust comes right before the first chunk that
follows it. -/
def pieces (amount threshold : UInt64) : List Piece :=
  piecesFrom threshold.toNat amount.toNat 1 0 false

/-- The chunks among some pieces. -/
def chunks (ps : List Piece) : List UInt64 :=
  ps.filterMap fun
    | .chunk amount => some amount
    | .dust _ => none

/-- The dust among some pieces, and zero if there is none. -/
def dustOf (ps : List Piece) : UInt64 :=
  (ps.findSome? fun
    | .dust amount => some amount
    | .chunk _ => none).getD 0

/-! ## Outputs of one transaction -/

/-- The powers of ten that an amount may be rounded to: those up to ten times the threshold. -/
def roundingOrders (threshold : Nat) : List Nat :=
  ((List.range 19).map fun k => Nat.pow 10 (k + 1)).takeWhile (· ≤ min (threshold * 10) maxWord)

/-- The largest of these powers such that the remainder modulo it, and modulo all smaller ones,
stays within the threshold, and one if there is none. -/
def roundingOrder (amount threshold : Nat) : Nat :=
  ((roundingOrders threshold).takeWhile fun order => amount % order ≤ threshold).getLastD 1

/-- How amounts become outputs. -/
inductive SplitStrategy where
  /-- All amounts are taken apart into decimal pieces. -/
  | digits
  /-- Destinations stay as they are, and the change is rounded. -/
  | whole
deriving DecidableEq

namespace SplitStrategy

/-- The outputs for some destinations and the change, and the dust of the change. -/
def split (strategy : SplitStrategy) (destinations : List Destination) (change : Destination)
    (threshold : UInt64) : List Destination × UInt64 :=
  match strategy with
  | digits =>
    let paid := destinations.flatMap fun d =>
      (pieces d.amount threshold).map fun p => { d with amount := p.amount }
    let changePieces := pieces change.amount threshold
    (paid ++ (chunks changePieces).map fun amount => { change with amount }, dustOf changePieces)
  | whole =>
    let dust := change.amount.toNat % roundingOrder change.amount.toNat threshold.toNat
    let rounded := change.amount.toNat - dust
    let kept := if rounded = 0 then [] else [{ change with amount := .ofNat rounded }]
    (destinations ++ kept, .ofNat dust)

end SplitStrategy

/-- What becomes of the dust of the change. -/
structure DustPolicy where
  /-- Amounts up to this are dust. -/
  threshold : UInt64
  /-- Leave the dust to the fee. -/
  addToFee : Bool := true
  /-- Where it goes otherwise; if missing, to the wallet itself. -/
  address : Option Address := none
deriving DecidableEq

end RingWallet
