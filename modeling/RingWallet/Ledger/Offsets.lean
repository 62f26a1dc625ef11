import RingWallet.Saturating

/-!
# Ring offsets

An input stores the global indices of its ring as differences: the first index as it is, then the
distance of each index from the one before. `toRelative` and `toAbsolute` undo each other on sorted
lists that fit into a word.
-/

set_option autoImplicit false

namespace RingWallet.Offsets

/-- Distances from `previous` on. -/
def relativeFrom (previous : UInt64) : List UInt64 → List UInt64
  | [] => []
  | offset :: rest => offset.subSat previous :: relativeFrom offset rest

/-- Each index as the distance from the one before. -/
def toRelative (offsets : List UInt64) : List UInt64 := relativeFrom 0 offsets

/-- Running totals from `total` on. -/
def absoluteFrom (total : UInt64) : List UInt64 → List UInt64
  | [] => []
  | offset :: rest => total.addSat offset :: absoluteFrom (total.addSat offset) rest

/-- The indices that a list of distances stands for. -/
def toAbsolute (offsets : List UInt64) : List UInt64 := absoluteFrom 0 offsets

end RingWallet.Offsets
