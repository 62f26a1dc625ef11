import RingWallet.Wallet.Error

/-!
# Paths

A path is a text of names with slashes between them, and says how to walk from the root of a tree:
into a directory, back out of it (`..`), or nowhere (`.`). Empty names do not count. A text is no
path if it holds a null character or is too long; a name can be too long as well, which is found out
only when the walk gets there.
-/

set_option autoImplicit false

namespace RingWallet

/-- What one name of a path says. -/
inductive PathStep where
  | stay
  | up
  | enter (name : String)
deriving DecidableEq

/-- The walk that a path stands for. -/
structure Path where
  steps : List PathStep
  /-- Only a directory can stand under a path that ends in a slash. -/
  endsInSlash : Bool

/-- The step that a name stands for. -/
def PathStep.ofName (name : String) : PathStep :=
  if name = "." then .stay else if name = ".." then .up else .enter name

namespace Path

/-- The longest name, in bytes. -/
def maxNameBytes : Nat := 255

/-- The longest text of a path, in bytes. -/
def maxBytes : Nat := 4095

def parse (text : String) : Except FileError Path :=
  if '\x00' ∈ text.toList then .error .nullInName
  else if maxBytes < text.utf8ByteSize then .error .nameTooLong
  else .ok {
    steps := ((text.toList.splitOn '/').filter (· ≠ [])).map fun name => .ofName (.ofList name)
    endsInSlash := text.toList.getLast? = some '/' }

/-- The text of a path that is given from a directory; one that starts with a slash is given from
the root. -/
def join (folder text : String) : String :=
  if text.toList.head? = some '/' then text else folder ++ "/" ++ text

/-- The part of a path along which directories can be made. A path that ends in `.` does not name
the directory to make, so neither the dots nor the name before them count. -/
def named (p : Path) : List PathStep :=
  match p.steps.reverse with
  | .stay :: rest => ((rest.dropWhile (· = .stay)).drop 1).reverse
  | _ => p.steps

end Path

end RingWallet
