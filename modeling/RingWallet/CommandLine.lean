import RingWallet.Rpc.Service
import RingWallet.Wallet.Sandbox

/-!
# Serving requests line by line

The command line program reads one request a line and writes one answer a line. Blank lines are
passed over, and a line that is no UTF-8 text ends the run, as does a request that has no answer.
-/

set_option autoImplicit false

namespace RingWallet.CommandLine

/-- Whether a character is white space in the sense of Unicode. -/
def isSpace (c : Char) : Bool :=
  let n := c.toNat
  (9 ≤ n && n ≤ 13) || n = 0x20 || n = 0x85 || n = 0xa0 || n = 0x1680
    || (0x2000 ≤ n && n ≤ 0x200a) || n = 0x2028 || n = 0x2029 || n = 0x202f || n = 0x205f
    || n = 0x3000

/-- A line without its end: a line feed, and a carriage return before it. -/
def trimEnd (line : Blob) : Blob :=
  match line.reverse with
  | 10 :: 13 :: rest => rest.reverse
  | 10 :: rest => rest.reverse
  | _ => line

/-- What a line asks for. -/
inductive Line where
  | request (text : String)
  | blank
  /-- The line is no text. -/
  | undecodable
deriving DecidableEq

/-- Reads a line, given with its end. -/
def Line.ofBytes (bytes : Blob) : Line :=
  match String.fromUTF8? ⟨(trimEnd bytes).toArray⟩ with
  | none => undecodable
  | some text => if text.toList.all isSpace then blank else request text

/-- Bytes cut into lines, each with its end. -/
def lines : Blob → List Blob
  | [] => []
  | b :: rest =>
    if b = 10 then [b] :: lines rest
    else
      match lines rest with
      | [] => [[b]]
      | line :: more => (b :: line) :: more

/-- The answers to some lines. -/
def serve (S : Suite) {σ : Type} (env : Environment σ) (config : Config) :
    List Blob → StateM σ (List Json)
  | [] => return []
  | line :: rest =>
    match Line.ofBytes line with
    | .undecodable => return []
    | .blank => serve S env config rest
    | .request text => do
      match ← Rpc.handleText S env config text with
      | some answer => return answer :: (← serve S env config rest)
      | none => return []

/-- An environment without a daemon. -/
def offline : Environment Sandbox :=
  { Sandbox.environment with
    getBlocks := fun _ => return .error (.transport "no daemon")
    getIndices := fun _ => return .error (.transport "no daemon")
    getDecoys := fun _ => return .error (.transport "no daemon")
    send := fun _ => return .error (.transport "no daemon")
    getHeight := return .error (.transport "no daemon") }

end RingWallet.CommandLine
