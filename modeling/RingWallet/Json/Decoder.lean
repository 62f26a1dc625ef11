import RingWallet.Json.Parser

/-!
# Decoding JSON values

A `Decoder` turns a value into a value of a domain type. Of several faults the one that comes first
in the text is reported, and missing fields only once all entries of their object are decoded, in
the order of the fields. `Fields` describes the fields of a record: a record is written as an
object, whose unknown entries are skipped and whose known ones may not be repeated, or as an array
of the fields in order.
-/

set_option autoImplicit false

namespace RingWallet

/-- Why a text or value cannot be decoded. -/
inductive JsonError where
  /-- The text is no JSON, or a value has the wrong form. -/
  | malformed
  | missingField (name : String)
deriving DecidableEq

/-- The wording of the error. -/
def JsonError.message : JsonError → String
  | .malformed => "<json>"
  | .missingField name => s!"missing field `{name}`"

namespace Json

/-- Reads values of a type. -/
abbrev Decoder (α : Type) := Json → Except JsonError α

namespace Decoder

variable {α β : Type}

/-- Any value, as it is. -/
def any : Decoder Json := .ok

def string : Decoder String
  | .string text => .ok text
  | _ => .error .malformed

/-- An integer below `bound`, spelled without sign, point and exponent. -/
def natBelow (bound : Nat) : Decoder Nat
  | .number literal =>
    if literal.toList.all Char.isDigit ∧ ofDigits literal.toList < bound then
      .ok (ofDigits literal.toList)
    else .error .malformed
  | _ => .error .malformed

/-- An integer that fits a 64-bit word, as a number. -/
def nat : Decoder Nat := natBelow UInt64.size

/-- A 64-bit word. -/
def word : Decoder UInt64 := fun value => (nat value).map UInt64.ofNat

/-- A value that may be null. -/
def option (d : Decoder α) : Decoder (Option α)
  | .null => .ok none
  | value => (d value).map some

/-- An array. -/
def list (d : Decoder α) : Decoder (List α)
  | .array items => items.mapM d
  | _ => .error .malformed

end Decoder

/-- The fields of a record, and how to put them together. -/
structure Fields (α : Type) where
  /-- The name of each field, with a test of its value. -/
  checks : List (String × Decoder Unit)
  /-- The record, from the values of the fields that are present. -/
  build : (String → Option Json) → Except JsonError α
  /-- The record, from values in the order of the fields; those left over are returned. -/
  positional : List Json → Except JsonError (α × List Json)

namespace Fields

variable {α β : Type}

/-- No field. -/
protected def pure (a : α) : Fields α where
  checks := []
  build _ := .ok a
  positional items := .ok (a, items)

/-- The fields of two parts of a record, one part after the other. -/
protected def seq (f : Fields (α → β)) (x : Unit → Fields α) : Fields β where
  checks := f.checks ++ (x ()).checks
  build values := do
    let g ← f.build values
    let a ← (x ()).build values
    return g a
  positional items := do
    let (g, items) ← f.positional items
    let (a, items) ← (x ()).positional items
    return (g a, items)

instance : Applicative Fields where
  pure := Fields.pure
  seq := Fields.seq

/-- A field; `absent` says what it stands for if it is missing in an object, and `short` if the
array ends before it. -/
def field (name : String) (d : Decoder α) (absent short : Except JsonError α) : Fields α where
  checks := [(name, fun value => (d value).map fun _ => ())]
  build values := ((values name).map d).getD absent
  positional
    | [] => short.map (·, [])
    | value :: rest => (d value).map (·, rest)

/-- A field that has to be present. -/
def required (name : String) (d : Decoder α) : Fields α :=
  field name d (.error (.missingField name)) (.error .malformed)

/-- A field that may be missing or null in an object. -/
def optional (name : String) (d : Decoder α) : Fields (Option α) :=
  field name d.option (.ok none) (.error .malformed)

/-- A field that has a default value. -/
def withDefault (name : String) (d : Decoder α) (value : α) : Fields α :=
  field name d (.ok value) (.ok value)

/-- Decodes the known entries and skips the others, in order; `seen` are the known keys that came
before. -/
def checkEntries (f : Fields α) (seen : List String) :
    List (String × Json) → Except JsonError Unit
  | [] => .ok ()
  | (key, value) :: rest =>
    match f.checks.lookup key with
    | some check =>
      if key ∈ seen then .error .malformed
      else do
        check value
        checkEntries f (key :: seen) rest
    | none => if value.isSkippable then checkEntries f seen rest else .error .malformed

/-- A record from the entries of an object. -/
def ofEntries (f : Fields α) (entries : List (String × Json)) : Except JsonError α := do
  f.checkEntries [] entries
  f.build fun name => entries.lookup name

/-- A record from the items of an array. -/
def ofItems (f : Fields α) (items : List Json) : Except JsonError α :=
  match f.positional items with
  | .ok (a, []) => .ok a
  | .ok (_, _ :: _) => .error .malformed
  | .error e => .error e

/-- A record. -/
def decoder (f : Fields α) : Decoder α
  | .object entries => f.ofEntries entries
  | .array items => f.ofItems items
  | _ => .error .malformed

/-- A record with a part whose fields stand among its own. The own fields are decoded first, and it
cannot be written as an array. -/
def decoderWith (f : Fields (β → α)) (part : Fields β) : Decoder α
  | .object entries => do
    let g ← f.ofEntries entries
    let b ← part.ofEntries entries
    return g b
  | _ => .error .malformed

end Fields

/-- Reads a text and decodes it; nothing may follow the value. -/
def decodeText {α : Type} (d : Decoder α) (text : String) : Except JsonError α := do
  let (value, rest) := read text
  let a ← d value
  match rest with
  | some rest => if skipBlanks rest = [] then return a else throw .malformed
  | none => throw .malformed

end Json

end RingWallet
