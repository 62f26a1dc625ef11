import RingWallet.Numeral

/-!
# JSON values

A value as it stands in a text: objects keep their entries in the order of the text, repeated keys
included, and numbers keep their spelling. A text that is no JSON still has a value, which ends in
`unreadable` where reading stopped, so that a decoder can say what was wrong first.

`Json.compact` and `Json.pretty` write a value. `Json.canonical` sorts the entries of all objects
and keeps the last of those with the same key.
-/

set_option autoImplicit false

namespace RingWallet

/-- Why a part of a text is no value. -/
inductive JsonFault where
  /-- A string whose escapes spell no Unicode text. -/
  | string
  /-- A key whose escapes spell no Unicode text. -/
  | key
  /-- Anything else; nothing after it is read. -/
  | grammar
deriving DecidableEq

inductive Json where
  | null
  | bool (value : Bool)
  /-- A number, as it is spelled. -/
  | number (literal : String)
  | string (text : String)
  | array (items : List Json)
  | object (entries : List (String × Json))
  /-- Text that is no value. A faulty key is an entry of its own, with an empty key, and its value
  is the next one. -/
  | unreadable (fault : JsonFault)
deriving Inhabited

namespace Json

def ofNat (n : Nat) : Json := number (toString n)

def ofInt (n : Int) : Json := number (toString n)

def ofWord (n : UInt64) : Json := ofNat n.toNat

/-- A value that may be missing, written as null. -/
def ofOption {α : Type} (f : α → Json) : Option α → Json
  | none => null
  | some a => f a

/-! ## Properties of all parts of a value -/

mutual

/-- Whether a value can be skipped, which takes no more than to know where each of its parts
ends. -/
def isSkippable : Json → Bool
  | array items => areSkippable items
  | object entries => entriesAreSkippable entries
  | unreadable fault => fault = .string
  | _ => true

/-- Whether every item can be skipped. -/
def areSkippable : List Json → Bool
  | [] => true
  | item :: rest => item.isSkippable && areSkippable rest

/-- Whether every entry can be skipped, faulty keys included. -/
def entriesAreSkippable : List (String × Json) → Bool
  | [] => true
  | (_, unreadable .key) :: rest => entriesAreSkippable rest
  | (_, value) :: rest => value.isSkippable && entriesAreSkippable rest

end

mutual

/-- Whether every part of a value satisfies a condition on its own, and arrays and objects are
nested at most `depth` deep. -/
def allWithin (ok : Json → Bool) : (depth : Nat) → Json → Bool
  | 0, array _ => false
  | depth + 1, array items => itemsWithin ok depth items
  | 0, object _ => false
  | depth + 1, object entries => entriesWithin ok depth entries
  | _, value => ok value

/-- `allWithin` for every item. -/
def itemsWithin (ok : Json → Bool) (depth : Nat) : List Json → Bool
  | [] => true
  | item :: rest => item.allWithin ok depth && itemsWithin ok depth rest

/-- `allWithin` for every entry. -/
def entriesWithin (ok : Json → Bool) (depth : Nat) : List (String × Json) → Bool
  | [] => true
  | (_, value) :: rest => value.allWithin ok depth && entriesWithin ok depth rest

end

/-! ## Canonical order -/

/-- Adds an entry to entries sorted by their keys, in place of one with the same key. -/
def insertEntry (key : String) (value : Json) : List (String × Json) → List (String × Json)
  | [] => [(key, value)]
  | (k, v) :: rest =>
    if key < k then (key, value) :: (k, v) :: rest
    else if key = k then (key, value) :: rest
    else (k, v) :: insertEntry key value rest

mutual

/-- The value with the entries of all objects sorted by their keys; of entries with the same key
the last one stays. -/
def canonical : Json → Json
  | array items => array (canonicalItems items)
  | object entries => object (canonicalEntries [] entries)
  | value => value

/-- `canonical` for every item. -/
def canonicalItems : List Json → List Json
  | [] => []
  | item :: rest => item.canonical :: canonicalItems rest

/-- Adds entries to sorted ones. -/
def canonicalEntries (sorted : List (String × Json)) : List (String × Json) → List (String × Json)
  | [] => sorted
  | (key, value) :: rest => canonicalEntries (insertEntry key value.canonical sorted) rest

end

/-! ## Writing -/

/-- A character inside a string. -/
def escaped (c : Char) : List Char :=
  if c = '"' then ['\\', '"']
  else if c = '\\' then ['\\', '\\']
  else if c = '\n' then ['\\', 'n']
  else if c = '\r' then ['\\', 'r']
  else if c = '\t' then ['\\', 't']
  else if c.toNat = 8 then ['\\', 'b']
  else if c.toNat = 12 then ['\\', 'f']
  else if c.toNat < 32 then '\\' :: 'u' :: paddedDigits 16 4 c.toNat
  else [c]

/-- A string with its quotes. -/
def quoted (text : String) : String :=
  "\"" ++ String.ofList (text.toList.flatMap escaped) ++ "\""

/-- Items between brackets, each followed by what stands between it and the next. -/
def enclosed (opening separator closing : String) (items : List String) : String :=
  opening ++ String.intercalate separator items ++ closing

mutual

/-- The text of a value on one line, without blanks. -/
def compact : Json → String
  | null => "null"
  | bool true => "true"
  | bool false => "false"
  | number literal => literal
  | string text => quoted text
  | array items => enclosed "[" "," "]" (compactItems items)
  | object entries => enclosed "\x7b" "," "\x7d" (compactEntries entries)
  | unreadable _ => "null"

/-- The texts of the items. -/
def compactItems : List Json → List String
  | [] => []
  | item :: rest => item.compact :: compactItems rest

/-- The texts of the entries. -/
def compactEntries : List (String × Json) → List String
  | [] => []
  | (key, value) :: rest => (quoted key ++ ":" ++ value.compact) :: compactEntries rest

end

mutual

/-- The text of a value with one line for each item or entry, each level two blanks further in. -/
def prettyFrom (margin : String) : Json → String
  | array (item :: rest) =>
    let inner := margin ++ "  "
    enclosed ("[" ++ inner) ("," ++ inner) (margin ++ "]") (prettyItems inner (item :: rest))
  | object (entry :: rest) =>
    let inner := margin ++ "  "
    enclosed ("\x7b" ++ inner) ("," ++ inner) (margin ++ "\x7d")
      (prettyEntries inner (entry :: rest))
  | value => value.compact

/-- The texts of the items. -/
def prettyItems (margin : String) : List Json → List String
  | [] => []
  | item :: rest => item.prettyFrom margin :: prettyItems margin rest

/-- The texts of the entries. -/
def prettyEntries (margin : String) : List (String × Json) → List String
  | [] => []
  | (key, value) :: rest =>
    (quoted key ++ ": " ++ value.prettyFrom margin) :: prettyEntries margin rest

end

/-- The text of a value over several lines. -/
def pretty (value : Json) : String := value.prettyFrom "\n"

end Json

end RingWallet
