import RingWallet.Json.Basic
import RingWallet.Json.Number

/-!
# Reading JSON text

`Json.read` reads the value that a text starts with; a text that is malformed somewhere is read up
to there. `Json.ofText?` reads a whole text as a value of its own: nothing may follow it, all of it
has to be readable, it may not be nested too deeply, and a number may not be too large for a
double.
-/

set_option autoImplicit false

namespace RingWallet.Json

/-- A value and the characters after it, if reading did not stop inside the value. -/
abbrev Reading (α : Type) := α × Option (List Char)

def isBlank (c : Char) : Bool := c = ' ' || c = '\n' || c = '\r' || c = '\t'

def skipBlanks (input : List Char) : List Char := input.dropWhile isBlank

/-! ## Strings -/

/-- The value of a hexadecimal digit. -/
def hexValue? (c : Char) : Option Nat :=
  if c.isDigit then some (c.toNat - 48)
  else if 'a' ≤ c ∧ c ≤ 'f' then some (c.toNat - 87)
  else if 'A' ≤ c ∧ c ≤ 'F' then some (c.toNat - 55)
  else none

/-- The character that a one-letter escape stands for. -/
def shortEscape? (c : Char) : Option Nat :=
  if c = '"' ∨ c = '\\' ∨ c = '/' then some c.toNat
  else if c = 'b' then some 8
  else if c = 'f' then some 12
  else if c = 'n' then some 10
  else if c = 'r' then some 13
  else if c = 't' then some 9
  else none

/-- The codes of a string after its opening quote, up to the closing one, and what follows it.
Characters give their code points and escapes UTF-16 units. -/
def codes : List Char → Option (List Nat × List Char)
  | '"' :: rest => some ([], rest)
  | '\\' :: 'u' :: a :: b :: c :: d :: rest => do
    let unit := ((((← hexValue? a) * 16 + (← hexValue? b)) * 16) + (← hexValue? c)) * 16
      + (← hexValue? d)
    let (units, rest) ← codes rest
    return (unit :: units, rest)
  | '\\' :: c :: rest => do
    let unit ← shortEscape? c
    let (units, rest) ← codes rest
    return (unit :: units, rest)
  | c :: rest => do
    guard (32 ≤ c.toNat ∧ c ≠ '\\')
    let (units, rest) ← codes rest
    return (c.toNat :: units, rest)
  | [] => none

/-- The text that codes spell: surrogates have to come in pairs. -/
def ofCodes : List Nat → Option (List Char)
  | [] => some []
  | unit :: rest =>
    if 0xd800 ≤ unit ∧ unit < 0xdc00 then
      match rest with
      | low :: rest =>
        if 0xdc00 ≤ low ∧ low < 0xe000 then
          (ofCodes rest).map (Char.ofNat (0x10000 + (unit - 0xd800) * 0x400 + (low - 0xdc00)) :: ·)
        else none
      | [] => none
    else if 0xdc00 ≤ unit ∧ unit < 0xe000 then none
    else (ofCodes rest).map (Char.ofNat unit :: ·)

/-- A string after its opening quote. -/
def readString (input : List Char) : Reading Json :=
  match codes input with
  | none => (unreadable .grammar, none)
  | some (units, rest) =>
    match ofCodes units with
    | none => (unreadable .string, some rest)
    | some text => (string (String.ofList text), some rest)

/-! ## Numbers -/

/-- A run of at least one digit. -/
def digits? (input : List Char) : Option (List Char × List Char) :=
  let (digits, rest) := input.span Char.isDigit
  if digits = [] then none else some (digits, rest)

/-- The part before the point: it has no superfluous zero. -/
def wholePart? : List Char → Option (List Char × List Char)
  | '0' :: rest => if (rest.headD ' ').isDigit then none else some (['0'], rest)
  | input => digits? input

/-- The point and the digits after it, if there is a point. -/
def fraction? : List Char → Option (List Char × List Char)
  | '.' :: rest => (digits? rest).map fun (digits, rest) => ('.' :: digits, rest)
  | input => some ([], input)

/-- The exponent, if there is one. -/
def exponent? : List Char → Option (List Char × List Char)
  | e :: rest =>
    if e = 'e' ∨ e = 'E' then
      match rest with
      | sign :: digits =>
        if sign = '+' ∨ sign = '-' then
          (digits? digits).map fun (digits, rest) => (e :: sign :: digits, rest)
        else (digits? rest).map fun (digits, rest) => (e :: digits, rest)
      | [] => none
    else some ([], e :: rest)
  | [] => some ([], [])

/-- A number, as it is spelled. -/
def number? (input : List Char) : Option (List Char × List Char) := do
  let (sign, rest) := match input with
    | '-' :: rest => (['-'], rest)
    | rest => ([], rest)
  let (whole, rest) ← wholePart? rest
  let (fraction, rest) ← fraction? rest
  let (exponent, rest) ← exponent? rest
  return (sign ++ whole ++ fraction ++ exponent, rest)

/-! ## Values -/

/-- The key of an entry and the colon after it. The key is missing if its escapes spell no text. -/
def readKey? : List Char → Option (Option String × List Char)
  | '"' :: rest => do
    let (units, rest) ← codes rest
    match skipBlanks rest with
    | ':' :: rest => some ((ofCodes units).map String.ofList, rest)
    | _ => none
  | _ => none

/-- An entry as it is kept. -/
def entry (key : Option String) (value : Json) : List (String × Json) :=
  match key with
  | some key => [(key, value)]
  | none => [("", unreadable .key), ("", value)]

mutual

/-- A value, with blanks before it. -/
def readValue : (fuel : Nat) → List Char → Reading Json
  | 0, _ => (unreadable .grammar, none)
  | fuel + 1, input =>
    match skipBlanks input with
    | 'n' :: 'u' :: 'l' :: 'l' :: rest => (null, some rest)
    | 't' :: 'r' :: 'u' :: 'e' :: rest => (bool true, some rest)
    | 'f' :: 'a' :: 'l' :: 's' :: 'e' :: rest => (bool false, some rest)
    | '"' :: rest => readString rest
    | '[' :: rest =>
      match skipBlanks rest with
      | ']' :: rest => (array [], some rest)
      | rest =>
        let (items, rest) := readItems fuel rest
        (array items, rest)
    | '\x7b' :: rest =>
      match skipBlanks rest with
      | '\x7d' :: rest => (object [], some rest)
      | rest =>
        let (entries, rest) := readEntries fuel rest
        (object entries, rest)
    | rest =>
      match number? rest with
      | some (literal, rest) => (number (String.ofList literal), some rest)
      | none => (unreadable .grammar, none)

/-- The items of an array up to its closing bracket; there is at least one. -/
def readItems : (fuel : Nat) → List Char → Reading (List Json)
  | 0, _ => ([unreadable .grammar], none)
  | fuel + 1, input =>
    match readValue fuel input with
    | (item, none) => ([item], none)
    | (item, some rest) =>
      match skipBlanks rest with
      | ']' :: rest => ([item], some rest)
      | ',' :: rest =>
        let (items, rest) := readItems fuel rest
        (item :: items, rest)
      | _ => ([item, unreadable .grammar], none)

/-- The entries of an object up to its closing brace; there is at least one. -/
def readEntries : (fuel : Nat) → List Char → Reading (List (String × Json))
  | 0, _ => ([("", unreadable .grammar)], none)
  | fuel + 1, input =>
    match readKey? (skipBlanks input) with
    | none => ([("", unreadable .grammar)], none)
    | some (key, rest) =>
      match readValue fuel rest with
      | (value, none) => (entry key value, none)
      | (value, some rest) =>
        match skipBlanks rest with
        | '\x7d' :: rest => (entry key value, some rest)
        | ',' :: rest =>
          let (entries, rest) := readEntries fuel rest
          (entry key value ++ entries, rest)
        | _ => (entry key value ++ [("", unreadable .grammar)], none)

end

/-- The value that a text starts with. -/
def read (text : String) : Reading Json := readValue (2 * text.length + 2) text.toList

/-- Whether a part of a text can stand in a value of its own. -/
def isValue : Json → Bool
  | number literal => (numberText? literal).isSome
  | unreadable _ => false
  | _ => true

/-- The deepest nesting of a text that is read as a value of its own. -/
def maxDepth : Nat := 127

mutual

/-- Spells all numbers as `numberText?` does. -/
def withNumberTexts : Json → Json
  | number literal => number ((numberText? literal).getD literal)
  | array items => array (itemsWithNumberTexts items)
  | object entries => object (entriesWithNumberTexts entries)
  | value => value

/-- `withNumberTexts` for every item. -/
def itemsWithNumberTexts : List Json → List Json
  | [] => []
  | item :: rest => item.withNumberTexts :: itemsWithNumberTexts rest

/-- `withNumberTexts` for every entry. -/
def entriesWithNumberTexts : List (String × Json) → List (String × Json)
  | [] => []
  | (key, value) :: rest => (key, value.withNumberTexts) :: entriesWithNumberTexts rest

end

/-- The value as one of its own: the entries of objects in the order of their keys, and numbers as
they are. -/
def normal (value : Json) : Json := value.canonical.withNumberTexts

/-- The value that a whole text stands for. -/
def ofText? (text : String) : Option Json :=
  match read text with
  | (value, some rest) =>
    if skipBlanks rest = [] ∧ value.allWithin isValue maxDepth then
      some value.normal
    else none
  | (_, none) => none

end RingWallet.Json
