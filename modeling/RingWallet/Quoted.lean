import RingWallet.Unprintable

/-!
# Text between marks

A text that is shown in a message stands between marks (`quotedWith`). Inside, the mark and the
backslash are escaped, characters that would not show are spelled out, and all others stand for
themselves (`escapedWithin_eq_self_iff`).
-/

set_option autoImplicit false

namespace RingWallet

/-- The code point of a character in hexadecimal digits. -/
def spelledOut (c : Char) : List Char :=
  ['\\', 'u', '\x7b'] ++ Nat.toDigits 16 c.toNat ++ ['\x7d']

/-- A character as it is written between two marks. -/
def escapedWithin (mark c : Char) : List Char :=
  if c = mark ∨ c = '\\' then ['\\', c]
  else if c = '\x00' then ['\\', '0']
  else if c = '\t' then ['\\', 't']
  else if c = '\n' then ['\\', 'n']
  else if c = '\r' then ['\\', 'r']
  else if isUnprintable c.toNat then spelledOut c
  else [c]

/-- A text between two marks. -/
def quotedWith (mark : Char) (text : String) : String :=
  String.ofList (mark :: text.toList.flatMap (escapedWithin mark) ++ [mark])

/-- A text between quotation marks. -/
def quotedText (text : String) : String := quotedWith '"' text

/-- A character between apostrophes. -/
def quotedChar (c : Char) : String := quotedWith '\x27' (String.singleton c)

/-- A character stands for itself exactly if it shows and is neither the mark nor a backslash. -/
theorem escapedWithin_eq_self_iff {mark c : Char} :
    escapedWithin mark c = [c] ↔ c ≠ mark ∧ c ≠ '\\' ∧ isUnprintable c.toNat = false := by
  have control (h : c = '\x00' ∨ c = '\t' ∨ c = '\n' ∨ c = '\r') :
      isUnprintable c.toNat = true := by
    apply isUnprintable_of_lt
    rcases h with rfl | rfl | rfl | rfl <;> decide
  grind [escapedWithin, spelledOut]

end RingWallet
