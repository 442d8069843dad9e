import VyperFront.Text.Basic

namespace VyperFront

/-- A class of characters: its ranges of code points, first and last, ascending. -/
abbrev CharClass := List (Nat × Nat)

namespace CharClass

/-- Whether a code point is in the class. -/
def has : CharClass → Nat → Bool
  | [], _ => false
  | (first, last) :: rest, c =>
    if c < first then false else if c ≤ last then true else has rest c

def contains (ranges : CharClass) (c : Char) : Bool := ranges.has c.toNat

end CharClass

/-! The decimal digits of every script. Each script's ten digits are consecutive, so
the code points of the zeros determine all of them. -/

namespace Digit

/-- The zeros other than the one of ASCII, ascending. -/
def zeros : List Nat :=
  [0x660, 0x6f0, 0x7c0, 0x966, 0x9e6, 0xa66, 0xae6, 0xb66, 0xbe6, 0xc66, 0xce6, 0xd66, 0xde6,
   0xe50, 0xed0, 0xf20, 0x1040, 0x1090, 0x17e0, 0x1810, 0x1946, 0x19d0, 0x1a80, 0x1a90, 0x1b50,
   0x1bb0, 0x1c40, 0x1c50, 0xa620, 0xa8d0, 0xa900, 0xa9d0, 0xa9f0, 0xaa50, 0xabf0, 0xff10,
   0x104a0, 0x10d30, 0x11066, 0x110f0, 0x11136, 0x111d0, 0x112f0, 0x11450, 0x114d0, 0x11650,
   0x116c0, 0x11730, 0x118e0, 0x11950, 0x11c50, 0x11d50, 0x11da0, 0x16a60, 0x16ac0, 0x16b50,
   0x1d7ce, 0x1d7d8, 0x1d7e2, 0x1d7ec, 0x1d7f6, 0x1e140, 0x1e2f0, 0x1e950, 0x1fbf0]

/-- The value of the code point among the digits that begin at one of the zeros. -/
def valueFrom : List Nat → Nat → Option Nat
  | [], _ => none
  | start :: rest, c =>
    if c < start then none else if c < start + 10 then some (c - start) else valueFrom rest c

end Digit

/-- The value of a decimal digit of any script. -/
def digitValue? (c : Char) : Option Nat :=
  if c.toNat < 128 then Digit.valueFrom [0x30] c.toNat else Digit.valueFrom Digit.zeros c.toNat

def isDecimalDigit (c : Char) : Bool := (digitValue? c).isSome

/-- The white space of every script, the ASCII separators included. -/
def blankRanges : CharClass :=
  [(0x9, 0xd), (0x1c, 0x20), (0x85, 0x85), (0xa0, 0xa0), (0x1680, 0x1680), (0x2000, 0x200a),
   (0x2028, 0x2029), (0x202f, 0x202f), (0x205f, 0x205f), (0x3000, 0x3000)]

def isBlank (c : Char) : Bool := blankRanges.contains c

namespace Text

/-- The text without the blanks before it. -/
def trimLeft (t : Text) : Text := t.dropWhile isBlank

/-- The text without the blanks after it. -/
def trimRight (t : Text) : Text := (t.reverse.dropWhile isBlank).reverse

/-- The text without the blanks around it. -/
def trim (t : Text) : Text := t.trimLeft.trimRight

end Text

end VyperFront
