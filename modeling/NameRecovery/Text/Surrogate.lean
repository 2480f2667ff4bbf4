/-!
# Halves of surrogate pairs

A text can spell half of a surrogate pair alone, which is no character.  It is
kept as the character with the same code in the last private-use plane, so that it
takes one place in the text and can be shown as what it is.
-/

namespace NameRecovery.Text

/-- The first code of the last plane. -/
def lastPlane : Nat := 0x100000

/-- Is the code that of half of a pair? -/
def isHalf (code : Nat) : Bool :=
  decide (0xd800 ≤ code) && decide (code < 0xe000)

/-- The character with a code, or the one that stands for half of a pair. -/
def charOfCode (code : Nat) : Char :=
  if isHalf code then Char.ofNat (code + lastPlane) else Char.ofNat code

/-- The half of a pair a character stands for, if it does. -/
def half? (c : Char) : Option Nat :=
  let code := c.toNat - lastPlane
  if isHalf code then some code else none

/-- The code of a character, or of the half of a pair it stands for. -/
def codeOf (c : Char) : Nat :=
  (half? c).getD c.toNat

end NameRecovery.Text
