import NameRecovery.Source.Complaint
import NameRecovery.Text.Letter

/-!
# Characters and places of a program text

The character classes of the language, and the `Cursor`, which stands at a
place of a program text and knows what is left of it.
-/

namespace NameRecovery.Source

/-! ## Character classes -/

/-- White space between tokens. -/
def isSpace (c : Char) : Bool :=
  let n := c.toNat
  n == 0x09 || n == 0x0b || n == 0x0c || n == 0x20 || n == 0xa0 || n == 0x1680 || n == 0x180e ||
    (0x2000 ≤ n && n ≤ 0x200a) || n == 0x202f || n == 0x205f || n == 0x3000 || n == 0xfeff

/-- A line end, or the first half of one. -/
def isLineEnd (c : Char) : Bool :=
  let n := c.toNat
  n == 0x0a || n == 0x0d || n == 0x2028 || n == 0x2029

/-- Can a name start with the character?  A backslash starts an escape. -/
def isNameStart (c : Char) : Bool :=
  c == '$' || c == '_' || c == '\\' || Text.startsIdentifier c

/-- Can a name go on with the character? -/
def isNamePart (c : Char) : Bool :=
  isNameStart c || Text.continuesIdentifier c || c.toNat == 0x200c || c.toNat == 0x200d

/-- A digit of base eight. -/
def isOctal (c : Char) : Bool :=
  '0' ≤ c && c ≤ '7'

/-- The value of a digit of base sixteen. -/
def hexValue? (c : Char) : Option Nat :=
  if c.isDigit then some (c.toNat - 48)
  else if 'a' ≤ c ∧ c ≤ 'f' then some (c.toNat - 87)
  else if 'A' ≤ c ∧ c ≤ 'F' then some (c.toNat - 55)
  else none

/-- A digit of base sixteen. -/
def isHex (c : Char) : Bool :=
  (hexValue? c).isSome

/-! ## Cursors -/

/-- A place in a program text. -/
structure Cursor where
  /-- What is left of the text. -/
  rest : List Char
  /-- How many characters have been passed. -/
  index : Nat
  /-- The line, counted from one; an empty text has line zero. -/
  line : Nat
  /-- The index of the first character of the line. -/
  lineStart : Nat
  deriving Inhabited

namespace Cursor

/-- The start of a text. -/
def start (text : List Char) : Cursor :=
  ⟨text, 0, if text.isEmpty then 0 else 1, 0⟩

/-- Is nothing left? -/
def atEnd (c : Cursor) : Bool :=
  c.rest.isEmpty

/-- The character here; at the end of the text, a null character. -/
def peek (c : Cursor) : Char :=
  c.rest.headD (Char.ofNat 0)

/-- The character `n` places further on. -/
def peekAt (c : Cursor) (n : Nat) : Char :=
  (c.rest.drop n).headD (Char.ofNat 0)

/-- The place `n` characters further on, on the same line. -/
def advance (c : Cursor) (n : Nat) : Cursor :=
  { c with rest := c.rest.drop n, index := c.index + n }

/-- The place after the characters that satisfy `p`. -/
def skipWhile (c : Cursor) (p : Char → Bool) : Cursor :=
  c.advance (c.rest.takeWhile p).length

/-- The place, as the start of a new line. -/
def newLine (c : Cursor) : Cursor :=
  { c with line := c.line + 1, lineStart := c.index }

/-- The start of the next line, when a line end stands here: a carriage return
and a line feed are one line end. -/
def passLineEnd (c : Cursor) : Cursor :=
  if c.peek = '\r' ∧ c.peekAt 1 = '\n' then (c.advance 2).newLine else (c.advance 1).newLine

/-- Does the text here start with the given one? -/
def sees (c : Cursor) (text : String) : Bool :=
  text.toList.isPrefixOf c.rest

/-- The text from here up to another place. -/
def textTo (c : Cursor) (stop : Cursor) : List Char :=
  c.rest.take (stop.index - c.index)

/-- A complaint about the text here. -/
def complain (c : Cursor) (complaint : Complaint) : SourceError :=
  ⟨complaint, c.line, (c.index : Int) - c.lineStart + 1, c.index⟩

end Cursor

/-- A step of reading a text: a result, or a complaint. -/
abbrev Scan (α : Type) := Except SourceError α

end NameRecovery.Source
