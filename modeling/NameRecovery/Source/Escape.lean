import NameRecovery.Source.Cursor
import NameRecovery.Text.Surrogate

/-!
# Escapes

Numeric escapes in names, text literals and templates: a fixed number of
hexadecimal digits, any number of them in braces, or up to three octal digits.
-/

namespace NameRecovery.Source

/-- The value of hexadecimal digits. -/
def hexNumber (digits : List Char) : Nat :=
  digits.foldl (fun n c => n * 16 + (hexValue? c).getD 0) 0

/-- Exactly `count` hexadecimal digits: their value if they are all there, and the
place after those that are. -/
def hexEscape (count : Nat) (c : Cursor) : Option Nat × Cursor :=
  let digits := (c.rest.take count).takeWhile isHex
  (if digits.length = count then some (hexNumber digits) else none, c.advance digits.length)

/-- Hexadecimal digits up to a closing brace, the opening one being passed. -/
def bracedEscape (c : Cursor) : Scan (Char × Cursor) :=
  if c.peek = '}' then .error (c.complain .illegal)
  else
    let digits := c.rest.takeWhile isHex
    let stop := c.advance digits.length
    let code := hexNumber digits
    if stop.atEnd then .error (stop.complain .illegal)
    else if stop.peek = '}' ∧ code ≤ 0x10ffff then .ok (Text.charOfCode code, stop.advance 1)
    else .error ((stop.advance 1).complain .illegal)

/-- An octal escape after its backslash: its code, whether it is more than a plain
zero, and the place after it.  A third digit belongs to it only if the first one
is at most three. -/
def octalEscape (c : Cursor) : Nat × Bool × Cursor :=
  let most := if c.peek ≤ '3' then 3 else 2
  let digits := (c.rest.take most).takeWhile isOctal
  (digits.foldl (fun n d => n * 8 + (d.toNat - 48)) 0,
    c.peek ≠ '0' || 1 < digits.length, c.advance digits.length)

/-- The character a backslash and a letter stand for, the numeric escapes apart. -/
def letterEscape? : Char → Option Char
  | 'n' => some '\n'
  | 'r' => some '\r'
  | 't' => some '\t'
  | 'b' => some (Char.ofNat 8)
  | 'f' => some (Char.ofNat 12)
  | 'v' => some (Char.ofNat 11)
  | _ => none

end NameRecovery.Source
