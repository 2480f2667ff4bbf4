import NameRecovery.Source.Token

/-!
# Numbers

Decimal numbers with fraction and exponent, and the three other bases.  A zero
before octal digits starts an old octal number, unless an eight or nine
follows.  No name may follow a number directly.
-/

namespace NameRecovery.Source

/-- A number that ends here, if no character `bad` follows. -/
def endNumber (start stop : Cursor) (octal : Bool) (bad : Char → Bool) : Scan (Token × Cursor) :=
  if bad stop.peek then .error (stop.complain .illegal)
  else .ok (Token.between start stop (.number octal), stop)

/-- A name or a digit cannot follow a number of this base. -/
def isNameOrDigit (c : Char) : Bool :=
  isNameStart c || c.isDigit

/-- The digits of a number with a base mark, which is passed. -/
def scanBased (start c : Cursor) (digit bad : Char → Bool) : Scan (Token × Cursor) :=
  let stop := c.skipWhile digit
  if stop.index = c.index then .error (stop.complain .illegal)
  else endNumber start stop false bad

/-- Does a zero followed by these characters start an old octal number? -/
def isOldOctal : List Char → Bool
  | [] => true
  | c :: cs => if c = '8' ∨ c = '9' then false else if isOctal c then isOldOctal cs else true

/-- The exponent of a decimal number, if there is one. -/
def scanExponent (c : Cursor) : Scan Cursor :=
  if c.peek = 'e' ∨ c.peek = 'E' then
    let c := c.advance 1
    let c := if c.peek = '+' ∨ c.peek = '-' then c.advance 1 else c
    if c.peek.isDigit then .ok (c.skipWhile Char.isDigit) else .error (c.complain .illegal)
  else .ok c

/-- A decimal number. -/
def scanDecimal (start : Cursor) : Scan (Token × Cursor) := do
  let c := start.skipWhile Char.isDigit
  let c := if c.peek = '.' then (c.advance 1).skipWhile Char.isDigit else c
  let c ← scanExponent c
  endNumber start c false isNameStart

/-- The number that starts here. -/
def scanNumber (c : Cursor) : Scan (Token × Cursor) :=
  let mark := c.peekAt 1
  if c.peek ≠ '0' then scanDecimal c
  else if mark = 'x' ∨ mark = 'X' then scanBased c (c.advance 2) isHex isNameStart
  else if mark = 'b' ∨ mark = 'B' then
    scanBased c (c.advance 2) (fun ch => ch == '0' || ch == '1') isNameOrDigit
  else if mark = 'o' ∨ mark = 'O' then scanBased c (c.advance 2) isOctal isNameOrDigit
  else if isOctal mark && isOldOctal (c.rest.drop 2) then
    endNumber c ((c.advance 2).skipWhile isOctal) true isNameOrDigit
  else scanDecimal c

end NameRecovery.Source
