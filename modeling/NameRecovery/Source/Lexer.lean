import NameRecovery.Source.Gap
import NameRecovery.Source.Number
import NameRecovery.Source.Quoted
import NameRecovery.Source.Regex
import NameRecovery.Source.Word

/-!
# The next token

`scanToken` reads the token that starts at a place.  The open braces tell
whether a closing brace ends a block or a template substitution.  A slash is
read as an operator; where an expression can start the parser reads it again as
a regular expression with `scanRegex`.
-/

namespace NameRecovery.Source

/-- The operators of more than one character, longest first. -/
def longMarks : List String :=
  [">>>=", "===", "!==", ">>>", "<<=", ">>=", "**=", "&&", "||", "==", "!=", "+=", "-=", "*=",
    "/=", "++", "--", "<<", ">>", "&=", "|=", "^=", "%=", "<=", ">=", "=>", "**", "..."]

/-- The operators and brackets of one character. -/
def shortMarks : List Char :=
  "()\x7b\x7d;,[]:?~.<>=!+-*%&|^/".toList

/-- The operator or bracket that starts here, the longest one. -/
def markAt? (c : Cursor) : Option String :=
  match longMarks.find? c.sees with
  | some text => some text
  | none => if !c.atEnd && shortMarks.contains c.peek then some c.peek.toString else none

/-- The operator or bracket that starts here as a token, and the braces open after
it. -/
def scanMark (braces : List Brace) (c : Cursor) : Scan (Token × Cursor × List Brace) :=
  match markAt? c with
  | none => .error (c.complain .illegal)
  | some text =>
    let stop := c.advance text.length
    let braces :=
      if c.peek = '{' then .plain :: braces else if c.peek = '}' then braces.drop 1 else braces
    .ok (Token.between c stop (.mark text), stop, braces)

/-- The token that starts here, and the braces open after it. -/
def scanToken (braces : List Brace) (c : Cursor) : Scan (Token × Cursor × List Brace) :=
  let keep (result : Scan (Token × Cursor)) : Scan (Token × Cursor × List Brace) := do
    let (token, stop) ← result
    return (token, stop, braces)
  if c.atEnd then .ok (Token.between c c .endOfInput, c, braces)
  else
    let ch := c.peek
    if isNameStart ch then keep (scanWord c)
    else if ch = '\'' ∨ ch = '"' then keep (scanString c)
    else if ch.isDigit || (ch == '.' && (c.peekAt 1).isDigit) then keep (scanNumber c)
    else if ch = '`' ∨ (ch = '}' ∧ braces.head? = some .substitution) then scanTemplate braces c
    else scanMark braces c

end NameRecovery.Source
