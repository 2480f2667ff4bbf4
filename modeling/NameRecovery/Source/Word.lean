import NameRecovery.Source.Escape
import NameRecovery.Source.Token

/-!
# Names and keywords

A word is the longest run of name characters.  Escapes are resolved, and a
word that would be a keyword may not be spelled with one.
-/

namespace NameRecovery.Source

/-- An escape inside a name, its backslash being passed.  The escaped character
has to be one that could stand here, unless it is written in braces. -/
def nameEscape (allowed : Char → Bool) (c : Cursor) : Scan (Char × Cursor) :=
  if c.peek ≠ 'u' then .error (c.complain .illegal)
  else if c.peekAt 1 = '{' then bracedEscape (c.advance 2)
  else
    match hexEscape 4 (c.advance 1) with
    | (some code, stop) =>
      let ch := Text.charOfCode code
      if ch = '\\' ∨ (0xd800 ≤ code ∧ code < 0xe000) ∨ !allowed ch then
        .error (stop.complain .illegal)
      else .ok (ch, stop)
    | (none, stop) => .error (stop.complain .illegal)

/-- The rest of a name with escapes; `done` holds the characters before, last one
first. -/
def escapedNameFrom : List Char → List Char → Cursor → Scan (List Char × Cursor)
  | [], done, c => .ok (done.reverse, c)
  | _ :: budget, done, c =>
    match c.rest with
    | [] => .ok (done.reverse, c)
    | '\\' :: _ => do
      let (ch, c) ← nameEscape (if done.isEmpty then isNameStart else isNamePart) (c.advance 1)
      escapedNameFrom budget (ch :: done) c
    | ch :: _ =>
      if isNamePart ch then escapedNameFrom budget (ch :: done) (c.advance 1)
      else .ok (done.reverse, c)

/-- The word that starts here and the place after it. -/
def scanName (c : Cursor) : Scan (List Char × Cursor) :=
  let plain := c.rest.takeWhile fun ch => isNamePart ch && ch != '\\'
  let stop := c.advance plain.length
  if stop.peek = '\\' then escapedNameFrom c.rest [] c else .ok (plain, stop)

/-- What a word is. -/
def wordLexeme (word : String) : Lexeme :=
  if word.length = 1 then .name word
  else if keywords.contains word then .keyword word
  else if word = "null" then .null
  else if word = "true" ∨ word = "false" then .boolean word
  else .name word

/-- The word that starts here as a token. -/
def scanWord (c : Cursor) : Scan (Token × Cursor) := do
  let (chars, stop) ← scanName c
  let lexeme := wordLexeme (String.ofList chars)
  let isName := match lexeme with
    | .name _ => true
    | _ => false
  if !isName && c.index + chars.length != stop.index then
    .error (({ stop with index := c.index } : Cursor).complain .escapedKeyword)
  else return (Token.between c stop lexeme, stop)

end NameRecovery.Source
