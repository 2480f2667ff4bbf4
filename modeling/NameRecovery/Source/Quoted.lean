import NameRecovery.Source.Escape
import NameRecovery.Source.Token

/-!
# Text literals and templates

A text literal ends at its quote and on its line.  A piece of a template ends
at the closing mark or at the start of a substitution, and may span lines.
-/

namespace NameRecovery.Source

/-- Past the line end that a backslash joins to the next line. -/
def passJoinedLine (c : Cursor) : Cursor :=
  c.passLineEnd

/-! ## Text literals -/

/-- What a backslash in a text literal stands for, the backslash being passed: the
characters, whether it was an old octal escape, and the place after it. -/
def stringEscape (c : Cursor) : Scan (List Char × Bool × Cursor) :=
  let ch := c.peek
  if isLineEnd ch then .ok ([], false, passJoinedLine c)
  else if ch = 'u' then
    if c.peekAt 1 = '{' then do
      let (d, c) ← bracedEscape (c.advance 2)
      return ([d], false, c)
    else
      match hexEscape 4 (c.advance 1) with
      | (some code, c) => .ok ([Text.charOfCode code], false, c)
      | (none, c) => .error (c.complain .illegal)
  else if ch = 'x' then
    match hexEscape 2 (c.advance 1) with
    | (some code, c) => .ok ([Text.charOfCode code], false, c)
    | (none, c) => .error (c.complain .badHexEscape)
  else if ch = '8' ∨ ch = '9' then .error ((c.advance 1).complain .illegal)
  else if isOctal ch then
    let (code, octal, c) := octalEscape c
    .ok ([Text.charOfCode code], octal, c)
  else .ok ([(letterEscape? ch).getD ch], false, c.advance 1)

/-- The characters of a text literal up to its quote; without one, the place where
it breaks off. -/
def stringBody (quote : Char) : List Char → List Char → Bool → Cursor →
    Scan (Option (List Char × Bool) × Cursor)
  | [], _, _, c => .ok (none, c)
  | _ :: budget, done, octal, c =>
    match c.rest with
    | [] => .ok (none, c)
    | '\\' :: _ => do
      let (chars, isOctal, c) ← stringEscape (c.advance 1)
      stringBody quote budget (chars.reverse ++ done) (octal || isOctal) c
    | ch :: _ =>
      if ch = quote then .ok (some (done.reverse, octal), c.advance 1)
      else if isLineEnd ch then .ok (none, c)
      else stringBody quote budget (ch :: done) octal (c.advance 1)

/-- The text literal that starts here. -/
def scanString (start : Cursor) : Scan (Token × Cursor) := do
  match ← stringBody start.peek (start.rest.drop 1) [] false (start.advance 1) with
  | (some (chars, octal), stop) =>
    return (Token.between start stop (.string (String.ofList chars) octal), stop)
  | (none, stop) => .error (({ stop with index := start.index } : Cursor).complain .illegal)

/-! ## Templates -/

/-- Past an escape of a template, the backslash being passed. -/
def templateEscape (c : Cursor) : Scan Cursor :=
  let ch := c.peek
  if isLineEnd ch then .ok (passJoinedLine c)
  else if ch = 'u' then
    if c.peekAt 1 = '{' then do
      let (_, c) ← bracedEscape (c.advance 2)
      return c
    else
      match hexEscape 4 (c.advance 1) with
      | (some _, c) => .ok c
      | (none, _) => .ok (c.advance 1)
  else if ch = 'x' then
    match hexEscape 2 (c.advance 1) with
    | (some _, c) => .ok c
    | (none, c) => .error (c.complain .badHexEscape)
  else if ch = '0' then
    if (c.peekAt 1).isDigit then .error ((c.advance 1).complain .octalInTemplate)
    else .ok (c.advance 1)
  else if isOctal ch then .error ((c.advance 1).complain .octalInTemplate)
  else .ok (c.advance 1)

/-- The end of a piece of a template: whether it is the last piece, and the place
after it. -/
def templateBody : List Char → Cursor → Scan (Bool × Cursor)
  | [], c => .error (c.complain .illegal)
  | _ :: budget, c =>
    match c.rest with
    | [] => .error (c.complain .illegal)
    | '`' :: _ => .ok (true, c.advance 1)
    | '$' :: '{' :: _ => .ok (false, c.advance 2)
    | '\\' :: _ => do templateBody budget (← templateEscape (c.advance 1))
    | ch :: _ => templateBody budget (if isLineEnd ch then c.passLineEnd else c.advance 1)

/-- The piece of a template that starts here, and the braces open after it.  A
piece that is not the first one closes a substitution. -/
def scanTemplate (braces : List Brace) (start : Cursor) :
    Scan (Token × Cursor × List Brace) := do
  let head := start.peek = '`'
  let (tail, stop) ← templateBody start.rest (start.advance 1)
  let opened := if tail then braces else .substitution :: braces
  let braces := if head then opened else opened.drop 1
  let size := stop.index - start.index
  let raw := (start.rest.take (size - if tail then 1 else 2)).drop 1
  return (Token.between start stop (.template (String.ofList raw) head tail), stop, braces)

end NameRecovery.Source
