import NameRecovery.Source.Cursor

/-!
# Between tokens

White space, line ends and comments.  Besides the two usual forms of comments,
`<!--` starts a comment that ends with the line (not in modules), and so does
`-->` when nothing but a gap precedes it on its line.
-/

namespace NameRecovery.Source

/-- The start of the line after a comment that ends with the line. -/
def skipLineComment (c : Cursor) : Cursor :=
  let stop := c.skipWhile fun ch => !isLineEnd ch
  if stop.atEnd then stop else stop.passLineEnd

/-- The place after the end of a comment between stars, which has to come. -/
def skipBlockComment (index line lineStart : Nat) : List Char → Scan Cursor
  | [] => .error ((Cursor.mk [] index line lineStart).complain .illegal)
  | '*' :: '/' :: rest => .ok ⟨rest, index + 2, line, lineStart⟩
  | '\r' :: '\n' :: rest => skipBlockComment (index + 2) (line + 1) (index + 2) rest
  | c :: rest =>
    if isLineEnd c then skipBlockComment (index + 1) (line + 1) (index + 1) rest
    else skipBlockComment (index + 1) line lineStart rest

/-- The place of the next token.  `lineBegins` tells whether only a gap has been
passed on this line.  Every step passes a character, so that the characters
left at the start bound the number of steps. -/
def skipGapFrom (isModule : Bool) : List Char → Bool → Cursor → Scan Cursor
  | [], _, c => .ok c
  | _ :: budget, lineBegins, c =>
    match c.rest with
    | [] => .ok c
    | ch :: _ =>
      if isSpace ch then skipGapFrom isModule budget lineBegins (c.advance 1)
      else if isLineEnd ch then skipGapFrom isModule budget true c.passLineEnd
      else if c.sees "//" then skipGapFrom isModule budget true (skipLineComment (c.advance 2))
      else if c.sees "/*" then do
        let body := c.advance 2
        skipGapFrom isModule budget lineBegins
          (← skipBlockComment body.index body.line body.lineStart body.rest)
      else if lineBegins && c.sees "-->" then
        skipGapFrom isModule budget lineBegins (skipLineComment (c.advance 3))
      else if !isModule && c.sees "<!--" then
        skipGapFrom isModule budget lineBegins (skipLineComment (c.advance 4))
      else .ok c

/-- The place of the next token. -/
def skipGap (isModule : Bool) (c : Cursor) : Scan Cursor :=
  skipGapFrom isModule c.rest (c.index == 0) c

end NameRecovery.Source
