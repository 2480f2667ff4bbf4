import NameRecovery.Source.Pattern.Sound
import NameRecovery.Source.Token

/-!
# Regular expressions

A regular expression ends at the first slash that is neither escaped nor inside
a character class, on the same line.  Its pattern has to be sound.
-/

namespace NameRecovery.Source

/-- The place after the closing slash of a regular expression. -/
def regexBody : List Char → Bool → Cursor → Scan Cursor
  | [], _, c => .error (c.complain .unterminatedRegex)
  | _ :: budget, inClass, c =>
    match c.rest with
    | [] => .error (c.complain .unterminatedRegex)
    | '\\' :: _ =>
      if isLineEnd (c.peekAt 1) then .error ((c.advance 2).complain .unterminatedRegex)
      else regexBody budget inClass (c.advance 2)
    | ch :: _ =>
      if isLineEnd ch then .error ((c.advance 1).complain .unterminatedRegex)
      else if inClass then regexBody budget (ch != ']') (c.advance 1)
      else if ch = '/' then .ok (c.advance 1)
      else regexBody budget (ch == '[') (c.advance 1)

/-- The place after the flags of a regular expression; escapes in them are
refused. -/
def regexFlags : List Char → Cursor → Scan Cursor
  | [], c => .ok c
  | _ :: budget, c =>
    match c.rest with
    | [] => .ok c
    | '\\' :: next :: _ =>
      if next = 'u' then
        match hexEscape 4 (c.advance 2) with
        | (some _, stop) => .error (stop.complain .illegal)
        | (none, _) => .error ((c.advance 2).complain .illegal)
      else .error ((c.advance 1).complain .illegal)
    | ch :: _ => if isNamePart ch then regexFlags budget (c.advance 1) else .ok c

/-- The regular expression that starts here. -/
def scanRegex (start : Cursor) : Scan (Token × Cursor) := do
  let bodyEnd ← regexBody start.rest false (start.advance 1)
  let stop ← regexFlags bodyEnd.rest bodyEnd
  let pattern := ((start.textTo bodyEnd).drop 1).dropLast
  let flags := bodyEnd.textTo stop
  if Pattern.isSound pattern then
    return (Token.between start stop (.regex (String.ofList pattern) (String.ofList flags)), stop)
  else .error (stop.complain .badRegex)

end NameRecovery.Source
