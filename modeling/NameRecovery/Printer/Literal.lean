import NameRecovery.Text.Blank
import NameRecovery.Text.Letter
import NameRecovery.Tree.Basic

/-!
# Literals, and texts that need parentheses

A literal is printed as it was spelled; one without a spelling is written from
its value.  A statement may not start with certain words, and digits may not be
followed by a dot, so that the printer looks at the text it has made.
-/

namespace NameRecovery.Printer

/-- A literal. -/
def literal (t : Tree) : String :=
  match t.get "raw" with
  | .text raw => raw
  | _ =>
    let part (regex : Tree) (key : String) := ((regex.get? key).getD (.text "")).inText
    match t.get "regex" with
    | regex@(.record _) | regex@(.node _ _) =>
      "/" ++ part regex "pattern" ++ "/" ++ part regex "flags"
    | _ =>
      match t.get "value" with
      | .null => "null"
      | .bool b => if b then "true" else "false"
      | .text s => Json.quote true s
      | value => Display.json value.toJson

/-- The literal that names another module. -/
def moduleName (t : Tree) : Except Fault String := do
  return literal (← t.withFields)

/-- Does the text start with the given word, as a whole word? -/
def startsWithWord (word : String) (text : List Char) : Bool :=
  word.toList.isPrefixOf text && !((text.drop word.length).head?.any Text.isWord)

/-- Would a statement that starts with this expression be read as a declaration or
a block? -/
def isAmbiguousStart (text : String) : Bool :=
  let cs := text.toList
  let rest (word : String) := cs.drop word.length
  cs.head? == some '{' || startsWithWord "function" cs || startsWithWord "class" cs ||
    ("async".toList.isPrefixOf cs && (rest "async").head?.any Text.isBlank &&
      startsWithWord "function" (Text.trimStart (rest "async"))) ||
    ("let".toList.isPrefixOf cs && (Text.trimStart (rest "let")).head? == some '[')

/-- Digits only: a dot after them would be read as part of the number. -/
def isDigits (text : String) : Bool :=
  !text.isEmpty && text.toList.all Text.isDecimal

/-- The text in parentheses. -/
def inParens (text : String) : String :=
  "(" ++ text ++ ")"

mutual

/-- Does a call stand at the start of a chain of accesses? -/
def chainHasCall : Tree → Bool
  | .node "CallExpression" _ => true
  | .node "MemberExpression" fields => chainHasCallIn "object" fields
  | .node "TaggedTemplateExpression" fields => chainHasCallIn "tag" fields
  | _ => false

/-- Does a call stand at the start of the chain in a field? -/
def chainHasCallIn (key : String) : List (String × Tree) → Bool
  | [] => false
  | (k, value) :: rest => if k = key then chainHasCall value else chainHasCallIn key rest

end

end NameRecovery.Printer
