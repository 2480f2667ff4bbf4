import NameRecovery.Printer.Literal
import NameRecovery.Printer.Precedence

/-!
# Printing statements and expressions refer to each other

The rules of the printer that every other rule may refer to, and the pieces of
layout they share: one statement per line, blocks in braces with their
statements one level deeper.
-/

namespace NameRecovery.Printer

/-- The text of a part of a tree, or what is wrong with the tree. -/
abbrev Print := Except Fault String

/-- Where an expression stands. -/
structure Place where
  /-- How deep its line is indented. -/
  level : Nat
  /-- Is it in the first part of the head of a `for` loop, where a bare `in` would
  change the kind of the loop? -/
  guardIn : Bool
  deriving Repr, DecidableEq

/-- The rules every other rule may refer to. -/
structure Rules where
  /-- The indentation of one level. -/
  indent : String
  /-- A statement, at a level. -/
  statement : Nat → Tree → Print
  /-- An expression at a place that demands the given binding strength. -/
  expression : Place → Nat → Tree → Print

/-- The indentation at a level. -/
def pad (indent : String) (level : Nat) : String :=
  String.join (List.replicate level indent)

/-- The texts of several parts, in order. -/
def each (print : Tree → Print) : List Tree → Except Fault (List String)
  | [] => .ok []
  | t :: rest => do
    let text ← print t
    return text :: (← each print rest)

/-- The kind of a node, as messages show it. -/
def shownKind (t : Tree) : Except Fault String := do
  return Display.json (← t.need "type").toJson

namespace Rules

variable (rules : Rules)

/-- Lines in braces, one level deeper than the closing brace. -/
def braced (level : Nat) (separator : String) (lines : List String) : String :=
  let inner := pad rules.indent (level + 1)
  "\x7b\n" ++ String.intercalate separator (lines.map (inner ++ ·)) ++ "\n" ++
    pad rules.indent level ++ "\x7d"

/-- Statements in braces. -/
def block (level : Nat) (statements : List Tree) : Print := do
  if statements.isEmpty then return "\x7b\x7d"
  return rules.braced level "\n" (← each (rules.statement (level + 1)) statements)

/-- The statements in the `body` of a node, in braces. -/
def blockOf (level : Nat) (t : Tree) : Print := do
  rules.block level (← (← t.need "body").items)

/-- A statement below another one: a block on the same line. -/
def nested (level : Nat) (t : Tree) : Print := do
  if (← t.needKind) = "BlockStatement" then rules.blockOf level t else rules.statement level t

/-- A statement as a block. -/
def inBlock (level : Nat) (t : Tree) : Print := do
  if (← t.needKind) = "BlockStatement" then rules.blockOf level t else rules.block level [t]

/-- Expressions with commas between, holes left out. -/
def arguments (place : Place) (args : List Tree) : Print := do
  return String.intercalate ", "
    (← each (rules.expression place assignmentLevel) (args.filter fun arg => !arg.isNull))

end Rules
end NameRecovery.Printer
