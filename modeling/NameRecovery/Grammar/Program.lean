import NameRecovery.Grammar.Module

/-!
# Programs

The rules of the grammar are tied together, and a whole text is parsed.  A rule
refers to the others with a smaller budget.  Between two tokens the rules nest
only a few levels deep, so that a budget in proportion to the length of the
text is never used up.
-/

namespace NameRecovery.Grammar

open Source

/-- The rules of the grammar with a given budget. -/
def rules : Nat → Rules
  | 0 =>
    { budget := 0
      assignment := complain .tooDeep
      power := complain .tooDeep
      unary := complain .tooDeep
      callee := complain .tooDeep
      call := complain .tooDeep
      pattern := fun _ => complain .tooDeep
      statement := complain .tooDeep
      item := complain .tooDeep }
  | budget + 1 =>
    { budget
      assignment := fun s => assignment (rules budget) s
      power := fun s => power (rules budget) s
      unary := fun s => unary (rules budget) s
      callee := fun s => callee (rules budget) s
      call := fun s => callExpression (rules budget) s
      pattern := fun kind s => pattern (rules budget) kind s
      statement := fun s => statement (rules budget) s
      item := fun s => item (rules budget) s }

/-- What a text is parsed as. -/
inductive Goal where
  /-- A script, which starts out sloppy. -/
  | script
  /-- A module, all of which is strict. -/
  | module
  deriving Repr, DecidableEq

/-- The name of a goal. -/
def Goal.name : Goal → String
  | .script => "script"
  | .module => "module"

/-- The goal with the given name; any other name means a script. -/
def Goal.ofName (name : String) : Goal :=
  if name = "module" then .module else .script

/-- The state before the first token has been read. -/
def State.start (text : List Char) : State :=
  let cursor := Cursor.start text
  { cursor
    braces := []
    lookahead := Token.between cursor cursor .endOfInput
    lookaheadStart := cursor
    newline := false
    last := Marker.ofCursor cursor
    context := {} }

/-- A program, from its first token to its end. -/
def program (goal : Goal) (rules : Rules) : Parse Tree := do
  let _ ← nextToken
  modify fun s => { s with last := Marker.ofCursor s.cursor }
  if goal = .module then changeContext fun c => { c with strict := true, isModule := true }
  let head ← directives rules
  let body ← collect (do
    if ← seesEnd then return none else return some (← rules.item)) rules.budget
  return .node "Program" [("sourceType", .text goal.name), ("body", .list (head ++ body))]

/-- Parse a text, given as its characters. -/
def parseChars (goal : Goal) (text : List Char) : Except SourceError Tree :=
  match program goal (rules (16 * text.length + 64)) (State.start text) with
  | .ok (tree, _) => .ok tree
  | .error e => .error e

/-- Parse a text. -/
def parse (goal : Goal) (text : String) : Except SourceError Tree :=
  parseChars goal text.toList

end NameRecovery.Grammar
