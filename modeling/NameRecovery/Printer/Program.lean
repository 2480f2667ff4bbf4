import NameRecovery.Printer.Statement

/-!
# Printing programs

`render` gives the canonical text of a tree: one statement per line, every
statement with its semicolon, one blank around operators, literals as they were
spelled, and parentheses exactly where binding strength demands them.
-/

namespace NameRecovery

namespace Tree

mutual

/-- How deep the fields of a value nest. -/
def depth : Tree → Nat
  | .list items => depthItems items + 1
  | .record fields => depthFields fields + 1
  | .node _ fields => depthFields fields + 1
  | _ => 0

/-- The greatest depth of the items of a list. -/
def depthItems : List Tree → Nat
  | [] => 0
  | item :: rest => max (depth item) (depthItems rest)

/-- The greatest depth of the values of fields. -/
def depthFields : List (String × Tree) → Nat
  | [] => 0
  | (_, value) :: rest => max (depth value) (depthFields rest)

end

end Tree

namespace Printer

/-- The rules of the printer for trees up to the given depth. -/
def rules (indent : String) : Nat → Rules
  | 0 =>
    { indent
      statement := fun _ _ => .error (.wrongShape "a tree of its own depth")
      expression := fun _ _ _ => .error (.wrongShape "a tree of its own depth") }
  | depth + 1 =>
    { indent
      statement := fun level t => (rules indent depth).statementAt level t
      expression := fun place minimum t => (rules indent depth).expressionAt place minimum t }

/-- The kinds of statements, by the end of their names. -/
def isStatementKind (kind : String) : Bool :=
  ["Statement", "Declaration"].any fun ending => ending.toList.isSuffixOf kind.toList

end Printer

/-- The canonical text of a tree: a program, a statement or an expression. -/
def Tree.render (indent : String) (t : Tree) : Except Fault String := do
  let rules := Printer.rules indent (t.depth + 2)
  let kind ← t.needKind
  if kind = "Program" then
    let body ← (t.get "body").items
    if body.isEmpty then return ""
    return String.intercalate "\n" (← Printer.each (rules.statement 0) body) ++ "\n"
  else if Printer.isStatementKind kind then rules.statement 0 t
  else rules.expression ⟨0, false⟩ Printer.sequenceLevel t

/-- The indentation of one level, unless another one is chosen. -/
def defaultIndent : String := "  "

end NameRecovery
