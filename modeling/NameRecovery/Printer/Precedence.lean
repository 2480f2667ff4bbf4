import NameRecovery.Tree.Basic

/-!
# Binding strength

How tight each kind of expression binds.  The printer puts an expression in
parentheses when it binds less tight than its place demands.
-/

namespace NameRecovery.Printer

/-- Expressions with commas. -/
def sequenceLevel : Nat := 0

/-- Assignments, and whatever may stand between commas. -/
def assignmentLevel : Nat := 1

/-- Choices between two expressions. -/
def conditionalLevel : Nat := 2

/-- Expressions with an operator in front. -/
def unaryLevel : Nat := 15

/-- Updates after their operand. -/
def updateLevel : Nat := 16

/-- Members and calls. -/
def memberLevel : Nat := 19

/-- Names, literals and everything in brackets. -/
def primaryLevel : Nat := 20

/-- The operators between two operands. -/
def operatorLevels : Table Nat := [
  ("??", 3), ("||", 3), ("&&", 4), ("|", 5), ("^", 6), ("&", 7),
  ("==", 8), ("!=", 8), ("===", 8), ("!==", 8),
  ("<", 9), (">", 9), ("<=", 9), (">=", 9), ("in", 9), ("instanceof", 9),
  ("<<", 10), (">>", 10), (">>>", 10), ("+", 11), ("-", 11),
  ("*", 12), ("/", 12), ("%", 12), ("**", 13)]

/-- The kinds of expressions that bind less tight than primary ones, apart from
operators between two operands and updates. -/
def kindLevels : Table Nat := [
  ("MemberExpression", memberLevel),
  ("CallExpression", memberLevel),
  ("NewExpression", memberLevel),
  ("TaggedTemplateExpression", memberLevel),
  ("MetaProperty", memberLevel),
  ("UnaryExpression", unaryLevel),
  ("AwaitExpression", unaryLevel),
  ("ConditionalExpression", conditionalLevel),
  ("AssignmentExpression", assignmentLevel),
  ("AssignmentPattern", assignmentLevel),
  ("ArrowFunctionExpression", assignmentLevel),
  ("YieldExpression", assignmentLevel),
  ("SpreadElement", assignmentLevel),
  ("RestElement", assignmentLevel),
  ("SequenceExpression", sequenceLevel)]

/-- How tight an operator between two operands binds; an unknown one as tight as an
operator in front. -/
def operatorLevel : Tree → Nat
  | .text operator => (operatorLevels.find? operator).getD unaryLevel
  | _ => unaryLevel

/-- How tight an expression binds. -/
def precedence (t : Tree) : Except Fault Nat := do
  let kind ← t.needKind
  if kind = "BinaryExpression" ∨ kind = "LogicalExpression" then
    return operatorLevel (← t.need "operator")
  else if kind = "UpdateExpression" then
    return if t.has "prefix" then unaryLevel else updateLevel
  else return (kindLevels.find? kind).getD primaryLevel

end NameRecovery.Printer
