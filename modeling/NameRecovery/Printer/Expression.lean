import NameRecovery.Printer.Function

/-!
# Printing expressions
-/

namespace NameRecovery.Printer.Rules

variable (rules : Rules)

/-- An array literal or pattern; a hole at the end needs a comma of its own. -/
def array (place : Place) (t : Tree) : Print := do
  let elements ← (t.get "elements").items
  let texts ← each
    (fun element =>
      if element.isNull then pure "" else rules.expression place assignmentLevel element)
    elements
  let hole := elements.getLast?.any Tree.isNull
  return "[" ++ String.intercalate ", " texts ++ (if hole then "," else "") ++ "]"

/-- An object literal: a property on each line. -/
def object (place : Place) (t : Tree) : Print := do
  let properties ← (t.get "properties").items
  if properties.isEmpty then return "\x7b\x7d"
  let inner : Place := { place with level := place.level + 1 }
  return rules.braced place.level ",\n" (← each (rules.property inner) properties)

/-- An object pattern: on one line. -/
def objectPattern (place : Place) (t : Tree) : Print := do
  let properties ← (t.get "properties").items
  return "\x7b" ++ String.intercalate ", " (← each (rules.property place) properties) ++ "\x7d"

/-- The spelling of a piece of a template. -/
def templatePiece (quasi : Tree) : Print := do
  let value := (← quasi.withFields).get "value"
  match value with
  | .record _ | .node _ _ => ((value.get? "raw").getD (.text "")).asText
  | _ => return if value.isSet then value.inText else ""

/-- The pieces of a template with the substitutions between them. -/
def templateParts (place : Place) : List Tree → List Tree → Print
  | [], _ => .ok ""
  | quasi :: quasis, [] => do
    return (← templatePiece quasi) ++ (← templateParts place quasis [])
  | quasi :: quasis, expr :: exprs => do
    let piece ← templatePiece quasi
    let text ← rules.expression place sequenceLevel expr
    return piece ++ "$\x7b" ++ text ++ "\x7d" ++ (← templateParts place quasis exprs)

/-- A template. -/
def template (place : Place) (t : Tree) : Print := do
  let t ← t.withFields
  let quasis ← (t.get "quasis").items
  let exprs ← (t.get "expressions").items
  return "`" ++ (← rules.templateParts place quasis exprs) ++ "`"

/-- An access to a member.  A whole number needs parentheses before a dot. -/
def access (place : Place) (t : Tree) : Print := do
  let object ← t.need "object"
  let text ← rules.expression place memberLevel object
  let text := if object.isKind "Literal" && isDigits text then inParens text else text
  if t.has "computed" then
    return text ++ "[" ++ (← rules.expression place sequenceLevel (← t.need "property")) ++ "]"
  else return text ++ "." ++ (← (← t.need "property").needText "name")

/-- The arguments of a call in parentheses. -/
def callArguments (place : Place) (t : Tree) : Print := do
  return inParens (← rules.arguments place (← (t.get "arguments").items))

/-- A call. -/
def call (place : Place) (t : Tree) : Print := do
  let callee ← rules.expression place memberLevel (← t.need "callee")
  return callee ++ (← rules.callArguments place t)

/-- An expression with `new`; a call inside its operand needs parentheses. -/
def new (place : Place) (t : Tree) : Print := do
  let callee ← t.need "callee"
  let text ← rules.expression place memberLevel callee
  let text := if chainHasCall callee then inParens text else text
  return "new " ++ text ++ (← rules.callArguments place t)

/-- An operator in front of its operand; equal signs are kept apart. -/
def unary (place : Place) (t : Tree) : Print := do
  let operator ← t.needText "operator"
  let argument ← rules.expression place unaryLevel (← t.need "argument")
  let isWord := ["typeof", "void", "delete"].contains operator
  let isSign := operator = "-" || operator = "+"
  if isWord || (isSign && operator.toList.isPrefixOf argument.toList) then
    return operator ++ " " ++ argument
  else return operator ++ argument

/-- An update before or after its operand. -/
def update (place : Place) (t : Tree) : Print := do
  let operator ← t.needText "operator"
  let argument ← t.need "argument"
  if t.has "prefix" then return operator ++ (← rules.expression place unaryLevel argument)
  else return (← rules.expression place updateLevel argument) ++ operator

/-- An operator between two operands.  Only powers group to the right; their base
may not have an operator in front. -/
def binary (place : Place) (t : Tree) : Print := do
  let operator := (← t.need "operator").inText
  let own ← precedence t
  let leftNode ← t.need "left"
  if operator = "**" then
    let left ← rules.expression place (own + 1) leftNode
    let bare := ["UnaryExpression", "AwaitExpression"].any leftNode.isKind &&
      left.toList.head? ≠ some '('
    let right ← rules.expression place own (← t.need "right")
    return (if bare then inParens left else left) ++ " ** " ++ right
  else
    let left ← rules.expression place own leftNode
    let right ← rules.expression place (own + 1) (← t.need "right")
    return left ++ " " ++ operator ++ " " ++ right

/-- A choice between two expressions. -/
def conditional (place : Place) (t : Tree) : Print := do
  let test ← rules.expression place (conditionalLevel + 1) (← t.need "test")
  let consequent ← rules.expression place assignmentLevel (← t.need "consequent")
  let alternate ← rules.expression place assignmentLevel (← t.need "alternate")
  return test ++ " ? " ++ consequent ++ " : " ++ alternate

/-- An assignment. -/
def assignment (place : Place) (t : Tree) : Print := do
  let left ← rules.expression place memberLevel (← t.need "left")
  let right ← rules.expression place assignmentLevel (← t.need "right")
  return left ++ " " ++ (← t.need "operator").inText ++ " " ++ right

/-- A pattern with a default. -/
def withDefault (place : Place) (t : Tree) : Print := do
  let left ← rules.expression place memberLevel (← t.need "left")
  return left ++ " = " ++ (← rules.expression place assignmentLevel (← t.need "right"))

/-- A `yield` with its operand. -/
def yield (place : Place) (t : Tree) : Print := do
  let word := if t.has "delegate" then "yield*" else "yield"
  let argument := t.get "argument"
  if argument.isNull then return word
  else return word ++ " " ++ (← rules.expression place assignmentLevel argument)

/-- Two names with a dot between. -/
def metaProperty (t : Tree) : Print := do
  let name ← (← t.need "meta").needText "name"
  return name ++ "." ++ (← (← t.need "property").needText "name")

/-- A template applied to an expression. -/
def taggedTemplate (place : Place) (t : Tree) : Print := do
  let tag ← rules.expression place memberLevel (← t.need "tag")
  return tag ++ (← rules.template place (← t.need "quasi"))

/-- Expressions with commas between. -/
def sequence (place : Place) (t : Tree) : Print := do
  return String.intercalate ", "
    (← each (rules.expression place assignmentLevel) (← (← t.need "expressions").listed))

/-- A spread or rest element. -/
def spread (place : Place) (t : Tree) : Print := do
  return "..." ++ (← rules.expression place assignmentLevel (← t.need "argument"))

/-- An `await` with its operand. -/
def await (place : Place) (t : Tree) : Print := do
  return "await " ++ (← rules.expression place unaryLevel (← t.need "argument"))

/-- The rule for each kind of expression. -/
def expressionForm? : String → Option (Place → Tree → Print)
  | "Identifier" => some fun _ t => t.needText "name"
  | "Literal" => some fun _ t => .ok (literal t)
  | "ThisExpression" => some fun _ _ => .ok "this"
  | "Super" => some fun _ _ => .ok "super"
  | "Import" => some fun _ _ => .ok "import"
  | "ArrayExpression" | "ArrayPattern" => some rules.array
  | "ObjectExpression" => some rules.object
  | "ObjectPattern" => some rules.objectPattern
  | "FunctionExpression" => some rules.function
  | "ArrowFunctionExpression" => some rules.arrow
  | "ClassExpression" => some rules.classText
  | "TemplateLiteral" => some rules.template
  | "TaggedTemplateExpression" => some rules.taggedTemplate
  | "MemberExpression" => some rules.access
  | "CallExpression" => some rules.call
  | "NewExpression" => some rules.new
  | "SequenceExpression" => some rules.sequence
  | "UnaryExpression" => some rules.unary
  | "UpdateExpression" => some rules.update
  | "BinaryExpression" | "LogicalExpression" => some rules.binary
  | "ConditionalExpression" => some rules.conditional
  | "AssignmentExpression" => some rules.assignment
  | "AssignmentPattern" => some rules.withDefault
  | "SpreadElement" | "RestElement" => some rules.spread
  | "YieldExpression" => some rules.yield
  | "AwaitExpression" => some rules.await
  | "MetaProperty" => some fun _ t => metaProperty t
  | _ => none

/-- Is the expression an `in` that has to be kept from being read as part of a loop
head? -/
def isExposedIn (place : Place) (t : Tree) : Except Fault Bool := do
  if place.guardIn && t.isKind "BinaryExpression" then
    return (← t.need "operator").inText = "in"
  else return false

/-- An expression at a place that demands the given binding strength. -/
def expressionAt (place : Place) (minimum : Nat) (t : Tree) : Print := do
  match rules.expressionForm? (← t.needKind) with
  | none => .error (.noExpressionForm (← shownKind t))
  | some form =>
    let strength ← precedence t
    let exposed ← isExposedIn place t
    if strength < minimum || exposed then
      return inParens (← form { place with guardIn := false } t)
    else form place t

end NameRecovery.Printer.Rules
