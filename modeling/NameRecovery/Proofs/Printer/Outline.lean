import NameRecovery.Printer.Program

/-!
# Outlines of printed expressions

An outline of a printed expression says where its brackets stand, its `in` operators, and
the statements of its functions, in which more `in` operators may stand.
Outlines are printed as expressions are, except that the protection of `in` operators is
no part of the place of an expression: it is a flag that is kept while printing goes on,
set where a loop starts, cleared in parentheses and put back behind them.

* `Piece`, `spell` — the pieces of an outline, and the text they make;
* `depths` — the number of brackets around each `in` operator and each statement;
* `Outliner`, `withFlag` — printing with a flag;
* `Outlines` — the forms of expressions, with one definition for each rule of the printer.
-/

namespace NameRecovery.Printer

/-! ## Pieces -/

/-- A pair of brackets. -/
inductive Bracket where
  /-- Parentheses. -/
  | round
  /-- Brackets of an array or an access. -/
  | square
  /-- Braces. -/
  | curly
  /-- The braces of a substitution in a template. -/
  | substitution
  deriving Repr, DecidableEq

/-- How it opens. -/
def Bracket.opening : Bracket → String
  | round => "("
  | square => "["
  | curly => "\x7b"
  | substitution => "$\x7b"

/-- How it closes. -/
def Bracket.closing : Bracket → String
  | round => ")"
  | square => "]"
  | curly => "\x7d"
  | substitution => "\x7d"

/-- A piece of printed text. -/
inductive Piece where
  /-- A name, a literal, a mark or a word. -/
  | plain (text : String)
  /-- The operator `in` of a binary expression. -/
  | inOperator
  /-- A statement, with whatever `in` operators it has. -/
  | statement (text : String)
  /-- What stands in brackets. -/
  | enclosed (bracket : Bracket) (inner : List Piece)

/-- The pieces of a printed text, in order. -/
abbrev Pieces := List Piece

mutual

/-- The text of a piece. -/
def Piece.spell : Piece → String
  | .plain text => text
  | .inOperator => "in"
  | .statement text => text
  | .enclosed bracket inner => bracket.opening ++ spell inner ++ bracket.closing

/-- The text of pieces. -/
def spell : Pieces → String
  | [] => ""
  | piece :: rest => piece.spell ++ spell rest

end

mutual

/-- How many brackets stand around each `in` operator and each statement of a piece, when so
many stand around the piece. -/
def Piece.depths (around : Nat) : Piece → List Nat
  | .plain _ => []
  | .inOperator => [around]
  | .statement _ => [around]
  | .enclosed _ inner => depths (around + 1) inner

/-- How many brackets stand around each `in` operator and each statement, when so many stand
around all pieces. -/
def depths (around : Nat) : Pieces → List Nat
  | [] => []
  | piece :: rest => piece.depths around ++ depths around rest

end

/-- A text without brackets and `in` operators. -/
def plainly (text : String) : Pieces :=
  [.plain text]

/-- Pieces in brackets. -/
def within (bracket : Bracket) (inner : Pieces) : Pieces :=
  [.enclosed bracket inner]

/-- Pieces with a text between neighbours. -/
def separated (separator : String) : List Pieces → Pieces
  | [] => []
  | [last] => last
  | first :: next :: rest => first ++ plainly separator ++ separated separator (next :: rest)

/-! ## Printing with a flag -/

/-- Printing that keeps a flag: are `in` operators protected? -/
abbrev Outliner (α : Type) := StateT Bool (Except Fault) α

/-- What can be read off a tree, or is printed without the flag. -/
def ask {α : Type} (x : Except Fault α) : Outliner α :=
  StateT.lift x

/-- Print with another flag, and put the old one back. -/
def withFlag {α : Type} (flag : Bool) (outliner : Outliner α) : Outliner α := do
  let saved ← get
  set flag
  let result ← outliner
  set saved
  return result

/-- The outlines of several parts, in order. -/
def outlineEach (outline : Tree → Outliner Pieces) : List Tree → Outliner (List Pieces)
  | [] => return []
  | t :: rest => do
    let pieces ← outline t
    return pieces :: (← outlineEach outline rest)

/-- The forms that every other form may refer to: the rules of the printer, and the
outlines of expressions at a level, at a place that demands the given binding strength. -/
structure Outlines where
  /-- The rules of the printer. -/
  rules : Rules
  /-- The outline of an expression. -/
  expression : Nat → Nat → Tree → Outliner Pieces

namespace Outlines

variable (outlines : Outlines)

/-! ### Blocks, functions and classes -/

/-- Lines in braces. -/
def braced (level : Nat) (separator : String) (lines : List Pieces) : Pieces :=
  let inner := pad outlines.rules.indent (level + 1)
  within .curly (plainly "\n" ++ separated separator (lines.map (plainly inner ++ ·)) ++
    plainly "\n" ++ plainly (pad outlines.rules.indent level))

/-- A statement: no `in` operator is protected in it. -/
def statement (level : Nat) (t : Tree) : Outliner Pieces :=
  withFlag false do return [.statement (← ask (outlines.rules.statement level t))]

/-- Statements in braces. -/
def block (level : Nat) (statements : List Tree) : Outliner Pieces := do
  if statements.isEmpty then return within .curly []
  return outlines.braced level "\n" (← outlineEach (outlines.statement (level + 1)) statements)

/-- The statements in the `body` of a node, in braces. -/
def blockOf (level : Nat) (t : Tree) : Outliner Pieces := do
  outlines.block level (← ask (← ask (t.need "body")).items)

/-- Expressions with commas between. -/
def arguments (level : Nat) (args : List Tree) : Outliner Pieces := do
  return separated ", " (← outlineEach (outlines.expression level assignmentLevel)
    (args.filter fun arg => !arg.isNull))

/-- The parameters and the body of a function. -/
def functionTail (level : Nat) (t : Tree) : Outliner Pieces := do
  let t ← ask t.withFields
  let params ← outlines.arguments level (← ask (t.get "params").items)
  let body ← outlines.blockOf level (← ask (t.need "body"))
  return within .round params ++ plainly " " ++ body

/-- A function with its keyword. -/
def function (level : Nat) (t : Tree) : Outliner Pieces := do
  let head := (if t.has "async" then "async function" else "function") ++
    (if t.has "generator" then "*" else "") ++ " "
  let name ← if t.has "id" then ask ((← ask (t.need "id")).needText "name") else pure ""
  return plainly head ++ plainly name ++ (← outlines.functionTail level t)

/-- An arrow function. -/
def arrow (level : Nat) (t : Tree) : Outliner Pieces := do
  let params ← outlines.arguments level (← ask (t.get "params").items)
  let head := plainly (if t.has "async" then "async " else "") ++ within .round params ++
    plainly " => "
  let body ← ask (t.need "body")
  if (← ask body.needKind) = "BlockStatement" then
    return head ++ (← outlines.blockOf level body)
  else
    let pieces ← outlines.expression level assignmentLevel body
    return head ++ (if (spell pieces).toList.head? = some '{' then within .round pieces else pieces)

/-- The key of a property or class member. -/
def propertyKey (level : Nat) (t : Tree) : Outliner Pieces := do
  let key ← ask (t.need "key")
  if t.has "computed" then
    return within .square (← outlines.expression level assignmentLevel key)
  else if (← ask key.needKind) = "Identifier" then
    return plainly (← ask (key.needText "name"))
  else outlines.expression level sequenceLevel key

/-- A property of an object literal or pattern. -/
def property (level : Nat) (t : Tree) : Outliner Pieces := do
  if (← ask t.needKind) ≠ "Property" then outlines.expression level assignmentLevel t
  else
    let key ← outlines.propertyKey level t
    let value ← ask (t.need "value")
    let kind := ((t.get? "kind").getD (.text "init")).inText
    let full : Outliner Pieces := do
      return key ++ plainly ": " ++ (← outlines.expression level assignmentLevel value)
    if kind = "get" ∨ kind = "set" then
      return plainly kind ++ plainly " " ++ key ++ (← outlines.functionTail level value)
    else if t.has "method" then
      return plainly (← ask (Rules.methodMark value)) ++ key ++
        (← outlines.functionTail level value)
    else if t.has "shorthand" && !t.has "computed" then
      match ← ask (Rules.shorthandDefault (spell key) value) with
      | some none => return key
      | some (some right) =>
        return key ++ plainly " = " ++ (← outlines.expression level assignmentLevel right)
      | none => full
    else full

/-- A member of a class. -/
def member (level : Nat) (t : Tree) : Outliner Pieces := do
  let value ← ask (t.need "value")
  let kind := (t.get "kind").inText
  let mark ←
    if kind = "get" ∨ kind = "set" then pure (kind ++ " ") else ask (Rules.methodMark value)
  let key ← outlines.propertyKey level t
  return plainly (if t.has "static" then "static " else "") ++ plainly mark ++ key ++
    (← outlines.functionTail level value)

/-- A class. -/
def classText (level : Nat) (t : Tree) : Outliner Pieces := do
  let name ←
    if t.has "id" then do pure (" " ++ (← ask ((← ask (t.need "id")).needText "name"))) else pure ""
  let parent ←
    if (t.get "superClass").isNull then pure []
    else do
      pure (plainly " extends " ++ (← outlines.expression level memberLevel (t.get "superClass")))
  let members ←
    if t.has "body" then do ask ((← ask (t.get "body").withFields).get "body").items else pure []
  let head := plainly "class" ++ plainly name ++ parent
  if members.isEmpty then return head ++ plainly " " ++ within .curly []
  else return head ++ plainly " " ++
    outlines.braced level "\n" (← outlineEach (outlines.member (level + 1)) members)

/-! ### Expressions -/

/-- An array literal or pattern. -/
def array (level : Nat) (t : Tree) : Outliner Pieces := do
  let elements ← ask (t.get "elements").items
  let pieces ← outlineEach
    (fun element =>
      if element.isNull then pure [] else outlines.expression level assignmentLevel element)
    elements
  let hole := elements.getLast?.any Tree.isNull
  return within .square (separated ", " pieces ++ plainly (if hole then "," else ""))

/-- An object literal. -/
def object (level : Nat) (t : Tree) : Outliner Pieces := do
  let properties ← ask (t.get "properties").items
  if properties.isEmpty then return within .curly []
  return outlines.braced level ",\n" (← outlineEach (outlines.property (level + 1)) properties)

/-- An object pattern. -/
def objectPattern (level : Nat) (t : Tree) : Outliner Pieces := do
  let properties ← ask (t.get "properties").items
  return within .curly (separated ", " (← outlineEach (outlines.property level) properties))

/-- The pieces of a template with the substitutions between them. -/
def templateParts (level : Nat) : List Tree → List Tree → Outliner Pieces
  | [], _ => return []
  | quasi :: quasis, [] => do
    return plainly (← ask (Rules.templatePiece quasi)) ++ (← templateParts level quasis [])
  | quasi :: quasis, expr :: exprs => do
    let piece ← ask (Rules.templatePiece quasi)
    let pieces ← outlines.expression level sequenceLevel expr
    return plainly piece ++ within .substitution pieces ++ (← templateParts level quasis exprs)

/-- A template. -/
def template (level : Nat) (t : Tree) : Outliner Pieces := do
  let t ← ask t.withFields
  let quasis ← ask (t.get "quasis").items
  let exprs ← ask (t.get "expressions").items
  return plainly "`" ++ (← outlines.templateParts level quasis exprs) ++ plainly "`"

/-- An access to a member. -/
def access (level : Nat) (t : Tree) : Outliner Pieces := do
  let object ← ask (t.need "object")
  let pieces ← outlines.expression level memberLevel object
  let pieces :=
    if object.isKind "Literal" && isDigits (spell pieces) then within .round pieces else pieces
  if t.has "computed" then
    return pieces ++
      within .square (← outlines.expression level sequenceLevel (← ask (t.need "property")))
  else return pieces ++ plainly "." ++ plainly (← ask ((← ask (t.need "property")).needText "name"))

/-- The arguments of a call in parentheses. -/
def callArguments (level : Nat) (t : Tree) : Outliner Pieces := do
  return within .round (← outlines.arguments level (← ask (t.get "arguments").items))

/-- A call. -/
def call (level : Nat) (t : Tree) : Outliner Pieces := do
  let callee ← outlines.expression level memberLevel (← ask (t.need "callee"))
  return callee ++ (← outlines.callArguments level t)

/-- An expression with `new`. -/
def new (level : Nat) (t : Tree) : Outliner Pieces := do
  let callee ← ask (t.need "callee")
  let pieces ← outlines.expression level memberLevel callee
  let pieces := if chainHasCall callee then within .round pieces else pieces
  return plainly "new " ++ pieces ++ (← outlines.callArguments level t)

/-- An operator in front of its operand. -/
def unary (level : Nat) (t : Tree) : Outliner Pieces := do
  let operator ← ask (t.needText "operator")
  let argument ← outlines.expression level unaryLevel (← ask (t.need "argument"))
  let isWord := ["typeof", "void", "delete"].contains operator
  let isSign := operator = "-" || operator = "+"
  if isWord || (isSign && operator.toList.isPrefixOf (spell argument).toList) then
    return plainly operator ++ plainly " " ++ argument
  else return plainly operator ++ argument

/-- An update before or after its operand. -/
def update (level : Nat) (t : Tree) : Outliner Pieces := do
  let operator ← ask (t.needText "operator")
  let argument ← ask (t.need "argument")
  if t.has "prefix" then
    return plainly operator ++ (← outlines.expression level unaryLevel argument)
  else return (← outlines.expression level updateLevel argument) ++ plainly operator

/-- The operator of a binary or logical expression. -/
def operatorPieces (t : Tree) (operator : String) : Pieces :=
  if t.isKind "BinaryExpression" && operator = "in" then [.inOperator] else plainly operator

/-- An operator between two operands. -/
def binary (level : Nat) (t : Tree) : Outliner Pieces := do
  let operator := (← ask (t.need "operator")).inText
  let own ← ask (precedence t)
  let leftNode ← ask (t.need "left")
  if operator = "**" then
    let left ← outlines.expression level (own + 1) leftNode
    let bare := ["UnaryExpression", "AwaitExpression"].any leftNode.isKind &&
      (spell left).toList.head? ≠ some '('
    let right ← outlines.expression level own (← ask (t.need "right"))
    return (if bare then within .round left else left) ++ plainly " ** " ++ right
  else
    let left ← outlines.expression level own leftNode
    let right ← outlines.expression level (own + 1) (← ask (t.need "right"))
    return left ++ plainly " " ++ operatorPieces t operator ++ plainly " " ++ right

/-- A choice between two expressions. -/
def conditional (level : Nat) (t : Tree) : Outliner Pieces := do
  let test ← outlines.expression level (conditionalLevel + 1) (← ask (t.need "test"))
  let consequent ← outlines.expression level assignmentLevel (← ask (t.need "consequent"))
  let alternate ← outlines.expression level assignmentLevel (← ask (t.need "alternate"))
  return test ++ plainly " ? " ++ consequent ++ plainly " : " ++ alternate

/-- An assignment. -/
def assignment (level : Nat) (t : Tree) : Outliner Pieces := do
  let left ← outlines.expression level memberLevel (← ask (t.need "left"))
  let right ← outlines.expression level assignmentLevel (← ask (t.need "right"))
  return left ++ plainly " " ++ plainly (← ask (t.need "operator")).inText ++ plainly " " ++ right

/-- A pattern with a default. -/
def withDefault (level : Nat) (t : Tree) : Outliner Pieces := do
  let left ← outlines.expression level memberLevel (← ask (t.need "left"))
  return left ++ plainly " = " ++
    (← outlines.expression level assignmentLevel (← ask (t.need "right")))

/-- A `yield` with its operand. -/
def yield (level : Nat) (t : Tree) : Outliner Pieces := do
  let word := if t.has "delegate" then "yield*" else "yield"
  let argument := t.get "argument"
  if argument.isNull then return plainly word
  else return plainly word ++ plainly " " ++
    (← outlines.expression level assignmentLevel argument)

/-- A template applied to an expression. -/
def taggedTemplate (level : Nat) (t : Tree) : Outliner Pieces := do
  let tag ← outlines.expression level memberLevel (← ask (t.need "tag"))
  return tag ++ (← outlines.template level (← ask (t.need "quasi")))

/-- Expressions with commas between. -/
def sequence (level : Nat) (t : Tree) : Outliner Pieces := do
  return separated ", " (← outlineEach (outlines.expression level assignmentLevel)
    (← ask (← ask (t.need "expressions")).listed))

/-- A spread or rest element. -/
def spread (level : Nat) (t : Tree) : Outliner Pieces := do
  return plainly "..." ++ (← outlines.expression level assignmentLevel (← ask (t.need "argument")))

/-- An `await` with its operand. -/
def await (level : Nat) (t : Tree) : Outliner Pieces := do
  return plainly "await " ++ (← outlines.expression level unaryLevel (← ask (t.need "argument")))

/-- A form without brackets. -/
def leaf (print : Tree → Print) (_ : Nat) (t : Tree) : Outliner Pieces := do
  return plainly (← ask (print t))

/-- The outline for each kind of expression. -/
def expressionForm? : String → Option (Nat → Tree → Outliner Pieces)
  | "Identifier" => some (leaf fun t => t.needText "name")
  | "Literal" => some (leaf fun t => .ok (literal t))
  | "ThisExpression" => some (leaf fun _ => .ok "this")
  | "Super" => some (leaf fun _ => .ok "super")
  | "Import" => some (leaf fun _ => .ok "import")
  | "ArrayExpression" | "ArrayPattern" => some outlines.array
  | "ObjectExpression" => some outlines.object
  | "ObjectPattern" => some outlines.objectPattern
  | "FunctionExpression" => some outlines.function
  | "ArrowFunctionExpression" => some outlines.arrow
  | "ClassExpression" => some outlines.classText
  | "TemplateLiteral" => some outlines.template
  | "TaggedTemplateExpression" => some outlines.taggedTemplate
  | "MemberExpression" => some outlines.access
  | "CallExpression" => some outlines.call
  | "NewExpression" => some outlines.new
  | "SequenceExpression" => some outlines.sequence
  | "UnaryExpression" => some outlines.unary
  | "UpdateExpression" => some outlines.update
  | "BinaryExpression" | "LogicalExpression" => some outlines.binary
  | "ConditionalExpression" => some outlines.conditional
  | "AssignmentExpression" => some outlines.assignment
  | "AssignmentPattern" => some outlines.withDefault
  | "SpreadElement" | "RestElement" => some outlines.spread
  | "YieldExpression" => some outlines.yield
  | "AwaitExpression" => some outlines.await
  | "MetaProperty" => some (leaf Rules.metaProperty)
  | _ => none

/-- An expression at a place that demands the given binding strength: in parentheses, with
the flag cleared, if it binds less tight or is an `in` operator and the flag is set. -/
def expressionAt (level minimum : Nat) (t : Tree) : Outliner Pieces := do
  match outlines.expressionForm? (← ask t.needKind) with
  | none => ask (.error (.noExpressionForm (← ask (shownKind t))))
  | some form =>
    let strength ← ask (precedence t)
    let exposed ← ask (Rules.isExposedIn ⟨level, ← get⟩ t)
    if strength < minimum || exposed then
      return within .round (← withFlag false (form level t))
    else form level t

/-! ### The start of a loop -/

/-- A declared variable. -/
def declarator (level : Nat) (t : Tree) : Outliner Pieces := do
  let pieces ← outlines.expression level assignmentLevel (← ask (t.need "id"))
  let init := t.get "init"
  if init.isNull then return pieces
  else return pieces ++ plainly " = " ++ (← outlines.expression level assignmentLevel init)

/-- A declaration of variables. -/
def declaration (level : Nat) (t : Tree) : Outliner Pieces := do
  let parts ← outlineEach (outlines.declarator level)
    (← ask (← ask (t.need "declarations")).listed)
  return plainly (← ask (t.need "kind")).inText ++ plainly " " ++ separated ", " parts

/-- The first part of the head of a counted loop, with the flag set. -/
def loopInit (level : Nat) (init : Tree) : Outliner Pieces := do
  if init.isNull then return []
  else if (← ask init.needKind) = "VariableDeclaration" then
    withFlag true (outlines.declaration level init)
  else withFlag true (outlines.expression level sequenceLevel init)

end Outlines

/-- The outlines for trees up to the given depth. -/
def outlines (indent : String) : Nat → Outlines
  | 0 =>
    { rules := rules indent 0
      expression := fun _ _ _ => ask (.error (.wrongShape "a tree of its own depth")) }
  | depth + 1 =>
    { rules := rules indent (depth + 1)
      expression := fun level minimum t => (outlines indent depth).expressionAt level minimum t }

end NameRecovery.Printer
