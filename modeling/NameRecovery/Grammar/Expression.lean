import NameRecovery.Grammar.Class

/-!
# Expressions

From primary expressions up to assignments, in order of binding strength.
-/

namespace NameRecovery.Grammar

open Source

/-! ## Parentheses -/

/-- The expressions after the first one in parentheses, and whether they have
turned out to be arrow parameters. -/
def groupTail (rules : Rules) : Nat → List Tree → Parse (List Tree × Bool)
  | 0, _ => complain .tooDeep
  | budget + 1, done => do
    if !(← sees ",") then return (done, false)
    let _ ← nextToken
    if ← accept ")" then return (done, true)
    else if ← sees "..." then
      if !(← context).isBinding then unexpected (← lookahead)
      let (rest, _) ← restParameter rules
      expect ")"
      if !(← sees "=>") then expect "=>"
      changeContext fun c => { c with isBinding := false }
      return (done ++ [rest], true)
    else
      let expr ← inherited rules.assignment
      groupTail rules budget (done ++ [expr])

/-- What follows the expressions in parentheses, which may be arrow parameters. -/
def groupEnd (expr : Tree) (parts : List Tree) : Parse Tree := do
  expect ")"
  if ← sees "=>" then
    if identifierName? expr == some "yield" then
      changeContext fun c => { c with isBinding := false }
      return arrowParameters false [expr]
    else
      if !(← context).isBinding then unexpected (← lookahead)
      changeContext fun c => { c with isBinding := false }
      return arrowParameters false (parts.map asPattern)
  else
    changeContext fun c => { c with isBinding := false }
    return expr

/-- An expression in parentheses, or arrow parameters. -/
def group (rules : Rules) : Parse Tree := do
  expect "("
  if ← accept ")" then
    if !(← sees "=>") then expect "=>"
    return arrowParameters false []
  else if ← sees "..." then
    let (rest, _) ← restParameter rules
    expect ")"
    if !(← sees "=>") then expect "=>"
    return arrowParameters false [rest]
  else
    changeContext fun c => { c with isBinding := true }
    let expr ← inherited rules.assignment
    if ← sees "," then
      changeContext fun c => { c with isTarget := false }
      let (exprs, arrow) ← groupTail rules rules.budget [expr]
      if arrow then return arrowParameters false (exprs.map asPattern)
      else groupEnd (.node "SequenceExpression" [("expressions", .list exprs)]) exprs
    else if expr.isKind "SequenceExpression" then
      match expr.get "expressions" with
      | .list parts => groupEnd expr parts
      | _ => groupEnd expr [expr]
    else groupEnd expr [expr]

/-! ## Primary expressions -/

/-- Does a call of `import` start here? -/
def seesImportCall : Parse Bool := do
  if ← seesKeyword "import" then return (← tokenAfter).isMark "(" else return false

/-- A primary expression that starts with a keyword. -/
def keywordExpression (rules : Rules) (text : String) : Parse Tree := do
  let c ← context
  if text == "yield" && !c.strict && c.allowYield then anyWord
  else if text == "let" && !c.strict then
    let _ ← nextToken
    return identifier "let"
  else
    plainValue
    if text == "function" then functionExpression rules
    else if text == "this" then
      let _ ← nextToken
      return .node "ThisExpression" []
    else if text == "class" then classExpression rules
    else if ← seesImportCall then
      expectKeyword "import"
      return .node "Import" []
    else unexpected (← nextToken)

/-- A primary expression. -/
def primary (rules : Rules) : Parse Tree := do
  let token ← lookahead
  match token.lexeme with
  | .name text =>
    let c ← context
    if text == "await" && (c.isModule || c.allowAwait) then unexpected token
    if ← seesAsyncFunction then functionExpression rules
    else
      let _ ← nextToken
      return identifier text
  | .number _ | .string _ _ =>
    checkOctal token
    plainValue
    let _ ← nextToken
    return literal token
  | .boolean _ | .null =>
    plainValue
    let _ ← nextToken
    return literal token
  | .template _ _ _ => template rules
  | .mark "(" =>
    changeContext fun c => { c with isBinding := false }
    inherited (group rules)
  | .mark "[" => inherited (arrayLiteral rules)
  | .mark "\x7b" => inherited (objectLiteral rules)
  | .mark "/" | .mark "/=" =>
    plainValue
    let token ← nextRegex
    match token.lexeme with
    | .regex pattern flags =>
      return .node "Literal"
        [("raw", .text token.raw),
          ("regex", .record [("pattern", .text pattern), ("flags", .text flags)])]
    | _ => unexpected token
  | .keyword text => keywordExpression rules text
  | _ => unexpected (← nextToken)

/-! ## Members and calls -/

/-- A member access as a node. -/
def memberNode (object property : Tree) (computed : Bool) : Tree :=
  .node "MemberExpression"
    [("object", object), ("property", property), ("computed", .bool computed)]

/-- A call as a node. -/
def callNode (kind : String) (callee : Tree) (args : List Tree) : Tree :=
  .node kind [("callee", callee), ("arguments", .list args)]

/-- One access to a member, or a template applied to the expression, if one
follows. -/
def access? (rules : Rules) (expr : Tree) : Parse (Option Tree) := do
  let token ← lookahead
  match token.lexeme with
  | .mark "." =>
    plainTarget
    expect "."
    return memberNode expr (← anyWord) false
  | .mark "[" =>
    plainTarget
    expect "["
    let property ← isolated (expression rules)
    expect "]"
    return memberNode expr property true
  | .template _ true _ =>
    return Tree.node "TaggedTemplateExpression" [("tag", expr), ("quasi", ← template rules)]
  | _ => return none

/-- The accesses that follow the operand of `new`. -/
def accesses (rules : Rules) : Nat → Tree → Parse Tree
  | 0, _ => complain .tooDeep
  | budget + 1, expr => do
    match ← access? rules expr with
    | some expr => accesses rules budget expr
    | none => return expr

/-- An expression with `new`, or `new.target`. -/
def newExpression (rules : Rules) : Parse Tree := do
  let new ← anyWord
  if ← accept "." then
    let token ← lookahead
    if token.isName "target" && (← context).inFunction then
      return .node "MetaProperty" [("meta", new), ("property", ← anyWord)]
    else unexpected token
  else if ← seesKeyword "import" then unexpected (← lookahead)
  else
    let callee ← isolated rules.callee
    let args ← if ← sees "(" then arguments rules else pure []
    plainValue
    return callNode "NewExpression" callee args

/-- A primary expression or one with `new`. -/
def operand (rules : Rules) : Parse Tree := do
  inherited (if ← seesKeyword "new" then newExpression rules else primary rules)

/-- The parent class, where it can stand, before one of the given brackets. -/
def superAccess (brackets : List String) : Parse Tree := do
  expectKeyword "super"
  if !(← seesAny brackets) then unexpected (← lookahead)
  return .node "Super" []

/-- Does the parent class stand here, inside a function? -/
def seesSuper : Parse Bool := do
  return (← seesKeyword "super") && (← context).inFunction

/-- The operand of `new`: no call belongs to it. -/
def callee (rules : Rules) : Parse Tree := do
  let expr ← if ← seesSuper then superAccess ["[", "."] else operand rules
  accesses rules rules.budget expr

/-- A call, with arguments that may be the parameters of an asynchronous arrow
function. -/
def call (rules : Rules) (expr : Tree) (maybeArrow : Bool) : Parse Tree := do
  plainValue
  let args ← if maybeArrow then asyncArguments rules else arguments rules
  if expr.isKind "Import" && args.length != 1 then complainLate .misplacedClause
  if maybeArrow && (← sees "=>") then return arrowParameters true (args.map asPattern)
  else return callNode "CallExpression" expr args

/-- The accesses and calls that follow an expression; `start` is its first
token. -/
def callChain (rules : Rules) (start : Token) : Nat → Tree → Parse Tree
  | 0, _ => complain .tooDeep
  | budget + 1, expr => do
    if ← sees "(" then
      let maybeArrow := start.isName "async" && start.line == (← lookahead).line
      callChain rules start budget (← call rules expr maybeArrow)
    else
      match ← access? rules expr with
      | some expr => callChain rules start budget expr
      | none => return expr

/-- An operand with accesses and calls. -/
def callExpression (rules : Rules) : Parse Tree := do
  let start ← lookahead
  let allowIn := (← context).allowIn
  changeContext fun c => { c with allowIn := true }
  let expr ← if ← seesSuper then superAccess ["(", ".", "["] else operand rules
  let expr ← callChain rules start rules.budget expr
  changeContext fun c => { c with allowIn }
  return expr

/-! ## Operators -/

/-- Complain if the operand of an update cannot be updated. -/
def checkUpdate (expr : Tree) (complaint : Complaint) : Parse Unit := do
  let c ← context
  if c.strict && (identifierName? expr).any isRestricted then complainLate complaint
  if !c.isTarget then complainLate .badAssignmentTarget

/-- An update as a node. -/
def updateNode (operator : String) (argument : Tree) (before : Bool) : Tree :=
  .node "UpdateExpression"
    [("operator", .text operator), ("argument", argument), ("prefix", .bool before)]

/-- An update, or anything that binds tighter. -/
def update (rules : Rules) : Parse Tree := do
  if ← seesAny ["++", "--"] then
    let token ← nextToken
    let expr ← inherited rules.unary
    checkUpdate expr .strictUpdate
    plainValue
    return updateNode token.spelling expr true
  else
    let expr ← inherited (callExpression rules)
    if !(← newlineBefore) && (← seesAny ["++", "--"]) then
      checkUpdate expr .strictPostfix
      plainValue
      let token ← nextToken
      return updateNode token.spelling expr false
    else return expr

/-- Is the token an operator that stands before its operand? -/
def isUnaryOperator (token : Token) : Bool :=
  ["+", "-", "~", "!"].any token.isMark || ["delete", "void", "typeof"].any token.isKeyword

/-- An expression with an operator in front, or anything that binds tighter. -/
def unary (rules : Rules) : Parse Tree := do
  let token ← lookahead
  if isUnaryOperator token then
    let _ ← nextToken
    let argument ← inherited rules.unary
    if token.isKeyword "delete" && argument.isKind "Identifier" && (← context).strict then
      complainLate .strictDelete
    plainValue
    return .node "UnaryExpression"
      [("operator", .text token.spelling), ("argument", argument), ("prefix", .bool true)]
  else if token.isName "await" && (← context).allowAwait then
    let _ ← nextToken
    return .node "AwaitExpression" [("argument", ← rules.unary)]
  else update rules

/-- An expression with two operands as a node. -/
def binaryNode (operator : String) (left right : Tree) : Tree :=
  .node (if operator == "||" || operator == "&&" then "LogicalExpression" else "BinaryExpression")
    [("operator", .text operator), ("left", left), ("right", right)]

/-- A power, or anything that binds tighter.  The base may not have an operator in
front. -/
def power (rules : Rules) : Parse Tree := do
  let base ← inherited rules.unary
  if !base.isKind "UnaryExpression" && (← sees "**") then
    let _ ← nextToken
    plainValue
    return binaryNode "**" base (← isolated rules.power)
  else return base

/-- How tight an operator between two operands binds; zero if the token is none. -/
def bindingStrength (allowIn : Bool) (token : Token) : Nat :=
  match token.lexeme with
  | .mark text =>
    if text == "||" then 1
    else if text == "&&" then 2
    else if text == "|" then 3
    else if text == "^" then 4
    else if text == "&" then 5
    else if ["==", "!=", "===", "!=="].contains text then 6
    else if ["<", ">", "<=", ">="].contains text then 7
    else if ["<<", ">>", ">>>"].contains text then 8
    else if ["+", "-"].contains text then 9
    else if ["*", "/", "%"].contains text then 11
    else 0
  | .keyword text => if text == "instanceof" || (text == "in" && allowIn) then 7 else 0
  | _ => 0

/-- A left operand that waits for its right one, with the operator between. -/
structure Waiting where
  /-- The left operand. -/
  left : Tree
  /-- The operator. -/
  operator : String
  /-- How tight the operator binds. -/
  strength : Nat

/-- Join the waiting operands whose operators bind at least as tight as the given
strength. -/
def joinWaiting (strength : Nat) : List Waiting → Tree → List Waiting × Tree
  | [], right => ([], right)
  | w :: rest, right =>
    if strength ≤ w.strength then joinWaiting strength rest (binaryNode w.operator w.left right)
    else (w :: rest, right)

/-- The operators and operands that follow an operand. -/
def binaryTail (rules : Rules) : Nat → List Waiting → Tree → Parse Tree
  | 0, _, _ => complain .tooDeep
  | budget + 1, waiting, right => do
    let token ← lookahead
    let strength := bindingStrength (← context).allowIn token
    if strength == 0 then return (joinWaiting 0 waiting right).2
    let (waiting, left) := joinWaiting strength waiting right
    let _ ← nextToken
    plainValue
    let next ← isolated rules.power
    binaryTail rules budget (⟨left, token.spelling, strength⟩ :: waiting) next

/-- Operands with operators between them, or anything that binds tighter. -/
def binary (rules : Rules) : Parse Tree := do
  binaryTail rules rules.budget [] (← inherited rules.power)

/-- A choice between two expressions, or anything that binds tighter. -/
def conditional (rules : Rules) : Parse Tree := do
  let test ← inherited (binary rules)
  if ← accept "?" then
    let allowIn := (← context).allowIn
    changeContext fun c => { c with allowIn := true }
    let consequent ← isolated rules.assignment
    changeContext fun c => { c with allowIn }
    expect ":"
    let alternate ← isolated rules.assignment
    plainValue
    return .node "ConditionalExpression"
      [("test", test), ("consequent", consequent), ("alternate", alternate)]
  else return test

/-! ## Assignments -/

/-- Can an expression start with the token, after `yield`? -/
def startsExpression (token : Token) : Bool :=
  match token.lexeme with
  | .mark text =>
    ["[", "(", "\x7b", "+", "-", "!", "~", "++", "--", "/", "/="].contains text
  | .keyword text =>
    ["class", "delete", "function", "let", "new", "super", "this", "typeof", "void",
      "yield"].contains text
  | _ => true

/-- A `yield` with its operand. -/
def yieldExpression (rules : Rules) : Parse Tree := do
  expectKeyword "yield"
  let node (argument : Tree) (delegate : Bool) : Tree :=
    .node "YieldExpression" [("argument", argument), ("delegate", .bool delegate)]
  if ← newlineBefore then return node .null false
  let allowYield := (← context).allowYield
  changeContext fun c => { c with allowYield := false }
  let delegate ← accept "*"
  let argument ←
    if delegate || startsExpression (← lookahead) then rules.assignment else pure .null
  changeContext fun c => { c with allowYield }
  return node argument delegate

/-- The arrow and the body of an arrow function. -/
def arrowFunction (rules : Rules) (ps : Parameters) (isAsync : Bool) : Parse Tree := do
  if ← newlineBefore then unexpected (← lookahead)
  changeContext fun c => { c with coverError := none }
  let before ← context
  changeContext fun c => { c with
    allowStrictDirective := ps.simple
    allowYield := true
    allowAwait := isAsync }
  expect "=>"
  let body ←
    if ← sees "\x7b" then do
      let allowIn := (← context).allowIn
      changeContext fun c => { c with allowIn := true }
      let body ← functionBody rules
      changeContext fun c => { c with allowIn }
      pure body
    else isolated rules.assignment
  checkStrictParameters ps
  changeContext fun c => { c with
    strict := before.strict
    allowStrictDirective := before.allowStrictDirective
    allowYield := before.allowYield
    allowAwait := before.allowAwait }
  return .node "ArrowFunctionExpression"
    [("params", .list ps.params), ("body", body), ("generator", .bool false),
      ("async", .bool isAsync), ("expression", .bool !body.isKind "BlockStatement")]

/-- The assignment operators. -/
def assignmentOperators : List String :=
  ["=", "*=", "**=", "/=", "%=", "+=", "-=", "<<=", ">>=", ">>>=", "&=", "^=", "|="]

/-- The operator and the value of an assignment to an expression that starts with
the given token. -/
def assignTo (rules : Rules) (start : Token) (target : Tree) : Parse Tree := do
  let c ← context
  if !c.isTarget then complainLate .badAssignmentTarget
  if c.strict then
    if let some name := identifierName? target then
      if isRestricted name then complainAt start .strictAssignment
      if isStrictReserved name then complainAt start .strictReserved
  let plain ← sees "="
  if !plain then plainValue
  let operator ← nextToken
  let right ← isolated rules.assignment
  changeContext fun c => { c with coverError := none }
  return .node "AssignmentExpression"
    [("operator", .text operator.spelling), ("left", if plain then asPattern target else target),
      ("right", right)]

/-- The only parameter of an asynchronous arrow function without parentheses, if
`async` has just been read as a name. -/
def asyncParameter? (rules : Rules) (start : Token) : Parse (Option Tree) := do
  let next ← lookahead
  let isName := match next.lexeme with
    | .name _ => true
    | _ => false
  if start.isName "async" && start.line == next.line && (isName || next.isKeyword "yield") then
    return arrowParameters true [asPattern (← primary rules)]
  else return none

/-- An expression without commas. -/
def assignment (rules : Rules) : Parse Tree := do
  if !(← context).allowYield && (← seesKeyword "yield") then yieldExpression rules
  else
    let start ← lookahead
    let expr ← conditional rules
    let expr := (← asyncParameter? rules start).getD expr
    if expr.isKind "ArrowParameterPlaceHolder" || (← sees "=>") then
      plainValue
      match ← coverParameters expr with
      | some ps => arrowFunction rules ps (expr.isKind "ArrowParameterPlaceHolder" && expr.has "async")
      | none => return expr
    else if ← seesAny assignmentOperators then assignTo rules start expr
    else return expr

end NameRecovery.Grammar
