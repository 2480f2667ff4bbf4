import NameRecovery.Grammar.Cover
import NameRecovery.Grammar.Pattern

/-!
# Functions and methods

Parameters, bodies with their directives, function declarations and
expressions, and the functions of methods, getters and setters.
-/

namespace NameRecovery.Grammar

open Source

/-! ## Parameters -/

/-- A rest parameter. -/
def restParameter (rules : Rules) : Parse (Tree × List Token) := do
  expect "..."
  let (pattern, tokens) ← rules.pattern none
  if ← sees "=" then complain .restDefault
  if !(← sees ")") then complain .parameterAfterRest
  return (.node "RestElement" [("argument", pattern)], tokens)

/-- One more parameter. -/
def formalParameter (rules : Rules) (ps : Parameters) : Parse Parameters := do
  let (param, tokens) ←
    if ← sees "..." then restParameter rules else patternWithDefault rules none
  let strict := (← context).strict
  let ps := tokens.foldl (fun ps token => ps.admit strict (some token) token.spelling) ps
  return { ps with params := ps.params ++ [param], simple := ps.simple && param.isKind "Identifier" }

/-- The parameters up to the closing parenthesis. -/
def formalParametersFrom (rules : Rules) : Nat → Parameters → Parse Parameters
  | 0, _ => complain .tooDeep
  | budget + 1, ps => do
    if (← sees ")") || (← seesEnd) then return ps
    let ps ← formalParameter rules ps
    if ← sees ")" then return ps
    expect ","
    formalParametersFrom rules budget ps

/-- Parameters in parentheses; what is known of the name of the function comes
before. -/
def formalParameters (rules : Rules) (ps : Parameters) : Parse Parameters := do
  expect "("
  let ps ← formalParametersFrom rules rules.budget ps
  expect ")"
  return ps

/-! ## Bodies -/

/-- A text at the start of a body, as a statement, and the directive it states. -/
def directive (rules : Rules) : Parse (Tree × Option String) := do
  let token ← lookahead
  let expr ← expression rules
  endStatement
  let text := String.ofList (token.raw.toList.drop 1).dropLast
  if expr.isKind "Literal" && text != "" then
    return (.node "ExpressionStatement" [("expression", expr), ("directive", .text text)], text)
  else return (.node "ExpressionStatement" [("expression", expr)], none)

/-- The directives at the start of a body.  `octal` is the first one with an old
octal escape. -/
def directivesFrom (rules : Rules) : Nat → Option Token → Parse (List Tree)
  | 0, _ => complain .tooDeep
  | budget + 1, octal => do
    let token ← lookahead
    match token.lexeme with
    | .string _ isOctal =>
      let (statement, text) ← directive rules
      match text with
      | none => return [statement]
      | some "use strict" =>
        changeContext fun c => { c with strict := true }
        if let some token := octal then complainAt token .octalInStrict
        if !(← context).allowStrictDirective then complainAt token .lateStrictDirective
        return statement :: (← directivesFrom rules budget octal)
      | some _ =>
        let octal := octal <|> (if isOctal then some token else none)
        return statement :: (← directivesFrom rules budget octal)
    | _ => return []

/-- The directives at the start of a body. -/
def directives (rules : Rules) : Parse (List Tree) :=
  directivesFrom rules rules.budget none

/-- Statements up to a closing brace or the end of the text. -/
def itemsToBrace (rules : Rules) : Parse (List Tree) :=
  collect (do
    if (← seesEnd) || (← sees "\x7d") then return none else return some (← rules.item))
    rules.budget

/-- A block as a node. -/
def block (body : List Tree) : Tree :=
  .node "BlockStatement" [("body", .list body)]

/-- The body of a function in braces. -/
def functionBody (rules : Rules) : Parse Tree := do
  expect "\x7b"
  let head ← directives rules
  let before ← context
  changeContext fun c =>
    { c with labels := [], inLoop := false, inSwitch := false, inFunction := true }
  let body ← itemsToBrace rules
  expect "\x7d"
  changeContext fun c => { c with
    labels := before.labels
    inLoop := before.inLoop
    inSwitch := before.inSwitch
    inFunction := before.inFunction }
  return block (head ++ body)

/-! ## Functions -/

/-- A function as a node. -/
def functionNode (kind : String) (id : Option Tree) (params : List Tree) (body : Tree)
    (generator isAsync : Bool) : Tree :=
  .node kind
    [("id", optional id), ("params", .list params), ("body", body),
      ("generator", .bool generator), ("async", .bool isAsync), ("expression", .bool false)]

/-- What is known of the parameters of a function with the given name. -/
def parametersAfterName (token : Token) : Parse Parameters := do
  let name := token.spelling
  if (← context).strict then
    if isRestricted name then complainAt token .strictFunctionName
    return {}
  else if isRestricted name then
    return { firstRestricted := some (some token), objection := some .strictFunctionName }
  else if isStrictReserved name then
    return { firstRestricted := some (some token), objection := some .strictReserved }
  else return {}

/-- The parameters and the body of a function whose name has been read. -/
def functionRest (rules : Rules) (ps : Parameters) : Parse (List Tree × Tree) := do
  let ps ← formalParameters rules ps
  let before ← context
  changeContext fun c => { c with allowStrictDirective := ps.simple }
  let body ← functionBody rules
  checkStrictParameters ps
  changeContext fun c => { c with
    strict := before.strict
    allowStrictDirective := before.allowStrictDirective }
  return (ps.params, body)

/-- Does an asynchronous function start here? -/
def seesAsyncFunction : Parse Bool := do
  if ← seesName "async" then
    let line := (← get).cursor.line
    let next ← tokenAfter
    return next.line == line && next.isKeyword "function"
  else return false

/-- The start of a function: whether it is asynchronous and whether it is a
generator. -/
def functionHead : Parse (Bool × Bool) := do
  let isAsync ← seesName "async"
  if isAsync then
    let _ ← nextToken
  expectKeyword "function"
  let generator ← if isAsync then pure false else accept "*"
  return (isAsync, generator)

/-- A function declaration; as a default export it needs no name. -/
def functionDeclaration (rules : Rules) (nameOptional : Bool) : Parse Tree := do
  let (isAsync, generator) ← functionHead
  let (id, ps) ←
    if nameOptional && (← sees "(") then pure (none, {})
    else do
      let token ← lookahead
      let id ← variableName none
      pure (some id, ← parametersAfterName token)
  let before ← context
  changeContext fun c => { c with allowAwait := isAsync, allowYield := !generator }
  let (params, body) ← functionRest rules ps
  changeContext fun c => { c with
    allowAwait := before.allowAwait
    allowYield := before.allowYield }
  return functionNode "FunctionDeclaration" id params body generator isAsync

/-- A function expression. -/
def functionExpression (rules : Rules) : Parse Tree := do
  let (isAsync, generator) ← functionHead
  let before ← context
  changeContext fun c => { c with allowAwait := isAsync, allowYield := !generator }
  let (id, ps) ←
    if ← sees "(" then pure (none, {})
    else do
      let token ← lookahead
      let id ←
        if !(← context).strict && !generator && token.isKeyword "yield" then anyWord
        else variableName none
      pure (some id, ← parametersAfterName token)
  let (params, body) ← functionRest rules ps
  changeContext fun c => { c with
    allowAwait := before.allowAwait
    allowYield := before.allowYield }
  return functionNode "FunctionExpression" id params body generator isAsync

/-! ## Methods -/

/-- The body of a method. -/
def methodBody (rules : Rules) (ps : Parameters) : Parse Tree := do
  plainValue
  let before ← context
  changeContext fun c => { c with allowStrictDirective := ps.simple }
  let body ← isolated (functionBody rules)
  checkStrictParameters ps
  changeContext fun c => { c with
    strict := before.strict
    allowStrictDirective := before.allowStrictDirective }
  return body

/-- The function of a method, as a node. -/
def methodNode (params : List Tree) (body : Tree) (generator isAsync : Bool) : Tree :=
  functionNode "FunctionExpression" none params body generator isAsync

/-- The function of a plain method. -/
def plainMethod (rules : Rules) : Parse Tree := do
  let allowYield := (← context).allowYield
  changeContext fun c => { c with allowYield := true }
  let ps ← formalParameters rules {}
  let body ← methodBody rules ps
  changeContext fun c => { c with allowYield }
  return methodNode ps.params body false false

/-- The function of an asynchronous method. -/
def asyncMethod (rules : Rules) : Parse Tree := do
  let before ← context
  changeContext fun c => { c with allowYield := false, allowAwait := true }
  let ps ← formalParameters rules {}
  let body ← methodBody rules ps
  changeContext fun c => { c with
    allowYield := before.allowYield
    allowAwait := before.allowAwait }
  return methodNode ps.params body false true

/-- The function of a generator method. -/
def generatorMethod (rules : Rules) : Parse Tree := do
  let allowYield := (← context).allowYield
  changeContext fun c => { c with allowYield := true }
  let ps ← formalParameters rules {}
  changeContext fun c => { c with allowYield := false }
  let body ← methodBody rules ps
  changeContext fun c => { c with allowYield }
  return methodNode ps.params body true false

/-- The function of a getter. -/
def getterMethod (rules : Rules) : Parse Tree := do
  changeContext fun c => { c with allowYield := true }
  let ps ← formalParameters rules {}
  if !ps.params.isEmpty then complainLate .getterArity
  let body ← methodBody rules ps
  changeContext fun c => { c with allowYield := false }
  return methodNode ps.params body false false

/-- The function of a setter. -/
def setterMethod (rules : Rules) : Parse Tree := do
  let allowYield := (← context).allowYield
  changeContext fun c => { c with allowYield := true }
  let ps ← formalParameters rules {}
  match ps.params with
  | [param] => if param.isKind "RestElement" then complainLate .setterRest
  | _ => complainLate .setterArity
  let body ← methodBody rules ps
  changeContext fun c => { c with allowYield }
  return methodNode ps.params body false false

end NameRecovery.Grammar
