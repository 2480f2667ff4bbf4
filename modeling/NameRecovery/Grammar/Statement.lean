import NameRecovery.Grammar.Expression

/-!
# Statements
-/

namespace NameRecovery.Grammar

open Source

/-! ## Declarations -/

/-- A declared variable as a node. -/
def declaratorNode (id init : Tree) : Tree :=
  .node "VariableDeclarator" [("id", id), ("init", init)]

/-- A declaration of variables as a node. -/
def declarationNode (kind : String) (declarations : List Tree) : Tree :=
  .node "VariableDeclaration" [("kind", .text kind), ("declarations", .list declarations)]

/-- Complain about a variable with a restricted name in strict code. -/
def checkVariable (id : Tree) (complaint : Complaint) : Parse Unit := do
  if (← context).strict && (identifierName? id).any isRestricted then complainLate complaint

/-- One or more of something, with commas between. -/
def commaList (rules : Rules) (one : Parse Tree) : Parse (List Tree) := do
  let first ← one
  let rest ← collect (do
    if ← accept "," then return some (← one) else return none) rules.budget
  return first :: rest

/-- One variable of a `var` declaration. -/
def variableDeclarator (rules : Rules) (inFor : Bool) : Parse Tree := do
  let (id, _) ← rules.pattern (some "var")
  checkVariable id .strictVariable
  if ← accept "=" then return declaratorNode id (← isolated rules.assignment)
  else
    if !id.isKind "Identifier" && !inFor then expect "="
    return declaratorNode id .null

/-- One variable of a `let` or `const` declaration. -/
def lexicalDeclarator (rules : Rules) (kind : String) (inFor : Bool) : Parse Tree := do
  let (id, _) ← rules.pattern (some kind)
  checkVariable id .strictVariable
  if kind == "const" then
    if (← seesKeyword "in") || (← seesName "of") then return declaratorNode id .null
    else if ← accept "=" then return declaratorNode id (← isolated rules.assignment)
    else complain .missingInitializer
  else if (!inFor && !id.isKind "Identifier") || (← sees "=") then
    expect "="
    return declaratorNode id (← isolated rules.assignment)
  else return declaratorNode id .null

/-- A `let` or `const` declaration. -/
def lexicalDeclaration (rules : Rules) : Parse Tree := do
  let kind := (← nextToken).spelling
  let declarations ← commaList rules (lexicalDeclarator rules kind false)
  endStatement
  return declarationNode kind declarations

/-- Does `let` start a declaration here? -/
def letStartsDeclaration : Parse Bool := do
  let next ← tokenAfter
  match next.lexeme with
  | .name _ => return true
  | .mark text => return text == "[" || text == "\x7b"
  | .keyword text => return text == "let" || text == "yield"
  | _ => return false

/-- A `var` declaration. -/
def variableStatement (rules : Rules) : Parse Tree := do
  expectKeyword "var"
  let declarations ← commaList rules (variableDeclarator rules false)
  endStatement
  return declarationNode "var" declarations

/-! ## Blocks and branches -/

/-- A block in braces. -/
def blockStatement (rules : Rules) : Parse Tree := do
  expect "\x7b"
  let body ← collect (do
    if ← sees "\x7d" then return none else return some (← rules.item)) rules.budget
  expect "\x7d"
  return block body

/-- An expression as a statement. -/
def expressionStatement (rules : Rules) : Parse Tree := do
  let expr ← expression rules
  endStatement
  return .node "ExpressionStatement" [("expression", expr)]

/-- A branch of an `if`. -/
def ifBranch (rules : Rules) : Parse Tree := do
  if (← context).strict && (← seesKeyword "function") then complainLate .strictFunction
  rules.statement

/-- An expression in parentheses after a keyword. -/
def headExpression (rules : Rules) (keyword : String) : Parse Tree := do
  expectKeyword keyword
  expect "("
  let expr ← expression rules
  expect ")"
  return expr

/-- An `if` statement. -/
def ifStatement (rules : Rules) : Parse Tree := do
  let test ← headExpression rules "if"
  let consequent ← ifBranch rules
  let alternate ←
    if ← seesKeyword "else" then do
      let _ ← nextToken
      ifBranch rules
    else pure .null
  return .node "IfStatement"
    [("test", test), ("consequent", consequent), ("alternate", alternate)]

/-- Parse the body of a loop. -/
def loopBody (body : Parse Tree) : Parse Tree := do
  let inLoop := (← context).inLoop
  changeContext fun c => { c with inLoop := true }
  let tree ← body
  changeContext fun c => { c with inLoop }
  return tree

/-- A `do` loop. -/
def doWhileStatement (rules : Rules) : Parse Tree := do
  expectKeyword "do"
  let body ← loopBody rules.statement
  let test ← headExpression rules "while"
  let _ ← accept ";"
  return .node "DoWhileStatement" [("body", body), ("test", test)]

/-- A `while` loop. -/
def whileStatement (rules : Rules) : Parse Tree := do
  let test ← headExpression rules "while"
  let body ← loopBody rules.statement
  return .node "WhileStatement" [("test", test), ("body", body)]

/-! ## Loops with `for` -/

/-- The head of a `for` loop, up to its closing parenthesis. -/
inductive ForHead where
  /-- Over the names of properties. -/
  | forIn (left right : Tree)
  /-- Over values. -/
  | forOf (left right : Tree)
  /-- With a start, a test and a step. -/
  | counted (init : Tree)

/-- Over the names of properties, standing at `in`. -/
def forIn (rules : Rules) (left : Tree) : Parse ForHead := do
  let _ ← nextToken
  return .forIn left (← expression rules)

/-- Over values, standing at `of`. -/
def forOf (rules : Rules) (left : Tree) : Parse ForHead := do
  let _ ← nextToken
  return .forOf left (← rules.assignment)

/-- Parse with `in` being no operator. -/
def withoutIn {α : Type} (p : Parse α) : Parse α := do
  let allowIn := (← context).allowIn
  changeContext fun c => { c with allowIn := false }
  let result ← p
  changeContext fun c => { c with allowIn }
  return result

/-- Has the declared variable an initial value? -/
def hasInit (declarator : Tree) : Bool :=
  !(declarator.get "init").isNull

/-- The head of a `for` loop that declares with `var`. -/
def forVar (rules : Rules) : Parse ForHead := do
  let _ ← nextToken
  let declarations ← withoutIn (commaList rules (variableDeclarator rules true))
  let init := declarationNode "var" declarations
  match declarations with
  | [declarator] =>
    if ← seesKeyword "in" then
      if hasInit declarator &&
          (!(declarator.get "id").isKind "Identifier" || (← context).strict) then
        complainLate (.loopInitializer "for-in")
      forIn rules init
    else if !hasInit declarator && (← seesName "of") then forOf rules init
    else
      expect ";"
      return .counted init
  | _ =>
    expect ";"
    return .counted init

/-- The head of a `for` loop that declares with `let` or `const`. -/
def forLexical (rules : Rules) : Parse ForHead := do
  let kind := (← nextToken).spelling
  if !(← context).strict && (← lookahead).spelling == "in" then forIn rules (identifier kind)
  else
    let declarations ← withoutIn (commaList rules (lexicalDeclarator rules kind true))
    let init := declarationNode kind declarations
    match declarations with
    | [declarator] =>
      if !hasInit declarator && (← seesKeyword "in") then forIn rules init
      else if !hasInit declarator && (← seesName "of") then forOf rules init
      else
        endStatement
        return .counted init
    | _ =>
      endStatement
      return .counted init

/-- Complain if the expression cannot be the variable of a loop. -/
def checkLoopTarget (expr : Tree) (complaint : Complaint) : Parse Unit := do
  if !(← context).isTarget || expr.isKind "AssignmentExpression" then complainLate complaint

/-- The head of a `for` loop that declares nothing. -/
def forExpression (rules : Rules) : Parse ForHead := do
  let init ← withoutIn (inherited rules.assignment)
  if ← seesKeyword "in" then
    checkLoopTarget init .badForInTarget
    forIn rules (asPattern init)
  else if ← seesName "of" then
    checkLoopTarget init .badForOfTarget
    forOf rules (asPattern init)
  else
    let init ←
      if ← sees "," then do
        pure (Tree.node "SequenceExpression"
          [("expressions", .list (init :: (← commaTail rules)))])
      else pure init
    expect ";"
    return .counted init

/-- The head of a `for` loop. -/
def forHead (rules : Rules) : Parse ForHead := do
  if ← accept ";" then return .counted .null
  else if ← seesKeyword "var" then forVar rules
  else if (← seesKeyword "const") || (← seesKeyword "let") then forLexical rules
  else forExpression rules

/-- A `for` loop. -/
def forStatement (rules : Rules) : Parse Tree := do
  expectKeyword "for"
  expect "("
  let head ← forHead rules
  let body : Parse Tree := do
    expect ")"
    loopBody (isolated rules.statement)
  match head with
  | .forIn left right =>
    return .node "ForInStatement"
      [("left", left), ("right", right), ("body", ← body), ("each", .bool false)]
  | .forOf left right =>
    return .node "ForOfStatement" [("left", left), ("right", right), ("body", ← body)]
  | .counted init =>
    let test ← if ← sees ";" then pure .null else expression rules
    expect ";"
    let update ← if ← sees ")" then pure .null else expression rules
    return .node "ForStatement"
      [("init", init), ("test", test), ("update", update), ("body", ← body)]

/-! ## Jumps -/

/-- The label of a jump, if one stands on the same line; it has to be in reach. -/
def jumpLabel : Parse (Option Tree) := do
  match (← lookahead).lexeme with
  | .name text =>
    if ← newlineBefore then return none
    let label ← variableName none
    if !(← context).labels.contains text then complain (.unknownLabel text)
    return some label
  | _ => return none

/-- A `continue` statement. -/
def continueStatement : Parse Tree := do
  expectKeyword "continue"
  let label ← jumpLabel
  endStatement
  if label.isNone && !(← context).inLoop then complain .illegalContinue
  return .node "ContinueStatement" [("label", optional label)]

/-- A `break` statement. -/
def breakStatement : Parse Tree := do
  expectKeyword "break"
  let label ← jumpLabel
  endStatement
  let c ← context
  if label.isNone && !c.inLoop && !c.inSwitch then complain .illegalBreak
  return .node "BreakStatement" [("label", optional label)]

/-- A `return` statement.  A text or template is its operand even after a line
end. -/
def returnStatement (rules : Rules) : Parse Tree := do
  if !(← context).inFunction then complainLate .illegalReturn
  expectKeyword "return"
  let token ← lookahead
  let isText := match token.lexeme with
    | .string _ _ | .template _ _ _ => true
    | _ => false
  let ends := token.isMark ";" || token.isMark "\x7d" || token.isEnd || (← newlineBefore)
  let argument ← if isText || !ends then expression rules else pure .null
  endStatement
  return .node "ReturnStatement" [("argument", argument)]

/-- A `throw` statement. -/
def throwStatement (rules : Rules) : Parse Tree := do
  expectKeyword "throw"
  if ← newlineBefore then complain .newlineAfterThrow
  let argument ← expression rules
  endStatement
  return .node "ThrowStatement" [("argument", argument)]

/-! ## Other statements -/

/-- A `with` statement. -/
def withStatement (rules : Rules) : Parse Tree := do
  if (← context).strict then complainLate .strictWith
  let object ← headExpression rules "with"
  return .node "WithStatement" [("object", object), ("body", ← rules.statement)]

/-- A case of a switch. -/
def switchCase (rules : Rules) : Parse Tree := do
  let test ←
    if ← seesKeyword "default" then do
      let _ ← nextToken
      pure .null
    else do
      expectKeyword "case"
      expression rules
  expect ":"
  let consequent ← collect (do
    if (← sees "\x7d") || (← seesKeyword "default") || (← seesKeyword "case") then return none
    else return some (← rules.item)) rules.budget
  return .node "SwitchCase" [("test", test), ("consequent", .list consequent)]

/-- The cases of a switch up to its closing brace. -/
def switchCases (rules : Rules) : Nat → Bool → Parse (List Tree)
  | 0, _ => complain .tooDeep
  | budget + 1, hasDefault => do
    if ← sees "\x7d" then return []
    let clause ← switchCase rules
    let isDefault := (clause.get "test").isNull
    if isDefault && hasDefault then complain .secondDefault
    return clause :: (← switchCases rules budget (hasDefault || isDefault))

/-- A `switch` statement. -/
def switchStatement (rules : Rules) : Parse Tree := do
  let discriminant ← headExpression rules "switch"
  let inSwitch := (← context).inSwitch
  changeContext fun c => { c with inSwitch := true }
  expect "\x7b"
  let cases ← switchCases rules rules.budget false
  expect "\x7d"
  changeContext fun c => { c with inSwitch }
  return .node "SwitchStatement" [("discriminant", discriminant), ("cases", .list cases)]

/-- Complain about the first name that a caught value binds a second time. -/
def checkDistinct : List String → List String → Parse Unit
  | _, [] => pure ()
  | seen, name :: rest => do
    if seen.contains name then complainLate (.duplicateBinding name)
    checkDistinct (name :: seen) rest

/-- The `catch` of a `try` statement. -/
def catchClause (rules : Rules) : Parse Tree := do
  expectKeyword "catch"
  expect "("
  if ← sees ")" then unexpected (← lookahead)
  let (param, tokens) ← rules.pattern none
  checkDistinct [] (tokens.map Token.spelling)
  checkVariable param .strictCatch
  expect ")"
  return .node "CatchClause" [("param", param), ("body", ← blockStatement rules)]

/-- A `try` statement. -/
def tryStatement (rules : Rules) : Parse Tree := do
  expectKeyword "try"
  let body ← blockStatement rules
  let handler ← if ← seesKeyword "catch" then catchClause rules else pure .null
  let finalizer ←
    if ← seesKeyword "finally" then do
      let _ ← nextToken
      blockStatement rules
    else pure .null
  if handler.isNull && finalizer.isNull then complain .tryAlone
  return .node "TryStatement" [("block", body), ("handler", handler), ("finalizer", finalizer)]

/-- The statement after a label. -/
def labelledBody (rules : Rules) : Parse Tree := do
  let token ← lookahead
  if token.isKeyword "class" then unexpected token
  else if token.isKeyword "function" then
    let declaration ← functionDeclaration rules false
    if (← context).strict then complainAt token .strictFunction
    if declaration.has "generator" then complainAt token .legacyGenerator
    return declaration
  else rules.statement

/-- A statement that starts with a name: with a label, or an expression. -/
def labelledStatement (rules : Rules) : Parse Tree := do
  let expr ← expression rules
  match identifierName? expr, ← sees ":" with
  | some name, true =>
    let _ ← nextToken
    let labels := (← context).labels
    if labels.contains name then complain (.labelDeclared name)
    changeContext fun c => { c with labels := name :: labels }
    let body ← labelledBody rules
    changeContext fun c => { c with labels }
    return .node "LabeledStatement" [("label", expr), ("body", body)]
  | _, _ =>
    endStatement
    return .node "ExpressionStatement" [("expression", expr)]

/-- A statement that starts with a keyword. -/
def keywordStatement (rules : Rules) (text : String) : Parse Tree :=
  match text with
  | "break" => breakStatement
  | "continue" => continueStatement
  | "debugger" => do
    expectKeyword "debugger"
    endStatement
    return .node "DebuggerStatement" []
  | "do" => doWhileStatement rules
  | "for" => forStatement rules
  | "function" => functionDeclaration rules false
  | "if" => ifStatement rules
  | "return" => returnStatement rules
  | "switch" => switchStatement rules
  | "throw" => throwStatement rules
  | "try" => tryStatement rules
  | "var" => variableStatement rules
  | "while" => whileStatement rules
  | "with" => withStatement rules
  | _ => expressionStatement rules

/-- A statement. -/
def statement (rules : Rules) : Parse Tree := do
  let token ← lookahead
  match token.lexeme with
  | .mark "\x7b" => blockStatement rules
  | .mark ";" =>
    expect ";"
    return .node "EmptyStatement" []
  | .name _ =>
    if ← seesAsyncFunction then functionDeclaration rules false else labelledStatement rules
  | .keyword text => keywordStatement rules text
  | .endOfInput => unexpected token
  | _ => expressionStatement rules

end NameRecovery.Grammar
