import NameRecovery.Grammar.State

/-!
# Lists of expressions

Expressions with commas, arguments, array literals, templates, and the keys of
properties.
-/

namespace NameRecovery.Grammar

open Source

/-- Further expressions after commas. -/
def commaTail (rules : Rules) : Parse (List Tree) :=
  collect (do
    if ← accept "," then return some (← isolated rules.assignment) else return none) rules.budget

/-- An expression, which may have commas. -/
def expression (rules : Rules) : Parse Tree := do
  let first ← isolated rules.assignment
  if ← sees "," then
    return .node "SequenceExpression" [("expressions", .list (first :: (← commaTail rules)))]
  else return first

/-- A spread element. -/
def spreadElement (rules : Rules) : Parse Tree := do
  expect "..."
  return .node "SpreadElement" [("argument", ← inherited rules.assignment)]

/-- Arguments in parentheses, each read by the given rule unless it is spread. -/
def argumentsBy (rules : Rules) (argument : Parse Tree) : Parse (List Tree) := do
  expect "("
  let args ← collect (do
    if ← sees ")" then return none
    let arg ← if ← sees "..." then spreadElement rules else isolated argument
    if !(← sees ")") then expect ","
    return some arg) rules.budget
  expect ")"
  return args

/-- Arguments in parentheses. -/
def arguments (rules : Rules) : Parse (List Tree) :=
  argumentsBy rules rules.assignment

/-- Arguments that may turn out to be the parameters of an asynchronous arrow
function. -/
def asyncArguments (rules : Rules) : Parse (List Tree) :=
  argumentsBy rules do
    let arg ← rules.assignment
    changeContext fun c => { c with coverError := none }
    return arg

/-- One element of an array literal, or a hole. -/
def arrayElement (rules : Rules) : Parse Tree := do
  if ← accept "," then return .null
  else if ← sees "..." then
    let element ← spreadElement rules
    if !(← sees "]") then
      plainValue
      expect ","
    return element
  else
    let element ← inherited rules.assignment
    if !(← sees "]") then expect ","
    return element

/-- An array literal. -/
def arrayLiteral (rules : Rules) : Parse Tree := do
  expect "["
  let elements ← collect (do
    if ← sees "]" then return none else return some (← arrayElement rules)) rules.budget
  expect "]"
  return .node "ArrayExpression" [("elements", .list elements)]

/-! ## Templates -/

/-- A piece of a template as a node. -/
def templateElement (raw : String) (tail : Bool) : Tree :=
  .node "TemplateElement" [("value", .record [("raw", .text raw)]), ("tail", .bool tail)]

/-- The substitutions of a template and the pieces after them. -/
def templateRest (rules : Rules) : Nat → Parse (List Tree × List Tree)
  | 0 => complain .tooDeep
  | budget + 1 => do
    let expr ← expression rules
    match (← lookahead).lexeme with
    | .template raw _ tail =>
      let _ ← nextToken
      let piece := templateElement raw tail
      if tail then return ([expr], [piece])
      else
        let (exprs, pieces) ← templateRest rules budget
        return (expr :: exprs, piece :: pieces)
    | _ => complain .illegal

/-- A template. -/
def template (rules : Rules) : Parse Tree := do
  match (← lookahead).lexeme with
  | .template raw true tail =>
    let _ ← nextToken
    let head := templateElement raw tail
    let (exprs, pieces) ← if tail then pure ([], []) else templateRest rules rules.budget
    return .node "TemplateLiteral"
      [("quasis", .list (head :: pieces)), ("expressions", .list exprs)]
  | _ => complain .headlessTemplate

/-! ## Keys of properties -/

/-- The value of a text literal. -/
def literalText? : Tree → Option String
  | .node "Literal" fields =>
    match fields.lookup "raw" with
    | some (.text raw) =>
      if raw.toList.head?.any fun c => c == '"' || c == '\'' then
        match scanString (.start raw.toList) with
        | .ok (⟨.string value _, _, _, _⟩, _) => some value
        | _ => none
      else none
    | _ => none
  | _ => none

/-- The key of a property: a node, and the name it spells.  A name or a text in
brackets spells one too. -/
structure Key where
  /-- The key as a node. -/
  node : Tree
  /-- The name it spells. -/
  name : Option String

/-- The key a name stands for. -/
def Key.ofName (name : String) : Key :=
  ⟨identifier name, name⟩

/-- The key an expression in brackets stands for. -/
def Key.ofExpression (node : Tree) : Key :=
  ⟨node, identifierName? node <|> literalText? node⟩

/-- Can the token start the key of a property? -/
def startsKey (token : Token) : Bool :=
  match token.lexeme with
  | .name _ | .string _ _ | .boolean _ | .null | .number _ | .keyword _ => true
  | .mark text => text == "["
  | _ => false

/-- Is the token a word? -/
def isWord (token : Token) : Bool :=
  match token.lexeme with
  | .name _ | .keyword _ | .boolean _ | .null => true
  | _ => false

/-- Complain about an old octal spelling in strict code. -/
def checkOctal (token : Token) : Parse Unit := do
  let octal := match token.lexeme with
    | .number octal | .string _ octal => octal
    | _ => false
  if octal && (← context).strict then complainAt token .octalInStrict

/-- The key of a property. -/
def propertyKey (rules : Rules) : Parse Key := do
  let token ← nextToken
  match token.lexeme with
  | .string value _ =>
    checkOctal token
    return ⟨literal token, value⟩
  | .number _ =>
    checkOctal token
    return ⟨literal token, none⟩
  | .name text | .keyword text | .boolean text => return .ofName text
  | .null => return .ofName "null"
  | .mark "[" =>
    let key ← isolated rules.assignment
    expect "]"
    return .ofExpression key
  | _ => unexpected token

/-- Any word as a name. -/
def anyWord : Parse Tree := do
  let token ← nextToken
  if isWord token then return identifier token.spelling else unexpected token

end NameRecovery.Grammar
