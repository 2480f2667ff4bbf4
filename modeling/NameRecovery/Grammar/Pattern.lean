import NameRecovery.Grammar.Sequence

/-!
# Patterns in declarations

Names, and array and object patterns with defaults and rest elements.  Every
rule also yields the tokens of the names it binds, for the checks of parameters
and of caught values.
-/

namespace NameRecovery.Grammar

open Source

/-- A name to be bound or used as a label.  `let` can be one only in a `var`
declaration. -/
def variableName (kind : Option String) : Parse Tree := do
  let token ← nextToken
  let c ← context
  match token.lexeme with
  | .keyword "yield" =>
    if c.strict then complainAt token .strictReserved
    if !c.allowYield then unexpected token
  | .name "await" => if c.isModule || c.allowAwait then unexpected token
  | .name _ => pure ()
  | .keyword text =>
    if c.strict && isStrictReserved text then complainAt token .strictReserved
    if c.strict || text != "let" || kind != some "var" then unexpected token
  | _ =>
    if c.strict || token.spelling != "let" || kind != some "var" then unexpected token
  return identifier token.spelling

/-- A pattern with an optional default. -/
def patternWithDefault (rules : Rules) (kind : Option String) : Parse (Tree × List Token) := do
  let (pattern, tokens) ← rules.pattern kind
  if ← accept "=" then
    let allowYield := (← context).allowYield
    changeContext fun c => { c with allowYield := true }
    let right ← isolated rules.assignment
    changeContext fun c => { c with allowYield }
    return (.node "AssignmentPattern" [("left", pattern), ("right", right)], tokens)
  else return (pattern, tokens)

/-- The elements of an array pattern; a rest element is the last one. -/
def patternElements (rules : Rules) (kind : Option String) : Nat → Parse (List Tree × List Token)
  | 0 => complain .tooDeep
  | budget + 1 => do
    if ← sees "]" then return ([], [])
    else if ← accept "," then
      let (elements, tokens) ← patternElements rules kind budget
      return (.null :: elements, tokens)
    else if ← accept "..." then
      let (pattern, tokens) ← rules.pattern kind
      return ([.node "RestElement" [("argument", pattern)]], tokens)
    else
      let (element, tokens) ← patternWithDefault rules kind
      if !(← sees "]") then expect ","
      let (elements, more) ← patternElements rules kind budget
      return (element :: elements, tokens ++ more)

/-- An array pattern. -/
def arrayPattern (rules : Rules) (kind : Option String) : Parse (Tree × List Token) := do
  expect "["
  let (elements, tokens) ← patternElements rules kind rules.budget
  expect "]"
  return (.node "ArrayPattern" [("elements", .list elements)], tokens)

/-- A property of a pattern. -/
def patternProperty (key value : Tree) (computed shorthand : Bool) : Tree :=
  .node "Property"
    [("key", key), ("computed", .bool computed), ("value", value), ("kind", .text "init"),
      ("method", .bool false), ("shorthand", .bool shorthand)]

/-- A property of an object pattern. -/
def propertyPattern (rules : Rules) (kind : Option String) : Parse (Tree × List Token) := do
  let token ← lookahead
  match token.lexeme with
  | .name text =>
    let key ← variableName none
    if ← accept "=" then
      let right ← rules.assignment
      let value := Tree.node "AssignmentPattern" [("left", identifier text), ("right", right)]
      return (patternProperty key value false true, [token])
    else if ← accept ":" then
      let (value, tokens) ← patternWithDefault rules kind
      return (patternProperty key value false false, tokens)
    else return (patternProperty key (identifier text) false true, [token])
  | _ =>
    let computed ← sees "["
    let key ← propertyKey rules
    expect ":"
    let (value, tokens) ← patternWithDefault rules kind
    return (patternProperty key.node value computed false, tokens)

/-- The rest property of an object pattern. -/
def restProperty (rules : Rules) : Parse (Tree × List Token) := do
  expect "..."
  let (pattern, tokens) ← rules.pattern none
  if ← sees "=" then complain .restDefault
  if !(← sees "\x7d") then complain .propertyAfterRest
  return (.node "RestElement" [("argument", pattern)], tokens)

/-- An object pattern. -/
def objectPattern (rules : Rules) (kind : Option String) : Parse (Tree × List Token) := do
  expect "\x7b"
  let properties ← collect (do
    if ← sees "\x7d" then return none
    let property ← if ← sees "..." then restProperty rules else propertyPattern rules kind
    if !(← sees "\x7d") then expect ","
    return some property) rules.budget
  expect "\x7d"
  return (.node "ObjectPattern" [("properties", .list (properties.map Prod.fst))],
    properties.flatMap Prod.snd)

/-- A pattern. -/
def pattern (rules : Rules) (kind : Option String) : Parse (Tree × List Token) := do
  if ← sees "[" then arrayPattern rules kind
  else if ← sees "\x7b" then objectPattern rules kind
  else
    let token ← lookahead
    if token.isKeyword "let" && (kind == some "const" || kind == some "let") then
      complainAt token .letAsName
    return (← variableName kind, [token])

end NameRecovery.Grammar
