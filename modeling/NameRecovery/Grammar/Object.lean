import NameRecovery.Grammar.Function

/-!
# Object literals

The properties of an object literal: values, shorthands, methods, getters and
setters, and spread elements.
-/

namespace NameRecovery.Grammar

open Source

/-- A property as a node. -/
def propertyNode (kind : String) (key : Tree) (computed : Bool) (value : Tree)
    (method shorthand : Bool) : Tree :=
  .node "Property"
    [("key", key), ("computed", .bool computed), ("value", value), ("kind", .text kind),
      ("method", .bool method), ("shorthand", .bool shorthand)]

/-- The start of a property: its first token, its key if that has been read,
whether the key is computed, and whether the property is an asynchronous
method. -/
structure PropertyHead where
  /-- The first token. -/
  token : Token
  /-- The key, if it has been read. -/
  key : Option Key
  /-- Is the key computed? -/
  computed : Bool
  /-- Is this an asynchronous method? -/
  isAsync : Bool

/-- The start of a property. -/
def propertyHead (rules : Rules) : Parse PropertyHead := do
  let token ← lookahead
  match token.lexeme with
  | .name text =>
    let _ ← nextToken
    let computed ← sees "["
    let isAsync := text == "async" && !(← newlineBefore) && !(← seesAny [":", "(", "*", ","])
    let key ← if isAsync then propertyKey rules else pure (Key.ofName text)
    return ⟨token, key, computed, isAsync⟩
  | .mark "*" =>
    let _ ← nextToken
    return ⟨token, none, false, false⟩
  | _ =>
    let computed ← sees "["
    return ⟨token, ← propertyKey rules, computed, false⟩

/-- The rest of a property that is no getter, setter or generator.  `hasProto`
tells whether the object has its prototype set already. -/
def plainProperty (rules : Rules) (head : PropertyHead) (key : Key) (hasProto : Bool) :
    Parse (Tree × Bool) := do
  if !head.isAsync && (← sees ":") then
    let isProto := !head.computed && key.name == some "__proto__"
    if isProto && hasProto then complainLate .duplicatePrototype
    let _ ← nextToken
    let value ← inherited rules.assignment
    return (propertyNode "init" key.node head.computed value false false, hasProto || isProto)
  else if ← sees "(" then
    let value ← if head.isAsync then asyncMethod rules else plainMethod rules
    return (propertyNode "init" key.node head.computed value true false, hasProto)
  else
    match head.token.lexeme with
    | .name text =>
      let name := identifier text
      if ← sees "=" then
        let equals ← lookahead
        changeContext fun c => { c with coverError := some equals }
        let _ ← nextToken
        let right ← isolated rules.assignment
        let value := Tree.node "AssignmentPattern" [("left", name), ("right", right)]
        return (propertyNode "init" key.node head.computed value false true, hasProto)
      else return (propertyNode "init" key.node head.computed name false true, hasProto)
    | _ => unexpected (← nextToken)

/-- A property of an object literal, and whether the prototype has been set. -/
def objectProperty (rules : Rules) (hasProto : Bool) : Parse (Tree × Bool) := do
  let head ← propertyHead rules
  let keyFollows := startsKey (← lookahead)
  if head.token.isName "get" && keyFollows then
    let computed ← sees "["
    let key ← propertyKey rules
    changeContext fun c => { c with allowYield := false }
    return (propertyNode "get" key.node computed (← getterMethod rules) false false, hasProto)
  else if head.token.isName "set" && keyFollows then
    let computed ← sees "["
    let key ← propertyKey rules
    return (propertyNode "set" key.node computed (← setterMethod rules) false false, hasProto)
  else if head.token.isMark "*" && keyFollows then
    let computed ← sees "["
    let key ← propertyKey rules
    return (propertyNode "init" key.node computed (← generatorMethod rules) true false, hasProto)
  else
    match head.key with
    | none => unexpected (← lookahead)
    | some key => plainProperty rules head key hasProto

/-- The properties of an object literal up to its closing brace. -/
def objectProperties (rules : Rules) : Nat → Bool → Parse (List Tree)
  | 0, _ => complain .tooDeep
  | budget + 1, hasProto => do
    if ← sees "\x7d" then return []
    let (property, hasProto) ←
      if ← sees "..." then do pure (← spreadElement rules, hasProto)
      else objectProperty rules hasProto
    if !(← sees "\x7d") then expect ","
    return property :: (← objectProperties rules budget hasProto)

/-- An object literal. -/
def objectLiteral (rules : Rules) : Parse Tree := do
  expect "\x7b"
  let properties ← objectProperties rules rules.budget false
  expect "\x7d"
  return .node "ObjectExpression" [("properties", .list properties)]

end NameRecovery.Grammar
