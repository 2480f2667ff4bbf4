import NameRecovery.Grammar.Object

/-!
# Classes

Class declarations and expressions.  All code of a class is strict, its head
and the token after it included.
-/

namespace NameRecovery.Grammar

open Source

/-- The start of a class member: the token that decides its kind, its key if that
has been read, and its modifiers. -/
structure MemberHead where
  /-- The token that decides the kind of the member. -/
  token : Token
  /-- The key, if it has been read. -/
  key : Option Key := none
  /-- Is the key computed? -/
  computed : Bool := false
  /-- Is the member static? -/
  isStatic : Bool := false
  /-- Is this an asynchronous method? -/
  isAsync : Bool := false

/-- The modifier `static`, if the key read last is one. -/
def staticModifier (rules : Rules) (head : MemberHead) (key : Key) : Parse MemberHead := do
  let next ← lookahead
  if identifierName? key.node == some "static" && (startsKey next || next.isMark "*") then
    let computed ← sees "["
    let head := { head with token := next, isStatic := true, computed }
    if ← accept "*" then return { head with key := some key }
    else return { head with key := some (← propertyKey rules) }
  else return { head with key := some key }

/-- The modifier `async`, if the key read last is one.  A key in brackets behind it
counts as one that is not computed. -/
def asyncModifier (rules : Rules) (head : MemberHead) : Parse MemberHead := do
  let next ← lookahead
  if head.token.isName "async" && !(← newlineBefore) &&
      !([":", "(", "*"].contains next.spelling) then
    let key ← propertyKey rules
    if next.isName "constructor" then complainAt next .asyncConstructor
    return { head with isAsync := true, token := next, key := some key }
  else return head

/-- The start of a class member. -/
def memberHead (rules : Rules) : Parse MemberHead := do
  let token ← lookahead
  if ← accept "*" then return { token }
  else
    let computed ← sees "["
    let key ← propertyKey rules
    asyncModifier rules (← staticModifier rules { token, computed } key)

/-- What a class member defines. -/
structure Member where
  /-- The kind of the member. -/
  kind : String
  /-- The key. -/
  key : Key
  /-- Is the key computed? -/
  computed : Bool
  /-- The function. -/
  value : Tree
  /-- Is it a method, and no getter or setter? -/
  isMethod : Bool

/-- The rest of a class member. -/
def memberRest (rules : Rules) (head : MemberHead) : Parse Member := do
  let keyFollows := startsKey (← lookahead)
  if head.token.isName "get" && keyFollows then
    let computed ← sees "["
    let key ← propertyKey rules
    changeContext fun c => { c with allowYield := false }
    return ⟨"get", key, computed, ← getterMethod rules, false⟩
  else if head.token.isName "set" && keyFollows then
    let computed ← sees "["
    let key ← propertyKey rules
    return ⟨"set", key, computed, ← setterMethod rules, false⟩
  else if head.token.isMark "*" && keyFollows then
    let computed ← sees "["
    let key ← propertyKey rules
    return ⟨"method", key, computed, ← generatorMethod rules, true⟩
  else
    match head.key with
    | some key =>
      if ← sees "(" then
        let value ← if head.isAsync then asyncMethod rules else plainMethod rules
        return ⟨"method", key, head.computed, value, true⟩
      else unexpected (← lookahead)
    | none => unexpected (← lookahead)

/-- A class member, and whether the class has its constructor. -/
def classMember (rules : Rules) (hasConstructor : Bool) : Parse (Tree × Bool) := do
  let head ← memberHead rules
  let member ← memberRest rules head
  let named (name : String) := !member.computed && member.key.name == some name
  if head.isStatic && named "prototype" then complainAt head.token .staticPrototype
  let isConstructor := !head.isStatic && named "constructor"
  if isConstructor then
    if !member.isMethod || member.value.has "generator" then
      complainAt head.token .specialConstructor
    if hasConstructor then complainAt head.token .secondConstructor
  return (.node "MethodDefinition"
    [("key", member.key.node), ("computed", .bool member.computed), ("value", member.value),
      ("kind", .text (if isConstructor then "constructor" else member.kind)),
      ("static", .bool head.isStatic)], hasConstructor || isConstructor)

/-- The members of a class up to its closing brace. -/
def classMembers (rules : Rules) : Nat → Bool → Parse (List Tree)
  | 0, _ => complain .tooDeep
  | budget + 1, hasConstructor => do
    if ← sees "\x7d" then return []
    else if ← accept ";" then classMembers rules budget hasConstructor
    else
      let (member, hasConstructor) ← classMember rules hasConstructor
      return member :: (← classMembers rules budget hasConstructor)

/-- The parent and the body of a class whose name has been read, with the class as
a node. -/
def classRest (rules : Rules) (kind : String) (id : Option Tree) : Parse Tree := do
  let superClass ←
    if ← seesKeyword "extends" then do
      let _ ← nextToken
      isolated rules.call
    else pure .null
  expect "\x7b"
  let members ← classMembers rules rules.budget false
  expect "\x7d"
  return .node kind
    [("id", optional id), ("superClass", superClass),
      ("body", .node "ClassBody" [("body", .list members)])]

/-- Is the lookahead a name? -/
def seesAnyName : Parse Bool := do
  match (← lookahead).lexeme with
  | .name _ => return true
  | _ => return false

/-- A class, which may have to have a name.  All of it is strict code. -/
def classBy (rules : Rules) (kind : String) (nameOptional : Bool) : Parse Tree := do
  let strict := (← context).strict
  changeContext fun c => { c with strict := true }
  expectKeyword "class"
  let id ←
    if nameOptional && !(← seesAnyName) then pure none
    else do pure (some (← variableName none))
  let tree ← classRest rules kind id
  changeContext fun c => { c with strict }
  return tree

/-- A class declaration; as a default export it needs no name. -/
def classDeclaration (rules : Rules) (nameOptional : Bool) : Parse Tree :=
  classBy rules "ClassDeclaration" nameOptional

/-- A class expression. -/
def classExpression (rules : Rules) : Parse Tree :=
  classBy rules "ClassExpression" true

end NameRecovery.Grammar
