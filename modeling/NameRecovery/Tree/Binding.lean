import NameRecovery.Tree.Visit

/-!
# Bindings and mentions

Which identifiers of a tree stand for bindings, and which names a tree
declares.

* `isBindingPlace` — does an identifier at this place name a binding?  Property
  keys, member names behind a dot, labels and the outer names of imports and
  exports belong to others and keep their spelling.
* `Tree.boundNames` — the names a declaration pattern binds, left to right.
* `Tree.declaredNames`, `Tree.identifierNames` — the names declared anywhere in
  a tree, and the spellings of all its identifiers.
-/

namespace NameRecovery

/-- Does an identifier that stands in the given field of the given parent name a
binding? -/
def isBindingPlace (parent : Option Tree) (field : Option String) : Bool :=
  match parent with
  | none => true
  | some parent =>
    match parent.kind? with
    | some "MemberExpression" => !(field == some "property" && !parent.has "computed")
    | some "Property" | some "MethodDefinition" =>
      !(field == some "key" && !parent.has "computed")
    | some "LabeledStatement" | some "BreakStatement" | some "ContinueStatement" =>
      field != some "label"
    | some "MetaProperty" => false
    | some "ImportSpecifier" => field != some "imported"
    | some "ExportSpecifier" => field != some "exported"
    | _ => true

/-- Does the visited node stand where an identifier names a binding? -/
def Visit.isBinding (visit : Visit) : Bool :=
  isBindingPlace visit.parent visit.field

/-- Is the visited node an identifier? -/
def Visit.isIdentifier (visit : Visit) : Bool :=
  visit.node.isKind "Identifier"

/-- The kinds of functions. -/
def functionKinds : List String :=
  ["FunctionDeclaration", "FunctionExpression", "ArrowFunctionExpression"]

/-- The kinds of classes. -/
def classKinds : List String :=
  ["ClassDeclaration", "ClassExpression"]

/-- The kinds of import specifiers. -/
def importKinds : List String :=
  ["ImportSpecifier", "ImportDefaultSpecifier", "ImportNamespaceSpecifier"]

namespace Tree

/-! ## Patterns -/

/-- Every property of an object pattern has fields, and a value if it is one. -/
def checkProperties : List Tree → Except Fault Unit
  | [] => .ok ()
  | item :: rest => do
    checkProperties rest
    let _ ← item.withFields
    if item.isKind "Property" then
      let _ ← item.need "value"
    return ()

mutual

/-- The names a pattern binds, left to right.  Anything with fields that is no pattern
binds none. -/
def boundBy : Tree → Except Fault (List String)
  | .node "Identifier" fields => do
    return [← (Tree.node "Identifier" fields).needText "name"]
  | .node "ObjectPattern" fields => do
    checkProperties (← ((Tree.node "ObjectPattern" fields).get "properties").items)
    boundInProperties fields
  | .node "ArrayPattern" fields => boundInElements fields
  | .node "AssignmentPattern" fields => do
    let _ ← (Tree.node "AssignmentPattern" fields).need "left"
    boundInField "left" fields
  | .node "RestElement" fields => do
    let _ ← (Tree.node "RestElement" fields).need "argument"
    boundInField "argument" fields
  | .node _ _ | .record _ => .ok []
  | t => .error (.noLookup t.typeName)

/-- The names bound by the pattern in a field. -/
def boundInField (key : String) : List (String × Tree) → Except Fault (List String)
  | [] => .ok []
  | (k, value) :: rest => if k = key then boundBy value else boundInField key rest

/-- The names bound by the properties of an object pattern. -/
def boundInProperties : List (String × Tree) → Except Fault (List String)
  | [] => .ok []
  | (k, .list items) :: rest =>
    if k = "properties" then boundByProperties items else boundInProperties rest
  | _ :: rest => boundInProperties rest

/-- The names bound by the elements of an array pattern. -/
def boundInElements : List (String × Tree) → Except Fault (List String)
  | [] => .ok []
  | (k, .list items) :: rest =>
    if k = "elements" then boundByElements items else boundInElements rest
  | _ :: rest => boundInElements rest

/-- The names bound by several properties. -/
def boundByProperties : List Tree → Except Fault (List String)
  | [] => .ok []
  | .node "Property" fields :: rest => do
    return (← boundInField "value" fields) ++ (← boundByProperties rest)
  | item :: rest => do
    return (← boundBy item) ++ (← boundByProperties rest)

/-- The names bound by several elements; whatever is no node is a hole. -/
def boundByElements : List Tree → Except Fault (List String)
  | [] => .ok []
  | .node kind fields :: rest => do
    return (← boundBy (.node kind fields)) ++ (← boundByElements rest)
  | _ :: rest => boundByElements rest

end

/-- The names a declaration pattern binds, left to right; no pattern binds none. -/
def boundNames (t : Tree) : Except Fault (List String) :=
  if t.isNull then .ok [] else t.boundBy

/-- The names the patterns bind, one after the other. -/
def boundNamesOf : List Tree → Except Fault (List String)
  | [] => .ok []
  | pattern :: rest => do
    return (← pattern.boundNames) ++ (← boundNamesOf rest)

/-- The name of the node in a field. -/
def nameIn (key : String) (t : Tree) : Except Fault String := do
  (← t.need key).needText "name"

/-- The names the declarators of a variable declaration bind. -/
def declaratorNames : List Tree → Except Fault (List String)
  | [] => .ok []
  | declarator :: rest => do
    return (← (← declarator.need "id").boundNames) ++ (← declaratorNames rest)

/-! ## Whole trees -/

/-- The names one node declares, its descendants apart. -/
def namesDeclaredBy (t : Tree) : Except Fault (List String) :=
  match t.kind? with
  | none => .ok []
  | some kind =>
    if kind = "VariableDeclarator" then (t.get "id").boundNames
    else if functionKinds.contains kind then do
      let own ← if t.has "id" then (do return [← t.nameIn "id"]) else pure []
      return own ++ (← boundNamesOf (← (t.get "params").items))
    else if classKinds.contains kind then
      if t.has "id" then do return [← t.nameIn "id"] else .ok []
    else if kind = "CatchClause" then (t.get "param").boundNames
    else if importKinds.contains kind then do return [← t.nameIn "local"]
    else .ok []

/-- The names declared by the visited nodes, in order, with repetitions. -/
def namesDeclaredIn : List Visit → Except Fault (List String)
  | [] => .ok []
  | visit :: rest => do
    return (← visit.node.namesDeclaredBy) ++ (← namesDeclaredIn rest)

/-- Every name the program declares anywhere, in order, with repetitions. -/
def declaredNames (t : Tree) : Except Fault (List String) := do
  namesDeclaredIn (← t.walk)

/-- The names of the identifiers among the visited nodes, in order. -/
def namesOfIdentifiers : List Visit → Except Fault (List String)
  | [] => .ok []
  | visit :: rest => do
    if visit.isIdentifier then
      return (← visit.node.needText "name") :: (← namesOfIdentifiers rest)
    else namesOfIdentifiers rest

/-- The spelling of every identifier, in order, with repetitions. -/
def identifierNames (t : Tree) : Except Fault (List String) := do
  namesOfIdentifiers (← t.walk)

end Tree
end NameRecovery
