import NameRecovery.Tree.Binding

/-!
# Scopes of a program

The scopes of a program, read off its tree as a list of events in document
order: a scope is entered with the names declared in it, bindings are mentioned,
and the scope is left again.

A scope declares its names before anything in it is visited: `var` names belong
to the whole enclosing function, names declared by `let`, `const`, `class` and
`function` to the enclosing block.  The name of a function declaration is
mentioned before the function's own scope is entered, and the value a switch
looks at is visited before the scope of its cases.
-/

namespace NameRecovery.Scope

/-- What happens on the way through the scopes of a program. -/
inductive Event where
  /-- Names are declared for the whole program. -/
  | declare (names : List String)
  /-- The scope of the node at a path is entered; it declares the names. -/
  | enter (scope : Path) (names : List String)
  /-- The scope entered last is left. -/
  | leave
  /-- A binding is mentioned by the node at a path. -/
  | mention (path : Path) (name : String)
  /-- The tree cannot be processed further. -/
  | broken (fault : Fault)

/-! ## Declared names -/

/-- The names of several parts, in order. -/
def concatNames : List (Except Fault (List String)) → Except Fault (List String)
  | [] => .ok []
  | part :: rest => do
    let names ← part
    return names ++ (← concatNames rest)

mutual

/-- The `var` names at and below a node, without those of nested functions. -/
def varNamesAt : Tree → Except Fault (List String)
  | .node kind fields =>
    if functionKinds.contains kind then .ok []
    else do
      let t := Tree.node kind fields
      let isVar := kind = "VariableDeclaration" ∧ (t.get? "kind").bind Tree.text? = some "var"
      let own ←
        if isVar then do Tree.declaratorNames (← (← t.need "declarations").listed) else pure []
      return own ++ (← concatNames (inDocumentOrder kind (varNamesFields fields)))
  | _ => .ok []

/-- The `var` names below each field of a node. -/
def varNamesFields : List (String × Tree) → List (String × Except Fault (List String))
  | [] => []
  | (key, .list items) :: rest => (key, varNamesItems items) :: varNamesFields rest
  | (key, value) :: rest => (key, varNamesAt value) :: varNamesFields rest

/-- The `var` names of the items of a list. -/
def varNamesItems : List Tree → Except Fault (List String)
  | [] => .ok []
  | item :: rest => do
    let names ← varNamesAt item
    return names ++ (← varNamesItems rest)

end

/-- The `var` names below a node, whatever its kind. -/
def varNamesBelow : Tree → Except Fault (List String)
  | .node kind fields => concatNames (inDocumentOrder kind (varNamesFields fields))
  | _ => .ok []

/-- The statement that an export declares, or the statement itself. -/
def exportedStatement (t : Tree) : Except Fault Tree := do
  let kind ← t.needKind
  if kind = "ExportNamedDeclaration" ∨ kind = "ExportDefaultDeclaration" then
    let declaration := t.get "declaration"
    if declaration.isSet then declaration.withFields else return .record []
  else return t

/-- The kind of a variable declaration; `var` if it is one of the whole function. -/
def isVarDeclaration (t : Tree) : Bool :=
  (t.get? "kind").bind Tree.text? == some "var"

/-- The names of imported things. -/
def importedNames : List Tree → Except Fault (List String)
  | [] => .ok []
  | specifier :: rest => do
    let name ← specifier.nameIn "local"
    return name :: (← importedNames rest)

/-- The names one statement declares for its block. -/
def lexicalNamesOf (statement : Tree) : Except Fault (List String) := do
  let t ← exportedStatement statement
  match t.kind? with
  | some "VariableDeclaration" =>
    if isVarDeclaration t then return []
    else Tree.declaratorNames (← (← t.need "declarations").listed)
  | some "FunctionDeclaration" | some "ClassDeclaration" =>
    if t.has "id" then return [← t.nameIn "id"] else return []
  | some "ImportDeclaration" => importedNames (← (t.get "specifiers").items)
  | _ => return []

/-- The names the statements of a block declare for it. -/
def lexicalNames : List Tree → Except Fault (List String)
  | [] => .ok []
  | statement :: rest => do
    let names ← lexicalNamesOf statement
    return names ++ (← lexicalNames rest)

/-- The names the cases of a switch declare for all of them. -/
def caseNames : List Tree → Except Fault (List String)
  | [] => .ok []
  | clause :: rest => do
    let names ← lexicalNames (← ((← clause.withFields).get "consequent").items)
    return names ++ (← caseNames rest)

/-- The names declared in the scope of a function. -/
def functionNames (t : Tree) : Except Fault (List String) := do
  let own ←
    if t.isKind "FunctionExpression" && t.has "id" then do pure [← t.nameIn "id"] else pure []
  let params ← Tree.boundNamesOf (← (t.get "params").items)
  let body ← t.need "body"
  let vars ← if (← body.needKind) = "BlockStatement" then varNamesBelow body else pure []
  return own ++ params ++ vars

/-- The names declared by the head of a loop. -/
def loopNames (head : Tree) : Except Fault (List String) := do
  if head.isNull then return []
  else if (← head.needKind) = "VariableDeclaration" && !isVarDeclaration head then
    Tree.declaratorNames (← (← head.need "declarations").listed)
  else return []

/-- The names declared for the whole program. -/
def programNames (t : Tree) : Except Fault (List String) := do
  let lexical ← lexicalNames (← (t.get "body").items)
  return lexical ++ (← varNamesBelow t)

/-- The names declared in the scope of a node, if it has one. -/
def scopeNames? (t : Tree) : Option (Except Fault (List String)) :=
  match t.kind? with
  | none => none
  | some kind =>
    if functionKinds.contains kind then some (functionNames t)
    else if kind = "BlockStatement" then some (do lexicalNames (← (t.get "body").items))
    else if kind = "ForStatement" then some (loopNames (t.get "init"))
    else if kind = "ForInStatement" ∨ kind = "ForOfStatement" then some (loopNames (t.get "left"))
    else if kind = "CatchClause" then some (t.get "param").boundNames
    else if kind = "SwitchStatement" then some (do caseNames (← (t.get "cases").items))
    else none

/-! ## Events -/

/-- The event of entering the scope of the node at a path, with the given names. -/
def entering (path : Path) : Except Fault (List String) → Event
  | .ok names => .enter path names
  | .error fault => .broken fault

/-- Events inside the scope of the node at a path, if it has one. -/
def inScope (t : Tree) (path : Path) (events : List Event) : List Event :=
  match scopeNames? t with
  | some names => entering path names :: events ++ [.leave]
  | none => events

/-- The event of a mention. -/
def mentioning (path : Path) (t : Tree) : Event :=
  match t.needText "name" with
  | .ok name => .mention path name
  | .error fault => .broken fault

/-- The events of a node of the given kind from those below its fields. -/
def nodeEvents (t : Tree) (path : Path) (kind : String) (parts : List (String × List Event)) :
    List Event :=
  if kind = "SwitchStatement" then
    match parts.lookup "discriminant" with
    | none => [.broken (.missingField "discriminant")]
    | some events => events ++ inScope t path ((parts.lookup "cases").getD [])
  else if kind = "FunctionDeclaration" && t.has "id" then
    mentioning (path ++ [⟨"id", 0⟩]) (t.get "id") ::
      inScope t path (inDocumentOrder kind (parts.filter fun part => part.1 ≠ "id")).flatten
  else if kind = "Program" then
    (match programNames t with
      | .ok names => Event.declare names
      | .error fault => .broken fault) :: (inDocumentOrder kind parts).flatten
  else inScope t path (inDocumentOrder kind parts).flatten

/-- Is the value in this place visited even if it is no node?  The value a switch
looks at, and its cases, are. -/
def isAlwaysVisited (spot : Spot) : Bool :=
  (spot.parent.any (Tree.isKind "SwitchStatement")) &&
    (spot.field == some "discriminant" || spot.field == some "cases")

/-- The event of a value that is visited without being a node. -/
def notVisitable (t : Tree) : List Event :=
  match t.need "type" with
  | .ok _ => []
  | .error fault => [.broken fault]

mutual

/-- The events of a value, if it is a node. -/
def eventsAt (spot : Spot) : Tree → List Event
  | .node kind fields =>
    if kind = "Identifier" then
      if isBindingPlace spot.parent spot.field then
        [mentioning spot.path (.node kind fields)]
      else []
    else
      nodeEvents (.node kind fields) spot.path kind
        (fieldEvents (.node kind fields) spot.path fields)
  | t => if isAlwaysVisited spot then notVisitable t else []

/-- The events below each field of a node. -/
def fieldEvents (parent : Tree) (path : Path) : List (String × Tree) → List (String × List Event)
  | [] => []
  | (key, .list items) :: rest =>
    (key, itemEvents parent path key 0 items) :: fieldEvents parent path rest
  | (key, value) :: rest =>
    (key, eventsAt ⟨parent, key, path ++ [⟨key, 0⟩]⟩ value) :: fieldEvents parent path rest

/-- The events of the items of a list. -/
def itemEvents (parent : Tree) (path : Path) (key : String) : Nat → List Tree → List Event
  | _, [] => []
  | index, item :: rest =>
    eventsAt ⟨parent, key, path ++ [⟨key, index⟩]⟩ item ++
      itemEvents parent path key (index + 1) rest

end

/-- The scopes of a tree and the mentions in them, in document order. -/
def events (t : Tree) : List Event :=
  eventsAt ⟨none, none, []⟩ t

end NameRecovery.Scope
