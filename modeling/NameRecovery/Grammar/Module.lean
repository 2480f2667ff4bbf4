import NameRecovery.Grammar.Statement

/-!
# Imports and exports
-/

namespace NameRecovery.Grammar

open Source

/-- The name of another module. -/
def moduleSpecifier : Parse Tree := do
  match (← lookahead).lexeme with
  | .string _ _ => return literal (← nextToken)
  | _ => complain .misplacedClause

/-- The complaint about a token in place of `from`.  It is named by its spelling, and
a number by its value, unless that says nothing. -/
def noFromComplaint (token : Token) : Complaint :=
  match token.quantity? with
  | some value =>
    if value.isZero then .misplacedClause
    else if value.isTooLong then .unprintableNumber
    else .unexpectedToken value.text
  | none => if token.spelling = "" then .misplacedClause else .unexpectedToken token.spelling

/-- Complain that `from` is missing. -/
def complainNoFrom {α : Type} : Parse α := do
  complain (noFromComplaint (← lookahead))

/-- `from` and the name of another module. -/
def fromClause : Parse Tree := do
  if ← seesName "from" then
    let _ ← nextToken
    moduleSpecifier
  else complainNoFrom

/-- Items in braces with commas between. -/
def braceList (rules : Rules) (one : Parse Tree) : Parse (List Tree) := do
  expect "\x7b"
  let items ← collect (do
    if ← sees "\x7d" then return none
    let item ← one
    if !(← sees "\x7d") then expect ","
    return some item) rules.budget
  expect "\x7d"
  return items

/-! ## Imports -/

/-- An imported name, with the name it has here. -/
def importSpecifier : Parse Tree := do
  let token ← lookahead
  let isName := match token.lexeme with
    | .name _ => true
    | _ => false
  let imported ← if isName then variableName none else anyWord
  let localName ←
    if ← seesName "as" then do
      let _ ← nextToken
      variableName none
    else if isName then pure imported
    else unexpected (← nextToken)
  return .node "ImportSpecifier" [("imported", imported), ("local", localName)]

/-- All of a module under one name. -/
def importNamespace : Parse Tree := do
  expect "*"
  if !(← seesName "as") then complain .misplacedClause
  let _ ← nextToken
  return .node "ImportNamespaceSpecifier" [("local", ← anyWord)]

/-- What is imported besides the default. -/
def importsAfterDefault (rules : Rules) : Parse (List Tree) := do
  if ← accept "," then
    if ← sees "*" then return [← importNamespace]
    else if ← sees "\x7b" then braceList rules importSpecifier
    else unexpected (← lookahead)
  else return []

/-- What is imported. -/
def importSpecifiers (rules : Rules) : Parse (List Tree) := do
  let token ← lookahead
  if ← sees "\x7b" then braceList rules importSpecifier
  else if ← sees "*" then return [← importNamespace]
  else if isWord token && !token.isKeyword "default" then
    let first := Tree.node "ImportDefaultSpecifier" [("local", ← anyWord)]
    return first :: (← importsAfterDefault rules)
  else unexpected (← nextToken)

/-- An import declaration. -/
def importDeclaration (rules : Rules) : Parse Tree := do
  if (← context).inFunction then complain .misplacedClause
  expectKeyword "import"
  let (specifiers, source) ← match (← lookahead).lexeme with
    | .string _ _ => do pure ([], ← moduleSpecifier)
    | _ => do
      let specifiers ← importSpecifiers rules
      pure (specifiers, ← fromClause)
  endStatement
  return .node "ImportDeclaration" [("specifiers", .list specifiers), ("source", source)]

/-! ## Exports -/

/-- An exported name, with the name it has outside. -/
def exportSpecifier : Parse Tree := do
  let localName ← anyWord
  let exported ←
    if ← seesName "as" then do
      let _ ← nextToken
      anyWord
    else pure localName
  return .node "ExportSpecifier" [("local", localName), ("exported", exported)]

/-- A default export. -/
def exportDefault (rules : Rules) : Parse Tree := do
  let _ ← nextToken
  let declaration ←
    if ← seesKeyword "function" then functionDeclaration rules true
    else if ← seesKeyword "class" then classDeclaration rules true
    else if ← seesName "async" then
      if ← seesAsyncFunction then functionDeclaration rules true else rules.assignment
    else do
      if ← seesName "from" then complain (.unexpectedToken "from")
      let value ←
        if ← sees "\x7b" then objectLiteral rules
        else if ← sees "[" then arrayLiteral rules
        else rules.assignment
      endStatement
      pure value
  return .node "ExportDefaultDeclaration" [("declaration", declaration)]

/-- A named export as a node. -/
def exportNode (declaration : Tree) (specifiers : List Tree) (source : Tree) : Tree :=
  .node "ExportNamedDeclaration"
    [("declaration", declaration), ("specifiers", .list specifiers), ("source", source)]

/-- A declaration that is exported. -/
def exportedDeclaration (rules : Rules) : Parse Tree := do
  let token ← lookahead
  if ["let", "const"].any token.isKeyword then
    return exportNode (← lexicalDeclaration rules) [] .null
  else if ["var", "class", "function"].any token.isKeyword then
    return exportNode (← rules.item) [] .null
  else unexpected token

/-- The names in braces that are exported, and whether `default` is one that comes
from elsewhere. -/
def exportList (rules : Rules) : Parse (List Tree × Bool) := do
  let specifiers ← collect (do
    if ← sees "\x7d" then return none
    let isDefault ← seesKeyword "default"
    let specifier ← exportSpecifier
    if !(← sees "\x7d") then expect ","
    return some (specifier, isDefault)) rules.budget
  return (specifiers.map Prod.fst, specifiers.any Prod.snd)

/-- Names that are exported, perhaps from another module. -/
def exportNames (rules : Rules) : Parse Tree := do
  let token ← lookahead
  let (first, more) ← match token.lexeme with
    | .name _ => do
      let first := Tree.node "ExportDefaultSpecifier" [("local", ← anyWord)]
      pure ([first], ← accept ",")
    | _ => pure ([], true)
  let (specifiers, needsFrom) ←
    if more then do
      expect "\x7b"
      let result ← exportList rules
      expect "\x7d"
      pure result
    else pure ([], false)
  if ← seesName "from" then
    let _ ← nextToken
    let source ← moduleSpecifier
    endStatement
    return exportNode .null (first ++ specifiers) source
  else if needsFrom then complainNoFrom
  else
    endStatement
    return exportNode .null (first ++ specifiers) .null

/-- An export declaration. -/
def exportDeclaration (rules : Rules) : Parse Tree := do
  if (← context).inFunction then complain .misplacedClause
  expectKeyword "export"
  let token ← lookahead
  if token.isKeyword "default" then exportDefault rules
  else if ← accept "*" then
    let source ← fromClause
    endStatement
    return .node "ExportAllDeclaration" [("source", source)]
  else
    match token.lexeme with
    | .keyword _ => exportedDeclaration rules
    | _ =>
      if ← seesAsyncFunction then
        return exportNode (← functionDeclaration rules false) [] .null
      else exportNames rules

/-! ## Statements and declarations -/

/-- A statement or declaration. -/
def item (rules : Rules) : Parse Tree := do
  changeContext fun c => { c with isTarget := true, isBinding := true }
  let token ← lookahead
  match token.lexeme with
  | .keyword "export" =>
    if !(← context).isModule then complainAt token .misplacedClause
    exportDeclaration rules
  | .keyword "import" =>
    if ← seesImportCall then expressionStatement rules
    else
      if !(← context).isModule then complainAt token .misplacedClause
      importDeclaration rules
  | .keyword "const" => lexicalDeclaration rules
  | .keyword "function" => functionDeclaration rules false
  | .keyword "class" => classDeclaration rules false
  | .keyword "let" =>
    if ← letStartsDeclaration then lexicalDeclaration rules else rules.statement
  | _ => rules.statement

end NameRecovery.Grammar
