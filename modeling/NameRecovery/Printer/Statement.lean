import NameRecovery.Printer.Expression

/-!
# Printing statements
-/

namespace NameRecovery.Printer.Rules

variable (rules : Rules)

/-- An expression of a statement. -/
def plain (level minimum : Nat) (t : Tree) : Print :=
  rules.expression ⟨level, false⟩ minimum t

/-- An expression in a field of a statement. -/
def part (level : Nat) (t : Tree) (key : String) : Print := do
  rules.plain level sequenceLevel (← t.need key)

/-- The name of the node in a field. -/
def nameOf (t : Tree) (key : String) : Print := do
  (← t.need key).needText "name"

/-- An expression as a statement. -/
def expressionStatement (level : Nat) (t : Tree) : Print := do
  let text ← rules.part level t "expression"
  return (if isAmbiguousStart text then inParens text else text) ++ ";"

/-! ## Declarations -/

/-- A declared variable. -/
def declarator (place : Place) (t : Tree) : Print := do
  let text ← rules.expression place assignmentLevel (← t.need "id")
  let init := t.get "init"
  if init.isNull then return text
  else return text ++ " = " ++ (← rules.expression place assignmentLevel init)

/-- A declaration of variables, without its semicolon. -/
def declaration (place : Place) (t : Tree) : Print := do
  let parts ← each (rules.declarator place) (← (← t.need "declarations").listed)
  return (← t.need "kind").inText ++ " " ++ String.intercalate ", " parts

/-! ## Branches and loops -/

/-- An `if` statement; before an `else`, its first branch is a block. -/
def ifStatement (level : Nat) (t : Tree) : Print := do
  let head := "if (" ++ (← rules.part level t "test") ++ ") "
  let alternate := t.get "alternate"
  if alternate.isNull then return head ++ (← rules.nested level (← t.need "consequent"))
  else
    let consequent ← rules.inBlock level (← t.need "consequent")
    let rest ←
      if (← alternate.needKind) = "IfStatement" then rules.statement level alternate
      else rules.nested level alternate
    return head ++ consequent ++ " else " ++ rest

/-- The body of a loop. -/
def body (level : Nat) (t : Tree) : Print := do
  rules.nested level (← t.need "body")

/-- The first part of the head of a counted loop, where a bare `in` may not
stand. -/
def loopInit (level : Nat) (init : Tree) : Print := do
  if init.isNull then return ""
  else if (← init.needKind) = "VariableDeclaration" then rules.declaration ⟨level, true⟩ init
  else rules.expression ⟨level, true⟩ sequenceLevel init

/-- An optional part of the head of a counted loop, with a blank before it. -/
def loopPart (level : Nat) (t : Tree) : Print := do
  if t.isNull then return "" else return " " ++ (← rules.plain level sequenceLevel t)

/-- A counted loop. -/
def forStatement (level : Nat) (t : Tree) : Print := do
  let init ← rules.loopInit level (t.get "init")
  let test ← rules.loopPart level (t.get "test")
  let update ← rules.loopPart level (t.get "update")
  return "for (" ++ init ++ ";" ++ test ++ ";" ++ update ++ ") " ++ (← rules.body level t)

/-- The variable of a loop over names or values. -/
def loopTarget (level : Nat) (t : Tree) : Print := do
  if (← t.needKind) = "VariableDeclaration" then rules.declaration ⟨level, false⟩ t
  else rules.plain level memberLevel t

/-- A loop over the names of properties, or over values. -/
def forEach (word : String) (minimum level : Nat) (t : Tree) : Print := do
  let left ← rules.loopTarget level (← t.need "left")
  let right ← rules.plain level minimum (← t.need "right")
  return "for (" ++ left ++ " " ++ word ++ " " ++ right ++ ") " ++ (← rules.body level t)

/-- A statement with an expression in parentheses and a body. -/
def headed (word key : String) (level : Nat) (t : Tree) : Print := do
  let head ← rules.part level t key
  return word ++ " (" ++ head ++ ") " ++ (← rules.body level t)

/-- A `do` loop. -/
def doWhile (level : Nat) (t : Tree) : Print := do
  let test ← rules.part level t "test"
  return "do " ++ (← rules.body level t) ++ " while (" ++ test ++ ");"

/-! ## Jumps -/

/-- A jump with its label. -/
def jump (word : String) (t : Tree) : Print := do
  if t.has "label" then return word ++ " " ++ (← (← t.need "label").need "name").inText ++ ";"
  else return word ++ ";"

/-- A `return` statement. -/
def returnStatement (level : Nat) (t : Tree) : Print := do
  let argument := t.get "argument"
  if argument.isNull then return "return;"
  else return "return " ++ (← rules.plain level sequenceLevel argument) ++ ";"

/-- A `throw` statement. -/
def throwStatement (level : Nat) (t : Tree) : Print := do
  return "throw " ++ (← rules.part level t "argument") ++ ";"

/-- A statement with a label. -/
def labelled (level : Nat) (t : Tree) : Print := do
  let label ← nameOf t "label"
  return label ++ ": " ++ (← rules.statement level (← t.need "body"))

/-! ## Exceptions and switches -/

/-- The `catch` of a `try` statement. -/
def handler (level : Nat) (t : Tree) : Print := do
  let param := (← t.withFields).get "param"
  let head ←
    if param.isNull then pure " catch "
    else do pure (" catch (" ++ (← rules.plain level assignmentLevel param) ++ ") ")
  return head ++ (← rules.blockOf level (← t.need "body"))

/-- A `try` statement. -/
def tryStatement (level : Nat) (t : Tree) : Print := do
  let block ← rules.blockOf level (← t.need "block")
  let caught ← if (t.get "handler").isNull then pure "" else rules.handler level (t.get "handler")
  let final ←
    if (t.get "finalizer").isNull then pure ""
    else do pure (" finally " ++ (← rules.blockOf level (t.get "finalizer")))
  return "try " ++ block ++ caught ++ final

/-- The lines of a case of a switch. -/
def switchCase (level : Nat) (t : Tree) : Except Fault (List String) := do
  let test := (← t.withFields).get "test"
  let label ←
    if test.isNull then pure "default:"
    else do pure ("case " ++ (← rules.plain (level + 1) sequenceLevel test) ++ ":")
  let lines ← each (rules.statement (level + 2)) (← (t.get "consequent").items)
  return (pad rules.indent (level + 1) ++ label) :: lines.map (pad rules.indent (level + 2) ++ ·)

/-- The lines of the cases of a switch. -/
def switchCases (level : Nat) : List Tree → Except Fault (List String)
  | [] => .ok []
  | t :: rest => do
    let lines ← rules.switchCase level t
    return lines ++ (← switchCases level rest)

/-- A `switch` statement. -/
def switchStatement (level : Nat) (t : Tree) : Print := do
  let head := "switch (" ++ (← rules.part level t "discriminant") ++ ") "
  let cases ← (t.get "cases").items
  if cases.isEmpty then return head ++ "\x7b\x7d"
  else
    let lines ← rules.switchCases level cases
    return head ++ "\x7b\n" ++ String.intercalate "\n" lines ++ "\n" ++ pad rules.indent level ++
      "\x7d"

/-! ## Modules -/

/-- An imported name: first what stands before the braces, then what stands in
them. -/
def importSpecifier (t : Tree) : Except Fault (List String × List String) := do
  let here ← nameOf t "local"
  let kind ← t.needKind
  if kind = "ImportDefaultSpecifier" then return ([here], [])
  else if kind = "ImportNamespaceSpecifier" then return (["* as " ++ here], [])
  else
    let there ← nameOf t "imported"
    return ([], [if there = here then here else there ++ " as " ++ here])

/-- The imported names: first what stands before the braces, then what stands in
them. -/
def importSpecifiers : List Tree → Except Fault (List String × List String)
  | [] => .ok ([], [])
  | t :: rest => do
    let (outside, inside) ← importSpecifier t
    let (moreOutside, moreInside) ← importSpecifiers rest
    return (outside ++ moreOutside, inside ++ moreInside)

/-- An import declaration. -/
def importDeclaration (t : Tree) : Print := do
  let source ← moduleName (← t.need "source")
  let specifiers ← (t.get "specifiers").items
  if specifiers.isEmpty then return "import " ++ source ++ ";"
  let (outside, inside) ← importSpecifiers specifiers
  let parts :=
    if inside.isEmpty then outside
    else outside ++ ["\x7b" ++ String.intercalate ", " inside ++ "\x7d"]
  return "import " ++ String.intercalate ", " parts ++ " from " ++ source ++ ";"

/-- An exported name. -/
def exportSpecifier (t : Tree) : Print := do
  let here ← nameOf t "local"
  let there ← nameOf t "exported"
  return if here = there then here else here ++ " as " ++ there

/-- A named export. -/
def exportNamed (level : Nat) (t : Tree) : Print := do
  let declaration := t.get "declaration"
  if !declaration.isNull then return "export " ++ (← rules.statement level declaration)
  else
    let names ← each exportSpecifier (← (t.get "specifiers").items)
    let origin ←
      if (t.get "source").isNull then pure ""
      else do pure (" from " ++ (← moduleName (t.get "source")))
    return "export \x7b" ++ String.intercalate ", " names ++ "\x7d" ++ origin ++ ";"

/-- A default export. -/
def exportDefault (level : Nat) (t : Tree) : Print := do
  let declaration ← t.need "declaration"
  let kind ← declaration.needKind
  if kind = "FunctionDeclaration" ∨ kind = "ClassDeclaration" then
    return "export default " ++ (← rules.statement level declaration)
  else return "export default " ++ (← rules.plain level assignmentLevel declaration) ++ ";"

/-! ## All statements -/

/-- The rule for each kind of statement. -/
def statementForm? : String → Option (Nat → Tree → Print)
  | "BlockStatement" => some rules.blockOf
  | "EmptyStatement" => some fun _ _ => .ok ";"
  | "DebuggerStatement" => some fun _ _ => .ok "debugger;"
  | "ExpressionStatement" => some rules.expressionStatement
  | "VariableDeclaration" => some fun level t => do
    return (← rules.declaration ⟨level, false⟩ t) ++ ";"
  | "FunctionDeclaration" => some fun level t => rules.function ⟨level, false⟩ t
  | "ClassDeclaration" => some fun level t => rules.classText ⟨level, false⟩ t
  | "ReturnStatement" => some rules.returnStatement
  | "ThrowStatement" => some rules.throwStatement
  | "IfStatement" => some rules.ifStatement
  | "ForStatement" => some rules.forStatement
  | "ForInStatement" => some (rules.forEach "in" sequenceLevel)
  | "ForOfStatement" => some (rules.forEach "of" assignmentLevel)
  | "WhileStatement" => some (rules.headed "while" "test")
  | "DoWhileStatement" => some rules.doWhile
  | "WithStatement" => some (rules.headed "with" "object")
  | "LabeledStatement" => some rules.labelled
  | "BreakStatement" => some fun _ t => jump "break" t
  | "ContinueStatement" => some fun _ t => jump "continue" t
  | "TryStatement" => some rules.tryStatement
  | "SwitchStatement" => some rules.switchStatement
  | "ImportDeclaration" => some fun _ t => importDeclaration t
  | "ExportNamedDeclaration" => some rules.exportNamed
  | "ExportDefaultDeclaration" => some rules.exportDefault
  | "ExportAllDeclaration" => some fun _ t => do
    return "export * from " ++ (← moduleName (← t.need "source")) ++ ";"
  | _ => none

/-- A statement at a level. -/
def statementAt (level : Nat) (t : Tree) : Print := do
  match rules.statementForm? (← t.needKind) with
  | none => .error (.noStatementForm (← shownKind t))
  | some form => form level t

end NameRecovery.Printer.Rules
