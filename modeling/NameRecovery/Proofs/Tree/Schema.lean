import NameRecovery.Tree.Binding

/-!
# The shape of program trees

Every kind of node has its layout: the fields it has, in order, and what each of
them holds.  A tree is formed when all its nodes are laid out so, and a program
when its root is one, too.  The parser yields programs only.

* `schema` — the layouts of all kinds of nodes;
* `Tree.isFormed` — is every node of the tree laid out as its kind demands?
* `Tree.isProgram` — is the tree a formed program?
-/

namespace NameRecovery

/-! ## Kinds -/

/-- The kinds of statements and declarations. -/
def statementKinds : List String := [
  "ExpressionStatement", "BlockStatement", "EmptyStatement", "DebuggerStatement",
  "WithStatement", "ReturnStatement", "LabeledStatement", "BreakStatement",
  "ContinueStatement", "IfStatement", "SwitchStatement", "ThrowStatement", "TryStatement",
  "WhileStatement", "DoWhileStatement", "ForStatement", "ForInStatement", "ForOfStatement",
  "FunctionDeclaration", "VariableDeclaration", "ClassDeclaration", "ImportDeclaration",
  "ExportNamedDeclaration", "ExportDefaultDeclaration", "ExportAllDeclaration"]

/-- The kinds of statements that start with a keyword. -/
def keywordKinds : List String := [
  "DebuggerStatement", "WithStatement", "ReturnStatement", "BreakStatement",
  "ContinueStatement", "IfStatement", "SwitchStatement", "ThrowStatement", "TryStatement",
  "WhileStatement", "DoWhileStatement", "ForStatement", "ForInStatement", "ForOfStatement",
  "FunctionDeclaration", "VariableDeclaration", "ClassDeclaration", "ImportDeclaration",
  "ExportNamedDeclaration", "ExportDefaultDeclaration", "ExportAllDeclaration"]

/-- The kinds of expressions and patterns. -/
def expressionKinds : List String := [
  "Identifier", "Literal", "ThisExpression", "Super", "Import", "ArrayExpression",
  "ArrayPattern", "ObjectExpression", "ObjectPattern", "FunctionExpression",
  "ArrowFunctionExpression", "ClassExpression", "TemplateLiteral",
  "TaggedTemplateExpression", "MemberExpression", "CallExpression", "NewExpression",
  "MetaProperty", "SequenceExpression", "UnaryExpression", "UpdateExpression",
  "AwaitExpression", "YieldExpression", "BinaryExpression", "LogicalExpression",
  "AssignmentExpression", "AssignmentPattern", "ConditionalExpression", "SpreadElement",
  "RestElement", "ArrowParameterPlaceHolder"]

/-- The kinds of what stands between the braces of an object or its pattern. -/
def propertyKinds : List String :=
  ["Property", "SpreadElement", "RestElement"]

namespace Tree

/-! ## Layouts -/

/-- What a field holds. -/
inductive Slot where
  /-- A text. -/
  | text
  /-- A flag. -/
  | flag
  /-- Values without a kind. -/
  | record
  /-- A node of one of the kinds. -/
  | one (kinds : List String)
  /-- Nothing, or a node of one of the kinds. -/
  | maybe (kinds : List String)
  /-- A list of nodes of these kinds. -/
  | many (kinds : List String)
  /-- A list of nodes of these kinds, with holes. -/
  | sparse (kinds : List String)

/-- Is the value a node of one of the kinds? -/
def isAny (kinds : List String) (t : Tree) : Bool :=
  t.kind?.any kinds.contains

/-- May the field hold the value? -/
def Slot.accepts : Slot → Tree → Bool
  | .text, .text _ => true
  | .flag, .bool _ => true
  | .record, .record _ => true
  | .one kinds, t => t.isAny kinds
  | .maybe kinds, t => t.isNull || t.isAny kinds
  | .many kinds, .list items => items.all (isAny kinds)
  | .sparse kinds, .list items => items.all fun item => item.isNull || item.isAny kinds
  | _, _ => false

/-- The fields of a kind of node, in order. -/
abbrev Layout := List (String × Slot)

/-- The layouts of the kinds of nodes; a kind with a field that may be missing has
two. -/
def schema : List (String × Layout) := [
  ("Program", [("sourceType", .text), ("body", .many statementKinds)]),
  ("ExpressionStatement", [("expression", .one expressionKinds)]),
  ("ExpressionStatement", [("expression", .one expressionKinds), ("directive", .text)]),
  ("BlockStatement", [("body", .many statementKinds)]),
  ("EmptyStatement", []),
  ("DebuggerStatement", []),
  ("WithStatement", [("object", .one expressionKinds), ("body", .one statementKinds)]),
  ("ReturnStatement", [("argument", .maybe expressionKinds)]),
  ("LabeledStatement", [("label", .one ["Identifier"]), ("body", .one statementKinds)]),
  ("BreakStatement", [("label", .maybe ["Identifier"])]),
  ("ContinueStatement", [("label", .maybe ["Identifier"])]),
  ("IfStatement", [("test", .one expressionKinds), ("consequent", .one statementKinds),
    ("alternate", .maybe statementKinds)]),
  ("SwitchStatement", [("discriminant", .one expressionKinds), ("cases", .many ["SwitchCase"])]),
  ("SwitchCase", [("test", .maybe expressionKinds), ("consequent", .many statementKinds)]),
  ("ThrowStatement", [("argument", .one expressionKinds)]),
  ("TryStatement", [("block", .one ["BlockStatement"]), ("handler", .maybe ["CatchClause"]),
    ("finalizer", .maybe ["BlockStatement"])]),
  ("CatchClause", [("param", .one expressionKinds), ("body", .one ["BlockStatement"])]),
  ("WhileStatement", [("test", .one expressionKinds), ("body", .one statementKinds)]),
  ("DoWhileStatement", [("body", .one statementKinds), ("test", .one expressionKinds)]),
  ("ForStatement", [("init", .maybe ("VariableDeclaration" :: expressionKinds)),
    ("test", .maybe expressionKinds), ("update", .maybe expressionKinds),
    ("body", .one statementKinds)]),
  ("ForInStatement", [("left", .one ("VariableDeclaration" :: expressionKinds)),
    ("right", .one expressionKinds), ("body", .one statementKinds), ("each", .flag)]),
  ("ForOfStatement", [("left", .one ("VariableDeclaration" :: expressionKinds)),
    ("right", .one expressionKinds), ("body", .one statementKinds)]),
  ("FunctionDeclaration", [("id", .maybe ["Identifier"]), ("params", .many expressionKinds),
    ("body", .one ["BlockStatement"]), ("generator", .flag), ("async", .flag),
    ("expression", .flag)]),
  ("FunctionExpression", [("id", .maybe ["Identifier"]), ("params", .many expressionKinds),
    ("body", .one ["BlockStatement"]), ("generator", .flag), ("async", .flag),
    ("expression", .flag)]),
  ("ArrowFunctionExpression", [("params", .many expressionKinds),
    ("body", .one ("BlockStatement" :: expressionKinds)), ("generator", .flag),
    ("async", .flag), ("expression", .flag)]),
  ("VariableDeclaration", [("kind", .text), ("declarations", .many ["VariableDeclarator"])]),
  ("VariableDeclarator", [("id", .one expressionKinds), ("init", .maybe expressionKinds)]),
  ("ClassDeclaration", [("id", .maybe ["Identifier"]), ("superClass", .maybe expressionKinds),
    ("body", .one ["ClassBody"])]),
  ("ClassExpression", [("id", .maybe ["Identifier"]), ("superClass", .maybe expressionKinds),
    ("body", .one ["ClassBody"])]),
  ("ClassBody", [("body", .many ["MethodDefinition"])]),
  ("MethodDefinition", [("key", .one expressionKinds), ("computed", .flag),
    ("value", .one ["FunctionExpression"]), ("kind", .text), ("static", .flag)]),
  ("ThisExpression", []),
  ("Super", []),
  ("Import", []),
  ("Identifier", [("name", .text)]),
  ("Literal", [("raw", .text)]),
  ("Literal", [("raw", .text), ("regex", .record)]),
  ("TemplateElement", [("value", .record), ("tail", .flag)]),
  ("ArrayExpression", [("elements", .sparse expressionKinds)]),
  ("ArrayPattern", [("elements", .sparse expressionKinds)]),
  ("ObjectExpression", [("properties", .many propertyKinds)]),
  ("ObjectPattern", [("properties", .many propertyKinds)]),
  ("Property", [("key", .one expressionKinds), ("computed", .flag),
    ("value", .one expressionKinds), ("kind", .text), ("method", .flag), ("shorthand", .flag)]),
  ("SpreadElement", [("argument", .one expressionKinds)]),
  ("RestElement", [("argument", .one expressionKinds)]),
  ("AssignmentPattern", [("left", .one expressionKinds), ("right", .one expressionKinds)]),
  ("TemplateLiteral", [("quasis", .many ["TemplateElement"]),
    ("expressions", .many expressionKinds)]),
  ("TaggedTemplateExpression", [("tag", .one expressionKinds),
    ("quasi", .one ["TemplateLiteral"])]),
  ("UnaryExpression", [("operator", .text), ("argument", .one expressionKinds),
    ("prefix", .flag)]),
  ("UpdateExpression", [("operator", .text), ("argument", .one expressionKinds),
    ("prefix", .flag)]),
  ("AwaitExpression", [("argument", .one expressionKinds)]),
  ("YieldExpression", [("argument", .maybe expressionKinds), ("delegate", .flag)]),
  ("BinaryExpression", [("operator", .text), ("left", .one expressionKinds),
    ("right", .one expressionKinds)]),
  ("LogicalExpression", [("operator", .text), ("left", .one expressionKinds),
    ("right", .one expressionKinds)]),
  ("AssignmentExpression", [("operator", .text), ("left", .one expressionKinds),
    ("right", .one expressionKinds)]),
  ("ConditionalExpression", [("test", .one expressionKinds),
    ("consequent", .one expressionKinds), ("alternate", .one expressionKinds)]),
  ("CallExpression", [("callee", .one expressionKinds), ("arguments", .many expressionKinds)]),
  ("NewExpression", [("callee", .one expressionKinds), ("arguments", .many expressionKinds)]),
  ("MemberExpression", [("object", .one expressionKinds), ("property", .one expressionKinds),
    ("computed", .flag)]),
  ("SequenceExpression", [("expressions", .many expressionKinds)]),
  ("MetaProperty", [("meta", .one ["Identifier"]), ("property", .one ["Identifier"])]),
  ("ArrowParameterPlaceHolder", [("params", .many expressionKinds), ("async", .flag)]),
  ("ImportDeclaration", [("specifiers", .many importKinds), ("source", .one ["Literal"])]),
  ("ImportSpecifier", [("imported", .one ["Identifier"]), ("local", .one ["Identifier"])]),
  ("ImportDefaultSpecifier", [("local", .one ["Identifier"])]),
  ("ImportNamespaceSpecifier", [("local", .one ["Identifier"])]),
  ("ExportNamedDeclaration", [("declaration", .maybe statementKinds),
    ("specifiers", .many ["ExportSpecifier", "ExportDefaultSpecifier"]),
    ("source", .maybe ["Literal"])]),
  ("ExportDefaultDeclaration", [("declaration",
    .one ("FunctionDeclaration" :: "ClassDeclaration" :: expressionKinds))]),
  ("ExportAllDeclaration", [("source", .one ["Literal"])]),
  ("ExportSpecifier", [("local", .one ["Identifier"]), ("exported", .one ["Identifier"])]),
  ("ExportDefaultSpecifier", [("local", .one ["Identifier"])])]

/-- The layouts of one kind of node. -/
def layouts (kind : String) : List Layout :=
  (schema.filter fun entry => entry.1 == kind).map Prod.snd

/-- Are the fields laid out so? -/
def fits : Layout → List (String × Tree) → Bool
  | [], [] => true
  | (key, slot) :: layout, (k, value) :: fields =>
    decide (k = key) && slot.accepts value && fits layout fields
  | _, _ => false

/-- Are the fields of a node laid out as its kind demands? -/
def isLaidOut (kind : String) (fields : List (String × Tree)) : Bool :=
  (layouts kind).any fun layout => fits layout fields

mutual

/-- Is every node of the tree laid out as its kind demands? -/
def isFormed : Tree → Bool
  | .node kind fields => isLaidOut kind fields && areFormedFields fields
  | .list items => areFormed items
  | _ => true

/-- Are all nodes in the fields laid out as their kinds demand? -/
def areFormedFields : List (String × Tree) → Bool
  | [] => true
  | (_, value) :: rest => value.isFormed && areFormedFields rest

/-- Are all nodes in the items laid out as their kinds demand? -/
def areFormed : List Tree → Bool
  | [] => true
  | item :: rest => item.isFormed && areFormed rest

end

/-- A `break` has a field for its label, even if it has none. -/
example : (Tree.node "BreakStatement" [("label", .null)]).isFormed = true ∧
    (Tree.node "BreakStatement" []).isFormed = false := by
  constructor <;> cbv

/-- Is the tree a program, formed throughout? -/
def isProgram (t : Tree) : Bool :=
  t.isKind "Program" && t.isFormed

/-- Is the tree formed, and its root of one of the kinds? -/
def IsA (kinds : List String) (t : Tree) : Prop :=
  t.isAny kinds = true ∧ t.isFormed = true

end Tree
end NameRecovery
