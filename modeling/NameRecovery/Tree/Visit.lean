import NameRecovery.Tree.Basic

/-!
# Visiting a tree in document order

Every traversal follows one order: a node before its children, and the children
by field, in the order the fields of that kind of node stand in the program
text.  Fields that hold no children, such as the key of a literal, are not in
the table `childFields` and are never entered.  A kind that is not in the table
has its fields visited as they come.

* `Tree.children` — the children of one node;
* `Tree.visits` — all nodes below and including the root, each with its parent,
  its field and its path from the root.
-/

namespace NameRecovery

/-- The fields with children of each kind of node, in document order. -/
def childFields : Table (List String) := [
  ("Program", ["body"]),
  ("ExpressionStatement", ["expression"]),
  ("BlockStatement", ["body"]),
  ("EmptyStatement", []),
  ("DebuggerStatement", []),
  ("WithStatement", ["object", "body"]),
  ("ReturnStatement", ["argument"]),
  ("LabeledStatement", ["label", "body"]),
  ("BreakStatement", ["label"]),
  ("ContinueStatement", ["label"]),
  ("IfStatement", ["test", "consequent", "alternate"]),
  ("SwitchStatement", ["discriminant", "cases"]),
  ("SwitchCase", ["test", "consequent"]),
  ("ThrowStatement", ["argument"]),
  ("TryStatement", ["block", "handler", "finalizer"]),
  ("CatchClause", ["param", "body"]),
  ("WhileStatement", ["test", "body"]),
  ("DoWhileStatement", ["body", "test"]),
  ("ForStatement", ["init", "test", "update", "body"]),
  ("ForInStatement", ["left", "right", "body"]),
  ("ForOfStatement", ["left", "right", "body"]),
  ("FunctionDeclaration", ["id", "params", "body"]),
  ("FunctionExpression", ["id", "params", "body"]),
  ("ArrowFunctionExpression", ["params", "body"]),
  ("VariableDeclaration", ["declarations"]),
  ("VariableDeclarator", ["id", "init"]),
  ("ClassDeclaration", ["id", "superClass", "body"]),
  ("ClassExpression", ["id", "superClass", "body"]),
  ("ClassBody", ["body"]),
  ("MethodDefinition", ["key", "value"]),
  ("ThisExpression", []),
  ("Super", []),
  ("Import", []),
  ("Identifier", []),
  ("Literal", []),
  ("TemplateElement", []),
  ("ArrayExpression", ["elements"]),
  ("ArrayPattern", ["elements"]),
  ("ObjectExpression", ["properties"]),
  ("ObjectPattern", ["properties"]),
  ("Property", ["key", "value"]),
  ("SpreadElement", ["argument"]),
  ("RestElement", ["argument"]),
  ("AssignmentPattern", ["left", "right"]),
  ("TemplateLiteral", ["quasis", "expressions"]),
  ("TaggedTemplateExpression", ["tag", "quasi"]),
  ("UnaryExpression", ["argument"]),
  ("UpdateExpression", ["argument"]),
  ("AwaitExpression", ["argument"]),
  ("YieldExpression", ["argument"]),
  ("BinaryExpression", ["left", "right"]),
  ("LogicalExpression", ["left", "right"]),
  ("AssignmentExpression", ["left", "right"]),
  ("ConditionalExpression", ["test", "consequent", "alternate"]),
  ("CallExpression", ["callee", "arguments"]),
  ("NewExpression", ["callee", "arguments"]),
  ("MemberExpression", ["object", "property"]),
  ("SequenceExpression", ["expressions"]),
  ("MetaProperty", ["meta", "property"]),
  ("ImportDeclaration", ["specifiers", "source"]),
  ("ImportSpecifier", ["imported", "local"]),
  ("ImportDefaultSpecifier", ["local"]),
  ("ImportNamespaceSpecifier", ["local"]),
  ("ExportNamedDeclaration", ["declaration", "specifiers", "source"]),
  ("ExportDefaultDeclaration", ["declaration"]),
  ("ExportAllDeclaration", ["source"]),
  ("ExportSpecifier", ["local", "exported"])]

/-- The entries of a node of the given kind that hold children, in document
order: by the table for a known kind, all of them as they come for another. -/
def inDocumentOrder {α : Type} (kind : String) (entries : List (String × α)) : List α :=
  match childFields.find? kind with
  | some keys => keys.filterMap fun key => entries.lookup key
  | none => entries.map Prod.snd

/-- The place of a child in its parent: the field and, in a list, the index. -/
structure Step where
  /-- The field of the parent. -/
  field : String
  /-- The index in the list the field holds; zero when it holds the child itself. -/
  index : Nat
  deriving Repr, DecidableEq

/-- The way from the root to a node. -/
abbrev Path := List Step

/-- A node met on the way through a tree. -/
structure Visit where
  /-- The node. -/
  node : Tree
  /-- Its parent; the root has none. -/
  parent : Option Tree
  /-- The field of the parent it stands in. -/
  field : Option String
  /-- The way to it from the root. -/
  path : Path

/-- Where a traversal stands: the parent, the way to it, and the place of the
value in it. -/
structure Spot where
  /-- The parent of the value. -/
  parent : Option Tree
  /-- The field that holds it. -/
  field : Option String
  /-- The way to it. -/
  path : Path

namespace Tree

mutual

/-- The visits of the nodes in a value, if it is a node. -/
def visitsAt (spot : Spot) : Tree → List Visit
  | .node kind fields =>
    ⟨.node kind fields, spot.parent, spot.field, spot.path⟩ ::
      (inDocumentOrder kind (fieldVisits (.node kind fields) spot.path fields)).flatten
  | _ => []

/-- The visits below each field of a node. -/
def fieldVisits (parent : Tree) (path : Path) : List (String × Tree) → List (String × List Visit)
  | [] => []
  | (key, .list items) :: rest =>
    (key, itemVisits parent path key 0 items) :: fieldVisits parent path rest
  | (key, value) :: rest =>
    (key, visitsAt ⟨parent, key, path ++ [⟨key, 0⟩]⟩ value) :: fieldVisits parent path rest

/-- The visits of the nodes in the items of a list, the first having the given
index. -/
def itemVisits (parent : Tree) (path : Path) (key : String) : Nat → List Tree → List Visit
  | _, [] => []
  | index, item :: rest =>
    visitsAt ⟨parent, key, path ++ [⟨key, index⟩]⟩ item ++
      itemVisits parent path key (index + 1) rest

end

/-- All nodes of a tree in document order. -/
def visits (t : Tree) : List Visit :=
  t.visitsAt ⟨none, none, []⟩

/-- The nodes in the value of a field: itself, or those in the list. -/
def nodesIn : Tree → List Tree
  | .list items => items.filter isNode
  | t => if t.isNode then [t] else []

/-- The children of a node with their fields, in document order. -/
def children : Tree → List (String × Tree)
  | .node kind fields =>
    (inDocumentOrder kind (fields.map fun field =>
      (field.1, field.2.nodesIn.map fun child => (field.1, child)))).flatten
  | _ => []

/-- All nodes of a tree in document order; the root has to be a node. -/
def walk (t : Tree) : Except Fault (List Visit) := do
  let _ ← t.need "type"
  return t.visits

end Tree
end NameRecovery
