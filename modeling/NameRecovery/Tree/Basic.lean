import NameRecovery.Json.Display

/-!
# Program trees

A program is held as a tree of nodes in the usual exchange format for
JavaScript programs: a node has a kind and named fields, and a field holds a
node, a list of nodes and holes, or plain data.  Trees come from the parser or
from JSON; the latter may lack fields or hold kinds of nodes this library knows
nothing of, so that reading a field can fail with a `Fault`.
-/

namespace NameRecovery

/-- A program tree, or the value of a field of one. -/
inductive Tree where
  /-- Nothing. -/
  | null
  /-- A flag. -/
  | bool (value : Bool)
  /-- A whole number. -/
  | int (value : Int)
  /-- Any other number. -/
  | real (value : Float)
  /-- A text. -/
  | text (value : String)
  /-- A list of values. -/
  | list (items : List Tree)
  /-- Named values without a kind. -/
  | record (fields : List (String × Tree))
  /-- A node: its kind and its fields. -/
  | node (kind : String) (fields : List (String × Tree))
  deriving Inhabited

/-- Why a tree cannot be processed. -/
inductive Fault where
  /-- A field that has to be there is not. -/
  | missingField (name : String)
  /-- No statement of this kind can be printed; the kind as messages show it. -/
  | noStatementForm (kind : String)
  /-- No expression of this kind can be printed; the kind as messages show it. -/
  | noExpressionForm (kind : String)
  /-- A field is to be read of a value that has none, of the given type. -/
  | noFields (type : String)
  /-- A field that may be absent is to be looked up in a value that has none, of the
  given type. -/
  | noLookup (type : String)
  /-- A value of the given type stands for a list. -/
  | noList (type : String)
  /-- A value has the wrong shape for its place. -/
  | wrongShape (wanted : String)
  deriving Repr, DecidableEq

/-- The fault in words. -/
def Fault.message : Fault → String
  | .missingField name => Display.text name
  | .noStatementForm kind => "cannot generate statement for node type " ++ kind
  | .noExpressionForm kind => "cannot generate expression for node type " ++ kind
  | .noFields "str" => "string indices must be integers, not 'str'"
  | .noFields "list" => "list indices must be integers or slices, not str"
  | .noFields type => "'" ++ type ++ "' object is not subscriptable"
  | .noLookup type => "'" ++ type ++ "' object has no attribute 'get'"
  | .noList type => "'" ++ type ++ "' object is not iterable"
  | .wrongShape wanted => "expected " ++ wanted

namespace Tree

/-! ## Trees and JSON -/

/-- Named values: a node if they give a kind, else a record. -/
def ofFields (fields : List (String × Tree)) : Tree :=
  match fields.lookup "type" with
  | some (.text kind) => .node kind (fields.filter fun field => field.1 ≠ "type")
  | _ => .record fields

mutual

/-- The tree a JSON value describes. -/
def ofJson : Json → Tree
  | .null => .null
  | .bool b => .bool b
  | .int n => .int n
  | .real x => .real x
  | .text s => .text s
  | .array items => .list (ofJsonItems items)
  | .object fields => ofFields (ofJsonFields fields)

/-- The trees of the items of an array. -/
def ofJsonItems : List Json → List Tree
  | [] => []
  | item :: rest => ofJson item :: ofJsonItems rest

/-- The trees of the fields of an object. -/
def ofJsonFields : List (String × Json) → List (String × Tree)
  | [] => []
  | (key, value) :: rest => (key, ofJson value) :: ofJsonFields rest

end

mutual

/-- The JSON value that describes a tree. -/
def toJson : Tree → Json
  | .null => .null
  | .bool b => .bool b
  | .int n => .int n
  | .real x => .real x
  | .text s => .text s
  | .list items => .array (toJsonItems items)
  | .record fields => .object (toJsonFields fields)
  | .node kind fields => .object (("type", .text kind) :: toJsonFields fields)

/-- The JSON values of a list of trees. -/
def toJsonItems : List Tree → List Json
  | [] => []
  | item :: rest => toJson item :: toJsonItems rest

/-- The JSON values of fields. -/
def toJsonFields : List (String × Tree) → List (String × Json)
  | [] => []
  | (key, value) :: rest => (key, toJson value) :: toJsonFields rest

end

/-! ## Fields -/

/-- The kind of a node. -/
def kind? : Tree → Option String
  | .node kind _ => some kind
  | _ => none

/-- Is the value a node? -/
def isNode (t : Tree) : Bool :=
  t.kind?.isSome

/-- Is the value a node of the given kind? -/
def isKind (kind : String) (t : Tree) : Bool :=
  t.kind? == some kind

/-- The value of a field that need not be there. -/
def get? (key : String) : Tree → Option Tree
  | .record fields => fields.lookup key
  | .node kind fields => if key = "type" then some (.text kind) else fields.lookup key
  | _ => none

/-- The value of a field, nothing when it is absent. -/
def get (key : String) (t : Tree) : Tree :=
  (t.get? key).getD .null

/-- The type of a value, as messages call it. -/
def typeName : Tree → String
  | .null => "NoneType"
  | .bool _ => "bool"
  | .int _ => "int"
  | .real _ => "float"
  | .text _ => "str"
  | .list _ => "list"
  | .record _ | .node _ _ => "dict"

/-- The value of a field that has to be there. -/
def need (key : String) (t : Tree) : Except Fault Tree :=
  match t with
  | .record _ | .node _ _ =>
    match t.get? key with
    | some value => .ok value
    | none => .error (.missingField key)
  | _ => .error (.noFields t.typeName)

/-- The value itself, which has to have fields. -/
def withFields (t : Tree) : Except Fault Tree :=
  match t with
  | .record _ | .node _ _ => .ok t
  | _ => .error (.noLookup t.typeName)

/-- Is there nothing? -/
def isNull : Tree → Bool
  | .null => true
  | _ => false

/-- Does the value count as set?  Nothing, `false`, zero and everything empty do
not. -/
def isSet : Tree → Bool
  | .null => false
  | .bool b => b
  | .int n => n != 0
  | .real x => x != 0.0
  | .text s => s != ""
  | .list items => !items.isEmpty
  | .record fields => !fields.isEmpty
  | .node _ _ => true

/-- Is the field of the tree set? -/
def has (key : String) (t : Tree) : Bool :=
  (t.get key).isSet

/-- The text of a text value. -/
def asText : Tree → Except Fault String
  | .text s => .ok s
  | _ => .error (.wrongShape "a text")

/-- The text of a text value, if it is one. -/
def text? : Tree → Option String
  | .text s => some s
  | _ => none

/-- The items of a list.  A text has its characters as items, and a value with fields
their names. -/
def listed : Tree → Except Fault (List Tree)
  | .list items => .ok items
  | .text s => .ok (s.toList.map fun c => .text (String.singleton c))
  | .record fields => .ok (fields.map fun field => .text field.1)
  | .node _ fields => .ok (.text "type" :: fields.map fun field => .text field.1)
  | t => .error (.noList t.typeName)

/-- The items of a list, none for anything that is not set. -/
def items (t : Tree) : Except Fault (List Tree) :=
  if t.isSet then t.listed else .ok []

/-- The text of a field that has to be there. -/
def needText (key : String) (t : Tree) : Except Fault String := do
  (← t.need key).asText

/-- The kind of a value, as messages show it; it has to be there. -/
def needKind (t : Tree) : Except Fault String := do
  match ← t.need "type" with
  | .text kind => return kind
  | other => return Display.json other.toJson

/-- A value inside running text: texts as they are, all else as messages show
it. -/
def inText : Tree → String
  | .text s => s
  | t => Display.json t.toJson

end Tree
end NameRecovery
