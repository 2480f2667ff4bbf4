import NameRecovery.Printer.Basic

/-!
# Printing functions, classes and properties
-/

namespace NameRecovery.Printer.Rules

variable (rules : Rules)

/-- The parameters and the body of a function. -/
def functionTail (place : Place) (t : Tree) : Print := do
  let t ← t.withFields
  let params ← rules.arguments place (← (t.get "params").items)
  let body ← rules.blockOf place.level (← t.need "body")
  return "(" ++ params ++ ") " ++ body

/-- A function with its keyword. -/
def function (place : Place) (t : Tree) : Print := do
  let head := (if t.has "async" then "async function" else "function") ++
    (if t.has "generator" then "*" else "") ++ " "
  let name ← if t.has "id" then (← t.need "id").needText "name" else pure ""
  return head ++ name ++ (← rules.functionTail place t)

/-- An arrow function. -/
def arrow (place : Place) (t : Tree) : Print := do
  let params ← rules.arguments place (← (t.get "params").items)
  let head := (if t.has "async" then "async " else "") ++ "(" ++ params ++ ") => "
  let body ← t.need "body"
  if (← body.needKind) = "BlockStatement" then
    return head ++ (← rules.blockOf place.level body)
  else
    let text ← rules.expression place assignmentLevel body
    return head ++ (if text.toList.head? = some '{' then inParens text else text)

/-- The key of a property or class member. -/
def propertyKey (place : Place) (t : Tree) : Print := do
  let key ← t.need "key"
  if t.has "computed" then return "[" ++ (← rules.expression place assignmentLevel key) ++ "]"
  else if (← key.needKind) = "Identifier" then key.needText "name"
  else rules.expression place sequenceLevel key

/-- What stands before the name of a method. -/
def methodMark (t : Tree) : Print := do
  let t ← t.withFields
  return (if t.has "async" then "async " else "") ++ (if t.has "generator" then "*" else "")

/-- Is the value the given text? -/
def isText (text : String) : Tree → Bool
  | .text s => s == text
  | _ => false

/-- The default of a shorthand property, if key and name still agree: `none` if they
do not, and nothing to print if there is no default. -/
def shorthandDefault (key : String) (value : Tree) : Except Fault (Option (Option Tree)) := do
  let kind ← value.needKind
  if kind = "Identifier" then
    return if isText key (← value.need "name") then some none else none
  else if kind = "AssignmentPattern" then
    let left ← value.need "left"
    if (← left.needKind) = "Identifier" then
      if isText key (← left.need "name") then return some (some (← value.need "right"))
      else return none
    else return none
  else return none

/-- A property of an object literal or pattern. -/
def property (place : Place) (t : Tree) : Print := do
  if (← t.needKind) ≠ "Property" then rules.expression place assignmentLevel t
  else
    let key ← rules.propertyKey place t
    let value ← t.need "value"
    let kind := ((t.get? "kind").getD (.text "init")).inText
    let full : Print := do
      return key ++ ": " ++ (← rules.expression place assignmentLevel value)
    if kind = "get" ∨ kind = "set" then
      return kind ++ " " ++ key ++ (← rules.functionTail place value)
    else if t.has "method" then
      return (← methodMark value) ++ key ++ (← rules.functionTail place value)
    else if t.has "shorthand" && !t.has "computed" then
      match ← shorthandDefault key value with
      | some none => return key
      | some (some right) =>
        return key ++ " = " ++ (← rules.expression place assignmentLevel right)
      | none => full
    else full

/-- A member of a class. -/
def member (place : Place) (t : Tree) : Print := do
  let value ← t.need "value"
  let kind := (t.get "kind").inText
  let mark ← if kind = "get" ∨ kind = "set" then pure (kind ++ " ") else methodMark value
  let key ← rules.propertyKey place t
  return (if t.has "static" then "static " else "") ++ mark ++ key ++
    (← rules.functionTail place value)

/-- A class. -/
def classText (place : Place) (t : Tree) : Print := do
  let name ← if t.has "id" then do pure (" " ++ (← (← t.need "id").needText "name")) else pure ""
  let parent ←
    if (t.get "superClass").isNull then pure ""
    else do pure (" extends " ++ (← rules.expression place memberLevel (t.get "superClass")))
  let members ←
    if t.has "body" then do ((← (t.get "body").withFields).get "body").items else pure []
  let head := "class" ++ name ++ parent
  if members.isEmpty then return head ++ " \x7b\x7d"
  else
    let inner : Place := { place with level := place.level + 1 }
    return head ++ " " ++ rules.braced place.level "\n" (← each (rules.member inner) members)

end NameRecovery.Printer.Rules
