import NameRecovery.Json.Encode
import NameRecovery.Text.Printable

/-!
# Values as messages show them

Error messages and traces show a value in a notation of their own: texts in
single quotes where possible, `None`, `True` and `False` for the three
constants, lists in brackets, pairs in parentheses, and objects in braces.
-/

namespace NameRecovery.Display

/-- A character inside the given quotes. -/
def quotedChar (mark : Char) (c : Char) : List Char :=
  let n := Text.codeOf c
  if c = mark ∨ c = '\\' then ['\\', c]
  else if c = '\n' then ['\\', 'n']
  else if c = '\r' then ['\\', 'r']
  else if c = '\t' then ['\\', 't']
  else if Text.isPrintable c then [c]
  else if n < 0x100 then '\\' :: 'x' :: Json.hex 2 n
  else if n < 0x10000 then '\\' :: 'u' :: Json.hex 4 n
  else '\\' :: 'U' :: Json.hex 8 n

/-- A text in single quotes, or in double ones when it has single quotes and no
double ones. -/
def text (s : String) : String :=
  let cs := s.toList
  let mark := if cs.contains '\'' && !cs.contains '"' then '"' else '\''
  String.ofList (mark :: cs.flatMap (quotedChar mark) ++ [mark])

/-- The names messages give to the values that are not numbers. -/
def specials : Decimal.Specials := ⟨"nan", "inf"⟩

/-- A floating-point number. -/
def real (x : Float) : String :=
  Decimal.render specials x

/-- A truth value. -/
def bool (b : Bool) : String :=
  if b then "True" else "False"

/-- A list of displayed items. -/
def list (items : List String) : String :=
  "[" ++ String.intercalate ", " items ++ "]"

/-- A pair of displayed items. -/
def pair (a b : String) : String :=
  "(" ++ a ++ ", " ++ b ++ ")"

/-- Displayed names with displayed values. -/
def fields (entries : List (String × String)) : String :=
  "\x7b" ++ String.intercalate ", " (entries.map fun e => e.1 ++ ": " ++ e.2) ++ "\x7d"

mutual

/-- Any JSON value. -/
def json : Json → String
  | .null => "None"
  | .bool b => bool b
  | .int n => toString n
  | .real x => real x
  | .text s => text s
  | .array items => list (jsonItems items)
  | .object entries => fields (jsonFields entries)

/-- The items of an array. -/
def jsonItems : List Json → List String
  | [] => []
  | item :: rest => json item :: jsonItems rest

/-- The fields of an object. -/
def jsonFields : List (String × Json) → List (String × String)
  | [] => []
  | (key, value) :: rest => (text key, json value) :: jsonFields rest

end

end NameRecovery.Display
