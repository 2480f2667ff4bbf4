import NameRecovery.Table

/-!
# JSON values

The values of configuration files, requests and replies.  Whole numbers keep
every digit, and the fields of an object keep the order in which their names
first appeared.
-/

namespace NameRecovery

/-- A JSON value. -/
inductive Json where
  /-- The absent value. -/
  | null
  /-- A truth value. -/
  | bool (value : Bool)
  /-- A number written without fraction and exponent. -/
  | int (value : Int)
  /-- A number written with a fraction or an exponent. -/
  | real (value : Float)
  /-- A text. -/
  | text (value : String)
  /-- A list of values. -/
  | array (items : List Json)
  /-- A list of named values. -/
  | object (fields : List (String × Json))
  deriving Inhabited

namespace Json

/-- The value of a field, for an object that has it. -/
def field? (key : String) : Json → Option Json
  | .object fields => fields.lookup key
  | _ => none

/-- The text of a text value. -/
def text? : Json → Option String
  | .text s => some s
  | _ => none

/-- A list of texts as a value. -/
def texts (items : List String) : Json :=
  .array (items.map .text)

/-- A natural number as a value. -/
def nat (n : Nat) : Json :=
  .int n

end Json
end NameRecovery
