import NameRecovery.Json.Basic
import NameRecovery.Decimal.Shortest
import NameRecovery.Text.Surrogate

/-!
# Writing JSON

Two layouts are in use: on one line, with a blank after each comma and colon,
and spread over lines with a given indentation.  Texts are quoted either with
every character beyond ASCII escaped, or with such characters as they are.
-/

namespace NameRecovery.Json

/-- One of the sixteen digits of base sixteen, in lower case. -/
def hexDigit (n : Nat) : Char :=
  if n < 10 then Char.ofNat (48 + n) else Char.ofNat (87 + n)

/-- The low `width` digits of a number in base sixteen. -/
def hex : Nat → Nat → List Char
  | 0, _ => []
  | width + 1, n => hex width (n / 16) ++ [hexDigit (n % 16)]

/-- One unit of sixteen bits as an escape. -/
def unitEscape (n : Nat) : List Char :=
  '\\' :: 'u' :: hex 4 n

/-- A character inside quotes; with `ascii`, characters beyond ASCII are escaped,
those beyond sixteen bits as a pair. -/
def quotedChar (ascii : Bool) (c : Char) : List Char :=
  let n := Text.codeOf c
  if c = '"' then ['\\', '"']
  else if c = '\\' then ['\\', '\\']
  else if c = '\n' then ['\\', 'n']
  else if c = '\r' then ['\\', 'r']
  else if c = '\t' then ['\\', 't']
  else if n = 8 then ['\\', 'b']
  else if n = 12 then ['\\', 'f']
  else if n < 32 then unitEscape n
  else if ascii && 127 ≤ n then
    if n < 0x10000 then unitEscape n
    else
      unitEscape (0xd800 + (n - 0x10000) / 0x400) ++
        unitEscape (0xdc00 + (n - 0x10000) % 0x400)
  else [c]

/-- A text in quotes. -/
def quote (ascii : Bool) (s : String) : String :=
  String.ofList ('"' :: s.toList.flatMap (quotedChar ascii) ++ ['"'])

/-- The names JSON gives to the values that are not numbers. -/
def specials : Decimal.Specials := ⟨"NaN", "Infinity"⟩

/-- A floating-point number. -/
def renderReal (x : Float) : String :=
  Decimal.render specials x

/-! ## On one line -/

mutual

/-- A value on one line. -/
def compact : Json → String
  | .null => "null"
  | .bool true => "true"
  | .bool false => "false"
  | .int n => toString n
  | .real x => renderReal x
  | .text s => quote false s
  | .array items => "[" ++ String.intercalate ", " (compactItems items) ++ "]"
  | .object fields => "\x7b" ++ String.intercalate ", " (compactFields fields) ++ "\x7d"

/-- The items of an array, each on its own. -/
def compactItems : List Json → List String
  | [] => []
  | item :: rest => compact item :: compactItems rest

/-- The fields of an object, each on its own. -/
def compactFields : List (String × Json) → List String
  | [] => []
  | (key, value) :: rest => (quote false key ++ ": " ++ compact value) :: compactFields rest

end

/-! ## Over several lines -/

/-- The parts of a list or an object between its brackets, each on a line of its
own. -/
def spreadParts (opening closing indent : String) (level : Nat) (parts : List String) : String :=
  if parts.isEmpty then opening ++ closing
  else
    let pad (n : Nat) := "\n" ++ String.join (List.replicate n indent)
    opening ++ pad (level + 1) ++ String.intercalate ("," ++ pad (level + 1)) parts ++ pad level ++
      closing

mutual

/-- A value over several lines, the first one being at the given depth. -/
def spread (indent : String) (level : Nat) : Json → String
  | .null => "null"
  | .bool true => "true"
  | .bool false => "false"
  | .int n => toString n
  | .real x => renderReal x
  | .text s => quote false s
  | .array items => spreadParts "[" "]" indent level (spreadItems indent (level + 1) items)
  | .object fields =>
    spreadParts "\x7b" "\x7d" indent level (spreadFields indent (level + 1) fields)

/-- The items of an array, each on its own. -/
def spreadItems (indent : String) (level : Nat) : List Json → List String
  | [] => []
  | item :: rest => spread indent level item :: spreadItems indent level rest

/-- The fields of an object, each on its own. -/
def spreadFields (indent : String) (level : Nat) : List (String × Json) → List String
  | [] => []
  | (key, value) :: rest =>
    (quote false key ++ ": " ++ spread indent level value) :: spreadFields indent level rest

end

end NameRecovery.Json
