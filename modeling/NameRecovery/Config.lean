import NameRecovery.Failure
import NameRecovery.Profile
import NameRecovery.Text.Blank

/-!
# Settings of a run

Settings come from a configuration file, from the command line or from both.
They arrive as JSON values under their names; `Config.check` accepts them or
says what is wrong with the first one that is not acceptable.

* `Config.ofFields` — settings that differ from the default ones;
* `Config.merge` — settings on top of others.
-/

namespace NameRecovery

/-- The settings of a run. -/
structure Config where
  /-- How many rounds of mining there are. -/
  miningRounds : Nat := 3
  /-- Go on mining until a round renames nothing? -/
  untilConverged : Bool := false
  /-- How many rounds there are at most in that case. -/
  maxRounds : Nat := 10
  /-- What stands between labels and names. -/
  separator : String := "$"
  /-- Names that are no context of a short name. -/
  stoplist : List String := defaultStoplist
  /-- What programs are parsed as. -/
  goal : Grammar.Goal := .script
  /-- Give names to anonymous functions? -/
  nameFunctions : Bool := true
  /-- The indentation of one level. -/
  indent : String := defaultIndent
  deriving Repr, DecidableEq

namespace Config

/-- The number of rounds a run may take. -/
def roundLimit (config : Config) : Nat :=
  if config.untilConverged then config.maxRounds else config.miningRounds

/-- The settings under their names. -/
def toFields (config : Config) : Table Json := [
  ("mining_rounds", .nat config.miningRounds),
  ("until_converged", .bool config.untilConverged),
  ("max_rounds", .nat config.maxRounds),
  ("separator", .text config.separator),
  ("stoplist", .texts config.stoplist),
  ("source_type", .text config.goal.name),
  ("name_functions", .bool config.nameFunctions),
  ("indent", .text config.indent)]

/-- The names of all settings. -/
def settings : List String :=
  Table.keys (toFields {})

/-! ## Checking -/

/-- A value under a name. -/
def valueOf (fields : Table Json) (key : String) : Json :=
  (fields.find? key).getD .null

/-- A number from zero on. -/
def count (fields : Table Json) (key : String) : Except Failure Nat :=
  match valueOf fields key with
  | .int (.ofNat n) => .ok n
  | other => .error (.config (.notCount key (Display.json other)))

/-- A flag. -/
def flag (fields : Table Json) (key : String) : Except Failure Bool :=
  match valueOf fields key with
  | .bool b => .ok b
  | _ => .error (.config (.notFlag key))

/-- A separator: at least one character, all of them characters of names. -/
def checkSeparator (value : Json) : Except Failure String :=
  match value with
  | .text s =>
    if s ≠ "" ∧ s.toList.all Text.isNameChar then .ok s
    else .error (.config (.badSeparator (Display.text s)))
  | other => .error (.config (.badSeparator (Display.json other)))

/-- A goal by its name. -/
def checkGoal (value : Json) : Except Failure Grammar.Goal :=
  match value with
  | .text "script" => .ok .script
  | .text "module" => .ok .module
  | _ => .error (.config .badGoal)

/-- An indentation: blanks only. -/
def checkIndent (value : Json) : Except Failure String :=
  match value with
  | .text s => if s.toList.all Text.isBlank then .ok s else .error (.config .badIndent)
  | _ => .error (.config .badIndent)

/-- A stop list: texts in a list, or the names of an object's fields. -/
def checkStoplist (value : Json) : Except Failure (List String) :=
  match value with
  | .array items =>
    match items.mapM Json.text? with
    | some names => .ok names
    | none => .error (.config .badStoplist)
  | .object fields => .ok (Table.keys fields)
  | .text _ => .error (.config .badStoplist)
  | .null => .error (.trouble (.notIterable "NoneType"))
  | .bool _ => .error (.trouble (.notIterable "bool"))
  | .int _ => .error (.trouble (.notIterable "int"))
  | .real _ => .error (.trouble (.notIterable "float"))

/-- The settings under their names, if all of them are acceptable. -/
def check (fields : Table Json) : Except Failure Config := do
  let miningRounds ← count fields "mining_rounds"
  let maxRounds ← count fields "max_rounds"
  if maxRounds < 1 then throw (.config .noRounds)
  let untilConverged ← flag fields "until_converged"
  let nameFunctions ← flag fields "name_functions"
  let separator ← checkSeparator (valueOf fields "separator")
  let goal ← checkGoal (valueOf fields "source_type")
  let indent ← checkIndent (valueOf fields "indent")
  let stoplist ← checkStoplist (valueOf fields "stoplist")
  return { miningRounds, untilConverged, maxRounds, separator, stoplist, goal, nameFunctions, indent }

/-- Fields with other values in some of them. -/
def overlay (fields changes : Table Json) : Table Json :=
  changes.foldl (fun fields change => fields.put change.1 change.2) fields

/-- Settings that differ from the default ones in the given values. -/
def ofFields (fields : Table Json) : Except Failure Config :=
  let unknown := fields.keys.filter fun key => !settings.contains key
  if unknown.isEmpty then check (overlay (toFields {}) fields)
  else .error (.config (.unknownKeys (unknown.mergeSort fun a b => a ≤ b)))

/-- Is the value there at all? -/
def isGiven : Json → Bool
  | .null => false
  | _ => true

/-- The name that stands for the settings themselves. -/
def reservedKey : String := "self"

/-- Settings with other values in some of them; nothing if no value is given. -/
def merge? (config : Config) (changes : Table Json) : Option (Except Failure Config) :=
  let given := changes.filter fun change => isGiven change.2
  if changes.has reservedKey then some (.error (.trouble .reservedSetting))
  else if given.isEmpty then none
  else
    match (Table.keys given).find? fun key => !settings.contains key with
    | some key => some (.error (.trouble (.unknownSetting key)))
    | none => some (check (overlay config.toFields given))

/-- Settings with other values in some of them. -/
def merge (config : Config) (changes : Table Json) : Except Failure Config :=
  (config.merge? changes).getD (.ok config)

/-- The settings in the text of a configuration file. -/
def ofText (path text : String) : Except Failure Config :=
  match Json.decode text with
  | .error ⟨.tooManyDigits count, _, _, _⟩ => .error (.trouble (.tooManyDigits count))
  | .error e => .error (.config (.invalidJson path e))
  | .ok (.object fields) => ofFields fields
  | .ok _ => .error (.config .notObject)

end Config
end NameRecovery
