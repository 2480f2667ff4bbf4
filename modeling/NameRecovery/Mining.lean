import NameRecovery.Table
import NameRecovery.Text.Blank
import NameRecovery.Text.Case
import NameRecovery.Text.NameChar
import NameRecovery.Text.Scan

/-!
# Names mined from declarations

Printed text often says what a short name is: it is declared with the value of a
property path or of a text that looks like a name.  The miner recognises one
shape,

    (let | var | const | ,) NAME = VALUE

where the name has up to three characters and perhaps a number, and the value,
which may stand behind a quote, at least four.  A name with exactly one such
declaration gets a label made of the value.
-/

namespace NameRecovery.Mining

/-- A name and the value it is declared with. -/
structure Assignment where
  /-- The name. -/
  name : String
  /-- The value. -/
  value : String
  deriving Repr, DecidableEq

/-- A name and the label its value gives it. -/
structure Candidate where
  /-- The name. -/
  name : String
  /-- The label. -/
  label : String
  /-- The value. -/
  value : String
  deriving Repr, DecidableEq

/-! ## The shape of a declaration -/

/-- What stands before the name of a declaration. -/
def openings : List (List Char) :=
  ["let", "var", "const", ","].map String.toList

/-- A character of a value. -/
def isValueChar (c : Char) : Bool :=
  Text.isNameChar c || c == '.'

/-- Behind the words that open a declaration, and at least one blank. -/
def afterOpening (cs : List Char) : Option (List Char) := do
  let rest ← openings.findSome? fun opening => Text.dropExact opening cs
  if rest.head?.any Text.isBlank then some (Text.trimStart rest) else none

/-- Behind an equals sign, the blanks around it, and a quote if there is one. -/
def afterEquals (cs : List Char) : Option (List Char) := do
  let rest := Text.trimStart (← Text.dropExact ['='] (Text.trimStart cs))
  match rest with
  | '\'' :: rest => some rest
  | '"' :: rest => some rest
  | _ => some rest

/-- The value at the start of a text: a name character that is no digit and at
least three more characters. -/
def value? (cs : List Char) : Option (List Char) :=
  let value := cs.takeWhile isValueChar
  if value.head?.any Text.isNameStart && 4 ≤ value.length then some value else none

/-- A declaration at the start of a text. -/
def declaration? : Text.Recogniser Assignment := fun cs => do
  let start ← afterOpening cs
  let name := start.takeWhile Text.isNameChar
  if Text.isNumberedName 3 name then
    let rest ← afterEquals (start.drop name.length)
    let value ← value? rest
    let size := cs.length - (rest.drop value.length).length
    return (⟨String.ofList name, String.ofList value⟩, size)
  else none

/-- The declarations in a text. -/
def assignments (text : String) : List Assignment :=
  Text.findAll declaration? text.toList

/-! ## Labels -/

/-- Every point with the character behind it replaced by that character in capitals;
a point before a line feed stays. -/
def joinSteps : List Char → List Char
  | '.' :: c :: cs =>
    if c = '\n' then '.' :: c :: joinSteps cs else Text.upperChar c ++ joinSteps cs
  | c :: cs => c :: joinSteps cs
  | [] => []

/-- The steps of a path in one word, each but the first with a capital. -/
def toLabel (value : String) : String :=
  String.ofList ((joinSteps value.toList).filter (· ≠ '.'))

/-- Values that say nothing about a name. -/
def defaultExcluded : List String := ["function"]

/-- How many of the declarations declare a name. -/
def occurrences (found : List Assignment) (name : String) : Nat :=
  found.countP fun a => a.name == name

/-- Does a value say something?  A path whose first step is a single character does
not. -/
def isTelling (excluded : List String) (value : String) : Bool :=
  !excluded.contains value && value.toList[1]? != some '.'

/-- The candidates among declarations: those of names declared once. -/
def candidatesAmong (excluded : List String) (found : List Assignment) : List Candidate :=
  let single := found.filter fun a =>
    occurrences found a.name == 1 && isTelling excluded a.value
  single.map fun a => ⟨a.name, toLabel a.value, a.value⟩

/-- The candidates a text has. -/
def candidates (excluded : List String) (text : String) : List Candidate :=
  candidatesAmong excluded (assignments text)

/-- The new names of candidates: the label, the separator and the old name. -/
def renames (separator : String) (found : List Candidate) : Table String :=
  Table.ofList ((found.filter fun c => c.label ≠ "").map fun c =>
    (c.name, c.label ++ separator ++ c.name))

end NameRecovery.Mining
