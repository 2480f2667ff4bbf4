import NameRecovery.Text.Blank

/-!
# Locations of files

A location is written with slashes between its parts.  Empty parts and parts
that are a single point say nothing and are dropped, so that each location has
one form.  A location starts at the root if it begins with a slash; exactly two
slashes are a root of their own.
-/

namespace NameRecovery.File

/-- The location of a file or a directory. -/
structure Location where
  /-- The root it starts from: none, one slash or two. -/
  anchor : String
  /-- The names on the way. -/
  parts : List String
  deriving Repr, DecidableEq

namespace Location

/-- The names between the slashes of a text. -/
def partsOf (cs : List Char) : List String :=
  ((Text.splitAtChar '/' cs).map String.ofList).filter fun part => part ≠ "" ∧ part ≠ "."

/-- The location a text describes. -/
def ofText (text : String) : Location :=
  let cs := text.toList
  let slashes := (cs.takeWhile (· = '/')).length
  let anchor := if slashes = 0 then "" else if slashes = 2 then "//" else "/"
  ⟨anchor, partsOf cs⟩

/-- The text of a location. -/
def toText (location : Location) : String :=
  let text := location.anchor ++ String.intercalate "/" location.parts
  if text = "" then "." else text

/-- The last name, if there is one. -/
def name? (location : Location) : Option String :=
  location.parts.getLast?

/-- The location without its last name. -/
def parent (location : Location) : Location :=
  { location with parts := location.parts.dropLast }

/-- A name without its last suffix.  A point at its start or its end opens no
suffix. -/
def stemOf (name : String) : String :=
  let reversed := name.toList.reverse
  let suffix := reversed.takeWhile (· ≠ '.')
  let rest := (reversed.drop suffix.length).drop 1
  if suffix.isEmpty || rest.isEmpty then name else String.ofList rest.reverse

/-- Can the text stand for one name on the way? -/
def isName (name : String) : Bool :=
  name.toList.getLast? ≠ some '/' && name.toList.head? ≠ some '/' &&
    (partsOf name.toList).length == 1

/-- Why a name cannot be replaced. -/
inductive NameError where
  /-- The location has no last name. -/
  | empty (location : Location)
  /-- The new name is none. -/
  | invalid (name : String)
  deriving Repr, DecidableEq

/-- The location with another last name. -/
def withName (location : Location) (name : String) : Except NameError Location :=
  if location.parts.isEmpty then .error (.empty location)
  else if isName name then .ok { location with parts := location.parts.dropLast ++ [name] }
  else .error (.invalid name)

/-- The most bytes a name on the way may have. -/
def maxNameSize : Nat := 255

/-- The most bytes a location may have. -/
def maxSize : Nat := 4095

/-- Has the text of a location a null character? -/
def hasNull (location : Location) : Bool :=
  location.toText.toList.contains (Char.ofNat 0)

end Location

/-- What the names of results end in. -/
def resultSuffix : String := "_demystified.js"

/-- Where the result for an input goes: next to it, with another suffix. -/
def resultLocation (suffix input : String) : Except Location.NameError Location :=
  let location := Location.ofText input
  location.withName (Location.stemOf (location.name?.getD "") ++ suffix)

end NameRecovery.File
