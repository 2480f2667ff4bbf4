import NameRecovery.Failure
import NameRecovery.Text.Blank
import NameRecovery.Trace

/-!
# The host of the program

The command line reads and writes files, prints, complains and leaves a trace
through the operations of a `Host`.  They are all it knows of its surroundings,
so that it can run on a real file system and on one in memory alike.

* `Host.readText` — a file as a text with plain line feeds;
* `Host.makeDirectories` — a directory and those above it;
* `Host.save` — a text to a file, first under another name, so that the file is
  complete whenever it is there.
-/

namespace NameRecovery.File

/-- The operations of a host. -/
structure Host (m : Type → Type) where
  /-- Is there a file at the location?  Only a location that is too long is
  refused. -/
  isFile : Location → m (Except Error Bool)
  /-- Is there a directory at the location? -/
  isDirectory : Location → m Bool
  /-- The bytes of a file. -/
  read : Location → m (Except Error ByteArray)
  /-- A new directory. -/
  makeDirectory : Location → m (Except Error Unit)
  /-- A file with the given text, in place of what was there. -/
  write : Location → String → m (Except Error Unit)
  /-- Move a file onto another location. -/
  move : Location → Location → m (Except Error Unit)
  /-- Start a trace in a file, in place of what was there. -/
  openTrace : Location → m (Except Error Unit)
  /-- Add remarks to the trace, if one was started. -/
  remark : List Remark → m Unit
  /-- Print a text. -/
  print : String → m Unit
  /-- Print a text for the attention of the user. -/
  complain : String → m Unit

namespace Host

variable {m : Type → Type} [Monad m]

/-- The text in bytes, with every line end as a line feed. -/
def textOf (bytes : ByteArray) : Except Text.ByteError String := do
  return String.ofList (Text.unifyLineEnds (← Text.ofBytes bytes).toList)

/-- The text of a file, if it can be read. -/
def readText (host : Host m) (location : Location) : m (Except Error (Option String)) := do
  match ← host.isFile location with
  | .error e => return .error e
  | .ok false => return .ok none
  | .ok true =>
    match ← host.read location with
    | .error _ => return .ok none
    | .ok bytes => return .ok (textOf bytes).toOption

/-- A directory that may be there already. -/
def ensureDirectory (host : Host m) (location : Location) : m (Except Error Unit) := do
  match ← host.makeDirectory location with
  | .ok _ => return .ok ()
  | .error e =>
    if e.cause ≠ .notFound && (← host.isDirectory location) then return .ok ()
    else return .error e

/-- The directory with the given names on the way to it, last one first, and those
above it that are missing. -/
def makeAll (host : Host m) (anchor : String) : List String → m (Except Error Unit)
  | [] => host.ensureDirectory ⟨anchor, []⟩
  | part :: above => do
    let location : Location := ⟨anchor, (part :: above).reverse⟩
    match ← host.ensureDirectory location with
    | .ok _ => return .ok ()
    | .error e =>
      if e.cause = .notFound then
        match ← host.makeAll anchor above with
        | .error e => return .error e
        | .ok _ => host.ensureDirectory location
      else return .error e

/-- A directory and those above it that are missing. -/
def makeDirectories (host : Host m) (location : Location) : m (Except Error Unit) :=
  host.makeAll location.anchor location.parts.reverse

/-- The location under which a file is written first. -/
def draftOf (location : Location) : Except Location.NameError Location :=
  location.withName ("." ++ location.name?.getD "" ++ ".partial")

/-- What a refused operation means for a file that is written: it did not succeed,
but a null character is refused altogether. -/
def notSaved (e : Error) : Except Trouble Bool :=
  if e.cause = .nullCharacter then .error (.refused e) else .ok false

/-- Write a text to a file: did it succeed?  A location without a name is
refused. -/
def save (host : Host m) (location : Location) (text : String) :
    m (Except Trouble Bool) := do
  match ← host.makeDirectories location.parent with
  | .error e => return notSaved e
  | .ok _ =>
    match draftOf location with
    | .error e => return .error (.badName e)
    | .ok draft =>
      match ← host.write draft text with
      | .error e => return notSaved e
      | .ok _ =>
        match ← host.move draft location with
        | .error e => return notSaved e
        | .ok _ => return .ok true

end Host
end NameRecovery.File
