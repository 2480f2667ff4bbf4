import NameRecovery.File.Location
import NameRecovery.Json.Display

/-!
# What can go wrong with files

The host of the program refuses an operation for one of a few causes.  A file
can also be there and hold something that is no text.
-/

namespace NameRecovery.File

/-- Why the host refuses an operation. -/
inductive Cause where
  /-- There is nothing at the location. -/
  | notFound
  /-- There is something already. -/
  | occupied
  /-- A file stands on the way. -/
  | notDirectory
  /-- A directory stands where a file should. -/
  | isDirectory
  /-- A name on the way, or the location as a whole, is too long. -/
  | tooLong
  /-- The location has a null character, which no name can have. -/
  | nullCharacter
  deriving Repr, DecidableEq

/-- The number of a cause; a null character has none, because such a location never
gets to the host. -/
def Cause.number? : Cause → Option Nat
  | .notFound => some 2
  | .occupied => some 17
  | .notDirectory => some 20
  | .isDirectory => some 21
  | .tooLong => some 36
  | .nullCharacter => none

/-- The cause in words. -/
def Cause.message : Cause → String
  | .notFound => "No such file or directory"
  | .occupied => "File exists"
  | .notDirectory => "Not a directory"
  | .isDirectory => "Is a directory"
  | .tooLong => "File name too long"
  | .nullCharacter => "embedded null byte"

/-- A refused operation. -/
structure Error where
  /-- Why it was refused. -/
  cause : Cause
  /-- The location, as it was written. -/
  location : String
  deriving Repr, DecidableEq

/-- The refusal in words. -/
def Error.message (e : Error) : String :=
  match e.cause.number? with
  | some number =>
    "[Errno " ++ toString number ++ "] " ++ e.cause.message ++ ": " ++ Display.text e.location
  | none => e.cause.message

end NameRecovery.File
