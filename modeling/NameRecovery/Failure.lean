import NameRecovery.File.Error
import NameRecovery.Grammar.Program
import NameRecovery.Json.Decode
import NameRecovery.Printer.Program
import NameRecovery.Text.Utf8

/-!
# Failures

Two kinds of things can go wrong.  A `Failure` of this program's own kind (a
text that is no program, a bad configuration) is reported as it is.  Any other
`Trouble` inside a pass is reported together with the name of the pass.
-/

namespace NameRecovery

/-- A text that could not be parsed, with the place if it is known. -/
structure ParseError where
  /-- What is wrong. -/
  message : String
  /-- The line. -/
  line : Option Int := none
  /-- The column. -/
  column : Option Int := none
  /-- The index of the character. -/
  index : Option Int := none
  /-- What is wrong, in other words. -/
  details : Option String := none
  deriving Repr, DecidableEq

/-- The complaint of the parser as an error. -/
def ParseError.ofSource (e : Source.SourceError) : ParseError :=
  { message := e.message, line := some e.line, column := some e.column, index := some e.index }

/-- The other words if there are any, else the message. -/
def ParseError.description (e : ParseError) : String :=
  match e.details with
  | some text => if text = "" then e.message else text
  | none => e.message

/-- The error as a user sees it: with the name of the text, and the place if it is
known. -/
def ParseError.describe (e : ParseError) (source : String) : String :=
  match e.line, e.column with
  | some line, some column =>
    source ++ ":" ++ toString line ++ ":" ++ toString column ++ ": " ++ e.description
  | _, _ => source ++ ": " ++ e.message

/-- Something unexpected. -/
inductive Trouble where
  /-- A tree that cannot be processed. -/
  | fault (cause : Fault)
  /-- There is no tree to print. -/
  | noTree
  /-- A template without its head. -/
  | headlessTemplate
  /-- A number with too many digits to be named. -/
  | unprintableNumber
  /-- A value that is no list, by the name of its type. -/
  | notIterable (type : String)
  /-- A setting that does not exist. -/
  | unknownSetting (name : String)
  /-- A setting with the name that stands for the settings themselves. -/
  | reservedSetting
  /-- A frame that does not exist. -/
  | noFrame
  /-- No frame is left to be removed. -/
  | noFrameToPop
  /-- A location whose last name cannot be replaced. -/
  | badName (cause : File.Location.NameError)
  /-- A file operation that was refused. -/
  | refused (cause : File.Error)
  /-- A file that holds no text. -/
  | noText (cause : Text.ByteError)
  /-- A level of verbosity that says nothing. -/
  | noLevel
  /-- An integer in a JSON text that has too many digits. -/
  | tooManyDigits (count : Nat)
  /-- Raised by a pass: the kind of trouble, and what it says. -/
  | raised (kind message : String)
  deriving Repr, DecidableEq

/-- The trouble in words. -/
def Trouble.message : Trouble → String
  | .fault cause => cause.message
  | .noTree => "no program tree to render"
  | .headlessTemplate => Source.Complaint.headlessTemplate.message
  | .unprintableNumber => Source.Complaint.unprintableNumber.message
  | .notIterable type => "'" ++ type ++ "' object is not iterable"
  | .reservedSetting => "PipelineConfig.merged() got multiple values for argument 'self'"
  | .unknownSetting name =>
    "PipelineConfig.__init__() got an unexpected keyword argument " ++ Display.text name
  | .noFrame => "list index out of range"
  | .noFrameToPop => "pop from empty list"
  | .badName (.empty location) =>
    "PosixPath(" ++ Display.text location.toText ++ ") has an empty name"
  | .badName (.invalid name) => "Invalid name " ++ Display.text name
  | .refused cause => cause.message
  | .noText cause => cause.message
  | .noLevel => "attribute name must be string, not 'list'"
  | .tooManyDigits count => (Json.Problem.tooManyDigits count).message
  | .raised _ message => message

/-- The trouble in words that are never empty. -/
def Trouble.summary (trouble : Trouble) : String :=
  match trouble with
  | .raised kind "" => kind
  | _ => trouble.message

/-- Why a configuration is refused. -/
inductive ConfigError where
  /-- Settings that do not exist. -/
  | unknownKeys (keys : List String)
  /-- A setting that has to be a number from zero on; its value as messages show
  it. -/
  | notCount (key shown : String)
  /-- At least one round has to be allowed. -/
  | noRounds
  /-- A setting that has to be a flag. -/
  | notFlag (key : String)
  /-- A separator that is not made of name characters, as messages show it. -/
  | badSeparator (shown : String)
  /-- A goal that does not exist. -/
  | badGoal
  /-- An indentation that is not blank. -/
  | badIndent
  /-- A stop list that is no list of texts. -/
  | badStoplist
  /-- A file that cannot be read. -/
  | unreadable (path reason : String)
  /-- A file that is not JSON. -/
  | invalidJson (path : String) (e : Json.DecodeError)
  /-- A file that holds something else than an object. -/
  | notObject
  /-- Any other reason, in words. -/
  | other (message : String)
  deriving Repr, DecidableEq

/-- The reason in words. -/
def ConfigError.message : ConfigError → String
  | .unknownKeys keys => "unknown configuration keys: " ++ String.intercalate ", " keys
  | .notCount key shown => key ++ " must be a non-negative integer, got " ++ shown
  | .noRounds => "max_rounds must be at least 1"
  | .notFlag key => key ++ " must be a boolean"
  | .badSeparator shown => "separator must consist of identifier characters, got " ++ shown
  | .badGoal => "source_type must be one of script, module"
  | .badIndent => "indent must be whitespace"
  | .badStoplist => "stoplist must be a list of strings"
  | .unreadable path reason => "cannot read config file " ++ path ++ ": " ++ reason
  | .invalidJson path e => "invalid JSON in config file " ++ path ++ ": " ++ e.message
  | .notObject => "config file must contain a JSON object"
  | .other message => message

/-- Why an operation did not succeed. -/
inductive Failure where
  /-- A text that is no program. -/
  | parse (e : ParseError)
  /-- A bad configuration. -/
  | config (e : ConfigError)
  /-- Any other failure of this program's own kind. -/
  | general (message : String)
  /-- Trouble inside a pass. -/
  | passFailed (pass : String) (cause : Trouble)
  /-- Trouble outside any pass. -/
  | trouble (cause : Trouble)
  deriving Repr, DecidableEq

/-- The failure in words. -/
def Failure.message : Failure → String
  | .parse e => e.message
  | .config e => e.message
  | .general message => message
  | .passFailed pass cause => "pass " ++ Display.text pass ++ " failed: " ++ cause.summary
  | .trouble cause => cause.message

/-- A failed reading of a field as a failure. -/
def liftFault {α : Type} : Except Fault α → Except Failure α
  | .ok value => .ok value
  | .error fault => .error (.trouble (.fault fault))

/-- The tree of a program text. -/
def parseProgram (goal : Grammar.Goal) (text : String) : Except Failure Tree :=
  match Grammar.parse goal text with
  | .ok tree => .ok tree
  | .error e =>
    match e.complaint with
    | .headlessTemplate => .error (.trouble .headlessTemplate)
    | .unprintableNumber => .error (.trouble .unprintableNumber)
    | _ => .error (.parse (.ofSource e))

end NameRecovery
