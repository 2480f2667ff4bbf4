import NameRecovery.Json.Display

/-!
# Options of the command line

The options, how they are spelled, and what can be wrong with their use.
-/

namespace NameRecovery.Command

/-- An option of the command line. -/
inductive Flag where
  /-- Show what there is to say about the command line. -/
  | help
  /-- Where the result goes. -/
  | output
  /-- Print the result. -/
  | stdout
  /-- Where the report goes. -/
  | report
  /-- Where settings come from. -/
  | config
  /-- How many rounds of mining there are. -/
  | rounds
  /-- Mine until nothing changes. -/
  | untilConverged
  /-- How many rounds there are at most in that case. -/
  | maxRounds
  /-- Parse the input as a module. -/
  | module
  /-- Do not name anonymous functions. -/
  | noFunctionNames
  /-- Passes to leave out. -/
  | skipPasses
  /-- Passes to keep. -/
  | onlyPasses
  /-- How much is said on the console. -/
  | logLevel
  /-- Where the trace goes. -/
  | debugLog
  /-- Answer requests. -/
  | serve
  deriving Repr, DecidableEq

/-- All options. -/
def Flag.all : List Flag := [
  .help, .output, .stdout, .report, .config, .rounds, .untilConverged, .maxRounds, .module,
  .noFunctionNames, .skipPasses, .onlyPasses, .logLevel, .debugLog, .serve]

/-- The spellings of an option. -/
def Flag.spellings : Flag → List String
  | .help => ["-h", "--help"]
  | .output => ["-o", "--output"]
  | .stdout => ["--stdout"]
  | .report => ["--report"]
  | .config => ["--config"]
  | .rounds => ["--rounds"]
  | .untilConverged => ["--until-converged"]
  | .maxRounds => ["--max-rounds"]
  | .module => ["--module"]
  | .noFunctionNames => ["--no-function-names"]
  | .skipPasses => ["--skip-passes"]
  | .onlyPasses => ["--only-passes"]
  | .logLevel => ["--log-level"]
  | .debugLog => ["--debug-log"]
  | .serve => ["--serve"]

/-- Does the option have a value? -/
def Flag.takesValue : Flag → Bool
  | .help | .stdout | .untilConverged | .module | .noFunctionNames | .serve => false
  | _ => true

/-- What the option does, in words. -/
def Flag.purpose : Flag → String
  | .help => "show this message"
  | .output => "destination file (default: next to the input)"
  | .stdout => "print the result instead of writing a file"
  | .report => "write the JSON report to this file"
  | .config => "JSON file with settings"
  | .rounds => "number of mining rounds"
  | .untilConverged => "keep mining until a round renames nothing"
  | .maxRounds => "round limit for --until-converged"
  | .module => "parse the input as a module"
  | .noFunctionNames => "do not name anonymous functions"
  | .skipPasses => "comma separated passes to skip"
  | .onlyPasses => "comma separated passes to run exclusively"
  | .logLevel => "verbosity of the console"
  | .debugLog => "write a trace of the heuristics to this file"
  | .serve => "answer JSON requests, one per line, instead of reading a file"

/-- All spellings with their options. -/
def spellings : List (String × Flag) :=
  Flag.all.flatMap fun flag => flag.spellings.map fun spelling => (spelling, flag)

/-- The levels of verbosity. -/
def logLevels : List String := ["DEBUG", "INFO", "WARNING", "ERROR"]

/-- What can be wrong with the use of options. -/
inductive UsageError where
  /-- The start of more than one option. -/
  | ambiguous (given : String) (candidates : List String)
  /-- A value for an option that has none. -/
  | needlessValue (flag : Flag) (value : String)
  /-- No value for an option that has one. -/
  | missingValue (flag : Flag)
  /-- A value that is no integer. -/
  | notInteger (flag : Flag) (value : String)
  /-- A value that is none of the possible ones. -/
  | badChoice (flag : Flag) (value : String) (choices : List String)
  /-- Words nobody has a use for. -/
  | unrecognized (words : List String)
  deriving Repr, DecidableEq

/-- The option at fault. -/
def aboutFlag (flag : Flag) (message : String) : String :=
  "argument " ++ String.intercalate "/" flag.spellings ++ ": " ++ message

/-- The error in words. -/
def UsageError.message : UsageError → String
  | .ambiguous given candidates =>
    "ambiguous option: " ++ given ++ " could match " ++ String.intercalate ", " candidates
  | .needlessValue flag value =>
    aboutFlag flag ("ignored explicit argument " ++ Display.text value)
  | .missingValue flag => aboutFlag flag "expected one argument"
  | .notInteger flag value => aboutFlag flag ("invalid int value: " ++ Display.text value)
  | .badChoice flag value choices =>
    aboutFlag flag ("invalid choice: " ++ Display.text value ++ " (choose from " ++
      String.intercalate ", " (choices.map Display.text) ++ ")")
  | .unrecognized words => "unrecognized arguments: " ++ String.intercalate " " words

end NameRecovery.Command
