import NameRecovery.Command.Arguments
import NameRecovery.File.Host
import NameRecovery.Requests

/-!
# Running the command line

The words of a command line are read, the settings are put together, a trace is
started if there is to be one, and then either requests are answered or one file
is processed.  The outcome is the status the program exits with: 0 for success, 1
for a file that could not be processed, and 2 for a wrong use of the program.
-/

namespace NameRecovery.Command

/-- The name of the program. -/
def programName : String := "demystify"

/-- The line about the use of the program. -/
def usageLine : String :=
  let options := Flag.all.map fun flag =>
    "[" ++ String.intercalate " | " flag.spellings ++ (if flag.takesValue then " VALUE" else "") ++ "]"
  "usage: " ++ programName ++ " " ++ String.intercalate " " options ++ " [input]\n"

/-- What there is to say about the command line. -/
def helpText : String :=
  usageLine ++ String.join (Flag.all.map fun flag =>
    "  " ++ String.intercalate ", " flag.spellings ++ ": " ++ flag.purpose ++ "\n")

/-- The items of a list with commas. -/
def splitList (value : Option String) : List String :=
  let parts := (Text.splitAtChar ',' (value.getD "").toList).map fun part =>
    String.ofList (Text.trim part)
  parts.filter (· ≠ "")

/-- The names among the given ones that are no passes. -/
def unknownPasses (names : List String) : List String :=
  names.filter fun name => !standardPasses.names.contains name

/-- A value that was given and is not empty. -/
def given? (value : Option String) : Option String :=
  value.filter (· ≠ "")

section
variable {m : Type → Type} [Monad m]

/-- Complain about something and stop with a status. -/
def stopWith (host : File.Host m) (message : String) (status : Nat) :
    m (Except Failure Nat) := do
  host.complain ("error: " ++ message ++ "\n")
  return .ok status

/-- The settings in a file. -/
def loadConfig (host : File.Host m) (path : String) : m (Except Failure Config) := do
  let location := File.Location.ofText path
  match ← host.read location with
  | .error e =>
    if e.cause = .nullCharacter then return .error (.trouble (.refused e))
    else return .error (.config (.unreadable location.toText e.message))
  | .ok bytes =>
    match File.Host.textOf bytes with
    | .error e => return .error (.trouble (.noText e))
    | .ok text => return Config.ofText location.toText text

/-- The value of an option as a setting. -/
def Amount.toJson : Amount → Json
  | .integer n => .int n
  | .nothing => .array []

/-- The settings of the command line itself, as far as there are any. -/
def Arguments.changes (args : Arguments) : Table Json := [
  ("mining_rounds", (args.rounds.map Amount.toJson).getD .null),
  ("until_converged", if args.untilConverged then .bool true else .null),
  ("max_rounds", (args.maxRounds.map Amount.toJson).getD .null),
  ("source_type", if args.module then .text "module" else .null),
  ("name_functions", if args.noFunctionNames then .bool false else .null)]

/-- The settings of a run. -/
def resolveConfig (host : File.Host m) (args : Arguments) : m (Except Failure Config) := do
  match given? args.config with
  | none => return Config.merge {} args.changes
  | some path =>
    match ← loadConfig host path with
    | .error e => return .error e
    | .ok config => return config.merge args.changes

/-- Where the result goes. -/
def destination (args : Arguments) (input : String) : Except Failure String :=
  match given? args.output with
  | some output => .ok output
  | none =>
    match File.resultLocation File.resultSuffix input with
    | .ok location => .ok location.toText
    | .error e => .error (.trouble (.badName e))

/-- Write a text to a file: did it succeed? -/
def saveText (host : File.Host m) (path text : String) : m (Except Failure Bool) := do
  match ← host.save (File.Location.ofText path) text with
  | .ok done => return .ok done
  | .error e => return .error (.trouble e)

/-- Hand the result of a run over. -/
def deliver (host : File.Host m) (args : Arguments) (input : String) (ctx : Context) :
    m (Except Failure Nat) := do
  if args.stdout then
    host.print ctx.output
    return .ok 0
  else
    match destination args input with
    | .error e => return .error e
    | .ok path =>
      match ← saveText host path ctx.output with
      | .error e => return .error e
      | .ok false => stopWith host ("cannot write " ++ path) 1
      | .ok true =>
        host.remark [⟨.command, "wrote " ++ path ++ " (" ++ toString ctx.output.length ++ " chars)"⟩]
        return .ok 0

/-- Hand the report and the result of a run over. -/
def deliverAll (host : File.Host m) (args : Arguments) (input : String) (ctx : Context) :
    m (Except Failure Nat) := do
  match given? args.report with
  | none => deliver host args input ctx
  | some path =>
    match ← saveText host path (ctx.report.toJson.spread "  " 0 ++ "\n") with
    | .error e => return .error e
    | .ok false => stopWith host ("cannot write report to " ++ path) 1
    | .ok true => deliver host args input ctx

/-- Process a file. -/
def processFile (host : File.Host m) (args : Arguments) (config : Config)
    (skip only : List String) (input : String) : m (Except Failure Nat) := do
  match ← host.readText (File.Location.ofText input) with
  | .error e => return .error (.trouble (.refused e))
  | .ok none => stopWith host ("cannot read " ++ input) 1
  | .ok (some source) =>
    let (outcome, ctx) := runOn source config skip only
    host.remark ctx.trace
    match outcome with
    | .ok _ => deliverAll host args input ctx
    | .error (.parse e) => stopWith host (e.describe input) 1
    | .error (.trouble t) => return .error (.trouble t)
    | .error e => stopWith host e.message 1

/-- Start the trace, if there is to be one. -/
def startTrace (host : File.Host m) (args : Arguments) : m (Except Failure Unit) := do
  match given? args.debugLog with
  | none => return .ok ()
  | some path =>
    let location := File.Location.ofText path
    match ← host.makeDirectories location.parent with
    | .error e => return .error (.trouble (.refused e))
    | .ok _ =>
      match ← host.openTrace location with
      | .error e => return .error (.trouble (.refused e))
      | .ok _ => return .ok ()

/-- Do what the command line says, with its settings; `serve` answers requests. -/
def perform (host : File.Host m) (serve : Config → m (Except Failure Unit)) (args : Arguments)
    (config : Config) :
    m (Except Failure Nat) := do
  let skip := splitList args.skipPasses
  let only := splitList args.onlyPasses
  let unknown := unknownPasses (skip ++ only)
  if !unknown.isEmpty then
    stopWith host ("unknown pass(es): " ++ String.intercalate ", " unknown ++ " (available: " ++
      String.intercalate ", " standardPasses.names ++ ")") 2
  else
    match ← startTrace host args with
    | .error e => return .error e
    | .ok _ =>
      if args.serve then
        match ← serve config with
        | .error e => return .error e
        | .ok _ => return .ok 0
      else
        match given? args.input with
        | none =>
          host.complain usageLine
          stopWith host "an input file is required unless --serve is given" 2
        | some input => processFile host args config skip only input

/-- Run the program: the status it exits with, or a failure nobody has foreseen. -/
def run (host : File.Host m) (serve : Config → m (Except Failure Unit)) (words : List String) :
    m (Except Failure Nat) := do
  match parseArguments words with
  | .error .help =>
    host.print helpText
    return .ok 0
  | .error (.usage e) =>
    host.complain (usageLine ++ programName ++ ": error: " ++ e.message ++ "\n")
    return .ok 2
  | .ok args =>
    if args.levelIsNothing then return .error (.trouble .noLevel)
    else
      match ← resolveConfig host args with
      | .error (.config e) => stopWith host e.message 2
      | .error e => return .error e
      | .ok config => perform host serve args config

/-- Answer the requests in a text.  Replies written before there is trouble stay written. -/
def serveText (host : File.Host m) (input : String) (config : Config) :
    m (Except Failure Unit) := do
  let (session, outcome) := Requests.attend config input
  host.print session.output
  host.remark session.remarks
  return outcome.mapError .trouble

end

end NameRecovery.Command
