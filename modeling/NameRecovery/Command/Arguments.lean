import NameRecovery.Command.Flag
import NameRecovery.Text.Integer
import NameRecovery.Text.Scan

/-!
# Reading the command line

The words of a command line are first sorted into options and plain words.  An
option may be shortened as long as it stays unique, and have its value in the
next word, behind an equals sign or, with one dash, directly behind it.  Two
dashes alone end the options, and as a value they say nothing.  Then the words
are consumed from left to right; the first plain word is the input.
-/

namespace NameRecovery.Command

/-- A word of the command line. -/
inductive Word where
  /-- A word that is no option. -/
  | plain (text : String)
  /-- The word that ends the options. -/
  | ending
  /-- An option as it was written, which one it is, if it is one at all, how that one
  is spelled, and a value in the same word. -/
  | option (text : String) (flag : Option Flag) (spelling : String) (value : Option String)
  deriving Repr, DecidableEq

/-! ## Sorting words -/

/-- The text before and behind the first equals sign, if there is one. -/
def splitAtEquals (cs : List Char) : Option (String × String) :=
  let before := cs.takeWhile (· ≠ '=')
  if before.length < cs.length then
    some (String.ofList before, String.ofList (cs.drop (before.length + 1)))
  else none

/-- Does the text look like a negative number?  One line feed at its end does not
count. -/
def isNegativeNumber (cs : List Char) : Bool :=
  let body := if cs.getLast? = some '\n' then cs.dropLast else cs
  match body with
  | '-' :: rest =>
    let whole := rest.takeWhile Text.isDecimal
    let behind := rest.drop whole.length
    match behind with
    | [] => !whole.isEmpty
    | '.' :: fraction => !fraction.isEmpty && fraction.all Text.isDecimal
    | _ => false
  | _ => false

/-- The options a text may be short for, with their spellings and values. -/
def candidates (cs : List Char) : List (Flag × String × Option String) :=
  match cs with
  | '-' :: '-' :: _ =>
    let (start, value) := match splitAtEquals cs with
      | some (start, value) => (start.toList, some value)
      | none => (cs, none)
    spellings.filterMap fun (spelling, flag) =>
      if start.isPrefixOf spelling.toList then some (flag, spelling, value) else none
  | '-' :: c :: rest =>
    spellings.filterMap fun (spelling, flag) =>
      if spelling.toList = ['-', c] then some (flag, spelling, some (String.ofList rest))
      else if cs.isPrefixOf spelling.toList then some (flag, spelling, none)
      else none
  | _ => []

/-- A word that starts with a dash and is no option as it stands. -/
def classifyDashed (text : String) : Except UsageError Word :=
  let cs := text.toList
  let exact := do
    let (spelling, value) ← splitAtEquals cs
    return Word.option text (some (← spellings.lookup spelling)) spelling (some value)
  match exact with
  | some word => .ok word
  | none =>
    match candidates cs with
    | [(flag, spelling, value)] => .ok (.option text (some flag) spelling value)
    | [] =>
      if isNegativeNumber cs || cs.contains ' ' then .ok (.plain text)
      else .ok (.option text none text none)
    | several => .error (.ambiguous text (several.map fun candidate => candidate.2.1))

/-- The kind of a word before the end of the options. -/
def classify (text : String) : Except UsageError Word :=
  match spellings.lookup text with
  | some flag => .ok (.option text (some flag) text none)
  | none =>
    match text.toList with
    | '-' :: _ :: _ => classifyDashed text
    | _ => .ok (.plain text)

/-- The kinds of the words of a command line. -/
def classifyAll : List String → Except UsageError (List Word)
  | [] => .ok []
  | "--" :: rest => .ok (.ending :: rest.map .plain)
  | text :: rest => do
    let word ← classify text
    return word :: (← classifyAll rest)

/-! ## Consuming words -/

/-- The value of an option that wants an integer. -/
inductive Amount where
  /-- An integer. -/
  | integer (n : Int)
  /-- A value that says nothing. -/
  | nothing
  deriving Repr, DecidableEq

/-- What a command line says. -/
structure Arguments where
  /-- The input. -/
  input : Option String := none
  /-- Where the result goes. -/
  output : Option String := none
  /-- Print the result? -/
  stdout : Bool := false
  /-- Where the report goes. -/
  report : Option String := none
  /-- Where settings come from. -/
  config : Option String := none
  /-- How many rounds of mining there are. -/
  rounds : Option Amount := none
  /-- Mine until nothing changes? -/
  untilConverged : Bool := false
  /-- How many rounds there are at most in that case. -/
  maxRounds : Option Amount := none
  /-- Parse the input as a module? -/
  module : Bool := false
  /-- Leave anonymous functions without names? -/
  noFunctionNames : Bool := false
  /-- Passes to leave out. -/
  skipPasses : Option String := none
  /-- Passes to keep. -/
  onlyPasses : Option String := none
  /-- Was the level of verbosity given, and said nothing? -/
  levelIsNothing : Bool := false
  /-- Where the trace goes. -/
  debugLog : Option String := none
  /-- Answer requests? -/
  serve : Bool := false
  deriving Repr, DecidableEq

/-- Why a command line leads to no run. -/
inductive Stop where
  /-- The user wants to be told what there is to say about the command line. -/
  | help
  /-- The options are not used as they should. -/
  | usage (e : UsageError)
  deriving Repr, DecidableEq

/-- The value that says nothing. -/
def nothingMark : String := "--"

/-- The integer a value describes, unless it says nothing. -/
def amount (flag : Flag) (value : String) : Except Stop Amount :=
  if value = nothingMark then .ok .nothing
  else
    match Text.integer? value with
    | some n => .ok (.integer n)
    | none => .error (.usage (.notInteger flag value))

/-- A value, unless it says nothing. -/
def something? (value : String) : Option String :=
  if value = nothingMark then none else some value

/-- Take note of an option; the value of one that has none is not looked at. -/
def Arguments.apply (args : Arguments) (flag : Flag) (value : String) : Except Stop Arguments :=
  match flag with
  | .help => .error .help
  | .output => .ok { args with output := something? value }
  | .stdout => .ok { args with stdout := true }
  | .report => .ok { args with report := something? value }
  | .config => .ok { args with config := something? value }
  | .rounds => do return { args with rounds := some (← amount flag value) }
  | .untilConverged => .ok { args with untilConverged := true }
  | .maxRounds => do return { args with maxRounds := some (← amount flag value) }
  | .module => .ok { args with module := true }
  | .noFunctionNames => .ok { args with noFunctionNames := true }
  | .skipPasses => .ok { args with skipPasses := something? value }
  | .onlyPasses => .ok { args with onlyPasses := something? value }
  | .logLevel =>
    if value = nothingMark then .ok { args with levelIsNothing := true }
    else if logLevels.contains value then .ok { args with levelIsNothing := false }
    else .error (.usage (.badChoice flag value logLevels))
  | .debugLog => .ok { args with debugLog := something? value }
  | .serve => .ok { args with serve := true }

/-- An option that waits for its value in the next word. -/
structure Waiting where
  /-- The option. -/
  flag : Flag
  /-- Is the wish for help to be granted first? -/
  afterHelp : Bool := false

/-- What has been read of a command line. -/
structure Reading where
  /-- What it says so far. -/
  args : Arguments := {}
  /-- The option that waits for its value. -/
  waiting : Option Waiting := none
  /-- Has the input been read? -/
  hasInput : Bool := false
  /-- Was it the word before? -/
  justInput : Bool := false
  /-- Words nobody has a use for. -/
  extras : List String := []

/-- Is an option spelled with one dash? -/
def isShortSpelling (spelling : String) : Bool :=
  spelling.toList[1]? != some '-'

namespace Reading

/-- Put a word aside. -/
def putAside (reading : Reading) (text : String) : Reading :=
  { reading with extras := reading.extras ++ [text], justInput := false }

/-- Take note of an option and its value. -/
def apply (reading : Reading) (flag : Flag) (value : String) : Except Stop Reading := do
  return { reading with args := ← reading.args.apply flag value, waiting := none, justInput := false }

/-- Read the letters behind an option with one dash that has no value: each is an
option of its own, the last of them perhaps with a value.  The first option is
the wish for help, so that at best it is granted. -/
def readCluster (reading : Reading) (flag : Flag) : List Char → Except Stop Reading
  | [] => .error .help
  | c :: cs =>
    match spellings.lookup (String.ofList ['-', c]) with
    | none => .error (.usage (.needlessValue flag (String.ofList (c :: cs))))
    | some next =>
      if !next.takesValue then reading.readCluster next cs
      else if cs.isEmpty then
        .ok { reading with waiting := some { flag := next, afterHelp := true } }
      else .error .help

/-- Read an option. -/
def readOption (reading : Reading) (flag : Flag) (spelling : String) (value : Option String) :
    Except Stop Reading :=
  match value with
  | some value =>
    if flag.takesValue then reading.apply flag value
    else if isShortSpelling spelling && value ≠ "" then reading.readCluster flag value.toList
    else .error (.usage (.needlessValue flag value))
  | none =>
    if flag.takesValue then .ok { reading with waiting := some { flag }, justInput := false }
    else reading.apply flag ""

/-- Read one word.  The end of the options belongs to the input when it stands
directly before or behind it. -/
def read (reading : Reading) (word : Word) : Except Stop Reading :=
  match reading.waiting, word with
  | some waiting, .plain value =>
    if waiting.afterHelp then .error .help else reading.apply waiting.flag value
  | some waiting, _ => .error (.usage (.missingValue waiting.flag))
  | none, .plain text =>
    if reading.hasInput then .ok (reading.putAside text)
    else
      .ok { reading with
        args := { reading.args with input := some text }, hasInput := true, justInput := true }
  | none, .ending =>
    if reading.hasInput && !reading.justInput then .ok (reading.putAside "--")
    else .ok { reading with justInput := false }
  | none, .option text none _ _ => .ok (reading.putAside text)
  | none, .option _ (some flag) spelling value => reading.readOption flag spelling value

/-- What was read, when there are no more words. -/
def finish (reading : Reading) : Except Stop Arguments :=
  match reading.waiting with
  | some waiting => .error (.usage (.missingValue waiting.flag))
  | none =>
    if reading.extras.isEmpty then .ok reading.args
    else .error (.usage (.unrecognized reading.extras))

end Reading

/-- What a command line says. -/
def parseArguments (words : List String) : Except Stop Arguments :=
  match classifyAll words with
  | .error e => .error (.usage e)
  | .ok sorted => do (← sorted.foldlM Reading.read {}).finish

end NameRecovery.Command
