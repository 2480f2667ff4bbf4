import NameRecovery.Mining
import NameRecovery.Profile
import NameRecovery.Json.Basic

/-!
# The report of a run

What a run found and changed, for people (`Report.toText`) and for programs
(`Report.toJson`).  A report can also be put together by hand, so that its numbers
are any integers.
-/

namespace NameRecovery

/-- What one round of mining found and changed. -/
structure MiningRound where
  /-- The number of the round, counted from one. -/
  index : Int
  /-- The names that have labels, with their labels. -/
  candidates : List (String × String) := []
  /-- The new names. -/
  renames : Table String := []
  /-- How many identifiers changed. -/
  occurrences : Int := 0
  deriving Repr, DecidableEq

/-- What a run found and changed. -/
structure Report where
  /-- The bindings that got a name of their own: the old and the new names. -/
  shadowRenames : List (String × String) := []
  /-- How many mentions of them got a new name. -/
  referencesRespelled : Int := 0
  /-- The rounds of mining. -/
  rounds : List MiningRound := []
  /-- The contexts of short names. -/
  histogram : Histogram := []
  /-- The labels of short names. -/
  longNames : Table (List String) := []
  /-- The new names made of them. -/
  frequencyRenames : Table String := []
  /-- How many identifiers got one. -/
  frequencyOccurrences : Int := 0
  /-- The passes that were completed. -/
  completed : List String := []
  /-- The length of the output. -/
  outputLength : Int := 0
  /-- What the user should know. -/
  warnings : List String := []

/-- The candidates of all rounds. -/
def Report.candidatePairs (report : Report) : List (String × String) :=
  report.rounds.flatMap MiningRound.candidates

/-! ## For people -/

/-- A line about a new name. -/
def arrowLine (entry : String × String) : String :=
  "  " ++ entry.1 ++ " -> " ++ entry.2

/-- The duration of a pass, as people see it.  Passes are computations without a
clock, so that none of them takes time. -/
def shownDuration : String := "0.000s"

/-- The lines about a round of mining. -/
def MiningRound.lines (round : MiningRound) : List String :=
  ("Mining round " ++ toString round.index ++ ": " ++ toString round.candidates.length ++
    " candidates, " ++ toString round.renames.length ++ " renamed (" ++
    toString round.occurrences ++ " occurrences)") ::
  round.candidates.map fun pair => "  " ++ pair.1 ++ ": " ++ pair.2

/-- Lines below a heading; without lines there is no heading. -/
def underHeading (heading : String) (lines : List String) : List String :=
  if lines.isEmpty then [] else heading :: lines

/-- The lines of the report. -/
def Report.lines (report : Report) : List String :=
  ("Deshadowed bindings: " ++ toString report.shadowRenames.length) ::
    report.shadowRenames.map arrowLine ++
  report.rounds.flatMap MiningRound.lines ++
  ("Frequency renames: " ++ toString report.frequencyRenames.length) ::
    report.frequencyRenames.map arrowLine ++
  underHeading "Pass timings:"
    (report.completed.map fun name => "  " ++ name ++ ": " ++ shownDuration) ++
  ("Final output length: " ++ toString report.outputLength ++ " chars") ::
  underHeading "Warnings:" (report.warnings.map fun warning => "  - " ++ warning)

/-- The report for people. -/
def Report.toText (report : Report) : String :=
  String.intercalate "\n" report.lines

/-! ## For programs -/

/-- Two texts as a list. -/
def pairJson (pair : String × String) : Json :=
  .texts [pair.1, pair.2]

/-- New names as an object. -/
def renamesJson (renames : Table String) : Json :=
  .object (renames.map fun entry => (entry.1, .text entry.2))

/-- A round of mining for programs. -/
def MiningRound.toJson (round : MiningRound) : Json :=
  .object [
    ("index", .int round.index),
    ("candidates", .array (round.candidates.map pairJson)),
    ("renames", renamesJson round.renames),
    ("occurrences", .int round.occurrences)]

/-- A row of the histogram as an object. -/
def Row.toJson (row : Row) : Json :=
  .object (row.map fun entry => (entry.1, .int entry.2))

/-- A completed pass for programs. -/
def timingJson (name : String) : Json :=
  .object [("pass", .text name), ("seconds", .real 0.0)]

/-- The report for programs. -/
def Report.toJson (report : Report) : Json :=
  .object [
    ("shadow_renames", .array (report.shadowRenames.map pairJson)),
    ("references_rewritten", .int report.referencesRespelled),
    ("rounds", .array (report.rounds.map MiningRound.toJson)),
    ("histogram", .object (report.histogram.map fun entry => (entry.1, Row.toJson entry.2))),
    ("long_names", .object (report.longNames.map fun entry => (entry.1, .texts entry.2))),
    ("frequency_renames", renamesJson report.frequencyRenames),
    ("frequency_occurrences", .int report.frequencyOccurrences),
    ("timings", .array (report.completed.map timingJson)),
    ("output_length", .int report.outputLength),
    ("warnings", .texts report.warnings)]

end NameRecovery
