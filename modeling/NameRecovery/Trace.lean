import NameRecovery.Json.Display
import NameRecovery.Mining
import NameRecovery.Scope.Resolver

/-!
# The trace of a run

A run can leave a trace of what its heuristics saw and did, one line per remark.
Every line names the part of the program it comes from.
-/

namespace NameRecovery

/-- The parts of the program that leave remarks. -/
inductive Origin where
  /-- The parser. -/
  | parser
  /-- The resolution of shadowed bindings. -/
  | scopes
  /-- The mining of declarations. -/
  | mining
  /-- The renaming after a table. -/
  | renaming
  /-- The contexts of short names. -/
  | profile
  /-- The sequence of passes. -/
  | passes
  /-- The answering of requests. -/
  | requests
  /-- The command line. -/
  | command
  deriving Repr, DecidableEq

/-- The name of a part in the trace. -/
def Origin.label : Origin → String
  | .parser => "demystify.js_ast"
  | .scopes => "demystify.passes.deshadow"
  | .mining => "demystify.passes.pattern_mining"
  | .renaming => "demystify.passes.rename"
  | .profile => "demystify.passes.frequency"
  | .passes => "demystify.pipeline"
  | .requests => "demystify.worker"
  | .command => "demystify.main"

/-- A remark in the trace. -/
structure Remark where
  /-- Where it comes from. -/
  origin : Origin
  /-- What it says. -/
  message : String
  deriving Repr, DecidableEq

/-- The line of a remark. -/
def Remark.line (remark : Remark) : String :=
  remark.origin.label ++ ": " ++ remark.message ++ "\n"

/-! ## What the passes say -/

/-- Pairs of names, as traces show them. -/
def shownPairs (pairs : List (String × String)) : String :=
  Display.list (pairs.map fun pair => Display.pair (Display.text pair.1) (Display.text pair.2))

/-- Labels by name, as traces show them. -/
def shownLabels (labels : Table (List String)) : String :=
  Display.fields (labels.map fun entry =>
    (Display.text entry.1, Display.list (entry.2.map Display.text)))

/-- The remark on a parsed program. -/
def parsedRemark (t : Tree) : Remark :=
  let size := match t.get "body" with
    | .list items => items.length
    | _ => 0
  ⟨.parser, "parsed " ++ toString size ++ " top-level statements"⟩

/-- The remarks on the resolution of shadowed bindings. -/
def Scope.Resolution.remarks (resolution : Scope.Resolution) : List Remark :=
  let r := resolution.resolver
  let globals :=
    if resolution.globals.isEmpty then []
    else ["free names: " ++ Display.list (resolution.globals.map Display.text)]
  let renames := r.renames.map fun rename => "deshadow " ++ rename.1 ++ " -> " ++ rename.2
  let summary := "deshadow renamed " ++ toString r.renames.length ++ " bindings, rewrote " ++
    toString r.respelled ++ " identifiers"
  (globals ++ renames ++ [summary]).map fun message => ⟨.scopes, message⟩

/-- The names with their labels. -/
def candidatePairs (candidates : List Mining.Candidate) : List (String × String) :=
  candidates.map fun c => (c.name, c.label)

/-- The remarks on the declarations and candidates found in a text. -/
def minedRemarks (found : List Mining.Assignment) (candidates : List Mining.Candidate) :
    List Remark :=
  let messages :=
    if found.isEmpty then ["no declaration patterns matched"]
    else
      (found.filterMap fun a =>
        let n := Mining.occurrences found a.name
        if n = 1 then none
        else some ("skipping ambiguous name " ++ a.name ++ " (" ++ toString n ++ " matches)")) ++
      ["mined " ++ toString candidates.length ++ " candidate pairs: " ++
        shownPairs (candidatePairs candidates)]
  messages.map fun message => ⟨.mining, message⟩

/-- The remark on a renaming; an empty table is not worth one. -/
def renamedRemarks (renames : Table String) (occurrences : Nat) : List Remark :=
  if renames.isEmpty then []
  else
    [⟨.renaming, "applied " ++ toString renames.length ++ " renames to " ++
      toString occurrences ++ " identifiers"⟩]

end NameRecovery
