import NameRecovery.Config
import NameRecovery.FunctionNames
import NameRecovery.Renaming
import NameRecovery.Report
import NameRecovery.Trace

/-!
# The passes of a run

A run keeps a program both as a tree and as its canonical text, and sends it
through four passes:

1. `deshadow` gives every binding a name of its own;
2. `mine` renames after declarations, in several rounds, since the new names of
   one round can show more to the next;
3. `frequency` renames short names after their contexts;
4. `fixups` names anonymous functions in the text.

A pass that fails leaves what it had changed before.
-/

namespace NameRecovery

/-- What the passes of a run work on. -/
structure Context where
  /-- The text given by the user. -/
  source : String := ""
  /-- The settings. -/
  config : Config := {}
  /-- The program, once it has been parsed. -/
  tree : Option Tree := none
  /-- Its canonical text. -/
  text : String := ""
  /-- The result of the run. -/
  output : String := ""
  /-- What was found and changed. -/
  report : Report := {}
  /-- The trace so far. -/
  trace : List Remark := []

/-- Work on a context.  What was changed before a failure stays changed. -/
abbrev Work (α : Type) := ExceptT Failure (StateM Context) α

namespace Work

/-- Work that cannot be done. -/
def fail {α : Type} (failure : Failure) : Work α :=
  throw failure

/-- The outcome of a computation without a context. -/
def ofExcept {α : Type} : Except Failure α → Work α
  | .ok value => pure value
  | .error failure => fail failure

/-- Leave remarks in the trace. -/
def remark (remarks : List Remark) : Work Unit :=
  modify fun ctx => { ctx with trace := ctx.trace ++ remarks }

/-- Change the report. -/
def changeReport (change : Report → Report) : Work Unit :=
  modify fun ctx => { ctx with report := change ctx.report }

/-- Parse a text as the settings say. -/
def parse (text : String) : Work Tree := do
  let tree ← ofExcept (parseProgram (← get).config.goal text)
  remark [parsedRemark tree]
  return tree

/-- Take a tree as the program. -/
def setTree (tree : Tree) : Work Unit :=
  modify fun ctx => { ctx with tree := some tree }

/-- Print the program: the text is then both the canonical text and the output. -/
def render : Work String := do
  let ctx ← get
  match ctx.tree with
  | none => fail (.trouble .noTree)
  | some tree =>
    let text ← ofExcept (liftFault (tree.render ctx.config.indent))
    set { ctx with text, output := text }
    return text

/-- The program; the source is parsed and printed if that has not been done yet. -/
def ensureTree : Work Tree := do
  let ctx ← get
  match ctx.tree with
  | some tree => return tree
  | none =>
    let tree ← parse ctx.source
    setTree tree
    let _ ← render
    return tree

/-- Rename the bindings of a tree after a table; the tree becomes the program in
any case. -/
def renameTree (renames : Table String) (tree : Tree) : Work Nat := do
  let (tree, outcome) := tree.rename renames
  setTree tree
  let occurrences ← ofExcept (liftFault outcome)
  remark (renamedRemarks renames occurrences)
  return occurrences

/-! ## The four passes -/

/-- Give every binding a name of its own. -/
def deshadow : Work Unit := do
  let tree ← parse (← get).source
  setTree tree
  match Scope.resolve tree with
  | .error trouble => fail (.trouble trouble)
  | .ok resolution =>
    remark resolution.remarks
    setTree resolution.tree
    changeReport fun report =>
      { report with
        shadowRenames := report.shadowRenames ++ resolution.resolver.renames
        referencesRespelled := report.referencesRespelled + resolution.resolver.respelled }
    let _ ← render

/-- One round of mining: did it rename anything? -/
def mineRound (index : Nat) : Work Bool := do
  let ctx ← get
  let found := Mining.assignments ctx.text
  let candidates := Mining.candidatesAmong Mining.defaultExcluded found
  remark (minedRemarks found candidates)
  let tree ← parse ctx.text
  let declared ← ofExcept (liftFault tree.declaredNames)
  let renames := (Mining.renames ctx.config.separator candidates).filter fun entry =>
    declared.contains entry.1
  let occurrences ← renameTree renames tree
  let _ ← render
  let pairs := candidatePairs candidates
  changeReport fun report =>
    { report with rounds := report.rounds ++ [⟨index, pairs, renames, occurrences⟩] }
  remark [⟨.passes, "round " ++ toString index ++ " candidate pairs: " ++ shownPairs pairs⟩]
  return !renames.isEmpty

/-- Rounds of mining: as many as are left, or fewer if they converge. -/
def mineRounds : Nat → Nat → Work Unit
  | 0, _ => do
    let config := (← get).config
    if config.untilConverged then
      changeReport fun report =>
        { report with
          warnings := report.warnings ++
            ["pattern mining did not converge within " ++ toString config.maxRounds ++
              " rounds"] }
  | left + 1, index => do
    let renamed ← mineRound index
    if (← get).config.untilConverged && !renamed then
      remark [⟨.passes, "pattern mining converged after " ++ toString index ++ " rounds"⟩]
    else mineRounds left (index + 1)

/-- Rename after declarations. -/
def mine : Work Unit := do
  let _ ← ensureTree
  mineRounds (← get).config.roundLimit 1

/-- Rename short names after their contexts. -/
def frequency : Work Unit := do
  let tree ← ensureTree
  let config := (← get).config
  let histogram ← ofExcept (liftFault (profile config.stoplist tree))
  remark [⟨.profile, "profiled " ++ toString histogram.length ++ " short names"⟩]
  let labels := deriveLabels config.separator histogram
  let declared ← ofExcept (liftFault tree.declaredNames)
  let renames := longNames config.separator labels (some declared)
  remark [⟨.passes, "long-name table: " ++ shownLabels labels⟩]
  changeReport fun report =>
    { report with histogram, longNames := labels, frequencyRenames := renames }
  let occurrences ← renameTree renames tree
  changeReport fun report => { report with frequencyOccurrences := occurrences }
  let _ ← render

/-- Name anonymous functions in the text. -/
def fixups : Work Unit := do
  let _ ← ensureTree
  modify fun ctx =>
    { ctx with
      output :=
        if ctx.config.nameFunctions then FunctionNames.nameAll ctx.config.separator ctx.text
        else ctx.text }

end Work

/-! ## Sequences of passes -/

/-- A pass, and its place among the others. -/
structure Pass where
  /-- Passes run in ascending order; those of the same order by name. -/
  order : Int
  /-- What the pass does. -/
  action : Work Unit

/-- Passes by name. -/
abbrev Passes := Table Pass

namespace Passes

/-- The passes in the order in which they run. -/
def inOrder (passes : Passes) : List (String × Pass) :=
  passes.mergeSort fun a b =>
    a.2.order < b.2.order || (a.2.order == b.2.order && a.1 ≤ b.1)

/-- The names of the passes in the order in which they run. -/
def names (passes : Passes) : List String :=
  passes.inOrder.map Prod.fst

/-- The passes a user means: blanks around a name do not count, nor do empty
names. -/
def meant (names : List String) : List String :=
  (names.filter (· ≠ "")).map Text.stripped

/-- Is a pass to run, given the names to leave out and, if there are any, the names
to keep? -/
def isSelected (skip only : List String) (name : String) : Bool :=
  !skip.contains name && (only.isEmpty || only.contains name)

end Passes

/-- Trouble inside a pass is a failure of the pass. -/
def Failure.inPass (pass : String) : Failure → Failure
  | .trouble cause => .passFailed pass cause
  | other => other

namespace Work

/-- Run one pass. -/
def runPass (pass : String × Pass) : Work Unit := do
  ExceptT.adapt (Failure.inPass pass.1) pass.2.action
  remark [⟨.passes, "pass " ++ pass.1 ++ " completed in " ++ shownDuration⟩]

/-- Run passes one after the other. -/
def runAll : List (String × Pass) → Work Unit
  | [] => pure ()
  | pass :: rest => do
    runPass pass
    runAll rest

/-- Run the selected passes; their names are recorded when all have succeeded. -/
def runPasses (passes : Passes) (skip only : List String) : Work (List String) := do
  let selected := passes.inOrder.filter fun pass =>
    Passes.isSelected (Passes.meant skip) (Passes.meant only) pass.1
  runAll selected
  let names := selected.map Prod.fst
  changeReport fun report => { report with completed := report.completed ++ names }
  return names

end Work

/-- The four passes of a run. -/
def standardPasses : Passes := [
  ("deshadow", ⟨10, Work.deshadow⟩),
  ("mine", ⟨20, Work.mine⟩),
  ("frequency", ⟨30, Work.frequency⟩),
  ("fixups", ⟨40, Work.fixups⟩)]

/-! ## Runs -/

/-- A whole run over a text: the context at its end, and the failure if there was
one. -/
def runOn (source : String) (config : Config) (skip only : List String) :
    Except Failure Unit × Context :=
  let (outcome, ctx) := (Work.runPasses standardPasses skip only).run { source, config }
  match outcome with
  | .error failure => (.error failure, ctx)
  | .ok _ =>
    (.ok (), { ctx with report := { ctx.report with outputLength := ctx.output.length } })

/-- A text with names that say what they stand for. -/
def recoverNames (source : String) (config : Config) : Except Failure String :=
  match runOn source config [] [] with
  | (.ok _, ctx) => .ok ctx.output
  | (.error failure, _) => .error failure

end NameRecovery
