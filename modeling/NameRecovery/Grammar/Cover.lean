import NameRecovery.Grammar.State
import NameRecovery.Tree.Binding

/-!
# Expressions that turn out to be patterns

The parameters of an arrow function and the target of an assignment are first
read as expressions.  `asPattern` gives the pattern such an expression stands
for.  The names of parameters are checked as they come: what strict code
refuses is remembered, for the body decides whether the code is strict.
-/

namespace NameRecovery.Grammar

open Source

/-! ## Patterns -/

mutual

/-- The pattern an expression stands for; an expression that stands for none stays
as it is. -/
def asPattern : Tree → Tree
  | .node "SpreadElement" fields => .node "RestElement" (asPatternIn "argument" fields)
  | .node "ArrayExpression" fields => .node "ArrayPattern" (asPatternIn "elements" fields)
  | .node "ObjectExpression" fields => .node "ObjectPattern" (asPatternIn "properties" fields)
  | .node "AssignmentExpression" fields =>
    .node "AssignmentPattern"
      ((asPatternIn "left" fields).filter fun field => field.1 ≠ "operator")
  | t => t

/-- The fields with patterns for the expressions in the given one. -/
def asPatternIn (key : String) : List (String × Tree) → List (String × Tree)
  | [] => []
  | (k, .list items) :: rest =>
    (k, .list (if k = key then asPatternItems items else items)) :: asPatternIn key rest
  | (k, value) :: rest => (k, if k = key then asPattern value else value) :: asPatternIn key rest

/-- Patterns for the elements of an array or the properties of an object; of a
property, for its value. -/
def asPatternItems : List Tree → List Tree
  | [] => []
  | .node "Property" fields :: rest =>
    .node "Property" (asPatternIn "value" fields) :: asPatternItems rest
  | item :: rest => asPattern item :: asPatternItems rest

end

/-! ## Parameters -/

/-- What is known of the parameters read so far.  An objection names the token it
is about, if there is one. -/
structure Parameters where
  /-- The parameters. -/
  params : List Tree := []
  /-- Are they all plain names? -/
  simple : Bool := true
  /-- The names bound so far. -/
  names : List String := []
  /-- An objection that holds in strict code. -/
  stricted : Option (Option Token) := none
  /-- The first objection that holds if the body is strict. -/
  firstRestricted : Option (Option Token) := none
  /-- The objection in words. -/
  objection : Option Complaint := none

/-- One more name among the parameters. -/
def Parameters.admit (strict : Bool) (ps : Parameters) (culprit : Option Token) (name : String) :
    Parameters :=
  let duplicate := ps.names.contains name
  let ps := { ps with names := name :: ps.names }
  if strict then
    if duplicate then { ps with stricted := some culprit, objection := some .strictDuplicate }
    else if isRestricted name then
      { ps with stricted := some culprit, objection := some .strictParameter }
    else ps
  else if ps.firstRestricted.isSome then ps
  else if isRestricted name then
    { ps with firstRestricted := some culprit, objection := some .strictParameter }
  else if isStrictReserved name then
    { ps with firstRestricted := some culprit, objection := some .strictReserved }
  else if duplicate then
    { ps with stricted := some culprit, objection := some .strictDuplicate }
  else ps

/-- The names a pattern binds. -/
def patternNames (pattern : Tree) : List String :=
  match pattern.boundNames with
  | .ok names => names
  | .error _ => []

/-- One more parameter that was read as an expression. -/
def Parameters.admitPattern (strict : Bool) (ps : Parameters) (pattern : Tree) : Parameters :=
  let ps := (patternNames pattern).foldl (fun ps name => ps.admit strict none name) ps
  { ps with params := ps.params ++ [pattern], simple := ps.simple && pattern.isKind "Identifier" }

/-- Complain if the code has turned out to be strict and a parameter or the name
of the function may not stand in strict code. -/
def checkStrictParameters (ps : Parameters) : Parse Unit := do
  if (← context).strict then
    let objection := ps.objection.getD .illegal
    if let some culprit := ps.firstRestricted then complainAbout culprit objection
    if let some culprit := ps.stricted then complainAbout culprit objection

/-- A parameter list that stands for arrow parameters: not part of any finished
program. -/
def arrowParameters (isAsync : Bool) (params : List Tree) : Tree :=
  .node "ArrowParameterPlaceHolder" [("params", .list params), ("async", .bool isAsync)]

/-- The default `yield` of a parameter is a name, when it has no operand. -/
def yieldDefault (param : Tree) : Parse Tree := do
  let right := param.get "right"
  if right.isKind "YieldExpression" then
    if (right.get "argument").isNode then unexpected (← lookahead)
    return .node "AssignmentPattern" [("left", param.get "left"), ("right", identifier "yield")]
  else return param

/-- One parameter of an arrow function, read as an expression. -/
def coverParameter (isAsync : Bool) (param : Tree) : Parse Tree := do
  if param.isKind "AssignmentPattern" then yieldDefault param
  else if isAsync && identifierName? param == some "await" then unexpected (← lookahead)
  else return param

/-- The parameters of an arrow function from the expression before the arrow, if
that can stand for parameters. -/
def coverParameters (expr : Tree) : Parse (Option Parameters) := do
  let cover : Option (List Tree × Bool) :=
    if expr.isKind "Identifier" then some ([expr], false)
    else if expr.isKind "ArrowParameterPlaceHolder" then
      match expr.get "params" with
      | .list params => some (params, expr.has "async")
      | _ => none
    else none
  match cover with
  | none => return none
  | some (exprs, isAsync) =>
    let mut ps : Parameters := {}
    for expr in exprs do
      let param ← coverParameter isAsync expr
      ps := ps.admitPattern (← context).strict param
    let c ← context
    if (c.strict || !c.allowYield) && ps.params.any (·.isKind "YieldExpression") then
      unexpected (← lookahead)
    if ps.objection == some .strictDuplicate then
      complainAbout ((if c.strict then ps.stricted else ps.firstRestricted).getD none)
        .strictDuplicate
    return some ps

end NameRecovery.Grammar
