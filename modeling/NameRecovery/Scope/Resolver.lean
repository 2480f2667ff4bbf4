import NameRecovery.Failure
import NameRecovery.Scope.Event
import NameRecovery.Tree.Edit

/-!
# Giving every binding a name of its own

The resolver follows the scopes of a program with a stack of frames.  A frame
maps the names declared in a scope to the names their bindings get.  The first
binding of a name keeps it; every further one gets the name with the next
number that makes a name no identifier of the program has.

A dry run gives no new names and only finds the names the program mentions
without declaring them: its free names.  They are reserved in the real run, so
that a local binding never takes the name of a global one.
-/

namespace NameRecovery.Scope

/-- The bindings of a scope: the names declared in it, and the names they get. -/
abbrev Frame := Table String

/-- The state of resolving names. -/
structure Resolver where
  /-- The frames of the scopes that are open, innermost first. -/
  frames : List Frame
  /-- The names that have been declared, with the last number used for each. -/
  counters : Table Nat
  /-- The names that may not be given. -/
  taken : List String
  /-- The names that were replaced, with their replacements. -/
  renames : List (String × String) := []
  /-- How many mentions got a new name. -/
  respelled : Nat := 0
  /-- The names mentioned without being declared. -/
  free : List String := []
  /-- Only look for free names? -/
  dryRun : Bool
  /-- The new names of mentions, by path. -/
  edits : Edits := []

/-- A name with a number. -/
def numbered (name : String) (count : Nat) : String :=
  name ++ toString count

/-- The least number from `count` on that makes a name that is not taken.  There
are more numbers to try than names taken. -/
def freshNumber (taken : List String) (name : String) : Nat → Nat → Nat
  | 0, count => count
  | fuel + 1, count =>
    if taken.contains (numbered name count) then freshNumber taken name fuel (count + 1)
    else count

namespace Resolver

/-- The resolver before the first scope: the reserved names count as declared. -/
def start (identifiers reserved : List String) (dryRun : Bool) : Resolver :=
  { frames := [[]]
    counters := Table.ofList (reserved.map fun name => (name, 0))
    taken := identifiers
    dryRun }

/-- Declare a name in a frame.  A name declared again in the same scope is the same
binding. -/
def declareIn (r : Resolver) (frame : Frame) (name : String) : Resolver × Frame :=
  if frame.has name then (r, frame)
  else
    match if r.dryRun then none else r.counters.find? name with
    | none =>
      let counters := if r.counters.has name then r.counters else r.counters.put name 0
      ({ r with counters }, frame.put name name)
    | some last =>
      let count := freshNumber r.taken name (r.taken.length + 1) (last + 1)
      let new := numbered name count
      ({ r with
          counters := r.counters.put name count
          taken := new :: r.taken
          renames := r.renames ++ [(name, new)] },
        frame.put name new)

/-- Declare names in a frame, one after the other. -/
def declareAll (r : Resolver) (frame : Frame) : List String → Resolver × Frame
  | [] => (r, frame)
  | name :: rest =>
    let (r, frame) := r.declareIn frame name
    r.declareAll frame rest

/-- The name of the binding a mention of the name means: that of the innermost
frame with it. -/
def lookup (r : Resolver) (name : String) : Option String :=
  r.frames.findSome? (·.find? name)

/-- Enter a scope that declares nothing yet. -/
def push (r : Resolver) : Resolver :=
  { r with frames := [] :: r.frames }

/-- Leave the innermost scope. -/
def pop (r : Resolver) : Except Trouble (Frame × Resolver) :=
  match r.frames with
  | [] => .error .noFrameToPop
  | frame :: frames => .ok (frame, { r with frames })

/-- The place in the stack, counted from the innermost frame, that a number means:
from the outermost frame for a number from zero on, else from the innermost. -/
def frameIndex? (r : Resolver) (index : Int) : Option Nat :=
  let size : Int := r.frames.length
  if 0 ≤ index ∧ index < size then some (size - 1 - index).toNat
  else if -size ≤ index ∧ index < 0 then some (-index - 1).toNat
  else none

/-- Declare names in one of the open frames. -/
def declareAt (r : Resolver) (index : Int) (names : List String) : Except Trouble Resolver :=
  match r.frameIndex? index with
  | none => .error .noFrame
  | some i =>
    let (r, frame) := r.declareAll (r.frames.getD i []) names
    .ok { r with frames := r.frames.set i frame }

/-- Mention a name: its new name, if it gets one. -/
def mention (r : Resolver) (name : String) : Resolver × Option String :=
  match r.lookup name with
  | none => ({ r with free := if r.free.contains name then r.free else name :: r.free }, none)
  | some resolved =>
    if resolved ≠ name ∧ ¬ r.dryRun then ({ r with respelled := r.respelled + 1 }, some resolved)
    else (r, none)

/-- Follow one event. -/
def step (r : Resolver) : Event → Except Trouble Resolver
  | .declare names => r.declareAt 0 names
  | .enter _ names =>
    let (r, frame) := r.declareAll [] names
    .ok { r with frames := frame :: r.frames }
  | .leave => do return (← r.pop).2
  | .mention path name =>
    match r.mention name with
    | (r, some new) => .ok { r with edits := (path, new) :: r.edits }
    | (r, none) => .ok r
  | .broken fault => .error (.fault fault)

/-- Follow the events of a program. -/
def follow (r : Resolver) : List Event → Except Trouble Resolver
  | [] => .ok r
  | event :: rest => do (← r.step event).follow rest

/-- Follow the scopes of a tree, and give the mentions in it their new names. -/
def run (r : Resolver) (t : Tree) : Except Trouble (Resolver × Tree) := do
  let _ ← match t.need "type" with
    | .ok kind => .ok kind
    | .error fault => .error (Trouble.fault fault)
  let r ← r.follow (events t)
  return ({ r with edits := [] }, t.edit r.edits)

end Resolver

/-- A resolver for a tree. -/
def resolverFor (t : Tree) (reserved : List String) (dryRun : Bool) : Except Trouble Resolver :=
  match t.identifierNames with
  | .ok identifiers => .ok (.start identifiers reserved dryRun)
  | .error fault => .error (.fault fault)

/-- Sorted by code points. -/
def sorted (names : List String) : List String :=
  names.mergeSort fun a b => a ≤ b

/-- The names a tree mentions without declaring them in scope, sorted. -/
def freeNames (t : Tree) : Except Trouble (List String) := do
  let r ← resolverFor t [] true
  let (r, _) ← r.run t
  return sorted r.free

/-- The outcome of giving every binding a name of its own. -/
structure Resolution where
  /-- The tree with the new names. -/
  tree : Tree
  /-- The names it mentions without declaring them. -/
  globals : List String
  /-- The resolver at the end. -/
  resolver : Resolver

/-- Give every binding of a program a name of its own. -/
def resolve (t : Tree) : Except Trouble Resolution := do
  let globals ← freeNames t
  let r ← resolverFor t globals false
  let (resolver, tree) ← r.run t
  return ⟨tree, globals, resolver⟩

end NameRecovery.Scope
