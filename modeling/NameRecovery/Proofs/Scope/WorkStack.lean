import Mathlib.Logic.Relation
import NameRecovery.Proofs.Tree.Path
import NameRecovery.Proofs.Tree.Preorder
import NameRecovery.Scope.Resolver

/-!
# Scopes on a work stack

A walk through the scopes of a program need not recurse: it can keep on a stack what is left to
do, the nodes to visit and between them the marks at which scopes are entered and left.  The walk
rewrites the tree as it goes, and whatever it reads, it reads from the tree as it is by then.

* `WorkStack.step` — the walk that keeps a stack;
* `Visits` — the walk that recurses: a frame is open while the nodes inside its scope are
  visited, for a switch its cases and for a function declaration all but its name;
* `Visits.steps` — whatever lies on the stack below, the stack does what the recursion does;
* `Visits.end_unique` — so the recursion has one end, and the stack comes to no other.
-/

namespace NameRecovery

namespace Tree

/-- The steps to the cases of a switch. -/
def caseSteps (t : Tree) : List Step :=
  match t.get "cases" with
  | .list items => (placed "cases" (.list items)).map Prod.fst
  | _ => []

end Tree

namespace Scope

open NameRecovery.Tree (Place)

/-! ## The state of a walk -/

/-- An identifier that was resolved, and the scopes that were open then. -/
structure Met where
  /-- The path of the identifier. -/
  path : Path
  /-- The name it had. -/
  name : String
  /-- The nodes whose scopes were open, innermost first. -/
  sites : List Path
  /-- Their frames. -/
  frames : List Frame

/-- A walk on its way through a tree. -/
structure Tour where
  /-- The tree as it has been rewritten so far. -/
  tree : Tree
  /-- The resolver. -/
  resolver : Resolver
  /-- The nodes whose scopes are open, innermost first. -/
  sites : List Path := [[]]
  /-- The identifiers resolved so far. -/
  met : List Met := []

/-- The walk before the first node. -/
def Tour.start (t : Tree) (r : Resolver) : Tour :=
  { tree := t, resolver := r }

namespace Tour

/-- Does an identifier in this place name a binding? -/
def isBinding (w : Tour) (place : Place) : Bool :=
  isBindingPlace (place.parent.bind w.tree.at?) place.field

/-- Resolve the identifier at a path, and give it its new name if it gets one. -/
def rewrite (w : Tour) (path : Path) : Option Tour := do
  let name ← ((← w.tree.at? path).get? "name").bind Tree.text?
  let (resolver, new) := w.resolver.mention name
  return {
    tree := new.elim w.tree fun new => w.tree.edit [(path, new)]
    resolver
    sites := w.sites
    met := w.met ++ [⟨path, name, w.sites, w.resolver.frames⟩] }

/-- Enter the scope of the node at a path, if it has one, and tell whether a frame was opened for
it.  The frame of the program is open already. -/
def enterScope (w : Tour) (path : Path) : Option (Tour × Bool) := do
  let t ← w.tree.at? path
  if t.isKind "Program" then
    let resolver ← (w.resolver.declareAt 0 (← (programNames t).toOption)).toOption
    return ({ w with resolver }, false)
  else
    match scopeNames? t with
    | none => return (w, false)
    | some names =>
      let (resolver, frame) := w.resolver.declareAll [] (← names.toOption)
      return ({ w with
        resolver := { resolver with frames := frame :: resolver.frames }
        sites := path :: w.sites }, true)

/-- Leave the scope entered last. -/
def leaveScope (w : Tour) : Option Tour := do
  let (_, resolver) ← w.resolver.pop.toOption
  return { w with resolver, sites := w.sites.tail }

/-- Resolve the name that the node at a path declares for the scope around it, if it does. -/
def resolveId (w : Tour) (path : Path) (declares : Bool) : Option Tour :=
  if declares then w.rewrite (path ++ [⟨"id", 0⟩]) else some w

/-- What is done at a node before its children: a function declaration has its name resolved,
and then the scope of the node is entered.  Told along are whether a frame was opened, and the
children left to visit. -/
def arrive (w : Tour) (path : Path) : Option (Tour × Bool × List Step) := do
  let t ← w.tree.at? path
  let declares := t.isKind "FunctionDeclaration" && t.has "id"
  let (w, entered) ← (← w.resolveId path declares).enterScope path
  let t ← w.tree.at? path
  return (w, entered, t.childSteps.filter fun step => !(declares && step.field == "id"))

section Effects

variable {w w₁ w₂ : Tour} {path : Path} {t t' : Tree}

theorem rewrite_eq {name : String} (hat : w.tree.at? path = some t)
    (hname : (t.get? "name").bind Tree.text? = some name) :
    w.rewrite path = some {
      tree := (w.resolver.mention name).2.elim w.tree fun new => w.tree.edit [(path, new)]
      resolver := (w.resolver.mention name).1
      sites := w.sites
      met := w.met ++ [⟨path, name, w.sites, w.resolver.frames⟩] } := by
  simp [rewrite, hat, hname]

theorem enterScope_program {names : List String} {resolver : Resolver}
    (hat : w.tree.at? path = some t) (hkind : t.isKind "Program" = true)
    (hnames : programNames t = .ok names) (hdeclare : w.resolver.declareAt 0 names = .ok resolver) :
    w.enterScope path = some ({ w with resolver }, false) := by
  simp [enterScope, hat, hkind, hnames, hdeclare, Except.toOption]

theorem enterScope_none (hat : w.tree.at? path = some t) (hkind : t.isKind "Program" = false)
    (hnames : scopeNames? t = none) : w.enterScope path = some (w, false) := by
  simp [enterScope, hat, hkind, hnames]

theorem enterScope_some {names : List String} (hat : w.tree.at? path = some t)
    (hkind : t.isKind "Program" = false) (hnames : scopeNames? t = some (.ok names)) :
    w.enterScope path = some ({ w with
      resolver := { (w.resolver.declareAll [] names).1 with
        frames := (w.resolver.declareAll [] names).2 ::
          (w.resolver.declareAll [] names).1.frames }
      sites := path :: w.sites }, true) := by
  simp [enterScope, hat, hkind, hnames, Except.toOption]

theorem leaveScope_eq {frame : Frame} {frames : List Frame}
    (hframes : w.resolver.frames = frame :: frames) :
    w.leaveScope =
      some { w with resolver := { w.resolver with frames }, sites := w.sites.tail } := by
  simp [leaveScope, Resolver.pop, hframes, Except.toOption]

theorem arrive_eq {declares entered : Bool} (hat : w.tree.at? path = some t)
    (hdeclares : (t.isKind "FunctionDeclaration" && t.has "id") = declares)
    (hresolve : w.resolveId path declares = some w₁)
    (henter : w₁.enterScope path = some (w₂, entered)) (hat' : w₂.tree.at? path = some t') :
    w.arrive path = some (w₂, entered,
      t'.childSteps.filter fun step => !(declares && step.field == "id")) := by
  simp only [arrive, hat, Option.bind_eq_bind, Option.bind_some, hdeclares, hresolve, henter, hat',
    Option.pure_def]

end Effects

end Tour

/-! ## With a stack -/

/-- What lies on the stack. -/
inductive Task where
  /-- Visit a node. -/
  | visit (place : Place)
  /-- Enter the scope of the node at a path. -/
  | enter (path : Path)
  /-- Leave the scope entered last. -/
  | exit

/-- Push tasks onto a stack, one after the other. -/
def pushAll (tasks stack : List Task) : List Task :=
  tasks.foldl (fun stack task => task :: stack) stack

/-- A walk with its stack, the top first. -/
structure WorkStack where
  /-- The walk. -/
  tour : Tour
  /-- The stack. -/
  stack : List Task

namespace WorkStack

/-- Visit a node: pushed onto the stack are its children in reverse, with the marks around
them. -/
def visit (w : Tour) (place : Place) (stack : List Task) : Option WorkStack := do
  let t ← w.tree.at? place.path
  if t.isKind "Identifier" then
    if w.isBinding place then return ⟨← w.rewrite place.path, stack⟩
    else return ⟨w, stack⟩
  else if t.isKind "SwitchStatement" then
    let stack := Task.exit :: stack
    let stack := pushAll (t.caseSteps.map fun step => .visit (.below place.path step)).reverse stack
    let stack := Task.enter place.path :: stack
    return ⟨w, .visit (.below place.path ⟨"discriminant", 0⟩) :: stack⟩
  else
    let (w, entered, steps) ← w.arrive place.path
    let stack := if entered then Task.exit :: stack else stack
    return ⟨w, pushAll (steps.map fun step => .visit (.below place.path step)).reverse stack⟩

/-- Take the top off the stack and do it. -/
def step (m : WorkStack) : Option WorkStack :=
  match m.stack with
  | [] => none
  | .exit :: stack => do return ⟨← m.tour.leaveScope, stack⟩
  | .enter path :: stack => do return ⟨(← m.tour.enterScope path).1, stack⟩
  | .visit place :: stack => visit m.tour place stack

/-- Any number of steps. -/
def Steps : WorkStack → WorkStack → Prop :=
  Relation.ReflTransGen fun m m' => m.step = some m'

end WorkStack

/-! ## With recursion -/

/-- Visiting places one after the other, each with all that is below it.  A scope is entered, the
nodes inside it are visited, and it is left again. -/
inductive Visits : Tour → List Place → Tour → Prop where
  | done (w : Tour) : Visits w [] w
  /-- An identifier that names a binding is resolved. -/
  | binding {w w₁ w' : Tour} {place : Place} {rest : List Place} {t : Tree} :
      w.tree.at? place.path = some t → t.isKind "Identifier" = true → w.isBinding place = true →
      w.rewrite place.path = some w₁ → Visits w₁ rest w' → Visits w (place :: rest) w'
  /-- Any other identifier is passed by. -/
  | spelling {w w' : Tour} {place : Place} {rest : List Place} {t : Tree} :
      w.tree.at? place.path = some t → t.isKind "Identifier" = true → w.isBinding place = false →
      Visits w rest w' → Visits w (place :: rest) w'
  /-- The scope of a switch is open for its cases, but not for the value it looks at. -/
  | switch {w w₁ w₂ w₃ w₄ w' : Tour} {place : Place} {rest : List Place} {t : Tree}
      {entered : Bool} :
      w.tree.at? place.path = some t → t.isKind "SwitchStatement" = true →
      Visits w [.below place.path ⟨"discriminant", 0⟩] w₁ →
      w₁.enterScope place.path = some (w₂, entered) →
      Visits w₂ (t.caseSteps.map (.below place.path)) w₃ → w₃.leaveScope = some w₄ →
      Visits w₄ rest w' → Visits w (place :: rest) w'
  /-- The scope of any other node is open for its children. -/
  | scope {w w₁ w₂ w₃ w' : Tour} {place : Place} {rest : List Place} {t : Tree}
      {steps : List Step} :
      w.tree.at? place.path = some t → t.isKind "Identifier" = false →
      t.isKind "SwitchStatement" = false → w.arrive place.path = some (w₁, true, steps) →
      Visits w₁ (steps.map (.below place.path)) w₂ → w₂.leaveScope = some w₃ →
      Visits w₃ rest w' → Visits w (place :: rest) w'
  /-- A node without a scope of its own has its children visited. -/
  | plain {w w₁ w₂ w' : Tour} {place : Place} {rest : List Place} {t : Tree}
      {steps : List Step} :
      w.tree.at? place.path = some t → t.isKind "Identifier" = false →
      t.isKind "SwitchStatement" = false → w.arrive place.path = some (w₁, false, steps) →
      Visits w₁ (steps.map (.below place.path)) w₂ → Visits w₂ rest w' →
      Visits w (place :: rest) w'

theorem Visits.append {w w₁ w' : Tour} {first rest : List Place} (hfirst : Visits w first w₁)
    (hrest : Visits w₁ rest w') : Visits w (first ++ rest) w' := by
  induction hfirst with
  | done => exact hrest
  | binding hat hkind hplace hrewrite _ ih => exact .binding hat hkind hplace hrewrite (ih hrest)
  | spelling hat hkind hplace _ ih => exact .spelling hat hkind hplace (ih hrest)
  | switch hat hkind hvalue henter hcases hleave _ _ _ ih =>
      exact .switch hat hkind hvalue henter hcases hleave (ih hrest)
  | scope hat hne hne' harrive hinner hleave _ _ ih =>
      exact .scope hat hne hne' harrive hinner hleave (ih hrest)
  | plain hat hne hne' harrive hinner _ _ ih => exact .plain hat hne hne' harrive hinner (ih hrest)

/-- A node with a scope of its own or without. -/
theorem Visits.node {w w₁ w₂ w₃ : Tour} {place : Place} {t : Tree} {entered : Bool}
    {steps : List Step} (hat : w.tree.at? place.path = some t)
    (hne : t.isKind "Identifier" = false) (hne' : t.isKind "SwitchStatement" = false)
    (harrive : w.arrive place.path = some (w₁, entered, steps))
    (hinner : Visits w₁ (steps.map (.below place.path)) w₂)
    (hleave : if entered then w₂.leaveScope = some w₃ else w₂ = w₃) : Visits w [place] w₃ := by
  cases entered with
  | true => exact .scope hat hne hne' harrive hinner hleave (.done w₃)
  | false =>
      obtain rfl : w₂ = w₃ := hleave
      exact .plain hat hne hne' harrive hinner (.done w₂)

/-! ## The stack does what the recursion does -/

/-- Pushed in reverse, the first task comes to lie on top. -/
theorem pushAll_reverse (tasks stack : List Task) :
    pushAll tasks.reverse stack = tasks ++ stack :=
  DepthFirst.pushAll_reverse tasks stack

namespace WorkStack

variable {w w' : Tour} {place : Place} {t : Tree}

theorem step_binding (hat : w.tree.at? place.path = some t) (hkind : t.isKind "Identifier" = true)
    (hplace : w.isBinding place = true) (hrewrite : w.rewrite place.path = some w')
    (stack : List Task) : step ⟨w, .visit place :: stack⟩ = some ⟨w', stack⟩ := by
  simp [step, visit, hat, hkind, hplace, hrewrite]

theorem step_spelling (hat : w.tree.at? place.path = some t) (hkind : t.isKind "Identifier" = true)
    (hplace : w.isBinding place = false) (stack : List Task) :
    step ⟨w, .visit place :: stack⟩ = some ⟨w, stack⟩ := by
  simp [step, visit, hat, hkind, hplace]

theorem step_switch (hat : w.tree.at? place.path = some t)
    (hkind : t.isKind "SwitchStatement" = true) (stack : List Task) :
    step ⟨w, .visit place :: stack⟩ = some ⟨w, .visit (.below place.path ⟨"discriminant", 0⟩) ::
      .enter place.path :: (t.caseSteps.map fun step => .visit (.below place.path step)) ++
        .exit :: stack⟩ := by
  have hne : t.isKind "Identifier" = false := by
    rw [Tree.isKind, beq_iff_eq] at hkind
    rw [Tree.isKind, hkind]
    rfl
  simp [step, visit, hat, hkind, hne, pushAll_reverse]

theorem step_node {entered : Bool} {steps : List Step} (hat : w.tree.at? place.path = some t)
    (hne : t.isKind "Identifier" = false) (hne' : t.isKind "SwitchStatement" = false)
    (harrive : w.arrive place.path = some (w', entered, steps)) (stack : List Task) :
    step ⟨w, .visit place :: stack⟩ =
      some ⟨w', (steps.map fun step => .visit (.below place.path step)) ++
        if entered then .exit :: stack else stack⟩ := by
  simp [step, visit, hat, hne, hne', harrive, pushAll_reverse]

end WorkStack

open WorkStack in
/-- **The stack does what the recursion does**, whatever lies below on it. -/
theorem Visits.steps {w w' : Tour} {places : List Place} (h : Visits w places w')
    (stack : List Task) : Steps ⟨w, places.map .visit ++ stack⟩ ⟨w', stack⟩ := by
  induction h generalizing stack with
  | done => exact .refl
  | binding hat hkind hplace hrewrite _ ih =>
      exact .head (step_binding hat hkind hplace hrewrite _) (ih stack)
  | spelling hat hkind hplace _ ih => exact .head (step_spelling hat hkind hplace _) (ih stack)
  | @switch w w₁ w₂ w₃ w₄ w' place rest t entered hat hkind _ henter _ hleave _ ihvalue ihcases
      ihrest =>
      -- the value, the mark before the cases, the cases, the mark behind them
      have hcases := ihcases (.exit :: (rest.map .visit ++ stack))
      rw [List.map_map] at hcases
      have hentered : step ⟨w₁, .enter place.path ::
          ((t.caseSteps.map fun step => .visit (.below place.path step)) ++
            .exit :: (rest.map .visit ++ stack))⟩ =
          some ⟨w₂, (t.caseSteps.map fun step => .visit (.below place.path step)) ++
            .exit :: (rest.map .visit ++ stack)⟩ := by
        simp [step, henter]
      have hleft : step ⟨w₃, .exit :: (rest.map .visit ++ stack)⟩ =
          some ⟨w₄, rest.map .visit ++ stack⟩ := by
        simp [step, hleave]
      exact .head (step_switch hat hkind _) ((ihvalue _).trans
        (.head hentered (hcases.trans (.head hleft (ihrest stack)))))
  | @scope w w₁ w₂ w₃ w' place rest t steps hat hne hne' harrive _ hleave _ ihinner ihrest =>
      have hinner := ihinner (.exit :: (rest.map .visit ++ stack))
      rw [List.map_map] at hinner
      have hleft : step ⟨w₂, .exit :: (rest.map .visit ++ stack)⟩ =
          some ⟨w₃, rest.map .visit ++ stack⟩ := by
        simp [step, hleave]
      exact .head (step_node hat hne hne' harrive _) (hinner.trans (.head hleft (ihrest stack)))
  | @plain w w₁ w₂ w' place rest t steps hat hne hne' harrive _ _ ihinner ihrest =>
      have hinner := ihinner (rest.map .visit ++ stack)
      rw [List.map_map] at hinner
      exact .head (step_node hat hne hne' harrive _) (hinner.trans (ihrest stack))

namespace WorkStack

/-- An empty stack is the end: every state on the way goes on to it. -/
theorem Steps.onward {m n : WorkStack} {w : Tour} (hend : Steps m ⟨w, []⟩) (h : Steps m n) :
    Steps n ⟨w, []⟩ := by
  have hunique : Relator.RightUnique fun m m' : WorkStack => m.step = some m' :=
    fun _ _ _ h h' => Option.some.inj (h.symm.trans h')
  refine reaches_last hunique (fun next hnext => ?_) hend h
  cases hnext

end WorkStack

/-- The recursion has one end at most. -/
theorem Visits.end_unique {w w₁ w₂ : Tour} {places : List Place} (h₁ : Visits w places w₁)
    (h₂ : Visits w places w₂) : w₁ = w₂ := by
  have hon := (h₁.steps []).onward (h₂.steps [])
  rcases Relation.ReflTransGen.cases_head hon with heq | ⟨m, hstep, -⟩
  · exact (congrArg WorkStack.tour heq).symm
  · cases hstep

end Scope
end NameRecovery
