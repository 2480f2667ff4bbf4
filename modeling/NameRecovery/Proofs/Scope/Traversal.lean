import NameRecovery.Grammar.Program
import NameRecovery.Proofs.Scope.Tour

/-!
# The work stack follows the scopes of a program

Visiting a node of a program does what following its events does, with the stack of the walk as
well as with recursion.  So the identifiers are met where the events mention them, in the scopes
along their paths.

* `follows_branches`, `follows_node`, `follows_eventsAt` — branches one after the other, a node by
  its branches, and every node of a program;
* `work_stack_runs_scopes` — the work stack, the recursion and the resolver's run agree, and
  every occurrence is met once, inside its scopes.
-/

namespace NameRecovery.Scope

open NameRecovery.Tree

/-! ## Branches, one after the other -/

section Node

variable {t : Tree} {kind : String} {fields : List (String × Tree)} {here : Path} {stack : Stack}

/-- No two branches outside the scope of a node are reached by one step, and none inside. -/
theorem steps_apart (h : isLaidOut kind fields = true) :
    ((outerBranches kind fields).map Prod.fst).Nodup ∧
      ((innerBranches kind fields).map Prod.fst).Nodup := by
  have hall := steps_nodup h
  rw [placedIn_eq_append h, List.map_append] at hall
  obtain ⟨houter, hinner, -⟩ := List.nodup_append.1 hall
  exact ⟨houter, hinner⟩

/-- The places of branches that are nodes. -/
def placesOf (here : Path) (bs : List (Step × Tree)) : List Place :=
  ((bs.filter fun b => b.2.isNode).map Prod.fst).map (.below here)

/-- Below the node at a path, visiting a node does what following its events does. -/
def FollowsBelow (t : Tree) (kind : String) (fields : List (String × Tree)) (here : Path) : Prop :=
  ∀ b ∈ placedIn fields, b.2.isNode = true → ∀ {stack : Stack} {w w' : Walk}, w.Tracks stack →
    Clear w (here ++ [b.1]) →
    w.follow (eventsAt (spotAt (.node kind fields) here b.1) b.2) = .ok w' →
    Follows t w w' [.below here b.1] stack (eventsAt (spotAt (.node kind fields) here b.1) b.2)

/-- So does visiting several, one after the other. -/
theorem follows_branches (h : (Tree.node kind fields).isFormed = true)
    {bs : List (Step × Tree)} (hsub : ∀ b ∈ bs, b ∈ placedIn fields)
    (hsteps : (bs.map Prod.fst).Nodup) (hbelow : FollowsBelow t kind fields here)
    {w w' : Walk} (htracks : w.Tracks stack) (hclear : ∀ b ∈ bs, Clear w (here ++ [b.1]))
    (hrun : w.follow (branchEvents (.node kind fields) here bs) = .ok w') :
    Follows t w w' (placesOf here bs) stack (branchEvents (.node kind fields) here bs) := by
  induction bs generalizing w with
  | nil =>
      obtain rfl := Except.ok.inj hrun
      exact .nil
  | cons b rest ih =>
      obtain ⟨hnew, hrest⟩ := List.nodup_cons.1 hsteps
      have hb := hsub b List.mem_cons_self
      have hformed := isFormed_branch h hb
      have hprogram := kind_ne_program (isFormed_node.1 h).1 hb
      have ihrest := fun {w : Walk} =>
        @ih (fun b' hb' => hsub b' (List.mem_cons_of_mem _ hb')) hrest w
      rw [branchEvents, List.flatMap_cons] at hrun ⊢
      cases hnode : b.2.isNode with
      | true =>
          have hplaces : placesOf here (b :: rest) = [.below here b.1] ++ placesOf here rest := by
            rw [placesOf, List.filter_cons, hnode]
            rfl
          have hnested := nested_eventsAt hformed hnode hprogram
            (spotAt (.node kind fields) here b.1)
          obtain ⟨mid, hfirst, hlater⟩ := Walk.follow_append_ok hrun
          rw [hplaces]
          refine .append hnested (hbelow b hb hnode htracks
            (hclear b List.mem_cons_self) hfirst) (ihrest (htracks.follow_nested hnested hfirst) ?_
              hlater)
          intro b' hb'
          refine (hclear b' (List.mem_cons_of_mem _ hb')).follow_branch hformed hnode hprogram ?_
            hfirst
          rintro heq
          exact hnew (heq ▸ List.mem_map_of_mem hb')
      | false =>
          have hplaces : placesOf here (b :: rest) = placesOf here rest := by
            rw [placesOf, List.filter_cons, hnode]
            rfl
          rw [eventsAt_of_not_node h hb hnode, List.nil_append] at hrun ⊢
          rw [hplaces]
          exact ihrest htracks (fun b' hb' => hclear b' (List.mem_cons_of_mem _ hb')) hrun

/-! ## Outside the scope of a node -/

/-- Of the children of a node, those inside its scope are left to visit once the name of a
function declaration has been resolved. -/
theorem inner_steps (h : isLaidOut kind fields = true) (hswitch : kind ≠ "SwitchStatement") :
    ((Tree.node kind fields).childSteps.filter fun step =>
        !(((Tree.node kind fields).isKind "FunctionDeclaration" &&
          (Tree.node kind fields).has "id") && step.field == "id")) =
      ((innerBranches kind fields).filter fun b => b.2.isNode).map Prod.fst := by
  have houter : (((outerBranches kind fields).filter fun b => b.2.isNode).map Prod.fst).filter
      (fun step => !(((Tree.node kind fields).isKind "FunctionDeclaration" &&
        (Tree.node kind fields).has "id") && step.field == "id")) = [] := by
    by_cases hfunction : kind = "FunctionDeclaration"
    · subst hfunction
      obtain ⟨id, params, body, generator, async, expression, rfl, hid⟩ :=
        fields_of_functionDeclaration h
      rcases hid with rfl | hany
      · simp [outerBranches, outerKeys, placedIn, placed, isNode, kind?]
      · obtain ⟨_, _, rfl, -⟩ := isAny_iff.1 hany
        simp [outerBranches, outerKeys, placedIn, placed, isNode, kind?, isKind, has, Tree.get,
          get?, isSet]
    · rw [outerBranches_nil hswitch hfunction]
      rfl
  have hinner : (((innerBranches kind fields).filter fun b => b.2.isNode).map Prod.fst).filter
      (fun step => !(((Tree.node kind fields).isKind "FunctionDeclaration" &&
        (Tree.node kind fields).has "id") && step.field == "id")) =
      ((innerBranches kind fields).filter fun b => b.2.isNode).map Prod.fst := by
    refine List.filter_eq_self.2 fun step hstep => ?_
    obtain ⟨b, hb, rfl⟩ := List.mem_map.1 hstep
    have hne := not_outer_of_inner (List.mem_of_mem_filter hb)
    by_cases hfunction : kind = "FunctionDeclaration"
    · subst hfunction
      have hid : b.1.field ≠ "id" := by simpa [outerKeys] using hne
      simp [hid]
    · simp [isKind, kind?, hfunction]
  rw [childSteps, childBranches_eq h, placedIn_eq_append h, List.filter_append, List.map_append,
    List.filter_append, houter, hinner, List.nil_append]

/-- Outside the scope of a node, if it is no switch, stands the name of a function declaration
or nothing. -/
theorem outer_events (h : (Tree.node kind fields).isFormed = true)
    (hswitch : kind ≠ "SwitchStatement") (here : Path) :
    (((Tree.node kind fields).isKind "FunctionDeclaration" &&
        (Tree.node kind fields).has "id") = false ∧
      branchEvents (.node kind fields) here (outerBranches kind fields) = []) ∨
    ∃ name, ((Tree.node kind fields).isKind "FunctionDeclaration" &&
        (Tree.node kind fields).has "id") = true ∧
      (Tree.node kind fields).branch? ⟨"id", 0⟩ =
        some (.node "Identifier" [("name", .text name)]) ∧
      branchEvents (.node kind fields) here (outerBranches kind fields) =
        [.mention (here ++ [⟨"id", 0⟩]) name] := by
  by_cases hfunction : kind = "FunctionDeclaration"
  · subst hfunction
    obtain ⟨id, params, body, generator, async, expression, hfields, hid⟩ :=
      fields_of_functionDeclaration (isFormed_node.1 h).1
    have houter : outerBranches "FunctionDeclaration" fields = placed "id" id := by
      subst hfields
      simp [outerBranches, outerKeys, placedIn]
    have hget : (Tree.node "FunctionDeclaration" fields).get "id" = id := by
      subst hfields
      rfl
    have hmem : ∀ b ∈ placed "id" id, b ∈ placedIn fields := fun b hb => by
      subst hfields
      exact List.mem_append_left _ hb
    rw [houter, has, hget]
    rcases hid with rfl | hany
    · left
      refine ⟨by simp [isSet], ?_⟩
      rw [branchEvents, placed_of_ne_list (by simp), List.flatMap_singleton]
      exact eventsAt_of_not_node h (hmem _ List.mem_cons_self) rfl
    · right
      obtain ⟨kind', fields', rfl, hkind'⟩ := isAny_iff.1 hany
      obtain rfl := List.mem_singleton.1 hkind'
      have hb := hmem _ List.mem_cons_self
      obtain ⟨name, rfl⟩ := fields_of_identifier (isFormed_node.1 (isFormed_branch h hb)).1
      refine ⟨name, rfl, branch?_of_mem (isFormed_node.1 h).1 hb, ?_⟩
      rw [branchEvents, placed_of_ne_list (by simp), List.flatMap_singleton, eventsAt_identifier]
      rfl
  · left
    refine ⟨by simp [isKind, kind?, hfunction], ?_⟩
    rw [outerBranches_nil hswitch hfunction]
    rfl

/-- Resolving the name of a function declaration is following what stands outside its scope. -/
theorem resolveId_tour (h : (Tree.node kind fields).isFormed = true)
    (hswitch : kind ≠ "SwitchStatement") (hat : t.at? here = some (.node kind fields))
    {w w₁ : Walk} (htracks : w.Tracks stack) (hclear : Clear w here)
    (hrun : w.follow (branchEvents (.node kind fields) here (outerBranches kind fields)) = .ok w₁)
    (met : List Met) :
    ∃ more, (w.tour t met).resolveId here ((Tree.node kind fields).isKind "FunctionDeclaration" &&
        (Tree.node kind fields).has "id") = some (w₁.tour t (met ++ more)) ∧
      List.Forall₂ Met.Matches more
        (contexts stack (branchEvents (.node kind fields) here (outerBranches kind fields))) := by
  rcases outer_events h hswitch here with ⟨hdeclares, hevents⟩ | ⟨name, hdeclares, hbranch, hevents⟩
  · rw [hevents] at hrun ⊢
    obtain rfl := Except.ok.inj hrun
    refine ⟨[], ?_, .nil⟩
    rw [hdeclares, Tour.resolveId, List.append_nil]
    rfl
  · rw [hevents] at hrun ⊢
    obtain ⟨next, hstep, hnext⟩ := Walk.follow_cons_ok hrun
    obtain rfl := Except.ok.inj hnext
    have hid : (t.edit w.resolver.edits).at? (here ++ [⟨"id", 0⟩]) =
        some (.node "Identifier" [("name", .text name)]) := by
      rw [at?_edit_apart (hclear.below _), at?_append, hat, Option.bind_some, at?_cons hbranch]
      rfl
    refine ⟨[_], ?_, .cons (htracks.matches _ name) .nil⟩
    rw [hdeclares, Tour.resolveId, if_pos rfl]
    exact Walk.rewrite_tour hid rfl hstep

/-! ## Inside the scope of a node -/

/-- A walk has the inside of the scope of a node visited, from `w₁` to `w'`: with a frame that is
opened before, in `w₂`, and closed behind, in `w₃`, if the node has a scope of its own. -/
structure VisitsInside (t : Tree) (here : Path) (entered : Bool) (places : List Place)
    (stack : Stack) (events : List Event) (w₁ w₂ w₃ w' : Walk) : Prop where
  /-- The scope is entered. -/
  enter : ∀ met, (w₁.tour t met).enterScope here = some (w₂.tour t met, entered)
  /-- Nothing is edited by that. -/
  edits : w₂.resolver.edits = w₁.resolver.edits
  /-- The nodes inside are visited. -/
  visits : ∀ met, ∃ more, Visits (w₂.tour t met) places (w₃.tour t (met ++ more)) ∧
    List.Forall₂ Met.Matches more (contexts stack events)
  /-- The scope is left. -/
  leave : ∀ met, if entered then (w₃.tour t met).leaveScope = some (w'.tour t met)
    else w₃.tour t met = w'.tour t met

theorem visitsInside (h : (Tree.node kind fields).isFormed = true) (hprogram : kind ≠ "Program")
    (hat : t.at? here = some (.node kind fields))
    (hbelow : FollowsBelow t kind fields here)
    {w₁ w' : Walk} (htracks : w₁.Tracks stack) (hinside : ClearInside w₁ here kind)
    (hrun : w₁.follow (inScope (.node kind fields) here
      (branchEvents (.node kind fields) here (innerBranches kind fields))) = .ok w') :
    ∃ w₂ w₃, VisitsInside t here (scopeKinds.contains kind)
      (placesOf here (innerBranches kind fields)) stack (inScope (.node kind fields) here
        (branchEvents (.node kind fields) here (innerBranches kind fields))) w₁ w₂ w₃ w' := by
  have hlaid := (isFormed_node.1 h).1
  have hsub : ∀ b ∈ innerBranches kind fields, b ∈ placedIn fields := fun b => mem_of_inner hlaid
  obtain ⟨new, hlive, hnew, houter⟩ := hinside.live hat
  have hnot : ((Tree.node kind fields).editWith new).isKind "Program" = false := by
    rw [isKind_editWith]
    simp [isKind, kind?, hprogram]
  have hnames := (scopeNames?_editWith hnew houter).trans (scopeNames?_eq (.node kind fields))
  have hany : isAny scopeKinds (.node kind fields) = scopeKinds.contains kind := rfl
  rw [hany] at hnames
  rcases inScope_eq h here (branchEvents (.node kind fields) here (innerBranches kind fields))
    with ⟨hkind, heq⟩ | ⟨hkind, names, hdeclared, heq⟩
  · have hplain : scopeKinds.contains kind = false := by simpa using hkind
    rw [hplain] at hnames ⊢
    rw [heq] at hrun ⊢
    refine ⟨w₁, w', fun met => Tour.enterScope_none hlive hnot hnames, rfl, ?_, fun _ => rfl⟩
    exact follows_branches h hsub (steps_apart hlaid).2 hbelow htracks
      (fun b hb => hinside.inner hb) hrun
  · have hentered : scopeKinds.contains kind = true := by simpa using hkind
    rw [hentered, if_pos rfl, hdeclared] at hnames
    rw [hentered]
    rw [heq] at hrun ⊢
    obtain ⟨w₂, henter, hrest⟩ := Walk.follow_cons_ok hrun
    obtain ⟨w₃, hinner, hlast⟩ := Walk.follow_append_ok hrest
    obtain ⟨w₄, hleave, hend⟩ := Walk.follow_cons_ok hlast
    obtain rfl := Except.ok.inj hend
    refine ⟨w₂, w₃, fun met => Walk.enterScope_tour hlive hnot hnames henter,
      Walk.edits_enter henter, ?_, fun met => Walk.leaveScope_tour hleave⟩
    rw [contexts_scope (nested_branchEvents h here hsub)]
    refine follows_branches h hsub (steps_apart hlaid).2 hbelow (htracks.enter henter)
      (fun b hb e he => ?_) hinner
    rw [Walk.edits_enter henter] at he
    exact hinside.inner hb e he

/-! ## A whole node -/

/-- The children of a switch are its value and its cases. -/
theorem steps_of_switch (h : isLaidOut "SwitchStatement" fields = true) (here : Path) :
    placesOf here (outerBranches "SwitchStatement" fields) =
        [.below here ⟨"discriminant", 0⟩] ∧
      placesOf here (innerBranches "SwitchStatement" fields) =
        (Tree.node "SwitchStatement" fields).caseSteps.map (.below here) := by
  obtain ⟨value, cases, rfl, hvalue, hcases⟩ := fields_of_switch h
  have hne : ∀ items, value ≠ .list items := by rintro items rfl; cases hvalue
  have houter : outerBranches "SwitchStatement" [("discriminant", value), ("cases", .list cases)] =
      [(⟨"discriminant", 0⟩, value)] := by
    simp [outerBranches, outerKeys, placedIn, placed_of_ne_list hne]
  have hinner : innerBranches "SwitchStatement" [("discriminant", value), ("cases", .list cases)] =
      placed "cases" (.list cases) := by
    simp [innerBranches, outerKeys, placedIn]
  have hall : (placed "cases" (.list cases)).filter (fun b => b.2.isNode) =
      placed "cases" (.list cases) := by
    refine List.filter_eq_self.2 fun b hb => ?_
    obtain ⟨item, hitem, rfl⟩ := List.mem_map.1 hb
    exact hcases _ (List.fst_mem_of_mem_zipIdx hitem)
  refine ⟨?_, ?_⟩
  · rw [placesOf, houter, List.filter_singleton, hvalue]
    rfl
  · rw [placesOf, hinner, hall]
    rfl

/-- Visiting a node does what following its events does. -/
theorem follows_node (h : (Tree.node kind fields).isFormed = true) (hkind : kind ≠ "Identifier")
    (hprogram : kind ≠ "Program") {spot : Spot}
    (hat : t.at? spot.path = some (.node kind fields))
    (hbelow : FollowsBelow t kind fields spot.path) {w w' : Walk} (htracks : w.Tracks stack)
    (hclear : Clear w spot.path) (hrun : w.follow (eventsAt spot (.node kind fields)) = .ok w')
    {place : Place} (hplace : place.path = spot.path) :
    Follows t w w' [place] stack (eventsAt spot (.node kind fields)) := by
  have hlaid := (isFormed_node.1 h).1
  have hsub : ∀ b ∈ outerBranches kind fields, b ∈ placedIn fields := fun b => mem_of_outer hlaid
  have hnested := nested_branchEvents h spot.path hsub
  rw [eventsAt_node h hkind hprogram] at hrun ⊢
  obtain ⟨w₁, houter, hinner⟩ := Walk.follow_append_ok hrun
  have hinside := hclear.follow_outer h houter
  obtain ⟨w₂, w₃, hvisits⟩ := visitsInside h hprogram hat hbelow
    (htracks.follow_nested hnested houter) hinside hinner
  obtain ⟨new, hlive, hnew, -⟩ := hinside.live hat
  have hlive₂ : (t.edit w₂.resolver.edits).at? spot.path =
      some ((Tree.node kind fields).editWith new) := by
    rw [hvisits.edits, hlive]
  have hat' : (t.edit w.resolver.edits).at? place.path = some (.node kind fields) := by
    rw [hplace, at?_edit_apart hclear, hat]
  intro met
  by_cases hswitch : kind = "SwitchStatement"
  · -- the value first, and then the cases in their scope
    subst hswitch
    obtain ⟨hvalue, hcases⟩ := steps_of_switch hlaid spot.path
    obtain ⟨more, hfirst, hmore⟩ := follows_branches h hsub (steps_apart hlaid).1 hbelow htracks
      (fun b _ => hclear.below b.1) houter met
    obtain ⟨more', hinner', hmore'⟩ := hvisits.visits (met ++ more)
    rw [hvalue, ← hplace] at hfirst
    rw [hcases, ← hplace] at hinner'
    refine ⟨more ++ more', ?_, ?_⟩
    · rw [← List.append_assoc]
      exact .switch hat' rfl hfirst (hplace ▸ hvisits.enter _) hinner' (hvisits.leave _) (.done _)
    · rw [contexts_append hnested]
      exact List.rel_append hmore hmore'
  · -- the name of a function declaration first, and then the children left
    obtain ⟨more, hresolve, hmore⟩ := resolveId_tour h hswitch hat htracks hclear houter met
    obtain ⟨more', hinner', hmore'⟩ := hvisits.visits (met ++ more)
    have harrive := Tour.arrive_eq (w := w.tour t met) (hplace ▸ hat') rfl hresolve
      (hvisits.enter _) hlive₂
    rw [childSteps_editWith hnew, inner_steps hlaid hswitch, ← hplace] at harrive
    rw [placesOf, ← hplace] at hinner'
    refine ⟨more ++ more', ?_, ?_⟩
    · rw [← List.append_assoc]
      exact .node hat' (by simp [isKind, kind?, hkind]) (by simp [isKind, kind?, hswitch]) harrive
        hinner' (hvisits.leave _)
    · rw [contexts_append hnested]
      exact List.rel_append hmore hmore'

end Node

/-- **Visiting any node of a program does what following its events does.** -/
theorem follows_eventsAt {t parent u : Tree} {here : Path} {step : Step} (h : u.isFormed = true)
    (hnode : u.isNode = true) (hprogram : u.kind? ≠ some "Program")
    (hparent : t.at? here = some parent) (hstep : parent.branch? step = some u)
    {stack : Stack} {w w' : Walk} (htracks : w.Tracks stack) (hclear : Clear w (here ++ [step]))
    (hrun : w.follow (eventsAt (parent.spotAt here step) u) = .ok w') :
    Follows t w w' [.below here step] stack (eventsAt (parent.spotAt here step) u) := by
  induction u using branch_induction generalizing parent here step stack w w' with
  | step u ih =>
      have hat : t.at? (here ++ [step]) = some u := by
        rw [at?_append, hparent, Option.bind_some, at?_cons hstep]
        rfl
      cases u with
      | node kind fields =>
          have hlaid := (isFormed_node.1 h).1
          by_cases hkind : kind = "Identifier"
          · subst hkind
            obtain ⟨name, rfl⟩ := fields_of_identifier hlaid
            have hlive : (t.edit w.resolver.edits).at? (here ++ [step]) =
                some (.node "Identifier" [("name", .text name)]) := by
              rw [at?_edit_apart hclear, hat]
            intro met
            have hplace : (w.tour t met).isBinding (.below here step) = isBindingPlace
                (parent.spotAt here step).parent (parent.spotAt here step).field :=
              hclear.isBinding_tour hparent met
            rw [eventsAt_identifier] at hrun ⊢
            cases hbinding : isBindingPlace (parent.spotAt here step).parent
                (parent.spotAt here step).field with
            | true =>
                rw [hbinding, if_pos rfl] at hrun
                obtain ⟨next, hmention, hnext⟩ := Walk.follow_cons_ok hrun
                obtain rfl := Except.ok.inj hnext
                exact ⟨[_], .binding hlive rfl (hplace.trans hbinding)
                  (Walk.rewrite_tour hlive rfl hmention) (.done _),
                  .cons (htracks.matches _ name) .nil⟩
            | false =>
                rw [hbinding] at hrun
                obtain rfl := Except.ok.inj hrun
                refine ⟨[], .spelling hlive rfl (hplace.trans hbinding) ?_, .nil⟩
                rw [List.append_nil]
                exact .done _
          · refine follows_node h hkind (fun heq => hprogram (by rw [heq]; rfl)) hat ?_ htracks
              hclear hrun rfl
            intro b hb hnode' _ _ _ htracks' hclear' hrun'
            exact ih b hb (isFormed_branch h hb) hnode' (kind_ne_program hlaid hb) hat
              (branch?_of_mem hlaid hb) htracks' hclear' hrun'
      | _ => cases hnode

/-! ## Whole programs -/

/-- How the walk that keeps a stack goes through a program that declares the given names, if the
resolver is `r` at first: it ends in `w`. -/
structure Structured (t : Tree) (r : Resolver) (names : List String) (w : Tour) : Prop where
  /-- Every state that the stack comes to goes on to the end. -/
  ends : ∀ m, WorkStack.Steps ⟨.start t r, [.visit .root]⟩ m → WorkStack.Steps m ⟨w, []⟩
  /-- The recursion ends there too, and nowhere else. -/
  recursion : ∀ w', Visits (.start t r) [.root] w' ↔ w' = w
  /-- Both leave the tree and the resolver that a run of the resolver leaves. -/
  runs : r.run t = .ok (w.resolver, w.tree)
  /-- The identifiers that name bindings have been met, -/
  met_eq : (w.met.map fun m => (m.path, m.name)) = t.occurrences
  /-- each of them once. -/
  met_once : (w.met.map Met.path).Nodup
  /-- When one was met, the scopes along its path were open, and no others; -/
  met_sites : ∀ m ∈ w.met, m.sites = (scopesAlong [([], names)] [] t m.path).map Prod.fst
  /-- each of their frames had just the names that the scope declares. -/
  met_frames : ∀ m ∈ w.met, List.Forall₂ (fun frame scope => ∀ n, frame.has n = scope.2.contains n)
    m.frames (scopesAlong [([], names)] [] t m.path)
  /-- In the end the scope of the program is open, and no other. -/
  sites_eq : w.sites = [[]]
  /-- Its frame is the only one. -/
  frames_eq : ∃ frame, w.resolver.frames = [frame]

/-- Arriving at a program is declaring its names. -/
theorem arrive_program {fields : List (String × Tree)}
    (h : isLaidOut "Program" fields = true) {names : List String}
    (hnames : programNames (.node "Program" fields) = .ok names) (known reserved : List String)
    (dryRun : Bool) :
    (Tour.start (.node "Program" fields) (.start known reserved dryRun)).arrive [] =
      some ((Walk.opened known reserved dryRun names).tour (.node "Program" fields) [], false,
        ((placedIn fields).filter fun b => b.2.isNode).map Prod.fst) := by
  have hdeclare := (Walk.step_ok (Walk.step_declare known reserved dryRun names)).1
  have hedits := Walk.opened_edits known reserved dryRun names
  have htour : (Walk.opened known reserved dryRun names).tour (.node "Program" fields) [] =
      ⟨.node "Program" fields, (Walk.opened known reserved dryRun names).resolver, [[]], []⟩ := by
    rw [Walk.tour, Resolver.unedited_eq_self hedits, hedits]
    rfl
  have hsteps : ((Tree.node "Program" fields).childSteps.filter fun step =>
      !(false && step.field == "id")) =
      ((placedIn fields).filter fun b => b.2.isNode).map Prod.fst := by
    rw [childSteps, childBranches_eq h]
    exact List.filter_eq_self.2 fun _ _ => rfl
  rw [htour, ← hsteps]
  exact Tour.arrive_eq rfl rfl rfl (Tour.enterScope_program rfl rfl hnames hdeclare) rfl

/-- Visiting a program does what following the events of its statements does, once its names
have been declared. -/
theorem visits_program {fields : List (String × Tree)}
    (h : (Tree.node "Program" fields).isFormed = true) {names known reserved : List String}
    (hnames : programNames (.node "Program" fields) = .ok names) {dryRun : Bool} {w : Walk}
    (hrun : (Walk.opened known reserved dryRun names).follow
      (branchEvents (.node "Program" fields) [] (placedIn fields)) = .ok w) :
    ∃ met, Visits (.start (.node "Program" fields) (.start known reserved dryRun)) [.root]
        (w.tour (.node "Program" fields) met) ∧
      List.Forall₂ Met.Matches met (contexts [([], names)]
        (branchEvents (.node "Program" fields) [] (placedIn fields))) := by
  have hlaid := (isFormed_node.1 h).1
  have hbelow : FollowsBelow (.node "Program" fields) "Program" fields [] :=
    fun b hb hnode _ _ _ htracks hclear hrun => follows_eventsAt (isFormed_branch h hb) hnode
      (kind_ne_program hlaid hb) rfl (branch?_of_mem hlaid hb) htracks hclear hrun
  have hclear : ∀ b ∈ placedIn fields,
      Clear (Walk.opened known reserved dryRun names) ([] ++ [b.1]) := by
    intro b _ e he
    rw [Walk.opened_edits] at he
    exact absurd he List.not_mem_nil
  obtain ⟨met, hbody, hmet⟩ := follows_branches h (fun b hb => hb) (steps_nodup hlaid) hbelow
    (Walk.opened_tracks known reserved dryRun names) hclear hrun []
  exact ⟨met, .node rfl rfl rfl (arrive_program hlaid hnames known reserved dryRun) hbody rfl, hmet⟩

/-- What was met in the contexts of the mentions was met in the scopes along its path. -/
theorem Met.Matches.along {t : Tree} (h : t.isProgram = true) {names : List String}
    {body : List Event} (hregular : Regular t names body) {met : List Met}
    (hmet : List.Forall₂ Met.Matches met (contexts [([], names)] body)) {m : Met} (hm : m ∈ met) :
    m.Matches ⟨m.path, m.name, scopesAlong [([], names)] [] t m.path⟩ := by
  obtain ⟨c, hc, hmatch⟩ := of_mem hmet hm
  have hstack := contexts_program h hregular hc
  rw [← hmatch.path] at hstack
  rw [← hstack]
  exact ⟨rfl, rfl, hmatch.sites, hmatch.frames⟩

/-- **The work stack runs through the scopes of a program as the recursion does**, for every
program, any reserved names, and in dry runs as in real ones. -/
theorem work_stack_runs_scopes {t : Tree} (h : t.isProgram = true) (reserved : List String)
    (dryRun : Bool) : ∃ r names w, resolverFor t reserved dryRun = .ok r ∧
      programNames t = .ok names ∧ Structured t r names w := by
  obtain ⟨fields, rfl, hformed⟩ := exists_fields_of_isProgram h
  obtain ⟨known, hknown, -⟩ := identifierNames_ok hformed rfl
  obtain ⟨names, hnames, hevents⟩ := events_program hformed
  obtain ⟨names', body, hregular⟩ := regular_events h
  obtain ⟨hdeclared, rfl⟩ := List.cons.inj (hregular.events_eq.symm.trans hevents)
  obtain rfl := Event.declare.inj hdeclared
  obtain ⟨last, hrun, hwalk⟩ := walkThrough_program hregular hknown reserved dryRun
  obtain ⟨r, hr, hends⟩ := run_of_walk h hwalk
  obtain rfl : Resolver.start known reserved dryRun = r := by
    rw [resolverFor, hknown] at hr
    exact Except.ok.inj hr
  obtain ⟨met, hvisits, hmet⟩ := visits_program hformed hnames hrun
  obtain ⟨last', hlast, hframes, hsites⟩ :=
    hregular.nested.follow (Walk.opened known reserved dryRun names')
  obtain rfl := Except.ok.inj (hlast.symm.trans hrun)
  have hmentions : (met.map fun m => (m.path, m.name)) =
      (Tree.node "Program" fields).occurrences := by
    rw [Met.Matches.mentions_eq hmet, contexts_mentions]
    exact hregular.mentions_eq
  have hnodup := occurrences_paths_nodup hformed
  rw [← hmentions, List.map_map] at hnodup
  refine ⟨_, names', last'.tour (.node "Program" fields) met, hr, hnames, ?_⟩
  exact
    { ends := fun m hm => (hvisits.steps []).onward hm
      recursion := fun w' => ⟨fun hw' => hw'.end_unique hvisits, fun hw' => hw' ▸ hvisits⟩
      runs := hends
      met_eq := hmentions
      met_once := hnodup
      met_sites := fun m hm => (Met.Matches.along h hregular hmet hm).sites
      met_frames := fun m hm => (Met.Matches.along h hregular hmet hm).frames
      sites_eq := hsites
      frames_eq := ⟨_, hframes⟩ }

set_option maxRecDepth 100000 in
/-- The value of a switch and the name of a function declaration, both inside scopes that they do
not belong to. -/
theorem work_stack_runs_scopes_switch :
    ∃ t, Grammar.parse .script
        "function f(a) { switch (a) { case 0: let a; function f() { a } } }" = .ok t ∧
      t.isProgram = true ∧ ∃ r names w, resolverFor t ["a"] false = .ok r ∧
        programNames t = .ok names ∧ Structured t r names w := by
  have hprogram : (Grammar.parse .script
      "function f(a) { switch (a) { case 0: let a; function f() { a } } }").toOption.any
        isProgram = true := by
    decide +kernel
  cases hparse : Grammar.parse .script
      "function f(a) { switch (a) { case 0: let a; function f() { a } } }" with
  | error e => rw [hparse] at hprogram; cases hprogram
  | ok t =>
      rw [hparse] at hprogram
      exact ⟨t, rfl, hprogram, work_stack_runs_scopes hprogram ["a"] false⟩

end NameRecovery.Scope
