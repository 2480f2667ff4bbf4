import NameRecovery.Proofs.Scope.Separation
import NameRecovery.Proofs.Tree.Path

/-!
# The scopes around a place

Which scopes are open at a place of a program is told by the way to it: every node on the
way that has a scope adds it, unless the way leaves the node through a field outside its
scope, such as the value a switch looks at.  The events of a program agree with that.

* `scopesAlong` — the scopes open at the end of a path;
* `contexts_program` — the scopes open around a mention are those along its path;
* `Runs.referent_along` — so a run finds an occurrence in the first of them that declares its
  name.
-/

namespace NameRecovery.Scope

open NameRecovery.Tree

/-! ## Scopes along a path -/

/-- The scopes open below a node, in the field that the step leads to. -/
def scopesBelow (t : Tree) (here : Path) (step : Step) (stack : Stack) : Stack :=
  if t.isAny scopeKinds && !(t.kind?.any fun kind => (outerKeys kind).contains step.field) then
    (here, (scopeNames t).toOption.getD []) :: stack
  else stack

/-- The scopes open at the end of a path that starts here, inside those given. -/
def scopesAlong (stack : Stack) (here : Path) (t : Tree) : Path → Stack
  | [] => stack
  | step :: rest =>
    match t.branch? step with
    | some value => scopesAlong (scopesBelow t here step stack) (here ++ [step]) value rest
    | none => stack

theorem scopesAlong_cons {t value : Tree} {step : Step} (h : t.branch? step = some value)
    (stack : Stack) (here rest : Path) :
    scopesAlong stack here t (step :: rest) =
      scopesAlong (scopesBelow t here step stack) (here ++ [step]) value rest := by
  rw [scopesAlong, h]

theorem scopesAlong_append {t value : Tree} {path : Path} (h : t.at? path = some value)
    (stack : Stack) (here rest : Path) :
    scopesAlong stack here t (path ++ rest) =
      scopesAlong (scopesAlong stack here t path) (here ++ path) value rest := by
  induction path generalizing t stack here with
  | nil =>
      obtain rfl := Option.some.inj h
      rw [List.nil_append, List.append_nil, scopesAlong]
  | cons step path ih =>
      obtain ⟨next, hnext, hrest⟩ := Option.bind_eq_some_iff.1 h
      rw [List.cons_append, scopesAlong_cons hnext, scopesAlong_cons hnext, ih hrest,
        List.append_assoc, List.singleton_append]

/-- A scope that a path adds belongs to a node before its end. -/
theorem site_of_mem_scopesAlong {stack : Stack} {here path : Path} {t : Tree}
    {scope : Path × List String} (h : scope ∈ scopesAlong stack here t path) :
    scope ∈ stack ∨ ∃ before after, path = before ++ after ∧ after ≠ [] ∧
      scope.1 = here ++ before := by
  induction path generalizing t stack here with
  | nil => exact .inl h
  | cons step rest ih =>
      cases hnext : t.branch? step with
      | none =>
          rw [scopesAlong, hnext] at h
          exact .inl h
      | some value =>
          rw [scopesAlong_cons hnext] at h
          rcases ih h with hmem | ⟨before, after, rfl, hafter, hsite⟩
          · rw [scopesBelow] at hmem
            split at hmem
            · rcases List.mem_cons.1 hmem with rfl | hmem
              · exact .inr ⟨[], step :: rest, rfl, by simp, (List.append_nil _).symm⟩
              · exact .inl hmem
            · exact .inl hmem
          · refine .inr ⟨step :: before, after, rfl, hafter, ?_⟩
            rw [hsite, List.append_assoc, List.singleton_append]

/-! ## The events agree -/

section Node

variable {kind : String} {fields : List (String × Tree)} {stack : Stack}

theorem scopesBelow_outer {b : Step × Tree} (hb : b ∈ outerBranches kind fields) (here : Path) :
    scopesBelow (.node kind fields) here b.1 stack = stack := by
  obtain ⟨field, hfield, hb⟩ := List.mem_flatMap.1 hb
  have houter := (List.mem_filter.1 hfield).2
  rw [← placed_field hb, List.contains_iff_mem] at houter
  simp [scopesBelow, kind?, houter]

theorem not_outer_of_inner {b : Step × Tree} (hb : b ∈ innerBranches kind fields) :
    b.1.field ∉ outerKeys kind := by
  obtain ⟨field, hfield, hb⟩ := List.mem_flatMap.1 hb
  have hinner := (List.mem_filter.1 hfield).2
  rw [← placed_field hb] at hinner
  simpa using hinner

/-- A mention among the events of branches stands in one of them. -/
theorem mem_contexts_branchEvents (h : (Tree.node kind fields).isFormed = true) (here : Path)
    {bs : List (Step × Tree)} (hsub : ∀ b ∈ bs, b ∈ placedIn fields) {m : Mention}
    (hm : m ∈ contexts stack (branchEvents (.node kind fields) here bs)) :
    ∃ b ∈ bs, b.2.isNode = true ∧
      m ∈ contexts stack (eventsAt (spotAt (.node kind fields) here b.1) b.2) := by
  induction bs with
  | nil => exact absurd hm List.not_mem_nil
  | cons b rest ih =>
      have hb := hsub b List.mem_cons_self
      have hrest := fun hm => ih (fun b' hb' => hsub b' (List.mem_cons_of_mem _ hb')) hm
      rw [branchEvents, List.flatMap_cons] at hm
      cases hnode : b.2.isNode with
      | true =>
          have hnested := nested_eventsAt (isFormed_branch h hb) hnode
            (kind_ne_program (isFormed_node.1 h).1 hb) (spotAt (.node kind fields) here b.1)
          rw [contexts_append hnested] at hm
          rcases List.mem_append.1 hm with hm | hm
          · exact ⟨b, List.mem_cons_self, hnode, hm⟩
          · obtain ⟨b', hb', hm'⟩ := hrest hm
            exact ⟨b', List.mem_cons_of_mem _ hb', hm'⟩
      | false =>
          rw [eventsAt_of_not_node h hb hnode, List.nil_append] at hm
          obtain ⟨b', hb', hm'⟩ := hrest hm
          exact ⟨b', List.mem_cons_of_mem _ hb', hm'⟩

/-- Inside the scope of a node, if it has one, that scope is open too. -/
theorem mem_contexts_inScope (h : (Tree.node kind fields).isFormed = true) (here : Path)
    {m : Mention} (hm : m ∈ contexts stack (inScope (.node kind fields) here
      (branchEvents (.node kind fields) here (innerBranches kind fields)))) :
    ∃ b ∈ innerBranches kind fields, b.2.isNode = true ∧
      m ∈ contexts (scopesBelow (.node kind fields) here b.1 stack)
        (eventsAt (spotAt (.node kind fields) here b.1) b.2) := by
  have hsub : ∀ b ∈ innerBranches kind fields, b ∈ placedIn fields :=
    fun b => mem_of_inner (isFormed_node.1 h).1
  rcases inScope_eq h here (branchEvents (.node kind fields) here (innerBranches kind fields))
    with ⟨hkind, heq⟩ | ⟨hkind, names, hnames, heq⟩
  · rw [heq] at hm
    obtain ⟨b, hb, hnode, hm⟩ := mem_contexts_branchEvents h here hsub hm
    refine ⟨b, hb, hnode, ?_⟩
    have hbelow : scopesBelow (.node kind fields) here b.1 stack = stack := by
      simp [scopesBelow, isAny, kind?, hkind]
    rwa [hbelow]
  · rw [heq, contexts_scope (nested_branchEvents h here hsub)] at hm
    obtain ⟨b, hb, hnode, hm⟩ := mem_contexts_branchEvents h here hsub hm
    refine ⟨b, hb, hnode, ?_⟩
    have hbelow : scopesBelow (.node kind fields) here b.1 stack = (here, names) :: stack := by
      simp [scopesBelow, isAny, kind?, hkind, not_outer_of_inner hb, hnames, Except.toOption]
    rwa [hbelow]

end Node

/-- The scopes open around a mention are those along its path. -/
theorem contexts_eventsAt {t : Tree} (h : t.isFormed = true) (hnode : t.isNode = true)
    (hprogram : t.kind? ≠ some "Program") {spot : Spot} {stack : Stack} {m : Mention}
    (hm : m ∈ contexts stack (eventsAt spot t)) :
    ∃ path, m.path = spot.path ++ path ∧ m.stack = scopesAlong stack spot.path t path := by
  induction t using branch_induction generalizing spot stack with
  | step t ih =>
      cases t with
      | node kind fields =>
          have hlaid := (isFormed_node.1 h).1
          -- a mention below a branch, in the scopes that are open there
          have hbranch : ∀ b ∈ placedIn fields, b.2.isNode = true →
              m ∈ contexts (scopesBelow (.node kind fields) spot.path b.1 stack)
                (eventsAt (spotAt (.node kind fields) spot.path b.1) b.2) →
              ∃ path, m.path = spot.path ++ path ∧
                m.stack = scopesAlong stack spot.path (.node kind fields) path := by
            intro b hb hnode hm
            obtain ⟨path, hpath, hstack⟩ :=
              ih b hb (isFormed_branch h hb) hnode (kind_ne_program hlaid hb) hm
            refine ⟨b.1 :: path, ?_, ?_⟩
            · rw [hpath, spotAt, List.append_assoc, List.singleton_append]
            · rw [hstack, scopesAlong_cons (branch?_of_mem hlaid hb), spotAt]
          by_cases hkind : kind = "Identifier"
          · subst hkind
            obtain ⟨name, rfl⟩ := fields_of_identifier hlaid
            rw [eventsAt_identifier] at hm
            split at hm
            · rw [List.mem_singleton.1 hm]
              exact ⟨[], (List.append_nil _).symm, rfl⟩
            · exact absurd hm List.not_mem_nil
          · have houter : ∀ b ∈ outerBranches kind fields, b ∈ placedIn fields :=
              fun b => mem_of_outer hlaid
            rw [eventsAt_node h hkind fun heq => hprogram (by rw [heq]; rfl),
              contexts_append (nested_branchEvents h spot.path houter)] at hm
            rcases List.mem_append.1 hm with hm | hm
            · obtain ⟨b, hb, hb', hm⟩ := mem_contexts_branchEvents h spot.path houter hm
              refine hbranch b (houter b hb) hb' ?_
              rwa [scopesBelow_outer hb]
            · obtain ⟨b, hb, hb', hm⟩ := mem_contexts_inScope h spot.path hm
              exact hbranch b (mem_of_inner hlaid hb) hb' hm
      | _ => cases hnode

/-- **The scopes open around a mention in a program** are that of the program and those along
the way to the mention. -/
theorem contexts_program {t : Tree} (h : t.isProgram = true) {names : List String}
    {body : List Event} (hregular : Regular t names body) {stack : Stack} {m : Mention}
    (hm : m ∈ contexts stack body) : m.stack = scopesAlong stack [] t m.path := by
  obtain ⟨fields, rfl, hformed⟩ := exists_fields_of_isProgram h
  have hlaid := (isFormed_node.1 hformed).1
  obtain ⟨_, -, hevents⟩ := events_program hformed
  obtain ⟨-, rfl⟩ := List.cons.inj (hregular.events_eq.symm.trans hevents)
  obtain ⟨b, hb, hnode, hm⟩ := mem_contexts_branchEvents hformed [] (fun b hb => hb) hm
  obtain ⟨path, hpath, hstack⟩ :=
    contexts_eventsAt (isFormed_branch hformed hb) hnode (kind_ne_program hlaid hb) hm
  have hbelow : scopesBelow (.node "Program" fields) [] b.1 stack = stack := rfl
  rw [hpath, hstack, spotAt, List.nil_append, List.singleton_append,
    scopesAlong_cons (branch?_of_mem hlaid hb), hbelow]
  rfl

/-- A run finds an occurrence in the innermost scope along its path that declares its name. -/
theorem Runs.referent_along {t : Tree} {res : Resolution} {dry real : Walk}
    (h : Runs t res dry real) (hprogram : t.isProgram = true) :
    ∃ names, ∀ o ∈ t.occurrences, ∀ r, (o.1, r) ∈ real.referents ↔
      r = meaning (scopesAlong [([], names)] [] t o.1) o.2 := by
  obtain ⟨names, body, hregular, hreferents⟩ := h.referents_eq
  refine ⟨names, fun o ho r => ?_⟩
  rw [← h.alike.referents]
  obtain ⟨m, hm, hmention⟩ : ∃ m ∈ contexts [([], names)] body, (m.path, m.name) = o := by
    rw [← hregular.mentions_eq, ← contexts_mentions [([], names)]] at ho
    exact List.mem_map.1 ho
  obtain rfl := hmention
  have hmean : (m.path, meaning (scopesAlong [([], names)] [] t m.path) m.name) ∈
      dry.referents := by
    rw [hreferents, ← contexts_program hprogram hregular hm]
    exact List.mem_map.2 ⟨m, hm, rfl⟩
  have hnodup : (dry.referents.map Prod.fst).Nodup := by
    rw [h.referents_paths]
    exact occurrences_paths_nodup (isFormed_of_isProgram hprogram)
  refine ⟨fun hr => ?_, fun hr => hr ▸ hmean⟩
  exact congrArg Prod.snd (List.inj_on_of_nodup_map hnodup hr hmean rfl)

end NameRecovery.Scope
