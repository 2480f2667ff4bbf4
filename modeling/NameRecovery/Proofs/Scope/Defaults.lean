import NameRecovery.Proofs.Scope.Enclosing
import NameRecovery.Proofs.Scope.Reanalysis

/-!
# Names in parameter lists

The value a parameter has by default is computed before the body of the function starts, so
it cannot mean a variable of the body.  The resolver keeps the parameters and the `var` names
of the body in one frame all the same.  A name in the parameter list that the parameters do
not bind is therefore found outside the function exactly if the body does not declare it, and
is taken for the variable of the body if it does.

* `InParameters` — does a path lead into the parameter list of a function?
* `scopesAlong_parameters` — the scopes open there are that of the function and those around;
* `resolve_default_iff` — where a name is found that the parameters do not bind;
* `resolve_captures_default` — a default that is taken for a variable of the body.
-/

namespace NameRecovery.Scope

open NameRecovery.Tree

/-! ## Values without scopes -/

/-- The kinds of nodes in the values of a parameter list, functions and what is in them
apart. -/
def valueKinds : List String :=
  expressionKinds ++ propertyKinds ++ ["ClassBody", "MethodDefinition", "TemplateElement"]

theorem schema_values : ∀ entry ∈ schema, entry.1 ∈ valueKinds → entry.1 ∉ functionKinds →
    ∀ field ∈ entry.2, ∀ kind ∈ field.2.kinds, kind ∈ valueKinds := by
  decide +kernel

theorem schema_params : ∀ entry ∈ schema, entry.1 ∈ functionKinds →
    ∀ field ∈ entry.2, field.1 = "params" → ∀ kind ∈ field.2.kinds, kind ∈ valueKinds := by
  decide +kernel

/-- Functions are the only values with a scope. -/
theorem function_of_scope : ∀ kind ∈ valueKinds, kind ∈ scopeKinds → kind ∈ functionKinds := by
  decide +kernel

/-- Is the value of one of the kinds, if it is a node? -/
def IsValue (t : Tree) : Prop :=
  t.isNode = true → t.isAny valueKinds = true

/-- What stands in a field for values is one. -/
theorem isValue_branch {kind : String} {fields : List (String × Tree)}
    (h : isLaidOut kind fields = true) {step : Step}
    (hfield : ∀ layout, (kind, layout) ∈ schema → ∀ field ∈ layout, field.1 = step.field →
      ∀ k ∈ field.2.kinds, k ∈ valueKinds) {value : Tree}
    (hvalue : (Tree.node kind fields).branch? step = some value) : IsValue value := by
  intro hnode
  obtain ⟨layout, hmem, hfits⟩ := isLaidOut_iff.1 h
  obtain ⟨field, hin, hkey, hany⟩ :=
    isAny_of_branch hfits (mem_branches_of_branch? hvalue) hnode
  obtain ⟨k, fields', rfl, hk⟩ := isAny_iff.1 hany
  exact isAny_iff.2 ⟨k, fields', rfl, hfield layout hmem field hin hkey k hk⟩

/-- A value opens no scope on a way that meets no function. -/
theorem scopesAlong_value {t : Tree} (h : t.isFormed = true) (hvalue : IsValue t) {path : Path}
    (hno : ∀ before value, before <+: path → t.at? before = some value →
      value.isAny functionKinds = false) (stack : Stack) (here : Path) :
    scopesAlong stack here t path = stack := by
  induction path generalizing t here with
  | nil => rfl
  | cons step rest ih =>
      cases hnext : t.branch? step with
      | none => rw [scopesAlong, hnext]
      | some value =>
          have hb := mem_branches_of_branch? hnext
          cases t with
          | node kind fields =>
              have hkind : kind ∈ valueKinds := by
                simpa [isAny, kind?] using hvalue rfl
              have hfunction : kind ∉ functionKinds := by
                simpa [isAny, kind?] using hno [] _ (List.nil_prefix) rfl
              have hscope : kind ∉ scopeKinds := fun hscope =>
                hfunction (function_of_scope kind hkind hscope)
              have hbelow : scopesBelow (.node kind fields) here step stack = stack := by
                simp [scopesBelow, isAny, kind?, hscope]
              have hvalue' : IsValue value :=
                isValue_branch (isFormed_node.1 h).1
                  (fun layout hmem field hin _ => schema_values _ hmem hkind hfunction field hin)
                  hnext
              rw [scopesAlong_cons hnext, hbelow]
              refine ih (isFormed_branch h hb) hvalue' (fun before value' hbefore hat => ?_) _
              exact hno (step :: before) value' ((List.prefix_cons_inj step).2 hbefore)
                (by rw [at?_cons hnext, hat])
          | _ => exact absurd hb List.not_mem_nil

/-! ## Parameter lists -/

/-- Does the path lead into the parameter list of the visited function, and not into a
function nested there? -/
def InParameters (t : Tree) (f : Visit) (path : Path) : Prop :=
  f.path <+: path ∧ ((path.drop f.path.length).head?.any fun step => step.field == "params") ∧
    ∀ g ∈ t.visits, g.node.isAny functionKinds = true → f.path <+: g.path → g.path <+: path →
      g.path = f.path

instance (t : Tree) (f : Visit) (path : Path) : Decidable (InParameters t f path) :=
  inferInstanceAs (Decidable (_ ∧ _ ∧ _))

theorem InParameters.exists_rest {t : Tree} {f : Visit} {path : Path}
    (h : InParameters t f path) :
    ∃ index rest, path = f.path ++ ⟨"params", index⟩ :: rest := by
  obtain ⟨⟨tail, rfl⟩, hhead, -⟩ := h
  rw [List.drop_left] at hhead
  cases tail with
  | nil => cases hhead
  | cons step rest =>
      obtain ⟨field, index⟩ := step
      obtain rfl : field = "params" := by simpa using hhead
      exact ⟨index, rest, rfl⟩

/-- The names in the scope of a function. -/
theorem scopeNames_function {kind : String} {fields : List (String × Tree)}
    (h : (Tree.node kind fields).isFormed = true) (hfunction : kind ∈ functionKinds) :
    ∃ own params vars, selfNames (.node kind fields) = .ok own ∧
      paramNames (.node kind fields) = .ok params ∧ bodyNames (.node kind fields) = .ok vars ∧
      scopeNames (.node kind fields) = .ok (own ++ params ++ vars) := by
  obtain ⟨names, hnames, -⟩ := (functionNames_natural h hfunction true).read_eq
  have hscope : scopeNames (.node kind fields) = functionNames (.node kind fields) := by
    simp only [scopeNames, scopeNames?, kind?, List.contains_iff_mem.2 hfunction, if_true,
      Option.getD_some]
  rw [hscope, hnames]
  rw [functionNames_eq] at hnames
  cases hown : selfNames (.node kind fields) with
  | error e => rw [hown] at hnames; cases hnames
  | ok own =>
      cases hparams : paramNames (.node kind fields) with
      | error e => rw [hown, hparams] at hnames; cases hnames
      | ok params =>
          cases hvars : bodyNames (.node kind fields) with
          | error e => rw [hown, hparams, hvars] at hnames; cases hnames
          | ok vars =>
              rw [hown, hparams, hvars] at hnames
              exact ⟨own, params, vars, rfl, rfl, rfl, hnames.symm⟩

/-- The scopes open in the parameter list of a function are that of the function and those
around it. -/
theorem scopesAlong_parameters {t : Tree} (h : t.isFormed = true) {f : Visit}
    (hf : f ∈ t.visits) (hfunction : f.node.isAny functionKinds = true) {path : Path}
    (hpath : InParameters t f path) (hat : (t.at? path).isSome = true) (stack : Stack) :
    scopesAlong stack [] t path =
      (f.path, (scopeNames f.node).toOption.getD []) :: scopesAlong stack [] t f.path := by
  obtain ⟨index, rest, rfl⟩ := hpath.exists_rest
  obtain ⟨-, -, hinnermost⟩ := hpath
  obtain ⟨path, hpath, hnode⟩ := at?_of_visit h hf
  obtain rfl : f.path = path := hpath
  rw [at?_append, hnode, Option.bind_some] at hat
  cases hnext : f.node.branch? ⟨"params", index⟩ with
  | none => rw [at?, hnext] at hat; cases hat
  | some value =>
      obtain ⟨kind, fields, hkindOf, hkind⟩ := isAny_iff.1 hfunction
      have hformed := isFormed_visit h ⟨none, none, []⟩ f hf
      rw [hkindOf] at hnext hnode hformed ⊢
      have hscope : kind ∈ scopeKinds := List.mem_append_left _ hkind
      have houter : "params" ∉ outerKeys kind := by
        simp only [functionKinds, List.mem_cons, List.not_mem_nil, or_false] at hkind
        rcases hkind with rfl | rfl | rfl <;> decide
      have hbelow : ∀ stack, scopesBelow (.node kind fields) f.path ⟨"params", index⟩ stack =
          (f.path, (scopeNames (.node kind fields)).toOption.getD []) :: stack := by
        intro stack
        simp [scopesBelow, isAny, kind?, hscope, houter]
      have hvalue : IsValue value :=
        isValue_branch (isFormed_node.1 hformed).1
          (fun layout hmem field hin hkey => schema_params _ hmem hkind field hin hkey) hnext
      rw [scopesAlong_append hnode, scopesAlong_cons hnext, List.nil_append, hbelow]
      refine scopesAlong_value (isFormed_branch hformed (mem_branches_of_branch? hnext)) hvalue
        (fun before inner hbefore hinner => ?_) _ _
      -- a function on the way would be nested in the parameter list
      cases hany : inner.isAny functionKinds with
      | false => rfl
      | true =>
          have hreach : t.at? (f.path ++ ⟨"params", index⟩ :: before) = some inner := by
            rw [at?_append, hnode, Option.bind_some, at?_cons hnext, hinner]
          obtain ⟨g, hg, hgpath, rfl⟩ :=
            visit_of_at? h hreach (isNode_of_isAny hany) ⟨none, none, []⟩
          rw [List.nil_append] at hgpath
          have heq := hinnermost g hg hany (by rw [hgpath]; exact List.prefix_append ..)
            (by
              rw [hgpath]
              exact (List.prefix_append_right_inj _).2 ((List.prefix_cons_inj _).2 hbefore))
          rw [hgpath] at heq
          simp at heq

/-! ## Names that the parameters do not bind -/

/-- Is it free, or the binding of a scope around the node at the path? -/
def Referent.IsOutside (path : Path) : Referent → Prop
  | .bound scope _ => scope <+: path ∧ scope ≠ path
  | .free _ => True

theorem meaning_cons (scope : Path × List String) (stack : Stack) (name : String) :
    meaning (scope :: stack) name =
      if name ∈ scope.2 then .bound scope.1 name else meaning stack name := by
  rw [meaning, List.find?_cons]
  by_cases hmem : name ∈ scope.2
  · rw [List.contains_iff_mem.2 hmem, if_pos hmem]
  · have hcontains : scope.2.contains name = false := by simpa using hmem
    rw [hcontains, if_neg hmem, meaning]

/-- What is found along the way to a node is outside of it. -/
theorem meaning_isOutside (names : List String) (t : Tree) {path : Path} (hpath : path ≠ [])
    (name : String) : (meaning (scopesAlong [([], names)] [] t path) name).IsOutside path := by
  cases hmeaning : meaning (scopesAlong [([], names)] [] t path) name with
  | free _ => trivial
  | bound s _ =>
      obtain ⟨-, inner, declared, outer, hstack, -, -⟩ := meaning_eq_bound.1 hmeaning
      have hmem : (s, declared) ∈ scopesAlong [([], names)] [] t path := by
        rw [hstack]
        simp
      rcases site_of_mem_scopesAlong hmem with hroot | ⟨before, after, rfl, hafter, hsite⟩
      · obtain ⟨rfl, -⟩ := Prod.mk.inj (List.mem_singleton.1 hroot)
        exact ⟨List.nil_prefix, Ne.symm hpath⟩
      · obtain rfl : s = before := hsite
        exact ⟨List.prefix_append .., by simpa using hafter⟩

/-- What resolving the program `t` does with the names in its parameter lists. -/
structure DefaultsResolved (t : Tree) (res : Resolution) (real : Walk) : Prop where
  /-- Resolving the program succeeds. -/
  resolved : resolve t = .ok res
  /-- The run finds what every occurrence means. -/
  real_walk : walkThrough t res.globals false = .ok real
  /-- A name in the parameter list of a function, that neither the parameters bind nor the
  function itself has, means a binding around the function or is free, exactly if the body
  declares no variable of this name.  Otherwise it means that variable, and gets its name. -/
  found : ∀ f ∈ t.visits, f.node.isAny functionKinds = true →
    ∃ own params vars, selfNames f.node = .ok own ∧ paramNames f.node = .ok params ∧
      bodyNames f.node = .ok vars ∧
      ∀ o ∈ t.occurrences, InParameters t f o.1 → o.2 ∉ own → o.2 ∉ params →
        ∃ r, (∀ r', (o.1, r') ∈ real.referents ↔ r' = r) ∧
          (r.IsOutside f.path ↔ o.2 ∉ vars) ∧
          (o.2 ∈ vars → r = .bound f.path o.2 ∧
            ∃ new, real.filled.Gives f.path o.2 new ∧ (o.1, new) ∈ res.tree.occurrences)

theorem at?_occurrence {t : Tree} (h : t.isFormed = true) {o : Path × String}
    (ho : o ∈ t.occurrences) : (t.at? o.1).isSome = true := by
  obtain ⟨v, hv, hocc⟩ := List.mem_filterMap.1 ho
  obtain ⟨path, hpath, hat⟩ := at?_of_visit h hv
  rw [List.nil_append] at hpath
  rw [(occurrence?_path hocc).1, hpath, hat]
  rfl

theorem path_ne_nil_of_function {t : Tree} (h : t.isProgram = true) {f : Visit}
    (hf : f ∈ t.visits) (hfunction : f.node.isAny functionKinds = true) : f.path ≠ [] := by
  obtain ⟨path, hpath, hat⟩ := at?_of_visit (isFormed_of_isProgram h) hf
  obtain rfl : f.path = path := hpath
  intro hnil
  obtain ⟨fields, rfl, -⟩ := exists_fields_of_isProgram h
  rw [hnil] at hat
  rw [← Option.some.inj hat] at hfunction
  simp [isAny, kind?, functionKinds] at hfunction

/-- **Parameter lists see the variables of the body.**  For every program that is accepted, a
name in a parameter list that is not bound there is found outside the function exactly if the
body of the function declares no variable of this name. -/
theorem resolve_default_iff {goal : Grammar.Goal} {source : String} {t : Tree}
    (h : Grammar.parse goal source = .ok t) : ∃ res real, DefaultsResolved t res real := by
  have hprogram := Grammar.isProgram_of_parse h
  have hformed := isFormed_of_isProgram hprogram
  obtain ⟨res, dry, real, hruns⟩ := runs_program hprogram
  obtain ⟨names, halong⟩ := hruns.referent_along hprogram
  refine ⟨res, real, hruns.resolved, hruns.real_walk, fun f hf hfunction => ?_⟩
  obtain ⟨kind, fields, hnode, hkind⟩ := isAny_iff.1 hfunction
  obtain ⟨own, params, vars, hown, hparams, hvars, hscope⟩ :=
    scopeNames_function (hnode ▸ isFormed_visit hformed _ f hf) hkind
  rw [← hnode] at hown hparams hvars hscope
  refine ⟨own, params, vars, hown, hparams, hvars, fun o ho hin hnotOwn hnotParam => ?_⟩
  have hreferent := halong o ho
  rw [scopesAlong_parameters hformed hf hfunction hin (at?_occurrence hformed ho), hscope,
    meaning_cons] at hreferent
  have hmem : o.2 ∈ own ++ params ++ vars ↔ o.2 ∈ vars := by simp [hnotOwn, hnotParam]
  simp only [Except.toOption, Option.getD_some, hmem] at hreferent
  refine ⟨_, hreferent, ?_⟩
  by_cases hvar : o.2 ∈ vars
  · rw [if_pos hvar]
    refine ⟨⟨fun hout => absurd rfl hout.2, fun hno => absurd hvar hno⟩, fun _ => ⟨rfl, ?_⟩⟩
    have hbound : (o.1, .bound f.path o.2) ∈ dry.referents := by
      rw [hruns.alike.referents]
      exact (hreferent _).2 (if_pos hvar).symm
    obtain ⟨o', ho', hplace⟩ : ∃ o' ∈ res.tree.occurrences, o'.1 = o.1 := by
      have hpaths : o.1 ∈ res.tree.occurrences.map Prod.fst := by
        rw [hruns.tree_eq_respell hformed, occurrences_respell hformed, List.map_map]
        exact List.mem_map_of_mem ho
      exact List.mem_map.1 hpaths
    rcases hruns.spelled hformed ho' (hplace ▸ hbound) with ⟨s, n, heq, hgives⟩ | ⟨heq, -⟩
    · obtain ⟨rfl, rfl⟩ := Referent.bound.inj heq
      exact ⟨o'.2, hgives, hplace ▸ ho'⟩
    · cases heq
  · rw [if_neg hvar]
    refine ⟨⟨fun _ => hvar, fun _ => ?_⟩, fun hin => absurd hin hvar⟩
    exact meaning_isOutside names t (path_ne_nil_of_function hprogram hf hfunction) o.2

set_option maxRecDepth 100000 in
/-- A default that means a variable around the function. -/
theorem resolve_default_outer :
    ∃ t, Grammar.parse .script "var x = 1; function f(a = x) { var b = a; return b }" = .ok t ∧
      ∃ res real, DefaultsResolved t res real := by
  have hok : (Grammar.parse .script
      "var x = 1; function f(a = x) { var b = a; return b }").toOption.isSome = true := by
    decide +kernel
  cases hparse : Grammar.parse .script "var x = 1; function f(a = x) { var b = a; return b }" with
  | error e => rw [hparse] at hok; cases hok
  | ok t => exact ⟨t, rfl, resolve_default_iff hparse⟩

set_option maxRecDepth 100000 in
/-- A default that means a variable around the function, and is taken for one of the body: the
parameter is `a` only, and yet the name is found in the scope of the function itself. -/
theorem resolve_captures_default :
    ∃ t res real, Grammar.parse .script "var x = 1; function f(a = x) { var x; }" = .ok t ∧
      resolve t = .ok res ∧ walkThrough t res.globals false = .ok real ∧
      ∃ f ∈ t.visits, f.node.isAny functionKinds = true ∧ f.path = [⟨"body", 1⟩] ∧
        selfNames f.node = .ok [] ∧ paramNames f.node = .ok ["a"] ∧
        InParameters t f [⟨"body", 1⟩, ⟨"params", 0⟩, ⟨"right", 0⟩] ∧
        ([⟨"body", 1⟩, ⟨"params", 0⟩, ⟨"right", 0⟩], "x") ∈ t.occurrences ∧
        ([⟨"body", 1⟩, ⟨"params", 0⟩, ⟨"right", 0⟩], .bound [⟨"body", 1⟩] "x") ∈ real.referents ∧
        ([⟨"body", 1⟩, ⟨"params", 0⟩, ⟨"right", 0⟩], "x1") ∈ res.tree.occurrences := by
  have hrun : ((Grammar.parse .script
      "var x = 1; function f(a = x) { var x; }").toOption.bind fun t =>
        (resolve t).toOption.bind fun res => (walkThrough t res.globals false).toOption.map
          fun real => t.visits.any fun f => decide (f.node.isAny functionKinds = true ∧
            f.path = [⟨"body", 1⟩] ∧ (selfNames f.node).toOption = some [] ∧
            (paramNames f.node).toOption = some ["a"] ∧
            InParameters t f [⟨"body", 1⟩, ⟨"params", 0⟩, ⟨"right", 0⟩] ∧
            ([⟨"body", 1⟩, ⟨"params", 0⟩, ⟨"right", 0⟩], "x") ∈ t.occurrences ∧
            ([⟨"body", 1⟩, ⟨"params", 0⟩, ⟨"right", 0⟩], .bound [⟨"body", 1⟩] "x") ∈
              real.referents ∧
            ([⟨"body", 1⟩, ⟨"params", 0⟩, ⟨"right", 0⟩], "x1") ∈ res.tree.occurrences)) =
      some true := by
    decide +kernel
  obtain ⟨t, hparse, hrest⟩ := Option.bind_eq_some_iff.1 hrun
  obtain ⟨res, hres, hrest⟩ := Option.bind_eq_some_iff.1 hrest
  obtain ⟨real, hreal, hany⟩ := Option.map_eq_some_iff.1 hrest
  obtain ⟨f, hf, hfound⟩ := List.any_eq_true.1 hany
  obtain ⟨hfunction, hpath, hown, hparams, hplace⟩ := of_decide_eq_true hfound
  exact ⟨t, res, real, ok_of_toOption hparse, ok_of_toOption hres, ok_of_toOption hreal, f, hf,
    hfunction, hpath, ok_of_toOption hown, ok_of_toOption hparams, hplace⟩

end NameRecovery.Scope
