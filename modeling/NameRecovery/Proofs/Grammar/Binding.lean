import NameRecovery.Grammar.Program
import NameRecovery.Proofs.Grammar.Sequence
import NameRecovery.Proofs.Tree.Pattern

/-!
# Binding patterns of the grammar

Where the grammar asks for a pattern, it yields a pattern through and through.  Only the parameters
of arrow functions are read otherwise: as expressions first, of which some are no patterns.

* `Bindings` — the rule for patterns yields patterns;
* `pattern_binds` — it does if the patterns inside are read by such a rule;
* `rules_bindings` — so it does whatever the budget.
-/

namespace NameRecovery.Grammar

open Source NameRecovery.Tree

/-- Does the rule for patterns yield patterns? -/
def Bindings (rules : Rules) : Prop :=
  ∀ kind, Yields (rules.pattern kind) fun r => IsPattern r.1

variable {rules : Rules}

theorem isPattern_of_identifier {t : Tree} (h : IsA ["Identifier"] t) : IsPattern t := by
  obtain ⟨kind, fields, rfl, hkind⟩ := isAny_iff.1 h.1
  obtain rfl := List.mem_singleton.1 hkind
  obtain ⟨name, rfl⟩ := fields_of_identifier (isFormed_node.1 h.2).1
  exact .name name

theorem patternWithDefault_binds (h : Bindings rules) (kind : Option String) :
    Yields (patternWithDefault rules kind) fun r => IsPattern r.1 := by
  unfold patternWithDefault
  refine .bind (h kind) fun r hpattern => .skip fun _ => .ite (fun _ => ?_) fun _ => .pure hpattern
  exact .skip fun _ => .skip fun _ => .skip fun _ => .skip fun _ => .pure (.withDefault hpattern)

/-! ## Array patterns -/

theorem patternElements_bind (h : Bindings rules) (kind : Option String) (budget : Nat) :
    Yields (patternElements rules kind budget) fun r =>
      ∀ element ∈ r.1, element.isNull = false → IsPattern element := by
  induction budget with
  | zero => exact complain_yields _
  | succ budget ih =>
      unfold patternElements
      refine .skip fun _ => .ite (fun _ => .pure (List.forall_mem_nil _)) fun _ => .skip fun _ => ?_
      refine .ite (fun _ => ?_) fun _ => .skip fun _ => .ite (fun _ => ?_) fun _ => ?_
      · refine .bind ih fun rest hrest => .pure ?_
        exact List.forall_mem_cons.2 ⟨fun hhole => absurd hhole (by decide), hrest⟩
      · refine .bind (h kind) fun r hpattern => .pure ?_
        exact List.forall_mem_singleton.2 fun _ => .rest hpattern
      · refine .bind (patternWithDefault_binds h kind) fun r helement => .skip fun _ => ?_
        refine .when fun _ => .bind ih fun rest hrest => .pure ?_
        exact List.forall_mem_cons.2 ⟨fun _ => helement, hrest⟩

theorem arrayPattern_binds (h : Bindings rules) (kind : Option String) :
    Yields (arrayPattern rules kind) fun r => IsPattern r.1 := by
  unfold arrayPattern
  refine .skip fun _ => .bind (patternElements_bind h kind _) fun r helements => ?_
  exact .skip fun _ => .pure (.array helements)

/-! ## Object patterns -/

theorem propertyPattern_binds (h : Bindings rules) (kind : Option String) :
    Yields (propertyPattern rules kind) fun r => IsPattern r.1.target := by
  have htarget (key value : Tree) (computed shorthand : Bool) (hvalue : IsPattern value) :
      IsPattern (patternProperty key value computed shorthand).target := hvalue
  unfold propertyPattern
  refine .skip fun token => ?_
  split
  · rename_i text hlexeme
    refine .skip fun key => .skip fun _ => .ite (fun _ => ?_) fun _ => .skip fun _ => ?_
    · exact .skip fun right => .pure (htarget _ _ _ _ (.withDefault (.name text)))
    · refine .ite (fun _ => ?_) fun _ => .pure (htarget _ _ _ _ (.name text))
      exact .bind (patternWithDefault_binds h kind) fun r hvalue => .pure (htarget _ _ _ _ hvalue)
  · refine .skip fun _ => .skip fun _ => .skip fun _ => ?_
    exact .bind (patternWithDefault_binds h kind) fun r hvalue => .pure (htarget _ _ _ _ hvalue)

theorem restProperty_binds (h : Bindings rules) :
    Yields (restProperty rules) fun r => IsPattern r.1.target := by
  unfold restProperty
  refine .skip fun _ => .bind (h none) fun r hpattern => .skip fun _ => .when fun _ => ?_
  exact .skip fun _ => .when fun _ => .pure (.rest hpattern)

theorem objectPattern_binds (h : Bindings rules) (kind : Option String) :
    Yields (objectPattern rules kind) fun r => IsPattern r.1 := by
  unfold objectPattern
  refine .skip fun _ => .bind (collect_yields (P := fun r => IsPattern r.1.target) ?_ _) ?_
  · refine .skip fun _ => .ite (fun _ => .pure (ofSome_none _)) fun _ => .skip fun _ => ?_
    refine .branch (fun r => IsPattern r.1.target) (fun _ => restProperty_binds h)
      (fun _ => propertyPattern_binds h kind) fun r hproperty => ?_
    exact .skip fun _ => .when fun _ => .pure (ofSome_some hproperty)
  · exact fun properties hproperties => .skip fun _ =>
      .pure (.object (List.forall_mem_map.2 hproperties))

/-! ## Patterns -/

theorem pattern_binds (h : Bindings rules) (kind : Option String) :
    Yields (pattern rules kind) fun r => IsPattern r.1 := by
  unfold pattern
  refine .skip fun _ => .ite (fun _ => arrayPattern_binds h kind) fun _ => .skip fun _ => ?_
  refine .ite (fun _ => objectPattern_binds h kind) fun _ => .skip fun token => .when fun _ => ?_
  exact .bind (variableName_yields kind) fun name hname => .pure (isPattern_of_identifier hname)

/-- Whatever their budget, the rules yield patterns where they are asked for some. -/
theorem rules_bindings (budget : Nat) : Bindings (Grammar.rules budget) := by
  induction budget with
  | zero => exact fun _ => complain_yields _
  | succ budget ih => exact pattern_binds ih

end NameRecovery.Grammar
