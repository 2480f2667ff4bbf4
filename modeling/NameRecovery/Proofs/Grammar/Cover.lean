import NameRecovery.Grammar.Cover
import NameRecovery.Proofs.Grammar.Yields
import NameRecovery.Proofs.Tree.Formed

/-!
# Patterns read as expressions are formed

* `asPattern_isA` — the pattern an expression stands for is formed;
* `coverParameters_yields` — so are the parameters an expression stands for.
-/

namespace NameRecovery.Grammar

open Source NameRecovery.Tree

/-! ## Patterns -/

/-- The pattern for an element of an array or a property of an object. -/
def patternOfItem : Tree → Tree
  | .node "Property" fields => .node "Property" (asPatternIn "value" fields)
  | t => asPattern t

theorem asPatternItems_eq (items : List Tree) : asPatternItems items = items.map patternOfItem := by
  induction items with
  | nil => simp [asPatternItems]
  | cons item rest ih =>
      rw [List.map_cons, ← ih]
      by_cases hitem : ∃ fields, item = .node "Property" fields
      · obtain ⟨fields, rfl⟩ := hitem
        rw [asPatternItems, patternOfItem]
      · have hother : ∀ fields, item = .node "Property" fields → False :=
          fun fields heq => hitem ⟨fields, heq⟩
        rw [asPatternItems, patternOfItem]
        · exact hother
        · exact hother

theorem asPatternIn_node {key : String} {rest : List (String × Tree)} {kinds : List String}
    {t : Tree} (h : IsA kinds t) :
    asPatternIn key ((key, t) :: rest) = (key, asPattern t) :: asPatternIn key rest := by
  obtain ⟨kind, fields, rfl, -⟩ := isAny_iff.1 h.1
  simp [asPatternIn]

theorem asPatternIn_nil (key : String) : asPatternIn key [] = [] := by
  simp [asPatternIn]

theorem asPatternIn_list (key : String) (items : List Tree) (rest : List (String × Tree)) :
    asPatternIn key ((key, .list items) :: rest) =
      (key, .list (items.map patternOfItem)) :: asPatternIn key rest := by
  simp [asPatternIn, asPatternItems_eq]

theorem asPatternIn_other {key k : String} (hk : k ≠ key) (t : Tree)
    (rest : List (String × Tree)) :
    asPatternIn key ((k, t) :: rest) = (k, t) :: asPatternIn key rest := by
  cases t <;> simp [asPatternIn, hk]

/-- Formed expressions and properties stand for formed patterns. -/
structure Patterned (t : Tree) : Prop where
  /-- The pattern an expression stands for is formed. -/
  expression : IsA expressionKinds t → IsA expressionKinds (asPattern t)
  /-- So is the one a property stands for. -/
  property : IsA propertyKinds t → IsA propertyKinds (patternOfItem t)

section Kinds

variable {fields : List (String × Tree)}

theorem asPattern_spread {kinds : List String} (hkind : "RestElement" ∈ kinds)
    (h : (Tree.node "SpreadElement" fields).isFormed = true)
    (ih : ∀ b ∈ (Tree.node "SpreadElement" fields).branches, Patterned b.2) :
    IsA kinds (.node "RestElement" (asPatternIn "argument" fields)) := by
  obtain _ | ⟨hargument, ⟨⟩⟩ := filled_of_isFormed h rfl
  have hpattern :=
    (of_branches_field ih "argument" (by simp) hargument.isA.isNode).expression hargument
  rw [asPatternIn_node hargument, asPatternIn_nil]
  exact isA_node ⟨hkind, by repeat constructor⟩ (.cons hpattern.one .nil)

theorem asPattern_assignment (h : (Tree.node "AssignmentExpression" fields).isFormed = true)
    (ih : ∀ b ∈ (Tree.node "AssignmentExpression" fields).branches, Patterned b.2) :
    IsA expressionKinds (.node "AssignmentPattern"
      ((asPatternIn "left" fields).filter fun field => field.1 ≠ "operator")) := by
  obtain _ | ⟨hoperator, _ | ⟨hleft, _ | ⟨hright, ⟨⟩⟩⟩⟩ := filled_of_isFormed h rfl
  have hpattern := (of_branches_field ih "left" (by simp) hleft.isA.isNode).expression hleft
  rw [asPatternIn_other (by decide), asPatternIn_node hleft,
    asPatternIn_other (by decide), asPatternIn_nil]
  exact isA_node (by repeat constructor) (.cons hpattern.one (.cons hright .nil))

theorem patternOfItem_expression {t : Tree} (h : IsA expressionKinds t) :
    patternOfItem t = asPattern t := by
  obtain ⟨kind, fields, rfl, hkind⟩ := isAny_iff.1 h.1
  have hne : kind ≠ "Property" := by
    rintro rfl
    exact absurd hkind (by decide)
  rw [patternOfItem]
  rintro _ heq
  exact hne (Tree.node.inj heq).1

theorem asPattern_array (h : (Tree.node "ArrayExpression" fields).isFormed = true)
    (ih : ∀ b ∈ (Tree.node "ArrayExpression" fields).branches, Patterned b.2) :
    IsA expressionKinds (.node "ArrayPattern" (asPatternIn "elements" fields)) := by
  obtain _ | ⟨helements, ⟨⟩⟩ := filled_of_isFormed h rfl
  obtain ⟨items, rfl, -⟩ := accepts_sparse.1 helements.1
  rw [asPatternIn_list, asPatternIn_nil]
  refine isA_node (by repeat constructor) (.cons (holds_sparse_iff.2 fun t ht => ?_) .nil)
  obtain ⟨item, hitem, rfl⟩ := List.mem_map.1 ht
  rcases holds_sparse_iff.1 helements item hitem with rfl | hany
  · exact .inl (by simp [patternOfItem, asPattern])
  · rw [patternOfItem_expression hany]
    exact .inr ((of_branches_item ih List.mem_cons_self hitem).expression hany)

theorem asPattern_object (h : (Tree.node "ObjectExpression" fields).isFormed = true)
    (ih : ∀ b ∈ (Tree.node "ObjectExpression" fields).branches, Patterned b.2) :
    IsA expressionKinds (.node "ObjectPattern" (asPatternIn "properties" fields)) := by
  obtain _ | ⟨hproperties, ⟨⟩⟩ := filled_of_isFormed h rfl
  obtain ⟨items, rfl, -⟩ := accepts_many.1 hproperties.1
  rw [asPatternIn_list, asPatternIn_nil]
  refine isA_node (by repeat constructor) (.cons (holds_many_iff.2 fun t ht => ?_) .nil)
  obtain ⟨item, hitem, rfl⟩ := List.mem_map.1 ht
  exact (of_branches_item ih List.mem_cons_self hitem).property
    (holds_many_iff.1 hproperties item hitem)

theorem patternOfItem_property (h : (Tree.node "Property" fields).isFormed = true)
    (ih : ∀ b ∈ (Tree.node "Property" fields).branches, Patterned b.2) :
    IsA propertyKinds (.node "Property" (asPatternIn "value" fields)) := by
  obtain _ | ⟨hkey, _ | ⟨hcomputed, _ | ⟨hvalue, _ | ⟨hkind, _ | ⟨hmethod, _ | ⟨hshort, ⟨⟩⟩⟩⟩⟩⟩⟩ :=
    filled_of_isFormed h rfl
  have hpattern := (of_branches_field ih "value" (by simp) hvalue.isA.isNode).expression hvalue
  rw [asPatternIn_other (by decide), asPatternIn_other (by decide),
    asPatternIn_node hvalue, asPatternIn_other (by decide), asPatternIn_other (by decide),
    asPatternIn_other (by decide), asPatternIn_nil]
  exact isA_node (by repeat constructor) (.cons hkey (.cons hcomputed (.cons hpattern.one
    (.cons hkind (.cons hmethod (.cons hshort .nil))))))

end Kinds
theorem patterned (t : Tree) : Patterned t := by
  induction t using branch_induction with
  | step t ih =>
      constructor
      · intro h
        unfold asPattern
        split
        · exact asPattern_spread (by decide) h.2 ih
        · exact asPattern_array h.2 ih
        · exact asPattern_object h.2 ih
        · exact asPattern_assignment h.2 ih
        · exact h
      · intro h
        obtain ⟨kind, fields, rfl, hmem⟩ := isAny_iff.1 h.1
        simp only [propertyKinds, List.mem_cons, List.not_mem_nil, or_false] at hmem
        rcases hmem with rfl | rfl | rfl
        · exact patternOfItem_property h.2 ih
        · simp only [patternOfItem]
          exact asPattern_spread (by decide) h.2 ih
        · simp only [patternOfItem]
          exact h

/-- The pattern an expression stands for is formed. -/
theorem asPattern_isA {t : Tree} (h : IsA expressionKinds t) : IsA expressionKinds (asPattern t) :=
  (patterned t).expression h

/-! ## Parameters -/

/-- Are the parameters read so far formed? -/
def Parameters.Formed (ps : Parameters) : Prop :=
  ∀ t ∈ ps.params, IsA expressionKinds t

theorem Parameters.admit_params (strict : Bool) (ps : Parameters) (culprit : Option Token)
    (name : String) : params ( ps.admit strict culprit name) = ps.params := by
  unfold Parameters.admit
  dsimp only
  split_ifs <;> rfl

theorem Parameters.foldl_admit_params {ι : Type} (strict : Bool) (culprit : ι → Option Token)
    (name : ι → String) (names : List ι) (ps : Parameters) :
    (names.foldl (fun ps i => ps.admit strict (culprit i) (name i)) ps).params = ps.params := by
  induction names generalizing ps with
  | nil => rfl
  | cons i rest ih => rw [List.foldl_cons, ih, admit_params]

theorem Parameters.Formed.snoc {ps : Parameters} (h : ps.Formed) {params : List Tree}
    (hparams : params = ps.params) {t : Tree} (ht : IsA expressionKinds t) :
    ∀ t' ∈ params ++ [t], IsA expressionKinds t' := by
  intro t' ht'
  rcases List.mem_append.1 ht' with ht' | ht'
  · exact h t' (hparams ▸ ht')
  · rw [List.mem_singleton.1 ht']
    exact ht

theorem Parameters.Formed.admitPattern {ps : Parameters} (h : ps.Formed) (strict : Bool)
    {t : Tree} (ht : IsA expressionKinds t) : (ps.admitPattern strict t).Formed :=
  h.snoc (foldl_admit_params strict (fun _ => none) id _ ps) ht

theorem identifier_isA (name : String) : IsA ["Identifier"] (identifier name) :=
  isA_node (by repeat constructor) (.cons (holds_text name) .nil)

theorem identifier_isExpression (name : String) : IsA expressionKinds (identifier name) :=
  isA_node (by repeat constructor) (.cons (holds_text name) .nil)

theorem yieldDefault_yields {t : Tree} (h : IsA ["AssignmentPattern"] t) :
    Yields (yieldDefault t) (IsA expressionKinds) := by
  unfold yieldDefault
  refine .ite (fun _ => .whenWith fun _ => .pure ?_) fun _ => .pure (h.mono (by decide))
  have hleft := h.get_holds "left" (.one expressionKinds) (by decide) rfl
  exact isA_node (by repeat constructor)
    (.cons hleft (.cons (identifier_isExpression "yield").one .nil))

theorem coverParameter_yields (isAsync : Bool) {t : Tree} (h : IsA expressionKinds t) :
    Yields (coverParameter isAsync t) (IsA expressionKinds) := by
  unfold coverParameter
  refine .ite (fun hkind => yieldDefault_yields (isA_of_isKind h hkind)) fun _ => ?_
  exact .ite (fun _ => .skip fun token => unexpected_yields token) fun _ => .pure h

/-- The expressions that stand for parameters are formed. -/
theorem cover_formed {expr : Tree} (h : IsA expressionKinds expr) {exprs : List Tree}
    {isAsync : Bool}
    (hcover : (if expr.isKind "Identifier" then some ([expr], false)
      else if expr.isKind "ArrowParameterPlaceHolder" then
        match expr.get "params" with
        | .list params => some (params, expr.has "async")
        | _ => none
      else none) = some (exprs, isAsync)) : ∀ t ∈ exprs, IsA expressionKinds t := by
  split_ifs at hcover with hname harrow
  · obtain ⟨rfl, -⟩ := Prod.mk.inj (Option.some.inj hcover)
    intro t ht
    rw [List.mem_singleton.1 ht]
    exact h
  · have hparams :=
      (isA_of_isKind h harrow).get_holds "params" (.many expressionKinds) (by decide) rfl
    split at hcover
    · rename_i params heq
      obtain ⟨rfl, -⟩ := Prod.mk.inj (Option.some.inj hcover)
      rw [heq] at hparams
      exact holds_many_iff.1 hparams
    · cases hcover

/-- The parameters an expression stands for are formed. -/
theorem coverParameters_yields {expr : Tree} (h : IsA expressionKinds expr) :
    Yields (coverParameters expr) (OfSome Parameters.Formed) := by
  unfold coverParameters
  dsimp only
  split
  · exact .pure (ofSome_none _)
  · rename_i exprs isAsync hcover
    have hexprs := cover_formed h hcover
    refine .bind (forIn_yields (I := Parameters.Formed) (fun t ht ps hps => ?_) ?_) fun ps hps => ?_
    · refine .bind (coverParameter_yields isAsync (hexprs t ht)) fun param hparam => ?_
      exact .skip fun c => .pure (hps.admitPattern c.strict hparam)
    · exact fun t ht => absurd ht List.not_mem_nil
    · refine .skip fun c => .whenWith fun _ => .when fun _ => ?_
      exact .pure (ofSome_some hps)

end NameRecovery.Grammar
