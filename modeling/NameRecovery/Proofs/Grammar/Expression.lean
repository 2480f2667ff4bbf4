import NameRecovery.Grammar.Expression
import NameRecovery.Proofs.Grammar.Sequence

/-!
# Expressions are formed

* `objectLiteral_yields`, `classBy_yields` — object literals and classes;
* `primary_yields`, `callExpression_yields` — operands with accesses and calls;
* `assignment_yields` — expressions without commas.
-/

namespace NameRecovery.Grammar

open Source NameRecovery.Tree

variable {rules : Rules}

/-! ## Object literals -/

theorem propertyNode_isA (kind : String) {key value : Tree} (hkey : IsA expressionKinds key)
    (hvalue : IsA expressionKinds value) (computed method shorthand : Bool) :
    IsA propertyKinds (propertyNode kind key computed value method shorthand) :=
  isA_node (by repeat constructor) (.cons hkey.one (.cons (holds_flag _) (.cons hvalue.one
    (.cons (holds_text _) (.cons (holds_flag _) (.cons (holds_flag _) .nil))))))

theorem propertyHead_yields (h : rules.Formed) :
    Yields (propertyHead rules) fun head =>
      OfSome (fun key => IsA expressionKinds key.node) head.key := by
  unfold propertyHead
  refine .skip fun token => ?_
  split
  · rename_i text hlexeme
    refine .skip fun _ => .skip fun computed => .skip fun _ => .skip fun _ => ?_
    refine .branch (fun key => IsA expressionKinds key.node) (fun _ => propertyKey_yields h)
      (fun _ => .pure (identifier_isExpression text)) fun key hkey => .pure (ofSome_some hkey)
  · exact .skip fun _ => .pure (ofSome_none _)
  · refine .skip fun computed => .bind (propertyKey_yields h) fun key hkey => ?_
    exact .pure (ofSome_some hkey)

theorem method_isExpression {p : Parse Tree} (h : Yields p (IsA ["FunctionExpression"])) :
    Yields p (IsA expressionKinds) :=
  h.mono fun _ ht => ht.mono (by decide)

theorem plainProperty_yields (h : rules.Formed) (head : PropertyHead) {key : Key}
    (hkey : IsA expressionKinds key.node) (hasProto : Bool) :
    Yields (plainProperty rules head key hasProto) fun r => IsA propertyKinds r.1 := by
  unfold plainProperty
  refine .skip fun _ => .ite (fun _ => .when fun _ => .skip fun _ => ?_) fun _ => .skip fun _ => ?_
  · refine .bind h.assignment.inherited fun value hvalue => .pure ?_
    exact propertyNode_isA "init" hkey hvalue _ _ _
  · refine .ite (fun _ => ?_) fun _ => ?_
    · refine .branch (IsA expressionKinds) (fun _ => method_isExpression (asyncMethod_yields h))
        (fun _ => method_isExpression (plainMethod_yields h)) fun value hvalue => .pure ?_
      exact propertyNode_isA "init" hkey hvalue _ _ _
    · split
      · rename_i text hlexeme
        have hname := identifier_isExpression text
        refine .skip fun _ => .ite (fun _ => .skip fun equals => .skip fun _ => ?_) fun _ => ?_
        · refine .skip fun _ => .bind h.assignment.isolated fun right hright => .pure ?_
          refine propertyNode_isA "init" hkey ?_ _ _ _
          exact isA_node (by repeat constructor) (.cons hname.one (.cons hright.one .nil))
        · exact .pure (propertyNode_isA "init" hkey hname _ _ _)
      · exact .skip fun token => unexpected_yields token

theorem objectProperty_yields (h : rules.Formed) (hasProto : Bool) :
    Yields (objectProperty rules hasProto) fun r => IsA propertyKinds r.1 := by
  unfold objectProperty
  refine .bind (propertyHead_yields h) fun head hhead => .skip fun next => ?_
  have hmethod : ∀ kind computed method {p : Parse Tree} {key : Key},
      Yields p (IsA ["FunctionExpression"]) → IsA expressionKinds key.node →
      Yields (do return (propertyNode kind key.node computed (← p) method false, hasProto))
        fun r => IsA propertyKinds r.1 := fun kind computed method p key hp hkey =>
    .bind (method_isExpression hp) fun value hvalue => .pure (propertyNode_isA kind hkey hvalue _ _ _)
  refine .ite (fun _ => .skip fun computed => .bind (propertyKey_yields h) fun key hkey => ?_) ?_
  · exact .skip fun _ => hmethod "get" computed false (getterMethod_yields h) hkey
  · refine fun _ => .ite (fun _ => .skip fun computed => ?_) fun _ => .ite (fun _ => ?_) fun _ => ?_
    · exact .bind (propertyKey_yields h) fun key hkey =>
        hmethod "set" computed false (setterMethod_yields h) hkey
    · exact .skip fun computed => .bind (propertyKey_yields h) fun key hkey =>
        hmethod "init" computed true (generatorMethod_yields h) hkey
    · split
      · exact .skip fun token => unexpected_yields token
      · rename_i key hkey
        exact plainProperty_yields h head (hhead key hkey) hasProto

theorem objectProperties_yields (h : rules.Formed) (budget : Nat) (hasProto : Bool) :
    Yields (objectProperties rules budget hasProto) fun ts => ∀ t ∈ ts, IsA propertyKinds t := by
  induction budget generalizing hasProto with
  | zero => exact complain_yields _
  | succ budget ih =>
      unfold objectProperties
      refine .skip fun _ => .ite (fun _ => .pure nofun) fun _ => .skip fun _ => ?_
      extract_lets rest
      have hrest : ∀ r, IsA propertyKinds r.1 →
          Yields (rest r) fun ts => ∀ t ∈ ts, IsA propertyKinds t := by
        intro r hr
        refine .skip fun _ => .when fun _ => .bind (ih r.2) fun properties hproperties => .pure ?_
        exact List.forall_mem_cons.2 ⟨hr, hproperties⟩
      refine .ite (fun _ => ?_) fun _ => .bind (objectProperty_yields h hasProto) hrest
      refine .bind (spreadElement_yields h) fun element helement => ?_
      exact .bind (.pure (helement.mono (by decide))) hrest

theorem objectLiteral_yields (h : rules.Formed) :
    Yields (objectLiteral rules) (IsA expressionKinds) := by
  unfold objectLiteral
  refine .skip fun _ => .bind (objectProperties_yields h _ false) fun properties hproperties => ?_
  exact .skip fun _ =>
    .pure (isA_node (by repeat constructor) (.cons (holds_many_iff.2 hproperties) .nil))

/-! ## Classes -/

/-- Is the key of a class member, if it has been read, formed? -/
def MemberHead.Formed (head : MemberHead) : Prop :=
  OfSome (fun key => IsA expressionKinds key.node) head.key

theorem staticModifier_yields (h : rules.Formed) (head : MemberHead) {key : Key}
    (hkey : IsA expressionKinds key.node) :
    Yields (staticModifier rules head key) MemberHead.Formed := by
  unfold staticModifier
  refine .skip fun next => .ite (fun _ => .skip fun _ => .skip fun _ => ?_) fun _ => ?_
  · refine .ite (fun _ => .pure (ofSome_some hkey)) fun _ => ?_
    exact .bind (propertyKey_yields h) fun key hkey => .pure (ofSome_some hkey)
  · exact .pure (ofSome_some hkey)

theorem asyncModifier_yields (h : rules.Formed) {head : MemberHead} (hhead : head.Formed) :
    Yields (asyncModifier rules head) MemberHead.Formed := by
  unfold asyncModifier
  refine .skip fun next => .skip fun _ => .ite (fun _ => ?_) fun _ => .pure hhead
  exact .bind (propertyKey_yields h) fun key hkey => .when fun _ => .pure (ofSome_some hkey)

theorem memberHead_yields (h : rules.Formed) : Yields (memberHead rules) MemberHead.Formed := by
  unfold memberHead
  refine .skip fun token => .skip fun _ => .ite (fun _ => .pure (ofSome_none _)) fun _ => ?_
  refine .skip fun computed => .bind (propertyKey_yields h) fun key hkey => ?_
  exact .bind (staticModifier_yields h _ hkey) fun head hhead => asyncModifier_yields h hhead

/-- Are the key and the function of a class member formed? -/
def Member.Formed (member : Member) : Prop :=
  IsA expressionKinds member.key.node ∧ IsA ["FunctionExpression"] member.value

theorem memberRest_yields (h : rules.Formed) {head : MemberHead} (hhead : head.Formed) :
    Yields (memberRest rules head) Member.Formed := by
  unfold memberRest
  refine .skip fun next => .ite (fun _ => .skip fun computed => ?_) fun _ => ?_
  · refine .bind (propertyKey_yields h) fun key hkey => .skip fun _ => ?_
    exact .bind (getterMethod_yields h) fun value hvalue => .pure ⟨hkey, hvalue⟩
  · refine .ite (fun _ => .skip fun computed => ?_) fun _ => .ite (fun _ => ?_) fun _ => ?_
    · refine .bind (propertyKey_yields h) fun key hkey => ?_
      exact .bind (setterMethod_yields h) fun value hvalue => .pure ⟨hkey, hvalue⟩
    · refine .skip fun computed => .bind (propertyKey_yields h) fun key hkey => ?_
      exact .bind (generatorMethod_yields h) fun value hvalue => .pure ⟨hkey, hvalue⟩
    · split
      · rename_i key hkey
        refine .skip fun _ => .ite (fun _ => ?_) fun _ => .skip fun token => unexpected_yields token
        exact .branch (IsA ["FunctionExpression"]) (fun _ => asyncMethod_yields h)
          (fun _ => plainMethod_yields h) fun value hvalue => .pure ⟨hhead key hkey, hvalue⟩
      · exact .skip fun token => unexpected_yields token

theorem classMember_yields (h : rules.Formed) (hasConstructor : Bool) :
    Yields (classMember rules hasConstructor) fun r => IsA ["MethodDefinition"] r.1 := by
  unfold classMember
  refine .bind (memberHead_yields h) fun head hhead => ?_
  refine .bind (memberRest_yields h hhead) fun member hmember => .when fun _ => ?_
  have hnode : ∀ kind, IsA ["MethodDefinition"] (.node "MethodDefinition"
      [("key", member.key.node), ("computed", .bool member.computed), ("value", member.value),
        ("kind", .text kind), ("static", .bool head.isStatic)]) := fun kind =>
    isA_node (by repeat constructor) (.cons hmember.1.one (.cons (holds_flag _) (.cons hmember.2.one
      (.cons (holds_text kind) (.cons (holds_flag _) .nil)))))
  exact .ite (fun _ => .when fun _ => .when fun _ => .pure (hnode _)) fun _ => .pure (hnode _)

theorem classMembers_yields (h : rules.Formed) (budget : Nat) (hasConstructor : Bool) :
    Yields (classMembers rules budget hasConstructor) fun ts =>
      ∀ t ∈ ts, IsA ["MethodDefinition"] t := by
  induction budget generalizing hasConstructor with
  | zero => exact complain_yields _
  | succ budget ih =>
      unfold classMembers
      refine .skip fun _ => .ite (fun _ => .pure nofun) fun _ => .skip fun _ => ?_
      refine .ite (fun _ => ih hasConstructor) fun _ => ?_
      refine .bind (classMember_yields h hasConstructor) fun r hmember => ?_
      exact .bind (ih r.2) fun rest hrest => .pure (List.forall_mem_cons.2 ⟨hmember, hrest⟩)

theorem classRest_yields (h : rules.Formed) {kind : String} {id : Option Tree}
    (hkind : kind = "ClassDeclaration" ∨ kind = "ClassExpression")
    (hid : OfSome (IsA ["Identifier"]) id) : Yields (classRest rules kind id) (IsA [kind]) := by
  unfold classRest
  refine .skip fun _ => ?_
  extract_lets rest
  have hrest : ∀ superClass, IsElement expressionKinds superClass →
      Yields (rest superClass) (IsA [kind]) := by
    intro superClass hsuper
    refine .skip fun _ => .bind (classMembers_yields h _ false) fun members hmembers => ?_
    have hbody : IsA ["ClassBody"] (.node "ClassBody" [("body", .list members)]) :=
      isA_node (by repeat constructor) (.cons (holds_many_iff.2 hmembers) .nil)
    refine .skip fun _ => .pure ?_
    rcases hkind with rfl | rfl <;>
      exact isA_node (by repeat constructor) (.cons (optional_holds hid)
        (.cons (holds_maybe_iff.2 hsuper) (.cons hbody.one .nil)))
  refine .ite (fun _ => .skip fun _ => .bind ?_ hrest) fun _ => .bind (.pure (.inl rfl)) hrest
  exact h.call.isolated.mono fun _ => .inr

theorem classBy_yields (h : rules.Formed) {kind : String}
    (hkind : kind = "ClassDeclaration" ∨ kind = "ClassExpression") (nameOptional : Bool) :
    Yields (classBy rules kind nameOptional) (IsA [kind]) := by
  unfold classBy
  refine .skip fun c => .skip fun _ => .skip fun _ => .skip fun _ => ?_
  extract_lets rest
  have hrest : ∀ id, OfSome (IsA ["Identifier"]) id → Yields (rest id) (IsA [kind]) := by
    intro id hid
    exact .bind (classRest_yields h hkind hid) fun t ht => .skip fun _ => .pure ht
  refine .ite (fun _ => .bind (.pure (ofSome_none _)) hrest) fun _ => ?_
  exact .bind (variableName_yields none) fun id hid => .bind (.pure (ofSome_some hid)) hrest

/-! ## Parentheses -/

theorem arrowParameters_isA (isAsync : Bool) {params : List Tree}
    (h : ∀ t ∈ params, IsA expressionKinds t) :
    IsA expressionKinds (arrowParameters isAsync params) :=
  isA_node (by repeat constructor) (.cons (holds_many_iff.2 h) (.cons (holds_flag isAsync) .nil))

theorem map_asPattern {ts : List Tree} (h : ∀ t ∈ ts, IsA expressionKinds t) :
    ∀ t ∈ ts.map asPattern, IsA expressionKinds t := by
  intro t ht
  obtain ⟨expr, hexpr, rfl⟩ := List.mem_map.1 ht
  exact asPattern_isA (h expr hexpr)

theorem groupTail_yields (h : rules.Formed) (budget : Nat) {done : List Tree}
    (hdone : ∀ t ∈ done, IsA expressionKinds t) :
    Yields (groupTail rules budget done) fun r => ∀ t ∈ r.1, IsA expressionKinds t := by
  induction budget generalizing done with
  | zero => exact complain_yields _
  | succ budget ih =>
      have hsnoc : ∀ {t}, IsA expressionKinds t → ∀ t' ∈ done ++ [t], IsA expressionKinds t' :=
        fun ht => List.forall_mem_append.2 ⟨hdone, List.forall_mem_singleton.2 ht⟩
      unfold groupTail
      refine .skip fun _ => .ite (fun _ => .pure hdone) fun _ => .skip fun _ => .skip fun _ => ?_
      refine .ite (fun _ => .pure hdone) fun _ => .skip fun _ => .ite (fun _ => ?_) fun _ => ?_
      · refine .skip fun _ => .whenWith fun _ => .bind (restParameter_yields h) fun r hr => ?_
        exact .skip fun _ => .skip fun _ => .when fun _ => .skip fun _ => .pure (hsnoc hr)
      · exact .bind h.assignment.inherited fun expr hexpr => ih (hsnoc hexpr)

theorem groupEnd_yields {expr : Tree} (hexpr : IsA expressionKinds expr) {parts : List Tree}
    (hparts : ∀ t ∈ parts, IsA expressionKinds t) :
    Yields (groupEnd expr parts) (IsA expressionKinds) := by
  unfold groupEnd
  refine .skip fun _ => .skip fun _ => .ite (fun _ => .ite (fun _ => ?_) fun _ => ?_) fun _ => ?_
  · exact .skip fun _ => .pure (arrowParameters_isA false (List.forall_mem_singleton.2 hexpr))
  · refine .skip fun _ => .whenWith fun _ => .skip fun _ => .pure ?_
    exact arrowParameters_isA false (map_asPattern hparts)
  · exact .skip fun _ => .pure hexpr

theorem group_yields (h : rules.Formed) : Yields (group rules) (IsA expressionKinds) := by
  unfold group
  refine .skip fun _ => .skip fun _ => .ite (fun _ => ?_) fun _ => .skip fun _ => ?_
  · exact .skip fun _ => .when fun _ => .pure (arrowParameters_isA false nofun)
  refine .ite (fun _ => ?_) fun _ => .skip fun _ => ?_
  · refine .bind (restParameter_yields h) fun r hr => .skip fun _ => .skip fun _ => ?_
    exact .when fun _ => .pure (arrowParameters_isA false (List.forall_mem_singleton.2 hr))
  refine .bind h.assignment.inherited fun expr hexpr => .skip fun _ => .ite (fun _ => ?_) fun _ => ?_
  · have hfirst : ∀ t ∈ [expr], IsA expressionKinds t := List.forall_mem_singleton.2 hexpr
    refine .skip fun _ => .bind (groupTail_yields h _ hfirst) fun r hr => .ite (fun _ => ?_) fun _ => ?_
    · exact .pure (arrowParameters_isA false (map_asPattern hr))
    · exact groupEnd_yields (isA_node (by repeat constructor) (.cons (holds_many_iff.2 hr) .nil)) hr
  · have hsingle := groupEnd_yields hexpr (List.forall_mem_singleton.2 hexpr)
    refine .ite (fun hkind => ?_) fun _ => hsingle
    have hparts :=
      (isA_of_isKind hexpr hkind).get_holds "expressions" (.many expressionKinds) (by decide) rfl
    split
    · rename_i parts heq
      rw [heq] at hparts
      exact groupEnd_yields hexpr (holds_many_iff.1 hparts)
    · exact hsingle

/-! ## Primary expressions -/

theorem keywordExpression_yields (h : rules.Formed) (text : String) :
    Yields (keywordExpression rules text) (IsA expressionKinds) := by
  unfold keywordExpression
  refine .skip fun c => .ite (fun _ => ?_) fun _ => .ite (fun _ => ?_) fun _ => .skip fun _ => ?_
  · exact anyWord_yields.mono fun _ ht => ht.mono (by decide)
  · exact .skip fun _ => .pure (identifier_isExpression "let")
  refine .ite (fun _ => ?_) fun _ => .ite (fun _ => ?_) fun _ => .ite (fun _ => ?_) fun _ => ?_
  · exact method_isExpression (functionExpression_yields h)
  · exact .skip fun _ => .pure (isA_node (by repeat constructor) .nil)
  · exact (classBy_yields h (.inr rfl) true).mono fun _ ht => ht.mono (by decide)
  · refine .skip fun _ => .ite (fun _ => ?_) fun _ => .skip fun token => unexpected_yields token
    exact .skip fun _ => .pure (isA_node (by repeat constructor) .nil)

theorem primary_yields (h : rules.Formed) : Yields (primary rules) (IsA expressionKinds) := by
  unfold primary
  refine .skip fun token => ?_
  have hliteral : ∀ p : Parse Token, Yields (do
      plainValue
      let _ ← p
      return literal token) (IsA expressionKinds) := fun p =>
    .skip fun _ => .skip fun _ => .pure (literal_isExpression token)
  split
  · rename_i text hlexeme
    refine .skip fun c => .when fun _ => .skip fun _ => .ite (fun _ => ?_) fun _ => ?_
    · exact method_isExpression (functionExpression_yields h)
    · exact .skip fun _ => .pure (identifier_isExpression text)
  · exact .skip fun _ => hliteral _
  · exact .skip fun _ => hliteral _
  · exact hliteral _
  · exact hliteral _
  · exact (template_yields h).mono fun _ ht => ht.mono (by decide)
  · exact .skip fun _ => (group_yields h).inherited
  · exact (arrayLiteral_yields h).inherited
  · exact (objectLiteral_yields h).inherited
  iterate 2
    · refine .skip fun _ => .skip fun regex => ?_
      split
      · exact .pure
          (isA_node (by repeat constructor) (.cons (holds_text _) (.cons (holds_record _) .nil)))
      · exact unexpected_yields regex
  · exact keywordExpression_yields h _
  · exact .skip fun token => unexpected_yields token

/-! ## Members and calls -/

theorem memberNode_isA {object property : Tree} (hobject : IsA expressionKinds object)
    (hproperty : IsA expressionKinds property) (computed : Bool) :
    IsA expressionKinds (memberNode object property computed) :=
  isA_node (by repeat constructor)
    (.cons hobject.one (.cons hproperty.one (.cons (holds_flag computed) .nil)))

theorem access_yields (h : rules.Formed) {expr : Tree} (hexpr : IsA expressionKinds expr) :
    Yields (access? rules expr) (OfSome (IsA expressionKinds)) := by
  unfold access?
  refine .skip fun token => ?_
  split
  · refine .skip fun _ => .skip fun _ => .bind anyWord_yields fun name hname => .pure ?_
    exact ofSome_some (memberNode_isA hexpr (hname.mono (by decide)) false)
  · refine .skip fun _ => .skip fun _ => .bind (expression_yields h).isolated fun key hkey => ?_
    exact .skip fun _ => .pure (ofSome_some (memberNode_isA hexpr hkey true))
  · refine .bind (template_yields h) fun quasi hquasi => .pure (ofSome_some ?_)
    exact isA_node (by repeat constructor) (.cons hexpr.one (.cons hquasi.one .nil))
  · exact .pure (ofSome_none _)

theorem accesses_yields (h : rules.Formed) (budget : Nat) {expr : Tree}
    (hexpr : IsA expressionKinds expr) :
    Yields (accesses rules budget expr) (IsA expressionKinds) := by
  induction budget generalizing expr with
  | zero => exact complain_yields _
  | succ budget ih =>
      unfold accesses
      refine .bind (access_yields h hexpr) fun next hnext => ?_
      cases next with
      | some next => exact ih (hnext next rfl)
      | none => exact .pure hexpr

theorem callNode_isA {kind : String} (hkind : kind = "CallExpression" ∨ kind = "NewExpression")
    {callee : Tree} (hcallee : IsA expressionKinds callee) {args : List Tree}
    (hargs : ∀ t ∈ args, IsA expressionKinds t) :
    IsA expressionKinds (callNode kind callee args) := by
  rcases hkind with rfl | rfl <;>
    exact isA_node (by repeat constructor) (.cons hcallee.one (.cons (holds_many_iff.2 hargs) .nil))

theorem newExpression_yields (h : rules.Formed) :
    Yields (newExpression rules) (IsA expressionKinds) := by
  unfold newExpression
  refine .bind anyWord_yields fun word hword => .skip fun _ => .ite (fun _ => ?_) fun _ => ?_
  · refine .skip fun token => .skip fun _ => .ite (fun _ => ?_) fun _ => unexpected_yields token
    refine .bind anyWord_yields fun property hproperty => .pure ?_
    exact isA_node (by repeat constructor) (.cons hword.one (.cons hproperty.one .nil))
  · refine .skip fun _ => .ite (fun _ => .skip fun token => unexpected_yields token) fun _ => ?_
    refine .bind h.callee.isolated fun callee hcallee => .skip fun _ => ?_
    refine .branch (fun args => ∀ t ∈ args, IsA expressionKinds t) (fun _ => arguments_yields h)
      (fun _ => .pure nofun) fun args hargs => .skip fun _ => .pure ?_
    exact callNode_isA (.inr rfl) hcallee hargs

theorem operand_yields (h : rules.Formed) : Yields (operand rules) (IsA expressionKinds) := by
  unfold operand
  refine .skip fun _ => Yields.inherited ?_
  exact .ite (fun _ => newExpression_yields h) fun _ => primary_yields h

theorem superAccess_yields (brackets : List String) :
    Yields (superAccess brackets) (IsA expressionKinds) := by
  unfold superAccess
  exact .skip fun _ => .skip fun _ => .whenWith fun _ =>
    .pure (isA_node (by repeat constructor) .nil)

theorem callee_yields (h : rules.Formed) : Yields (callee rules) (IsA expressionKinds) := by
  unfold callee
  refine .skip fun _ => .branch (IsA expressionKinds) (fun _ => superAccess_yields _)
    (fun _ => operand_yields h) fun expr hexpr => accesses_yields h _ hexpr

theorem call_yields (h : rules.Formed) {expr : Tree} (hexpr : IsA expressionKinds expr)
    (maybeArrow : Bool) : Yields (call rules expr maybeArrow) (IsA expressionKinds) := by
  unfold call
  refine .skip fun _ => .branch (fun args => ∀ t ∈ args, IsA expressionKinds t)
    (fun _ => asyncArguments_yields h) (fun _ => arguments_yields h) fun args hargs => ?_
  refine .when fun _ => .skip fun _ => .ite (fun _ => .pure ?_) fun _ => .pure ?_
  · exact arrowParameters_isA true (map_asPattern hargs)
  · exact callNode_isA (.inl rfl) hexpr hargs

theorem callChain_yields (h : rules.Formed) (start : Token) (budget : Nat) {expr : Tree}
    (hexpr : IsA expressionKinds expr) :
    Yields (callChain rules start budget expr) (IsA expressionKinds) := by
  induction budget generalizing expr with
  | zero => exact complain_yields _
  | succ budget ih =>
      unfold callChain
      refine .skip fun _ => .ite (fun _ => .skip fun next => ?_) fun _ => ?_
      · exact .bind (call_yields h hexpr _) fun expr hexpr => ih hexpr
      · refine .bind (access_yields h hexpr) fun next hnext => ?_
        cases next with
        | some next => exact ih (hnext next rfl)
        | none => exact .pure hexpr

theorem callExpression_yields (h : rules.Formed) :
    Yields (callExpression rules) (IsA expressionKinds) := by
  unfold callExpression
  refine .skip fun start => .skip fun _ => .skip fun _ => .skip fun _ => ?_
  refine .branch (IsA expressionKinds) (fun _ => superAccess_yields _) (fun _ => operand_yields h) ?_
  intro expr hexpr
  exact .bind (callChain_yields h start _ hexpr) fun expr hexpr => .skip fun _ => .pure hexpr

/-! ## Operators -/

theorem updateNode_isA (operator : String) {argument : Tree} (h : IsA expressionKinds argument)
    (before : Bool) : IsA expressionKinds (updateNode operator argument before) :=
  isA_node (by repeat constructor)
    (.cons (holds_text _) (.cons h.one (.cons (holds_flag before) .nil)))

theorem update_yields (h : rules.Formed) : Yields (update rules) (IsA expressionKinds) := by
  unfold update
  refine .skip fun _ => .ite (fun _ => .skip fun token => ?_) fun _ => ?_
  · refine .bind h.unary.inherited fun expr hexpr => .skip fun _ => .skip fun _ => ?_
    exact .pure (updateNode_isA _ hexpr true)
  · refine .bind (callExpression_yields h).inherited fun expr hexpr => .skip fun _ => ?_
    refine .skip fun _ => .ite (fun _ => .skip fun _ => ?_) fun _ => .pure hexpr
    exact .skip fun _ => .skip fun token => .pure (updateNode_isA _ hexpr false)

theorem unary_yields (h : rules.Formed) : Yields (unary rules) (IsA expressionKinds) := by
  unfold unary
  refine .skip fun token => .ite (fun _ => .skip fun _ => ?_) fun _ => .skip fun _ => ?_
  · refine .bind h.unary.inherited fun argument hargument => .skip fun _ => .when fun _ => ?_
    refine .skip fun _ => .pure ?_
    exact isA_node (by repeat constructor)
      (.cons (holds_text _) (.cons hargument.one (.cons (holds_flag true) .nil)))
  · refine .ite (fun _ => .skip fun _ => ?_) fun _ => update_yields h
    exact .bind h.unary fun argument hargument =>
      .pure (isA_node (by repeat constructor) (.cons hargument.one .nil))

theorem binaryNode_isA (operator : String) {left right : Tree} (hleft : IsA expressionKinds left)
    (hright : IsA expressionKinds right) : IsA expressionKinds (binaryNode operator left right) := by
  unfold binaryNode
  split <;> exact isA_node (by repeat constructor)
    (.cons (holds_text _) (.cons hleft.one (.cons hright.one .nil)))

theorem power_yields (h : rules.Formed) : Yields (power rules) (IsA expressionKinds) := by
  unfold power
  refine .bind h.unary.inherited fun base hbase => .skip fun _ => .ite (fun _ => ?_) fun _ => ?_
  · refine .skip fun _ => .skip fun _ => .bind h.power.isolated fun exponent hexponent => ?_
    exact .pure (binaryNode_isA _ hbase hexponent)
  · exact .pure hbase

theorem joinWaiting_isA (strength : Nat) {waiting : List Waiting} {right : Tree}
    (hwaiting : ∀ w ∈ waiting, IsA expressionKinds w.left) (hright : IsA expressionKinds right) :
    (∀ w ∈ (joinWaiting strength waiting right).1, IsA expressionKinds w.left) ∧
      IsA expressionKinds (joinWaiting strength waiting right).2 := by
  induction waiting generalizing right with
  | nil => exact ⟨nofun, hright⟩
  | cons w rest ih =>
      obtain ⟨hw, hrest⟩ := List.forall_mem_cons.1 hwaiting
      rw [joinWaiting]
      split
      · exact ih hrest (binaryNode_isA _ hw hright)
      · exact ⟨hwaiting, hright⟩

theorem binaryTail_yields (h : rules.Formed) (budget : Nat) {waiting : List Waiting} {right : Tree}
    (hwaiting : ∀ w ∈ waiting, IsA expressionKinds w.left) (hright : IsA expressionKinds right) :
    Yields (binaryTail rules budget waiting right) (IsA expressionKinds) := by
  induction budget generalizing waiting right with
  | zero => exact complain_yields _
  | succ budget ih =>
      unfold binaryTail
      refine .skip fun token => .skip fun c => .ite (fun _ => ?_) fun _ => .skip fun _ => ?_
      · exact .pure (joinWaiting_isA 0 hwaiting hright).2
      · obtain ⟨hwaiting', hleft⟩ :=
          joinWaiting_isA (bindingStrength c.allowIn token) hwaiting hright
        refine .skip fun _ => .bind h.power.isolated fun next hnext => ih ?_ hnext
        exact List.forall_mem_cons.2 ⟨hleft, hwaiting'⟩

theorem binary_yields (h : rules.Formed) : Yields (binary rules) (IsA expressionKinds) := by
  unfold binary
  exact .bind h.power.inherited fun first hfirst => binaryTail_yields h _ nofun hfirst

theorem conditional_yields (h : rules.Formed) :
    Yields (conditional rules) (IsA expressionKinds) := by
  unfold conditional
  refine .bind (binary_yields h).inherited fun test htest => .skip fun _ => ?_
  refine .ite (fun _ => .skip fun _ => .skip fun _ => ?_) fun _ => .pure htest
  refine .bind h.assignment.isolated fun consequent hconsequent => .skip fun _ => .skip fun _ => ?_
  refine .bind h.assignment.isolated fun alternate halternate => .skip fun _ => .pure ?_
  exact isA_node (by repeat constructor)
    (.cons htest.one (.cons hconsequent.one (.cons halternate.one .nil)))

/-! ## Assignments -/

theorem yieldExpression_yields (h : rules.Formed) :
    Yields (yieldExpression rules) (IsA expressionKinds) := by
  unfold yieldExpression
  extract_lets node
  have hnode : ∀ {argument} delegate, IsElement expressionKinds argument →
      IsA expressionKinds (node argument delegate) := fun delegate hargument =>
    isA_node (by repeat constructor)
      (.cons (holds_maybe_iff.2 hargument) (.cons (holds_flag delegate) .nil))
  refine .skip fun _ => .skip fun _ => .ite (fun _ => .pure (hnode false (.inl rfl))) fun _ => ?_
  refine .skip fun _ => .skip fun _ => .skip fun delegate => .skip fun _ => ?_
  refine .branch (IsElement expressionKinds) (fun _ => h.assignment.mono fun _ => .inr)
    (fun _ => .pure (.inl rfl)) fun argument hargument => ?_
  exact .skip fun _ => .pure (hnode delegate hargument)

theorem arrowFunction_yields (h : rules.Formed) {ps : Parameters} (hps : ps.Formed)
    (isAsync : Bool) : Yields (arrowFunction rules ps isAsync) (IsA expressionKinds) := by
  unfold arrowFunction
  refine .skip fun _ => .whenWith fun _ => .skip fun _ => .skip fun before => .skip fun _ => ?_
  refine .skip fun _ => .skip fun _ => ?_
  extract_lets rest
  have hrest : ∀ body, IsA ("BlockStatement" :: expressionKinds) body →
      Yields (rest body) (IsA expressionKinds) := by
    intro body hbody
    refine .skip fun _ => .skip fun _ => .pure ?_
    exact isA_node (by repeat constructor) (.cons (holds_many_iff.2 hps) (.cons hbody.one
      (.cons (holds_flag _) (.cons (holds_flag _) (.cons (holds_flag _) .nil)))))
  refine .ite (fun _ => .skip fun c => .skip fun _ => ?_) fun _ => ?_
  · refine .bind (functionBody_yields h) fun body hbody => .skip fun _ => ?_
    exact .bind (.pure (hbody.mono (by decide))) hrest
  · exact .bind (h.assignment.isolated.mono fun _ ht => ht.mono (List.subset_cons_self _ _)) hrest

theorem assignTo_yields (h : rules.Formed) (start : Token) {target : Tree}
    (htarget : IsA expressionKinds target) :
    Yields (assignTo rules start target) (IsA expressionKinds) := by
  unfold assignTo
  refine .skip fun c => .when fun _ => ?_
  extract_lets rest
  have hrest : ∀ u, Yields (rest u) (IsA expressionKinds) := by
    intro _
    refine .skip fun plain => .when fun _ => .skip fun operator => ?_
    refine .bind h.assignment.isolated fun right hright => .skip fun _ => .pure ?_
    have hleft : IsA expressionKinds (if plain then asPattern target else target) := by
      split
      · exact asPattern_isA htarget
      · exact htarget
    exact isA_node (by repeat constructor)
      (.cons (holds_text _) (.cons hleft.one (.cons hright.one .nil)))
  refine .ite (fun _ => ?_) fun _ => hrest ()
  split
  · exact .when fun _ => .when hrest
  · exact hrest ()

theorem asyncParameter_yields (h : rules.Formed) (start : Token) :
    Yields (asyncParameter? rules start) (OfSome (IsA expressionKinds)) := by
  unfold asyncParameter?
  refine .skip fun next => .ite (fun _ => ?_) fun _ => .pure (ofSome_none _)
  refine .bind (primary_yields h) fun param hparam => .pure (ofSome_some ?_)
  exact arrowParameters_isA true (List.forall_mem_singleton.2 (asPattern_isA hparam))

theorem assignment_yields (h : rules.Formed) :
    Yields (assignment rules) (IsA expressionKinds) := by
  unfold assignment
  refine .skip fun _ => .skip fun _ => .ite (fun _ => yieldExpression_yields h) fun _ => ?_
  refine .skip fun start => .bind (conditional_yields h) fun expr hexpr => ?_
  refine .bind (asyncParameter_yields h start) fun param hparam => .skip fun _ => ?_
  have htarget : IsA expressionKinds (param.getD expr) := by
    cases param with
    | none => exact hexpr
    | some param => exact hparam param rfl
  refine .ite (fun _ => .skip fun _ => ?_) fun _ => .skip fun _ => .ite (fun _ => ?_) fun _ => ?_
  · refine .bind (coverParameters_yields htarget) fun ps hps => ?_
    cases ps with
    | some ps => exact arrowFunction_yields h (hps ps rfl) _
    | none => exact .pure htarget
  · exact assignTo_yields h start htarget
  · exact .pure htarget

end NameRecovery.Grammar
