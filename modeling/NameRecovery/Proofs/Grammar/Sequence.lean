import NameRecovery.Grammar.Function
import NameRecovery.Proofs.Grammar.Cover

/-!
# Lists, patterns and functions are formed

What a rule yields is formed as long as what the rules it refers to yield is.

* `Rules.Formed` — what the rules yield is formed;
* `expression_yields`, `arrayLiteral_yields`, `template_yields` — lists of expressions;
* `pattern_yields` — patterns in declarations;
* `functionDeclaration_yields`, `functionExpression_yields`, `plainMethod_yields` — functions.
-/

namespace NameRecovery.Grammar

open Source NameRecovery.Tree

/-- Is everything the rules yield formed? -/
structure Rules.Formed (rules : Rules) : Prop where
  /-- Expressions without commas are. -/
  assignment : Yields rules.assignment (IsA expressionKinds)
  /-- Powers are. -/
  power : Yields rules.power (IsA expressionKinds)
  /-- Expressions with an operator in front are. -/
  unary : Yields rules.unary (IsA expressionKinds)
  /-- Operands of `new` are. -/
  callee : Yields rules.callee (IsA expressionKinds)
  /-- Operands with accesses and calls are. -/
  call : Yields rules.call (IsA expressionKinds)
  /-- Patterns are. -/
  pattern : ∀ kind, Yields (rules.pattern kind) fun r => IsA expressionKinds r.1
  /-- Statements are. -/
  statement : Yields rules.statement (IsA statementKinds)
  /-- Statements and declarations are. -/
  item : Yields rules.item (IsA statementKinds)

variable {rules : Rules}

/-! ## Expressions with commas -/

theorem commaTail_yields (h : rules.Formed) :
    Yields (commaTail rules) fun ts => ∀ t ∈ ts, IsA expressionKinds t := by
  unfold commaTail
  refine collect_yields (.skip fun more => .ite (fun _ => ?_) fun _ => ?_) _
  · exact .bind h.assignment.isolated fun t ht => .pure (ofSome_some ht)
  · exact .pure (ofSome_none _)

theorem sequence_isA {first : Tree} (hfirst : IsA expressionKinds first) {rest : List Tree}
    (hrest : ∀ t ∈ rest, IsA expressionKinds t) :
    IsA expressionKinds (.node "SequenceExpression" [("expressions", .list (first :: rest))]) :=
  isA_node (by repeat constructor)
    (.cons (holds_many_iff.2 (List.forall_mem_cons.2 ⟨hfirst, hrest⟩)) .nil)

theorem expression_yields (h : rules.Formed) :
    Yields (expression rules) (IsA expressionKinds) := by
  unfold expression
  refine .bind h.assignment.isolated fun first hfirst => .skip fun more => .ite (fun _ => ?_) ?_
  · exact .bind (commaTail_yields h) fun rest hrest => .pure (sequence_isA hfirst hrest)
  · exact fun _ => .pure hfirst

/-! ## Arguments and arrays -/

theorem spreadElement_yields (h : rules.Formed) :
    Yields (spreadElement rules) (IsA ["SpreadElement"]) := by
  unfold spreadElement
  refine .skip fun _ => .bind h.assignment.inherited fun argument hargument => .pure ?_
  exact isA_node (by repeat constructor) (.cons hargument.one .nil)

theorem spreadElement_isExpression (h : rules.Formed) :
    Yields (spreadElement rules) (IsA expressionKinds) :=
  (spreadElement_yields h).mono fun _ ht => ht.mono (by decide)

theorem argumentsBy_yields (h : rules.Formed) {argument : Parse Tree}
    (hargument : Yields argument (IsA expressionKinds)) :
    Yields (argumentsBy rules argument) fun ts => ∀ t ∈ ts, IsA expressionKinds t := by
  unfold argumentsBy
  refine .skip fun _ => .bind (collect_yields ?_ _) fun args hargs => .skip fun _ => .pure hargs
  refine .skip fun closes => .ite (fun _ => .pure (ofSome_none _)) fun _ => .skip fun spread => ?_
  refine .branch (IsA expressionKinds) (fun _ => spreadElement_isExpression h)
    (fun _ => hargument.isolated) fun arg harg => ?_
  exact .skip fun _ => .when fun _ => .pure (ofSome_some harg)

theorem arguments_yields (h : rules.Formed) :
    Yields (arguments rules) fun ts => ∀ t ∈ ts, IsA expressionKinds t :=
  argumentsBy_yields h h.assignment

theorem asyncArguments_yields (h : rules.Formed) :
    Yields (asyncArguments rules) fun ts => ∀ t ∈ ts, IsA expressionKinds t :=
  argumentsBy_yields h (.bind h.assignment fun _ harg => .skip fun _ => .pure harg)

theorem arrayElement_yields (h : rules.Formed) :
    Yields (arrayElement rules) (IsElement expressionKinds) := by
  unfold arrayElement
  refine .skip fun hole => .ite (fun _ => .pure (.inl rfl)) fun _ => .skip fun spread => ?_
  refine .ite (fun _ => ?_) fun _ => ?_
  · refine .bind (spreadElement_isExpression h) fun element helement => .skip fun closes => ?_
    exact .ite (fun _ => .skip fun _ => .skip fun _ => .pure (.inr helement))
      fun _ => .pure (.inr helement)
  · refine .bind h.assignment.inherited fun element helement => .skip fun closes => ?_
    exact .when fun _ => .pure (.inr helement)

theorem arrayLiteral_yields (h : rules.Formed) :
    Yields (arrayLiteral rules) (IsA expressionKinds) := by
  unfold arrayLiteral
  refine .skip fun _ => .bind (collect_yields (P := IsElement expressionKinds) ?_ _) ?_
  · refine .skip fun closes => .ite (fun _ => .pure (ofSome_none _)) fun _ => ?_
    exact .bind (arrayElement_yields h) fun element helement => .pure (ofSome_some helement)
  · intro elements helements
    exact .skip fun _ =>
      .pure (isA_node (by repeat constructor) (.cons (holds_sparse_iff.2 helements) .nil))

/-! ## Templates -/

theorem templateElement_isA (raw : String) (tail : Bool) :
    IsA ["TemplateElement"] (templateElement raw tail) :=
  isA_node (by repeat constructor) (.cons (holds_record _) (.cons (holds_flag tail) .nil))

/-- Are these the substitutions of a template and the pieces after them? -/
def IsTemplateRest (parts : List Tree × List Tree) : Prop :=
  (∀ t ∈ parts.1, IsA expressionKinds t) ∧ ∀ t ∈ parts.2, IsA ["TemplateElement"] t

theorem templateRest_yields (h : rules.Formed) (budget : Nat) :
    Yields (templateRest rules budget) IsTemplateRest := by
  induction budget with
  | zero => exact complain_yields _
  | succ budget ih =>
      unfold templateRest
      refine .bind (expression_yields h) fun expr hexpr => .skip fun token => ?_
      split
      · rename_i raw head tail hlexeme
        have hpiece := templateElement_isA raw tail
        refine .skip fun _ => .ite (fun _ => .pure ?_) fun _ => .bind ih fun rest hrest => .pure ?_
        · exact ⟨List.forall_mem_singleton.2 hexpr, List.forall_mem_singleton.2 hpiece⟩
        · exact ⟨List.forall_mem_cons.2 ⟨hexpr, hrest.1⟩, List.forall_mem_cons.2 ⟨hpiece, hrest.2⟩⟩
      · exact complain_yields _

theorem template_yields (h : rules.Formed) :
    Yields (template rules) (IsA ["TemplateLiteral"]) := by
  unfold template
  refine .skip fun token => ?_
  split
  · rename_i raw tail hlexeme
    refine .skip fun _ => .branch IsTemplateRest (fun _ => ?_) (fun _ => templateRest_yields h _) ?_
    · exact .pure ⟨nofun, nofun⟩
    · intro rest hrest
      have hpieces := List.forall_mem_cons.2 ⟨templateElement_isA raw tail, hrest.2⟩
      exact .pure (isA_node (by repeat constructor)
        (.cons (holds_many_iff.2 hpieces) (.cons (holds_many_iff.2 hrest.1) .nil)))
  · exact complain_yields _

/-! ## Keys -/

theorem literal_isA (token : Token) : IsA ["Literal"] (literal token) :=
  isA_node (by repeat constructor) (.cons (holds_text _) .nil)

theorem literal_isExpression (token : Token) : IsA expressionKinds (literal token) :=
  isA_node (by repeat constructor) (.cons (holds_text _) .nil)

theorem propertyKey_yields (h : rules.Formed) :
    Yields (propertyKey rules) fun key => IsA expressionKinds key.node := by
  unfold propertyKey
  refine .skip fun token => ?_
  split
  · exact .skip fun _ => .pure (literal_isExpression token)
  · exact .skip fun _ => .pure (literal_isExpression token)
  · exact .pure (identifier_isExpression _)
  · exact .pure (identifier_isExpression _)
  · exact .pure (identifier_isExpression _)
  · exact .pure (identifier_isExpression _)
  · exact .bind h.assignment.isolated fun key hkey => .skip fun _ => .pure hkey
  · exact unexpected_yields token

theorem anyWord_yields : Yields anyWord (IsA ["Identifier"]) := by
  unfold anyWord
  refine .skip fun token => .ite (fun _ => .pure (identifier_isA _)) fun _ => unexpected_yields token

/-! ## Patterns -/

theorem variableName_yields (kind : Option String) :
    Yields (variableName kind) (IsA ["Identifier"]) := by
  unfold variableName
  refine .skip fun token => .skip fun c => ?_
  have hname := Yields.pure (identifier_isA token.spelling)
  dsimp only
  split
  · exact .when fun _ => .when fun _ => hname
  · exact .when fun _ => hname
  · exact hname
  · exact .when fun _ => .when fun _ => hname
  · exact .when fun _ => hname

theorem patternWithDefault_yields (h : rules.Formed) (kind : Option String) :
    Yields (patternWithDefault rules kind) fun r => IsA expressionKinds r.1 := by
  unfold patternWithDefault
  refine .bind (h.pattern kind) fun r hpattern => .skip fun _ => .ite (fun _ => ?_) fun _ => ?_
  · refine .skip fun _ => .skip fun _ => .bind h.assignment.isolated fun right hright => ?_
    exact .skip fun _ =>
      .pure (isA_node (by repeat constructor) (.cons hpattern.one (.cons hright.one .nil)))
  · exact .pure hpattern

theorem restElement_isA {pattern : Tree} (h : IsA expressionKinds pattern) :
    IsA ["RestElement"] (.node "RestElement" [("argument", pattern)]) :=
  isA_node (by repeat constructor) (.cons h.one .nil)

theorem patternElements_yields (h : rules.Formed) (kind : Option String) (budget : Nat) :
    Yields (patternElements rules kind budget) fun r => ∀ t ∈ r.1, IsElement expressionKinds t := by
  induction budget with
  | zero => exact complain_yields _
  | succ budget ih =>
      unfold patternElements
      refine .skip fun _ => .ite (fun _ => .pure nofun) fun _ => .skip fun _ => ?_
      refine .ite (fun _ => ?_) fun _ => .skip fun _ => .ite (fun _ => ?_) fun _ => ?_
      · refine .bind ih fun rest hrest => .pure ?_
        exact List.forall_mem_cons.2 ⟨.inl rfl, hrest⟩
      · refine .bind (h.pattern kind) fun r hpattern => .pure ?_
        exact List.forall_mem_singleton.2 (.inr ((restElement_isA hpattern).mono (by decide)))
      · refine .bind (patternWithDefault_yields h kind) fun r helement => .skip fun _ => ?_
        refine .when fun _ => .bind ih fun rest hrest => .pure ?_
        exact List.forall_mem_cons.2 ⟨.inr helement, hrest⟩

theorem arrayPattern_yields (h : rules.Formed) (kind : Option String) :
    Yields (arrayPattern rules kind) fun r => IsA expressionKinds r.1 := by
  unfold arrayPattern
  refine .skip fun _ => .bind (patternElements_yields h kind _) fun r helements => ?_
  exact .skip fun _ =>
    .pure (isA_node (by repeat constructor) (.cons (holds_sparse_iff.2 helements) .nil))

theorem patternProperty_isA {key value : Tree} (hkey : IsA expressionKinds key)
    (hvalue : IsA expressionKinds value) (computed shorthand : Bool) :
    IsA propertyKinds (patternProperty key value computed shorthand) :=
  isA_node (by repeat constructor) (.cons hkey.one (.cons (holds_flag _) (.cons hvalue.one
    (.cons (holds_text _) (.cons (holds_flag _) (.cons (holds_flag _) .nil))))))

theorem propertyPattern_yields (h : rules.Formed) (kind : Option String) :
    Yields (propertyPattern rules kind) fun r => IsA propertyKinds r.1 := by
  unfold propertyPattern
  refine .skip fun token => ?_
  split
  · rename_i text hlexeme
    have hname := identifier_isExpression text
    refine .bind (variableName_yields none) fun key hkey => ?_
    have hkey : IsA expressionKinds key := hkey.mono (by decide)
    refine .skip fun _ => .ite (fun _ => ?_) fun _ => .skip fun _ => .ite (fun _ => ?_) fun _ => ?_
    · refine .bind h.assignment fun right hright => .pure (patternProperty_isA hkey ?_ _ _)
      exact isA_node (by repeat constructor) (.cons hname.one (.cons hright.one .nil))
    · refine .bind (patternWithDefault_yields h kind) fun r hvalue => .pure ?_
      exact patternProperty_isA hkey hvalue _ _
    · exact .pure (patternProperty_isA hkey hname _ _)
  · refine .skip fun computed => .bind (propertyKey_yields h) fun key hkey => .skip fun _ => ?_
    refine .bind (patternWithDefault_yields h kind) fun r hvalue => .pure ?_
    exact patternProperty_isA hkey hvalue _ _

theorem restProperty_yields (h : rules.Formed) :
    Yields (restProperty rules) fun r => IsA propertyKinds r.1 := by
  unfold restProperty
  refine .skip fun _ => .bind (h.pattern none) fun r hpattern => .skip fun _ => .when fun _ => ?_
  exact .skip fun _ => .when fun _ => .pure ((restElement_isA hpattern).mono (by decide))

theorem objectPattern_yields (h : rules.Formed) (kind : Option String) :
    Yields (objectPattern rules kind) fun r => IsA expressionKinds r.1 := by
  unfold objectPattern
  refine .skip fun _ => .bind (collect_yields (P := fun r => IsA propertyKinds r.1) ?_ _) ?_
  · refine .skip fun _ => .ite (fun _ => .pure (ofSome_none _)) fun _ => .skip fun _ => ?_
    refine .branch (fun r => IsA propertyKinds r.1) (fun _ => restProperty_yields h)
      (fun _ => propertyPattern_yields h kind) fun r hproperty => ?_
    exact .skip fun _ => .when fun _ => .pure (ofSome_some hproperty)
  · intro properties hproperties
    refine .skip fun _ =>
      .pure (isA_node (by repeat constructor) (.cons (holds_many_iff.2 fun t ht => ?_) .nil))
    obtain ⟨r, hr, rfl⟩ := List.mem_map.1 ht
    exact hproperties r hr

theorem pattern_yields (h : rules.Formed) (kind : Option String) :
    Yields (pattern rules kind) fun r => IsA expressionKinds r.1 := by
  unfold pattern
  refine .skip fun _ => .ite (fun _ => arrayPattern_yields h kind) fun _ => .skip fun _ => ?_
  refine .ite (fun _ => objectPattern_yields h kind) fun _ => .skip fun token => .when fun _ => ?_
  exact .bind (variableName_yields kind) fun name hname => .pure (hname.mono (by decide))

/-! ## Parameters -/

theorem restParameter_yields (h : rules.Formed) :
    Yields (restParameter rules) fun r => IsA expressionKinds r.1 := by
  unfold restParameter
  refine .skip fun _ => .bind (h.pattern none) fun r hpattern => .skip fun _ => .when fun _ => ?_
  exact .skip fun _ => .when fun _ => .pure ((restElement_isA hpattern).mono (by decide))

theorem formalParameter_yields (h : rules.Formed) {ps : Parameters} (hps : ps.Formed) :
    Yields (formalParameter rules ps) Parameters.Formed := by
  unfold formalParameter
  refine .skip fun _ => .branch (fun r => IsA expressionKinds r.1) (fun _ => restParameter_yields h)
    (fun _ => patternWithDefault_yields h none) fun r hparam => .skip fun c => .pure ?_
  exact hps.snoc (Parameters.foldl_admit_params c.strict some Token.spelling r.2 ps) hparam

theorem formalParametersFrom_yields (h : rules.Formed) (budget : Nat) {ps : Parameters}
    (hps : ps.Formed) : Yields (formalParametersFrom rules budget ps) Parameters.Formed := by
  induction budget generalizing ps with
  | zero => exact complain_yields _
  | succ budget ih =>
      unfold formalParametersFrom
      refine .skip fun _ => .skip fun _ => .ite (fun _ => .pure hps) fun _ => ?_
      refine .bind (formalParameter_yields h hps) fun ps hps => .skip fun _ => ?_
      exact .ite (fun _ => .pure hps) fun _ => .skip fun _ => ih hps

theorem formalParameters_yields (h : rules.Formed) {ps : Parameters} (hps : ps.Formed) :
    Yields (formalParameters rules ps) Parameters.Formed := by
  unfold formalParameters
  refine .skip fun _ => .bind (formalParametersFrom_yields h _ hps) fun ps hps => ?_
  exact .skip fun _ => .pure hps

/-! ## Bodies -/

theorem expressionStatement_isA {expr : Tree} (h : IsA expressionKinds expr) :
    IsA statementKinds (.node "ExpressionStatement" [("expression", expr)]) :=
  isA_node (by repeat constructor) (.cons h.one .nil)

theorem directive_yields (h : rules.Formed) :
    Yields (directive rules) fun r => IsA statementKinds r.1 := by
  unfold directive
  refine .skip fun token => .bind (expression_yields h) fun expr hexpr => .skip fun _ => ?_
  refine .ite (fun _ => .pure ?_) fun _ => .pure (expressionStatement_isA hexpr)
  exact isA_node (by repeat constructor) (.cons hexpr.one (.cons (holds_text _) .nil))

theorem directivesFrom_yields (h : rules.Formed) (budget : Nat) (octal : Option Token) :
    Yields (directivesFrom rules budget octal) fun ts => ∀ t ∈ ts, IsA statementKinds t := by
  induction budget generalizing octal with
  | zero => exact complain_yields _
  | succ budget ih =>
      unfold directivesFrom
      refine .skip fun token => ?_
      split
      · refine .bind (directive_yields h) fun r hstatement => ?_
        obtain ⟨statement, text⟩ := r
        have hcons : ∀ octal, Yields (do return statement :: (← directivesFrom rules budget octal))
            fun ts => ∀ t ∈ ts, IsA statementKinds t := fun octal =>
          .bind (ih octal) fun rest hrest => .pure (List.forall_mem_cons.2 ⟨hstatement, hrest⟩)
        dsimp only
        split
        · exact .pure (List.forall_mem_singleton.2 hstatement)
        · refine .skip fun _ => ?_
          split
          · exact .skip fun _ => .skip fun _ => .when fun _ => hcons _
          · exact .skip fun _ => .when fun _ => hcons _
        · exact hcons _
      · exact .pure nofun

theorem directives_yields (h : rules.Formed) :
    Yields (directives rules) fun ts => ∀ t ∈ ts, IsA statementKinds t :=
  directivesFrom_yields h _ none

theorem itemsToBrace_yields (h : rules.Formed) :
    Yields (itemsToBrace rules) fun ts => ∀ t ∈ ts, IsA statementKinds t := by
  unfold itemsToBrace
  refine collect_yields (.skip fun _ => .skip fun _ => .ite (fun _ => ?_) fun _ => ?_) _
  · exact .pure (ofSome_none _)
  · exact .bind h.item fun t ht => .pure (ofSome_some ht)

theorem block_isA {body : List Tree} (h : ∀ t ∈ body, IsA statementKinds t) :
    IsA ["BlockStatement"] (block body) :=
  isA_node (by repeat constructor) (.cons (holds_many_iff.2 h) .nil)

theorem functionBody_yields (h : rules.Formed) :
    Yields (functionBody rules) (IsA ["BlockStatement"]) := by
  unfold functionBody
  refine .skip fun _ => .bind (directives_yields h) fun head hhead => .skip fun before => ?_
  refine .skip fun _ => .bind (itemsToBrace_yields h) fun body hbody => ?_
  exact .skip fun _ => .skip fun _ => .pure (block_isA (List.forall_mem_append.2 ⟨hhead, hbody⟩))

/-! ## Functions -/

theorem optional_holds {kinds : List String} {id : Option Tree} (h : OfSome (IsA kinds) id) :
    (Slot.maybe kinds).Holds (optional id) := by
  cases id with
  | none => exact holds_null kinds
  | some id => exact (h id rfl).maybe

theorem functionNode_isA {kinds : List String} {kind : String} {id : Option Tree}
    {params : List Tree} {body : Tree} (hid : OfSome (IsA ["Identifier"]) id)
    (hparams : ∀ t ∈ params, IsA expressionKinds t) (hbody : IsA ["BlockStatement"] body)
    (generator isAsync : Bool) (hkind : kind = "FunctionDeclaration" ∨ kind = "FunctionExpression")
    (hkinds : kind ∈ kinds) : IsA kinds (functionNode kind id params body generator isAsync) := by
  rcases hkind with rfl | rfl <;>
    exact isA_node ⟨hkinds, by repeat constructor⟩ (.cons (optional_holds hid)
      (.cons (holds_many_iff.2 hparams) (.cons hbody.one
        (.cons (holds_flag _) (.cons (holds_flag _) (.cons (holds_flag _) .nil))))))

theorem parametersAfterName_yields (token : Token) :
    Yields (parametersAfterName token) Parameters.Formed := by
  unfold parametersAfterName
  refine .skip fun c => .ite (fun _ => .when fun _ => .pure nofun) fun _ => ?_
  refine .ite (fun _ => .pure nofun) fun _ => .ite (fun _ => .pure nofun) fun _ => .pure nofun

theorem functionRest_yields (h : rules.Formed) {ps : Parameters} (hps : ps.Formed) :
    Yields (functionRest rules ps) fun r =>
      (∀ t ∈ r.1, IsA expressionKinds t) ∧ IsA ["BlockStatement"] r.2 := by
  unfold functionRest
  refine .bind (formalParameters_yields h hps) fun ps hps => .skip fun before => ?_
  refine .skip fun _ => .bind (functionBody_yields h) fun body hbody => ?_
  exact .skip fun _ => .skip fun _ => .pure ⟨hps, hbody⟩

/-- Are the name of a function, if it has one, and what is known of its parameters
formed? -/
def IsFunctionName (r : Option Tree × Parameters) : Prop :=
  OfSome (IsA ["Identifier"]) r.1 ∧ r.2.Formed

theorem functionDeclaration_yields (h : rules.Formed) (nameOptional : Bool) :
    Yields (functionDeclaration rules nameOptional) (IsA ["FunctionDeclaration"]) := by
  unfold functionDeclaration
  refine .skip fun head => .skip fun _ => ?_
  extract_lets rest
  have hrest : ∀ r, IsFunctionName r → Yields (rest r) (IsA ["FunctionDeclaration"]) := by
    intro r hr
    refine .skip fun before => .skip fun _ => .bind (functionRest_yields h hr.2) fun parts hparts => ?_
    refine .skip fun _ => .pure ?_
    exact functionNode_isA hr.1 hparts.1 hparts.2 _ _ (.inl rfl) (by decide)
  refine .ite (fun _ => .bind (.pure ⟨ofSome_none _, nofun⟩) hrest) fun _ => .skip fun token => ?_
  refine .bind (variableName_yields none) fun id hid => ?_
  refine .bind (parametersAfterName_yields token) fun ps hps => ?_
  exact .bind (.pure ⟨ofSome_some hid, hps⟩) hrest

theorem functionExpression_yields (h : rules.Formed) :
    Yields (functionExpression rules) (IsA ["FunctionExpression"]) := by
  unfold functionExpression
  refine .skip fun head => .skip fun before => .skip fun _ => .skip fun _ => ?_
  extract_lets rest
  have hrest : ∀ r, IsFunctionName r → Yields (rest r) (IsA ["FunctionExpression"]) := by
    intro r hr
    refine .bind (functionRest_yields h hr.2) fun parts hparts => .skip fun _ => .pure ?_
    exact functionNode_isA hr.1 hparts.1 hparts.2 _ _ (.inr rfl) (by decide)
  refine .ite (fun _ => .bind (.pure ⟨ofSome_none _, nofun⟩) hrest) fun _ => .skip fun token => ?_
  refine .skip fun _ => .branch (IsA ["Identifier"]) (fun _ => anyWord_yields)
    (fun _ => variableName_yields none) fun id hid => ?_
  refine .bind (parametersAfterName_yields token) fun ps hps => ?_
  exact .bind (.pure ⟨ofSome_some hid, hps⟩) hrest

/-! ## Methods -/

theorem methodBody_yields (h : rules.Formed) (ps : Parameters) :
    Yields (methodBody rules ps) (IsA ["BlockStatement"]) := by
  unfold methodBody
  refine .skip fun _ => .skip fun before => .skip fun _ => ?_
  refine .bind (functionBody_yields h).isolated fun body hbody => ?_
  exact .skip fun _ => .skip fun _ => .pure hbody

theorem methodNode_isA {params : List Tree} {body : Tree}
    (hparams : ∀ t ∈ params, IsA expressionKinds t) (hbody : IsA ["BlockStatement"] body)
    (generator isAsync : Bool) :
    IsA ["FunctionExpression"] (methodNode params body generator isAsync) :=
  functionNode_isA (ofSome_none _) hparams hbody generator isAsync (.inr rfl) (by decide)

theorem plainMethod_yields (h : rules.Formed) :
    Yields (plainMethod rules) (IsA ["FunctionExpression"]) := by
  unfold plainMethod
  refine .skip fun c => .skip fun _ => .bind (formalParameters_yields h nofun) fun ps hps => ?_
  refine .bind (methodBody_yields h ps) fun body hbody => .skip fun _ => ?_
  exact .pure (methodNode_isA hps hbody _ _)

theorem asyncMethod_yields (h : rules.Formed) :
    Yields (asyncMethod rules) (IsA ["FunctionExpression"]) := by
  unfold asyncMethod
  refine .skip fun c => .skip fun _ => .bind (formalParameters_yields h nofun) fun ps hps => ?_
  refine .bind (methodBody_yields h ps) fun body hbody => .skip fun _ => ?_
  exact .pure (methodNode_isA hps hbody _ _)

theorem generatorMethod_yields (h : rules.Formed) :
    Yields (generatorMethod rules) (IsA ["FunctionExpression"]) := by
  unfold generatorMethod
  refine .skip fun c => .skip fun _ => .bind (formalParameters_yields h nofun) fun ps hps => ?_
  refine .skip fun _ => .bind (methodBody_yields h ps) fun body hbody => .skip fun _ => ?_
  exact .pure (methodNode_isA hps hbody _ _)

theorem getterMethod_yields (h : rules.Formed) :
    Yields (getterMethod rules) (IsA ["FunctionExpression"]) := by
  unfold getterMethod
  refine .skip fun _ => .bind (formalParameters_yields h nofun) fun ps hps => .when fun _ => ?_
  refine .bind (methodBody_yields h ps) fun body hbody => .skip fun _ => ?_
  exact .pure (methodNode_isA hps hbody _ _)

theorem setterMethod_yields (h : rules.Formed) :
    Yields (setterMethod rules) (IsA ["FunctionExpression"]) := by
  unfold setterMethod
  refine .skip fun c => .skip fun _ => .bind (formalParameters_yields h nofun) fun ps hps => ?_
  have hrest : Yields (do
      let body ← methodBody rules ps
      changeContext fun c' => { c' with allowYield := c.allowYield }
      return methodNode ps.params body false false) (IsA ["FunctionExpression"]) :=
    .bind (methodBody_yields h ps) fun body hbody => .skip fun _ =>
      .pure (methodNode_isA hps hbody _ _)
  dsimp only
  split
  · exact .when fun _ => hrest
  · exact .skip fun _ => hrest

end NameRecovery.Grammar
