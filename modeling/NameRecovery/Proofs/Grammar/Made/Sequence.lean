import NameRecovery.Grammar.Function
import NameRecovery.Proofs.Grammar.Lexicon

/-!
# Lists, patterns and functions are made of texts

What a rule makes is made of the texts of the lexicon as long as what the rules it refers
to make is.

* `Rules.Built` — what the rules make is made of such texts, and they keep the invariant;
* `expression_makes`, `arrayLiteral_makes`, `template_makes` — lists of expressions;
* `pattern_makes` — patterns in declarations;
* `functionDeclaration_makes`, `functionExpression_makes`, `plainMethod_makes` — functions.
-/

namespace NameRecovery.Grammar

open Source

set_option linter.unusedSectionVars false

/-- Is everything the rules make made of texts of the lexicon, and do they keep the
invariant? -/
structure Rules.Built (L : Lexicon) (I : State → Prop) (rules : Rules) : Prop where
  /-- Expressions without commas are. -/
  assignment : Makes I rules.assignment (Made L)
  /-- Powers are. -/
  power : Makes I rules.power (Made L)
  /-- Expressions with an operator in front are. -/
  unary : Makes I rules.unary (Made L)
  /-- Operands of `new` are. -/
  callee : Makes I rules.callee (Made L)
  /-- Operands with accesses and calls are. -/
  call : Makes I rules.call (Made L)
  /-- Patterns are. -/
  pattern : ∀ kind, Makes I (rules.pattern kind) fun r => Made L r.1
  /-- Statements are. -/
  statement : Makes I rules.statement (Made L)
  /-- Statements and declarations are. -/
  item : Makes I rules.item (Made L)

variable {L : Lexicon} {I : State → Prop} {rules : Rules}

/-! ## Names and literals -/

/-- Is it a name of the lexicon, as a node? -/
def Named (L : Lexicon) (t : Tree) : Prop :=
  Made L t ∧ t.isKind "Identifier" = true

theorem identifier_named {name : String} (h : L.name name) : Named L (identifier name) := by
  refine ⟨?_, rfl⟩
  simpa [identifier, Lexicon.Fits] using h

theorem literal_made {token : Token} (h : L.raw token.raw) : Made L (literal token) := by
  simpa [literal, Lexicon.Fits] using h

section Spoken

variable [Spoken L I]

theorem lookahead_makes : Makes I lookahead L.Covers :=
  .of_read (fun _ => rfl) fun _ hs => Spoken.look hs

variable [Steady I]

theorem nextToken_makes : Makes I nextToken L.Covers :=
  makes_iff.2 fun _ hs token s' hrun => by
    obtain ⟨hs', rfl⟩ := nextToken_at hs token s' hrun
    exact ⟨hs', Spoken.look hs⟩

end Spoken

/-! ## Expressions with commas -/

section Sequence

variable [Steady I]

theorem commaTail_makes (h : rules.Built L I) :
    Makes I (commaTail rules) fun ts => ∀ t ∈ ts, Made L t := by
  unfold commaTail
  refine collect_makes (.skip fun more => .ite (fun _ => ?_) fun _ => ?_) _
  · exact .bind h.assignment.isolated fun t ht => .pure (ofSome_some ht)
  · exact .pure (ofSome_none _)

theorem sequence_made {first : Tree} (hfirst : Made L first) {rest : List Tree}
    (hrest : ∀ t ∈ rest, Made L t) :
    Made L (.node "SequenceExpression" [("expressions", .list (first :: rest))]) := by
  simpa [Lexicon.Fits] using ⟨hfirst, hrest⟩

theorem expression_makes (h : rules.Built L I) : Makes I (expression rules) (Made L) := by
  unfold expression
  refine .bind h.assignment.isolated fun first hfirst => .skip fun more => .ite (fun _ => ?_) ?_
  · exact .bind (commaTail_makes h) fun rest hrest => .pure (sequence_made hfirst hrest)
  · exact fun _ => .pure hfirst

/-! ## Arguments and arrays -/

theorem spreadElement_makes (h : rules.Built L I) : Makes I (spreadElement rules) (Made L) := by
  unfold spreadElement
  refine .skip fun _ => .bind h.assignment.inherited fun argument hargument => .pure ?_
  simpa [Lexicon.Fits] using hargument

theorem argumentsBy_makes (h : rules.Built L I) {argument : Parse Tree}
    (hargument : Makes I argument (Made L)) :
    Makes I (argumentsBy rules argument) fun ts => ∀ t ∈ ts, Made L t := by
  unfold argumentsBy
  refine .skip fun _ => .bind (collect_makes ?_ _) fun args hargs => .skip fun _ => .pure hargs
  refine .skip fun closes => .ite (fun _ => .pure (ofSome_none _)) fun _ => .skip fun spread => ?_
  refine .branch (Made L) (fun _ => spreadElement_makes h) (fun _ => hargument.isolated) ?_
  exact fun arg harg => .skip fun _ => .when fun _ => .pure (ofSome_some harg)

theorem arguments_makes (h : rules.Built L I) :
    Makes I (arguments rules) fun ts => ∀ t ∈ ts, Made L t :=
  argumentsBy_makes h h.assignment

theorem asyncArguments_makes (h : rules.Built L I) :
    Makes I (asyncArguments rules) fun ts => ∀ t ∈ ts, Made L t :=
  argumentsBy_makes h (.bind h.assignment fun _ harg => .skip fun _ => .pure harg)

theorem arrayElement_makes (h : rules.Built L I) : Makes I (arrayElement rules) (Made L) := by
  unfold arrayElement
  refine .skip fun hole => .ite (fun _ => .pure made_null) fun _ => .skip fun spread => ?_
  refine .ite (fun _ => ?_) fun _ => ?_
  · refine .bind (spreadElement_makes h) fun element helement => .skip fun closes => ?_
    exact .ite (fun _ => .skip fun _ => .skip fun _ => .pure helement) fun _ => .pure helement
  · refine .bind h.assignment.inherited fun element helement => .skip fun closes => ?_
    exact .when fun _ => .pure helement

theorem arrayLiteral_makes (h : rules.Built L I) : Makes I (arrayLiteral rules) (Made L) := by
  unfold arrayLiteral
  refine .skip fun _ => .bind (collect_makes (P := Made L) ?_ _) fun elements helements => ?_
  · refine .skip fun closes => .ite (fun _ => .pure (ofSome_none _)) fun _ => ?_
    exact .bind (arrayElement_makes h) fun element helement => .pure (ofSome_some helement)
  · refine .skip fun _ => .pure ?_
    simpa [Lexicon.Fits] using helements

end Sequence

section Spoken

variable [Steady I] [Spoken L I]

/-! ## Templates -/

theorem templateElement_made {raw : String} (h : L.piece raw) (tail : Bool) :
    Made L (templateElement raw tail) := by
  simpa [templateElement, Lexicon.Fits] using h

/-- Are these the substitutions of a template and the pieces after them, one for each? -/
structure MadeTemplate (L : Lexicon) (parts : List Tree × List Tree) : Prop where
  exprs : ∀ t ∈ parts.1, Made L t
  pieces : ∀ t ∈ parts.2, Made L t
  length_eq : parts.1.length = parts.2.length

theorem templateRest_makes (h : rules.Built L I) (budget : Nat) :
    Makes I (templateRest rules budget) (MadeTemplate L) := by
  induction budget with
  | zero => exact complain_makes _
  | succ budget ih =>
      unfold templateRest
      refine .bind (expression_makes h) fun expr hexpr => .bind lookahead_makes fun token htoken => ?_
      split
      · rename_i raw head tail hlexeme
        have hpiece : Made L (templateElement raw tail) := by
          refine templateElement_made ?_ tail
          simpa [Lexicon.Covers, hlexeme] using htoken
        refine .skip fun _ => .ite (fun _ => .pure ?_) fun _ => .bind ih fun rest hrest => .pure ?_
        · exact ⟨List.forall_mem_singleton.2 hexpr, List.forall_mem_singleton.2 hpiece, rfl⟩
        · refine ⟨List.forall_mem_cons.2 ⟨hexpr, hrest.exprs⟩,
            List.forall_mem_cons.2 ⟨hpiece, hrest.pieces⟩, ?_⟩
          simp only [List.length_cons, hrest.length_eq]
      · exact complain_makes _

theorem template_makes (h : rules.Built L I) : Makes I (template rules) (Made L) := by
  unfold template
  refine .bind lookahead_makes fun token htoken => ?_
  split
  · rename_i raw tail hlexeme
    have hhead : Made L (templateElement raw tail) := by
      refine templateElement_made ?_ tail
      simpa [Lexicon.Covers, hlexeme] using htoken
    refine .skip fun _ => .branch (MadeTemplate L) (fun _ => ?_) (fun _ => templateRest_makes h _) ?_
    · exact .pure ⟨nofun, nofun, rfl⟩
    · intro rest hrest
      refine .pure ?_
      have hlength := hrest.length_eq
      have hpieces := List.forall_mem_cons.2 ⟨hhead, hrest.pieces⟩
      simp only [made_node, madeFields_cons, made_list, madeFields_nil, and_true]
      refine ⟨⟨_, _, rfl, rfl, ?_⟩, hpieces, hrest.exprs⟩
      rw [List.length_cons]
      omega
  · exact complain_makes _

/-! ## Keys -/

instance (token : Token) : Stays I (checkOctal token) := by
  unfold checkOctal
  infer_instance

theorem propertyKey_makes (h : rules.Built L I) :
    Makes I (propertyKey rules) fun key => Made L key.node := by
  unfold propertyKey
  refine .bind nextToken_makes fun token htoken => ?_
  unfold Lexicon.Covers at htoken
  split
  · exact .skip fun _ => .pure (literal_made (by simpa [*] using htoken))
  · exact .skip fun _ => .pure (literal_made (by simpa [*] using htoken))
  · exact .pure (identifier_named (by simpa [*] using htoken)).1
  · exact .pure (identifier_named (by simpa [*] using htoken)).1
  · rename_i text hlexeme
    rw [hlexeme] at htoken
    exact .pure (identifier_named htoken.1).1
  · exact .pure (identifier_named (L.words "null" (by decide))).1
  · exact .bind h.assignment.isolated fun key hkey => .skip fun _ => .pure hkey
  · exact unexpected_makes token

/-- The spelling of a word is one of the names. -/
theorem name_of_isWord {token : Token} (h : L.Covers token) (hword : isWord token = true) :
    L.name token.spelling := by
  unfold Lexicon.Covers at h
  unfold isWord at hword
  unfold Token.spelling
  split at hword
  · simpa [*] using h
  · simpa [*] using h
  · simp_all
  · simpa [*] using L.words "null" (by decide)
  · cases hword

theorem anyWord_makes : Makes I anyWord (Named L) := by
  unfold anyWord
  refine .bind nextToken_makes fun token htoken => .ite (fun hword => .pure ?_) fun _ => ?_
  · exact identifier_named (name_of_isWord htoken hword)
  · exact unexpected_makes token

/-! ## Patterns -/

theorem variableName_makes (kind : Option String) : Makes I (variableName kind) (Named L) := by
  unfold variableName
  refine .bind nextToken_makes fun token htoken => .skip fun c => ?_
  have hword (hname : L.name token.spelling) :
      Makes I (pure (identifier token.spelling)) (Named L) := .pure (identifier_named hname)
  have hspelling (text : String) (hlexeme : token.lexeme = .name text ∨ token.lexeme = .keyword text) :
      L.name token.spelling := by
    unfold Lexicon.Covers at htoken
    rcases hlexeme with hlexeme | hlexeme <;> rw [hlexeme] at htoken <;>
      simpa [Token.spelling, hlexeme] using htoken
  dsimp only
  split
  · exact .when fun _ => .when fun _ => hword (hspelling _ (.inr ‹_›))
  · exact .when fun _ => hword (hspelling _ (.inl ‹_›))
  · exact hword (hspelling _ (.inl ‹_›))
  · exact .when fun _ => .when fun _ => hword (hspelling _ (.inr ‹_›))
  · -- any other token that is taken for a name spells `let`
    refine .ite (fun _ => ?_) fun hlet => hword ?_
    · exact .bind (unexpected_makes token) fun _ h => h
    · simp only [Bool.or_eq_true, bne_iff_ne, not_or, not_not] at hlet
      rw [hlet.1.2]
      exact L.words "let" (by decide)

theorem default_made {left right : Tree} (hleft : Made L left) (hright : Made L right) :
    Made L (.node "AssignmentPattern" [("left", left), ("right", right)]) := by
  simpa [Lexicon.Fits] using ⟨hleft, hright⟩

theorem rest_made {pattern : Tree} (h : Made L pattern) :
    Made L (.node "RestElement" [("argument", pattern)]) := by
  simpa [Lexicon.Fits] using h

theorem patternWithDefault_makes (h : rules.Built L I) (kind : Option String) :
    Makes I (patternWithDefault rules kind) fun r => Made L r.1 := by
  unfold patternWithDefault
  refine .bind (h.pattern kind) fun r hpattern => .skip fun _ => .ite (fun _ => ?_) fun _ => ?_
  · refine .skip fun _ => .skip fun _ => .bind h.assignment.isolated fun right hright => ?_
    exact .skip fun _ => .pure (default_made hpattern hright)
  · exact .pure hpattern

theorem patternElements_makes (h : rules.Built L I) (kind : Option String) (budget : Nat) :
    Makes I (patternElements rules kind budget) fun r => ∀ t ∈ r.1, Made L t := by
  induction budget with
  | zero => exact complain_makes _
  | succ budget ih =>
      unfold patternElements
      refine .skip fun _ => .ite (fun _ => .pure nofun) fun _ => .skip fun _ => ?_
      refine .ite (fun _ => ?_) fun _ => .skip fun _ => .ite (fun _ => ?_) fun _ => ?_
      · refine .bind ih fun rest hrest => .pure ?_
        exact List.forall_mem_cons.2 ⟨made_null, hrest⟩
      · refine .bind (h.pattern kind) fun r hpattern => .pure ?_
        exact List.forall_mem_singleton.2 (rest_made hpattern)
      · refine .bind (patternWithDefault_makes h kind) fun r helement => .skip fun _ => ?_
        refine .when fun _ => .bind ih fun rest hrest => .pure ?_
        exact List.forall_mem_cons.2 ⟨helement, hrest⟩

theorem arrayPattern_makes (h : rules.Built L I) (kind : Option String) :
    Makes I (arrayPattern rules kind) fun r => Made L r.1 := by
  unfold arrayPattern
  refine .skip fun _ => .bind (patternElements_makes h kind _) fun r helements => ?_
  refine .skip fun _ => .pure ?_
  simpa [Lexicon.Fits] using helements

theorem patternProperty_made {key value : Tree} (hkey : Made L key) (hvalue : Made L value)
    (computed shorthand : Bool) : Made L (patternProperty key value computed shorthand) := by
  simpa [patternProperty, Lexicon.Fits, List.lookup_cons] using ⟨hkey, hvalue⟩

theorem propertyPattern_makes (h : rules.Built L I) (kind : Option String) :
    Makes I (propertyPattern rules kind) fun r => Made L r.1 := by
  unfold propertyPattern
  refine .bind lookahead_makes fun token htoken => ?_
  split
  · rename_i text hlexeme
    have hname : Made L (identifier text) := by
      refine (identifier_named ?_).1
      simpa [Lexicon.Covers, hlexeme] using htoken
    refine .bind (variableName_makes none) fun key hkey => ?_
    refine .skip fun _ => .ite (fun _ => ?_) fun _ => .skip fun _ => .ite (fun _ => ?_) fun _ => ?_
    · refine .bind h.assignment fun right hright => .pure ?_
      exact patternProperty_made hkey.1 (default_made hname hright) _ _
    · refine .bind (patternWithDefault_makes h kind) fun r hvalue => .pure ?_
      exact patternProperty_made hkey.1 hvalue _ _
    · exact .pure (patternProperty_made hkey.1 hname _ _)
  · refine .skip fun computed => .bind (propertyKey_makes h) fun key hkey => .skip fun _ => ?_
    refine .bind (patternWithDefault_makes h kind) fun r hvalue => .pure ?_
    exact patternProperty_made hkey hvalue _ _

theorem restProperty_makes (h : rules.Built L I) :
    Makes I (restProperty rules) fun r => Made L r.1 := by
  unfold restProperty
  refine .skip fun _ => .bind (h.pattern none) fun r hpattern => .skip fun _ => .when fun _ => ?_
  exact .skip fun _ => .when fun _ => .pure (rest_made hpattern)

theorem objectPattern_makes (h : rules.Built L I) (kind : Option String) :
    Makes I (objectPattern rules kind) fun r => Made L r.1 := by
  unfold objectPattern
  refine .skip fun _ => .bind (collect_makes (P := fun r => Made L r.1) ?_ _) ?_
  · refine .skip fun _ => .ite (fun _ => .pure (ofSome_none _)) fun _ => .skip fun _ => ?_
    refine .branch (fun r => Made L r.1) (fun _ => restProperty_makes h)
      (fun _ => propertyPattern_makes h kind) fun r hproperty => ?_
    exact .skip fun _ => .when fun _ => .pure (ofSome_some hproperty)
  · intro properties hproperties
    refine .skip fun _ => .pure ?_
    simp only [made_node, madeFields_cons, made_list, madeFields_nil, and_true]
    refine ⟨trivial, fun t ht => ?_⟩
    obtain ⟨r, hr, rfl⟩ := List.mem_map.1 ht
    exact hproperties r hr

theorem pattern_makes (h : rules.Built L I) (kind : Option String) :
    Makes I (pattern rules kind) fun r => Made L r.1 := by
  unfold pattern
  refine .skip fun _ => .ite (fun _ => arrayPattern_makes h kind) fun _ => .skip fun _ => ?_
  refine .ite (fun _ => objectPattern_makes h kind) fun _ => .skip fun token => .when fun _ => ?_
  exact .bind (variableName_makes kind) fun name hname => .pure hname.1

/-! ## Parameters -/

/-- Are the parameters read so far made of such texts? -/
def Parameters.Made (L : Lexicon) (ps : Parameters) : Prop :=
  ∀ t ∈ ps.params, Grammar.Made L t

theorem Parameters.Made.snoc {ps : Parameters} (h : ps.Made L) {params : List Tree}
    (hparams : params = ps.params) {t : Tree} (ht : Grammar.Made L t) :
    ∀ t' ∈ params ++ [t], Grammar.Made L t' := by
  subst hparams
  exact List.forall_mem_append.2 ⟨h, List.forall_mem_singleton.2 ht⟩

theorem restParameter_makes (h : rules.Built L I) :
    Makes I (restParameter rules) fun r => Made L r.1 := by
  unfold restParameter
  refine .skip fun _ => .bind (h.pattern none) fun r hpattern => .skip fun _ => .when fun _ => ?_
  exact .skip fun _ => .when fun _ => .pure (rest_made hpattern)

theorem formalParameter_makes (h : rules.Built L I) {ps : Parameters} (hps : ps.Made L) :
    Makes I (formalParameter rules ps) (Parameters.Made L) := by
  unfold formalParameter
  refine .skip fun _ => .branch (fun r => Made L r.1) (fun _ => restParameter_makes h)
    (fun _ => patternWithDefault_makes h none) fun r hparam => .skip fun c => .pure ?_
  exact hps.snoc (Parameters.foldl_admit_params c.strict some Token.spelling r.2 ps) hparam

theorem formalParametersFrom_makes (h : rules.Built L I) (budget : Nat) {ps : Parameters}
    (hps : ps.Made L) : Makes I (formalParametersFrom rules budget ps) (Parameters.Made L) := by
  induction budget generalizing ps with
  | zero => exact complain_makes _
  | succ budget ih =>
      unfold formalParametersFrom
      refine .skip fun _ => .skip fun _ => .ite (fun _ => .pure hps) fun _ => ?_
      refine .bind (formalParameter_makes h hps) fun ps hps => .skip fun _ => ?_
      exact .ite (fun _ => .pure hps) fun _ => .skip fun _ => ih hps

theorem formalParameters_makes (h : rules.Built L I) {ps : Parameters} (hps : ps.Made L) :
    Makes I (formalParameters rules ps) (Parameters.Made L) := by
  unfold formalParameters
  refine .skip fun _ => .bind (formalParametersFrom_makes h _ hps) fun ps hps => ?_
  exact .skip fun _ => .pure hps

instance (ps : Parameters) : Stays I (checkStrictParameters ps) := by
  unfold checkStrictParameters
  refine ⟨.skip fun c => .ite (fun _ => ?_) fun _ => .pure trivial⟩
  extract_lets objection rest
  have hrest : ∀ u, Makes I (rest u) fun _ => True := by
    intro _
    unfold rest
    split
    · exact Stays.makes
    · exact .pure trivial
  split
  · exact .skip hrest
  · exact hrest ()

/-! ## Bodies -/

theorem expressionStatement_made {expr : Tree} (h : Made L expr) :
    Made L (.node "ExpressionStatement" [("expression", expr)]) := by
  simpa [Lexicon.Fits] using h

theorem directive_makes (h : rules.Built L I) :
    Makes I (directive rules) fun r => Made L r.1 := by
  unfold directive
  refine .skip fun token => .bind (expression_makes h) fun expr hexpr => .skip fun _ => ?_
  refine .ite (fun _ => .pure ?_) fun _ => .pure (expressionStatement_made hexpr)
  simpa [Lexicon.Fits] using hexpr

theorem directivesFrom_makes (h : rules.Built L I) (budget : Nat) (octal : Option Token) :
    Makes I (directivesFrom rules budget octal) fun ts => ∀ t ∈ ts, Made L t := by
  induction budget generalizing octal with
  | zero => exact complain_makes _
  | succ budget ih =>
      unfold directivesFrom
      refine .skip fun token => ?_
      split
      · refine .bind (directive_makes h) fun r hstatement => ?_
        obtain ⟨statement, text⟩ := r
        have hcons : ∀ octal, Makes I (do return statement :: (← directivesFrom rules budget octal))
            fun ts => ∀ t ∈ ts, Made L t := fun octal =>
          .bind (ih octal) fun rest hrest => .pure (List.forall_mem_cons.2 ⟨hstatement, hrest⟩)
        dsimp only
        split
        · exact .pure (List.forall_mem_singleton.2 hstatement)
        · refine .skip fun _ => ?_
          split
          · exact .skip fun _ => .skip fun _ => .when fun _ => hcons _
          · exact .skip fun _ => .when fun _ => hcons _
        · exact hcons _
      · exact .pure nofun

theorem directives_makes (h : rules.Built L I) :
    Makes I (directives rules) fun ts => ∀ t ∈ ts, Made L t :=
  directivesFrom_makes h _ none

theorem itemsToBrace_makes (h : rules.Built L I) :
    Makes I (itemsToBrace rules) fun ts => ∀ t ∈ ts, Made L t := by
  unfold itemsToBrace
  refine collect_makes (.skip fun _ => .skip fun _ => .ite (fun _ => ?_) fun _ => ?_) _
  · exact .pure (ofSome_none _)
  · exact .bind h.item fun t ht => .pure (ofSome_some ht)

theorem block_made {body : List Tree} (h : ∀ t ∈ body, Made L t) : Made L (block body) := by
  simpa [block, Lexicon.Fits] using h

theorem functionBody_makes (h : rules.Built L I) : Makes I (functionBody rules) (Made L) := by
  unfold functionBody
  refine .skip fun _ => .bind (directives_makes h) fun head hhead => .skip fun before => ?_
  refine .skip fun _ => .bind (itemsToBrace_makes h) fun body hbody => ?_
  exact .skip fun _ => .skip fun _ => .pure (block_made (List.forall_mem_append.2 ⟨hhead, hbody⟩))

/-! ## Functions -/

theorem optional_made {id : Option Tree} (h : OfSome (Made L) id) : Made L (optional id) := by
  cases id with
  | none => exact made_null
  | some id => exact h id rfl

theorem functionNode_made {kind : String} {id : Option Tree} {params : List Tree} {body : Tree}
    (hid : OfSome (Made L) id) (hparams : ∀ t ∈ params, Made L t) (hbody : Made L body)
    (generator isAsync : Bool) (hkind : kind = "FunctionDeclaration" ∨ kind = "FunctionExpression") :
    Made L (functionNode kind id params body generator isAsync) := by
  have hid := optional_made hid
  rcases hkind with rfl | rfl <;>
    simpa [functionNode, Lexicon.Fits] using ⟨hid, hparams, hbody⟩

theorem parametersAfterName_makes (token : Token) :
    Makes I (parametersAfterName token) (Parameters.Made L) := by
  unfold parametersAfterName
  refine .skip fun c => .ite (fun _ => .when fun _ => .pure nofun) fun _ => ?_
  exact .ite (fun _ => .pure nofun) fun _ => .ite (fun _ => .pure nofun) fun _ => .pure nofun

theorem functionRest_makes (h : rules.Built L I) {ps : Parameters} (hps : ps.Made L) :
    Makes I (functionRest rules ps) fun r => (∀ t ∈ r.1, Made L t) ∧ Made L r.2 := by
  unfold functionRest
  refine .bind (formalParameters_makes h hps) fun ps hps => .skip fun before => ?_
  refine .skip fun _ => .bind (functionBody_makes h) fun body hbody => ?_
  exact .skip fun _ => .skip fun _ => .pure ⟨hps, hbody⟩

instance : Stays I seesAsyncFunction := by
  unfold seesAsyncFunction
  infer_instance

instance : Stays I functionHead := by
  unfold functionHead
  infer_instance

/-- Are the name of a function, if it has one, and what is known of its parameters made of
such texts? -/
def MadeFunctionName (L : Lexicon) (r : Option Tree × Parameters) : Prop :=
  OfSome (Made L) r.1 ∧ r.2.Made L

theorem functionDeclaration_makes (h : rules.Built L I) (nameOptional : Bool) :
    Makes I (functionDeclaration rules nameOptional) (Made L) := by
  unfold functionDeclaration
  refine .skip fun head => .skip fun _ => ?_
  extract_lets rest
  have hrest : ∀ r, MadeFunctionName L r → Makes I (rest r) (Made L) := by
    intro r hr
    refine .skip fun before => .skip fun _ => .bind (functionRest_makes h hr.2) fun parts hparts => ?_
    refine .skip fun _ => .pure ?_
    exact functionNode_made hr.1 hparts.1 hparts.2 _ _ (.inl rfl)
  refine .ite (fun _ => .bind (.pure ⟨ofSome_none _, nofun⟩) hrest) fun _ => .skip fun token => ?_
  refine .bind (variableName_makes none) fun id hid => ?_
  refine .bind (parametersAfterName_makes token) fun ps hps => ?_
  exact .bind (.pure ⟨ofSome_some hid.1, hps⟩) hrest

theorem functionExpression_makes (h : rules.Built L I) :
    Makes I (functionExpression rules) (Made L) := by
  unfold functionExpression
  refine .skip fun head => .skip fun before => .skip fun _ => .skip fun _ => ?_
  extract_lets rest
  have hrest : ∀ r, MadeFunctionName L r → Makes I (rest r) (Made L) := by
    intro r hr
    refine .bind (functionRest_makes h hr.2) fun parts hparts => .skip fun _ => .pure ?_
    exact functionNode_made hr.1 hparts.1 hparts.2 _ _ (.inr rfl)
  refine .ite (fun _ => .bind (.pure ⟨ofSome_none _, nofun⟩) hrest) fun _ => .skip fun token => ?_
  refine .skip fun _ => .branch (Named L) (fun _ => anyWord_makes)
    (fun _ => variableName_makes none) fun id hid => ?_
  refine .bind (parametersAfterName_makes token) fun ps hps => ?_
  exact .bind (.pure ⟨ofSome_some hid.1, hps⟩) hrest

/-! ## Methods -/

theorem methodBody_makes (h : rules.Built L I) (ps : Parameters) :
    Makes I (methodBody rules ps) (Made L) := by
  unfold methodBody
  refine .skip fun _ => .skip fun before => .skip fun _ => ?_
  refine .bind (functionBody_makes h).isolated fun body hbody => ?_
  exact .skip fun _ => .skip fun _ => .pure hbody

/-- Is it a function made of such texts? -/
def MadeFunction (L : Lexicon) (t : Tree) : Prop :=
  Made L t ∧ t.isKind "FunctionExpression" = true

theorem methodNode_made {params : List Tree} {body : Tree} (hparams : ∀ t ∈ params, Made L t)
    (hbody : Made L body) (generator isAsync : Bool) :
    MadeFunction L (methodNode params body generator isAsync) :=
  ⟨functionNode_made (ofSome_none _) hparams hbody generator isAsync (.inr rfl), rfl⟩

theorem plainMethod_makes (h : rules.Built L I) :
    Makes I (plainMethod rules) (MadeFunction L) := by
  unfold plainMethod
  refine .skip fun c => .skip fun _ => .bind (formalParameters_makes h nofun) fun ps hps => ?_
  refine .bind (methodBody_makes h ps) fun body hbody => .skip fun _ => ?_
  exact .pure (methodNode_made hps hbody _ _)

theorem asyncMethod_makes (h : rules.Built L I) :
    Makes I (asyncMethod rules) (MadeFunction L) := by
  unfold asyncMethod
  refine .skip fun c => .skip fun _ => .bind (formalParameters_makes h nofun) fun ps hps => ?_
  refine .bind (methodBody_makes h ps) fun body hbody => .skip fun _ => ?_
  exact .pure (methodNode_made hps hbody _ _)

theorem generatorMethod_makes (h : rules.Built L I) :
    Makes I (generatorMethod rules) (MadeFunction L) := by
  unfold generatorMethod
  refine .skip fun c => .skip fun _ => .bind (formalParameters_makes h nofun) fun ps hps => ?_
  refine .skip fun _ => .bind (methodBody_makes h ps) fun body hbody => .skip fun _ => ?_
  exact .pure (methodNode_made hps hbody _ _)

theorem getterMethod_makes (h : rules.Built L I) :
    Makes I (getterMethod rules) (MadeFunction L) := by
  unfold getterMethod
  refine .skip fun _ => .bind (formalParameters_makes h nofun) fun ps hps => .when fun _ => ?_
  refine .bind (methodBody_makes h ps) fun body hbody => .skip fun _ => ?_
  exact .pure (methodNode_made hps hbody _ _)

theorem setterMethod_makes (h : rules.Built L I) :
    Makes I (setterMethod rules) (MadeFunction L) := by
  unfold setterMethod
  refine .skip fun c => .skip fun _ => .bind (formalParameters_makes h nofun) fun ps hps => ?_
  have hrest : Makes I (do
      let body ← methodBody rules ps
      changeContext fun c' => { c' with allowYield := c.allowYield }
      return methodNode ps.params body false false) (MadeFunction L) :=
    .bind (methodBody_makes h ps) fun body hbody => .skip fun _ =>
      .pure (methodNode_made hps hbody _ _)
  dsimp only
  split
  · exact .when fun _ => hrest
  · exact .skip fun _ => hrest

end Spoken

end NameRecovery.Grammar
